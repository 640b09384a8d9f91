import ChannelDirectory.Proofs.Membership.EditWrites
import ChannelDirectory.Proofs.Membership.Staging

/-!
# The writes of edits, exactly

Edits can be written if every edited channel that is not stored only loses references
(`ChannelEdits.Applicable`). What is written is then determined by the channels that are stored :
those that the edits change are replaced, in the order of their names
(`ChannelEdits.returns_operations_iff`).
-/

namespace ChannelDirectory

open Collection Program

namespace ChannelEdits

variable {channels : Collection Channel} {P : Channel → Prop} {current stored : KeyMap Channel}
  {edits : ChannelEdits} {ops : List Operation}

/-- The stored channels that the edits change, as they are after the edits. -/
def changed (edits : ChannelEdits) (stored : KeyMap Channel) : KeyMap Channel :=
  stored.filterMap fun _ c => if edits.applyTo c = c then none else some (edits.applyTo c)

/-- Every edited channel that is not stored only loses references. -/
def Applicable (edits : ChannelEdits) (stored : KeyMap Channel) : Prop :=
  ∀ name edit, edits.get? name = some edit → stored.get? name = none → edit.onlyRemoves = true

/-- The channels that edits change are the stored ones that do not come out the same. -/
theorem get?_changed_eq_some_iff {name : String} {c' : Channel} :
    (edits.changed stored).get? name = some c' ↔
      ∃ c, stored.get? name = some c ∧ edits.applyTo c ≠ c ∧ c' = edits.applyTo c := by
  rw [changed, KeyMap.get?_filterMap, Option.bind_eq_some_iff]
  refine exists_congr fun c => and_congr_right fun _ => ?_
  split
  · simp [*]
  · rename_i hdiff
    rw [Option.some.injEq]
    exact ⟨fun h => ⟨hdiff, h.symm⟩, fun h => h.2.symm⟩

/-- A channel keeps its name when it is edited. -/
theorem name_of_get?_changed (named : ∀ name c, stored.get? name = some c → c.name = name)
    {name : String} {c' : Channel} (h : (edits.changed stored).get? name = some c') :
    c'.name = name := by
  obtain ⟨c, hc, -, rfl⟩ := get?_changed_eq_some_iff.mp h
  rw [name_applyTo, named name c hc]

/-- Edits of stored channels can be applied. -/
theorem applicable_of_stored
    (h : ∀ name ∈ edits.keys, ∃ c, stored.get? name = some c) : edits.Applicable stored := by
  intro name edit hedit hnone
  obtain ⟨c, hc⟩ := h name (KeyMap.mem_keys_iff.mpr ⟨edit, hedit⟩)
  rw [hnone] at hc
  cases hc

section Keys

open Attribute

variable {α ρ : Type} [Attribute α ρ] [Reference ρ] {name : String}

/-- Staging a delta edits the channels that it removes or writes a reference for. -/
theorem mem_keys_of_mem_keys_stage {d : Delta ρ} {channel : String}
    (h : channel ∈ (stage α edits name d).keys) :
    channel ∈ edits.keys ∨ channel ∈ d.removed.keys ∨ ∃ e ∈ d.upserts, e.1 = channel := by
  have hremoved : ∀ (names : List String) {edits : ChannelEdits},
      channel ∈ (names.foldl (fun edits channel => removeEdit α edits channel name) edits).keys →
        channel ∈ edits.keys ∨ channel ∈ names := by
    intro names
    induction names with
    | nil => exact fun h => Or.inl h
    | cons first names ih =>
      intro edits h
      rcases ih h with h | h
      · rcases KeyMap.mem_keys_insert.mp h with rfl | h
        · exact Or.inr List.mem_cons_self
        · exact Or.inl h
      · exact Or.inr (List.mem_cons_of_mem _ h)
  have hput : ∀ (upserts : List (String × ρ)) {edits : ChannelEdits},
      channel ∈ (upserts.foldl (fun edits e => putEdit α edits e.1 e.2) edits).keys →
        channel ∈ edits.keys ∨ ∃ e ∈ upserts, e.1 = channel := by
    intro upserts
    induction upserts with
    | nil => exact fun h => Or.inl h
    | cons first upserts ih =>
      intro edits h
      rcases ih h with h | ⟨e, he, heq⟩
      · rcases KeyMap.mem_keys_insert.mp h with rfl | h
        · exact Or.inr ⟨first, List.mem_cons_self, rfl⟩
        · exact Or.inl h
      · exact Or.inr ⟨e, List.mem_cons_of_mem _ he, heq⟩
  rcases hput d.upserts h with h | h
  · rcases hremoved d.removed.keys h with h | h
    · exact Or.inl h
    · exact Or.inr (Or.inl h)
  · exact Or.inr (Or.inr h)

/-- Replacing a membership edits current and desired members only. -/
theorem mem_keys_stage_replace [DecidableEq ρ] {members desired : KeyMap ρ} {channel : String}
    (h : channel ∈ (stage α KeyMap.empty name (Delta.replace members desired)).keys) :
    (∃ ref, members.get? channel = some ref) ∨ ∃ ref, desired.get? channel = some ref := by
  rcases mem_keys_of_mem_keys_stage h with h | h | ⟨⟨channel, ref⟩, he, rfl⟩
  · cases h
  · exact Or.inl (Delta.mem_removed_replace.mp h).1
  · refine Or.inr ⟨ref, ?_⟩
    have he := Delta.mem_upserts.mp he
    rw [Delta.replace, Delta.merge, KeyMap.get?_filter, KeyMap.get?_filter,
      Option.filter_eq_some_iff, Option.filter_eq_some_iff] at he
    rcases he with he | he <;> exact he.1

end Keys

/-- What an edit writes for the channel of a name, if it changes it. -/
def rewritten (current : KeyMap Channel) (name : String) (edit : ChannelEdit) : Option Channel :=
  (current.get? name).bind fun c => if edit.apply c = c then none else some (edit.apply c)

/-- The writes can be made exactly if only removals are left for channels that are gone ; they
replace what comes out different. -/
theorem writes_eq_ok_iff {entries : List (String × ChannelEdit)} :
    writes channels current entries = .ok ops ↔
      (∀ e ∈ entries, current.get? e.1 = none → e.2.onlyRemoves = true) ∧
        ops = (entries.filterMap fun e => rewritten current e.1 e.2).map channels.replaceOp := by
  induction entries generalizing ops with
  | nil =>
    rw [writes, Except.ok.injEq]
    exact ⟨fun h => ⟨fun e he => absurd he List.not_mem_nil, h.symm⟩, fun h => h.2.symm⟩
  | cons e entries ih =>
    obtain ⟨name, edit⟩ := e
    rw [List.forall_mem_cons, List.filterMap_cons, writes]
    cases hget : current.get? name with
    | none =>
      by_cases hremoves : edit.onlyRemoves = true
      · simp [hremoves, ih, rewritten, hget]
      · simp [hremoves]
    | some c =>
      have hrewritten : rewritten current name edit =
          if edit.apply c = c then none else some (edit.apply c) := by
        rw [rewritten, hget, Option.bind_some]
      rw [hrewritten]
      simp only [reduceCtorEq, false_imp_iff, true_and]
      cases hrest : writes channels current entries with
      | error e' =>
        have hnone : ∀ more, ¬writes channels current entries = .ok more := by simp [hrest]
        refine iff_of_false (by rintro ⟨⟩) fun h => ?_
        exact hnone _ (ih.mpr ⟨h.1, rfl⟩)
      | ok more =>
        obtain ⟨hremoves, rfl⟩ := ih.mp hrest
        change (if edit.apply c = c then Except.ok _ else Except.ok _) = Except.ok ops ↔ _
        split
        · rw [Except.ok.injEq]
          exact ⟨fun h => ⟨hremoves, h.symm⟩, fun h => h.2.symm⟩
        · rw [Except.ok.injEq, List.map_cons]
          exact ⟨fun h => ⟨hremoves, h.symm⟩, fun h => h.2.symm⟩

/-- The writes of edits replace the channels that change. -/
theorem returns_operations_iff {b : Backend} (wf : channels.HoldsOnly P b.store) :
    (edits.operations channels).Returns b ops ↔
      (edits.keys = [] ∨ b.available = true) ∧ edits.Applicable (channels.contents b.store) ∧
        ops = (edits.changed (channels.contents b.store)).values.map channels.replaceOp := by
  -- What is read is what is stored, as far as it is edited.
  have hread : ∀ name ∈ edits.keys,
      (KeyMap.ofList ((edits.keys.filterMap fun id =>
        (channels.contents b.store).get? id).map fun c => (c.name, c))).get? name =
          (channels.contents b.store).get? name := by
    intro name hname
    refine (wf.get?_ofList_found edits.keys id name).trans ?_
    rw [if_pos hname, Option.map_id, id]
  have hchanged : edits.filterMap (rewritten (channels.contents b.store)) =
      edits.changed (channels.contents b.store) := by
    refine KeyMap.ext_get? fun name => ?_
    rw [KeyMap.get?_filterMap, changed, KeyMap.get?_filterMap]
    cases hget : (channels.contents b.store).get? name with
    | none => cases edits.get? name <;> simp [rewritten, hget]
    | some c =>
      have hname : c.name = name := wf.name_eq hget
      cases hedit : edits.get? name <;> simp [rewritten, hget, applyTo, hname, hedit]
  rw [operations, returns_bind (channels.readOnly_findAll _)]
  simp only [returns_findAll wf, returns_ofExcept, writes_eq_ok_iff, and_assoc, exists_and_left,
    exists_eq_left]
  refine and_congr_right fun _ => and_congr ?_ ?_
  · constructor
    · intro h name edit hedit hnone
      have hname := KeyMap.mem_keys_iff.mpr ⟨edit, hedit⟩
      exact h (name, edit) (KeyMap.get?_eq_some_iff_mem.mp hedit) (by rw [hread name hname, hnone])
    · intro h e he hnone
      have hname : e.1 ∈ edits.keys := List.mem_map_of_mem he
      rw [hread e.1 hname] at hnone
      exact h e.1 e.2 (KeyMap.get?_eq_some_iff_mem.mpr he) hnone
  · have hentries : (edits.entries.filterMap fun e => rewritten (KeyMap.ofList
        ((edits.keys.filterMap fun id => (channels.contents b.store).get? id).map
          fun c => (c.name, c))) e.1 e.2) =
        (edits.filterMap (rewritten (channels.contents b.store))).values := by
      rw [KeyMap.values_filterMap]
      refine List.filterMap_congr fun e he => ?_
      rw [rewritten, hread e.1 (List.mem_map_of_mem he), rewritten]
    rw [hentries, hchanged]

end ChannelEdits

end ChannelDirectory

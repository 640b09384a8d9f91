import ChannelDirectory.Proofs.Membership.Changes

/-!
# Leaving channels out

`KeyMap.without` leaves the keys of a set out of a map. Everything on the way from a membership to
the writes of a batch is done channel by channel, so leaving channels out goes through it : from
the memberships to the delta (`Delta.without_replace` and its likes), from the delta to the edits
(`ChannelEdits.without_stage`), and from the edits and the stored channels to the channels that
change (`ChannelEdits.changed_without`).
-/

namespace ChannelDirectory

namespace KeyMap

variable {α β : Type} {gone : KeySet}

/-- The map without the keys of a set. -/
def without (m : KeyMap α) (gone : KeySet) : KeyMap α :=
  m.filter fun key _ => !gone.contains key

theorem get?_without (m : KeyMap α) (key : String) :
    (m.without gone).get? key = if gone.contains key then none else m.get? key := by
  rw [without, get?_filter]
  cases gone.contains key with
  | true => simp
  | false => cases m.get? key <;> rfl

theorem get?_without_of_not {m : KeyMap α} {key : String} (h : gone.contains key = false) :
    (m.without gone).get? key = m.get? key := by
  rw [get?_without, h, if_neg Bool.false_ne_true]

theorem get?_without_of_contains {m : KeyMap α} {key : String} (h : gone.contains key = true) :
    (m.without gone).get? key = none := by
  rw [get?_without, if_pos h]

theorem get?_without_eq_some_iff {m : KeyMap α} {key : String} {value : α} :
    (m.without gone).get? key = some value ↔
      gone.contains key = false ∧ m.get? key = some value := by
  rw [get?_without]
  cases gone.contains key <;> simp

@[simp]
theorem without_empty : (empty : KeyMap α).without gone = empty := rfl

theorem without_insert (m : KeyMap α) (key : String) (value : α) :
    (m.insert key value).without gone =
      if gone.contains key then m.without gone else (m.without gone).insert key value := by
  refine ext_get? fun key' => ?_
  by_cases hgone : gone.contains key = true
  · rw [if_pos hgone, get?_without, get?_without, get?_insert]
    by_cases hkey : key' = key
    · rw [hkey, if_pos hgone, if_pos hgone]
    · rw [if_neg hkey]
  · rw [if_neg hgone, get?_without, get?_insert, get?_insert, get?_without]
    by_cases hkey : key' = key
    · rw [hkey, if_neg hgone, if_pos rfl, if_pos rfl]
    · rw [if_neg hkey, if_neg hkey]

theorem without_filterMap (m : KeyMap α) (f : String → α → Option β) :
    (m.filterMap f).without gone = (m.without gone).filterMap f := by
  refine ext_get? fun key => ?_
  rw [get?_without, get?_filterMap, get?_filterMap, get?_without]
  split <;> rfl

theorem without_mapValues (m : KeyMap α) (f : String → α → β) :
    (m.mapValues f).without gone = (m.without gone).mapValues f := by
  refine ext_get? fun key => ?_
  rw [get?_without, get?_mapValues, get?_mapValues, get?_without]
  split <;> rfl

theorem without_filter (m : KeyMap α) (keep : String → α → Bool) :
    (m.filter keep).without gone = (m.without gone).filter keep := by
  refine ext_get? fun key => ?_
  rw [get?_without, get?_filter, get?_filter, get?_without]
  split <;> rfl

/-- Of two ways to filter only the keys that are left matter. -/
theorem filter_without_congr {m : KeyMap α} {keep keep' : String → α → Bool}
    (h : ∀ key, gone.contains key = false → keep key = keep' key) :
    (m.without gone).filter keep = (m.without gone).filter keep' := by
  refine ext_get? fun key => ?_
  rw [get?_filter, get?_filter]
  by_cases hgone : gone.contains key = true
  · rw [get?_without_of_contains hgone]
    rfl
  · rw [h key (Bool.not_eq_true _ ▸ hgone)]

theorem keys_without (m : KeyMap α) :
    (m.without gone).keys = m.keys.filter fun key => !gone.contains key := by
  rw [keys, without, filter, keys, List.filter_map]
  rfl

theorem size_without_le (m : KeyMap α) : (m.without gone).size ≤ m.size :=
  List.length_filter_le _ _

/-- Restricting a map is restricting the bindings that it is made of. -/
theorem without_ofList (bindings : List (String × α)) :
    (ofList bindings).without gone =
      ofList (bindings.filter fun e => !gone.contains e.1) := by
  have hfold : ∀ m : KeyMap α, (bindings.foldl (fun m e => m.insert e.1 e.2) m).without gone =
      (bindings.filter fun e => !gone.contains e.1).foldl (fun m e => m.insert e.1 e.2)
        (m.without gone) := by
    induction bindings with
    | nil => exact fun _ => rfl
    | cons e bindings ih =>
      intro m
      rw [List.foldl_cons, ih, without_insert]
      by_cases hgone : gone.contains e.1 = true
      · rw [if_pos hgone, List.filter_cons_of_neg (by simp [hgone])]
      · rw [if_neg hgone, List.filter_cons_of_pos (by simp [hgone]), List.foldl_cons]
  exact hfold empty

end KeyMap

/-! ## Deltas -/

namespace Delta

variable {ρ : Type} {gone : KeySet}

/-- The delta without the channels of a set. -/
def without (d : Delta ρ) (gone : KeySet) : Delta ρ :=
  ⟨d.added.without gone, d.removed.without gone, d.refreshed.without gone⟩

theorem upserts_without (d : Delta ρ) :
    (d.without gone).upserts = d.upserts.filter fun e => !gone.contains e.1 :=
  List.filter_append _ _ |>.symm

theorem without_strip (current : KeyMap ρ) :
    (strip current).without gone = strip (current.without gone) := by
  rw [without, strip, strip, KeyMap.without_mapValues]
  rfl

variable [DecidableEq ρ]

/-- A merge can be restricted before or after. -/
theorem without_merge (current desired : KeyMap ρ) :
    (merge current desired).without gone =
      merge (current.without gone) (desired.without gone) := by
  have hadded : (merge current desired).added.without gone =
      (merge (current.without gone) (desired.without gone)).added := by
    rw [merge, merge, KeyMap.without_filter]
    dsimp only
    refine KeyMap.filter_without_congr fun key hkey => ?_
    rw [KeyMap.contains, KeyMap.contains, KeyMap.get?_without_of_not hkey]
  have hrefreshed : (merge current desired).refreshed.without gone =
      (merge (current.without gone) (desired.without gone)).refreshed := by
    rw [merge, merge, KeyMap.without_filter]
    dsimp only
    refine KeyMap.filter_without_congr fun key hkey => ?_
    rw [KeyMap.get?_without_of_not hkey]
  rw [without, hadded, hrefreshed]
  rfl

/-- A replacement can be restricted before or after. -/
theorem without_replace (current desired : KeyMap ρ) :
    (replace current desired).without gone =
      replace (current.without gone) (desired.without gone) := by
  have hremoved : (replace current desired).removed.without gone =
      (replace (current.without gone) (desired.without gone)).removed := by
    rw [replace, replace, KeyMap.without_mapValues, KeyMap.without_filter]
    refine congrArg (KeyMap.mapValues · _) (KeyMap.filter_without_congr fun key hkey => ?_)
    rw [KeyMap.contains, KeyMap.contains, KeyMap.get?_without_of_not hkey]
  have hmerge : (merge current desired).without gone = _ := without_merge current desired
  rw [without] at hmerge ⊢
  rw [hremoved]
  exact congrArg₂ (fun (d : Delta ρ) removed => { d with removed }) hmerge rfl

omit [DecidableEq ρ] in
theorem mentions_without (d : Delta ρ) {channel : String} (h : gone.contains channel = false) :
    (d.without gone).mentions channel = d.mentions channel := by
  simp only [mentions, without, KeyMap.contains, KeyMap.get?_without_of_not h]

theorem without_refreshOther (refresh : ρ → ρ) (d : Delta ρ) (member : String × ρ) :
    (refreshOther refresh d member).without gone =
      if gone.contains member.1 then d.without gone
      else refreshOther refresh (d.without gone) member := by
  by_cases hgone : gone.contains member.1 = true
  · rw [if_pos hgone, refreshOther]
    split
    · rfl
    · rw [without, without, KeyMap.without_insert, if_pos hgone]
  · rw [if_neg hgone, refreshOther, refreshOther, mentions_without d (Bool.not_eq_true _ ▸ hgone)]
    split
    · rfl
    · rw [without, KeyMap.without_insert, if_neg hgone]
      rfl

/-- Refreshing the others can be restricted before or after. -/
theorem without_refreshOthers (d : Delta ρ) (current : KeyMap ρ) (refresh : ρ → ρ) :
    (d.refreshOthers current refresh).without gone =
      (d.without gone).refreshOthers (current.without gone) refresh := by
  have hfold : ∀ (members : List (String × ρ)) (d : Delta ρ),
      (members.foldl (refreshOther refresh) d).without gone =
        (members.filter fun e => !gone.contains e.1).foldl (refreshOther refresh)
          (d.without gone) := by
    intro members
    induction members with
    | nil => exact fun _ => rfl
    | cons member members ih =>
      intro d
      rw [List.foldl_cons, ih, without_refreshOther]
      by_cases hgone : gone.contains member.1 = true
      · rw [if_pos hgone, List.filter_cons_of_neg (by simp [hgone])]
      · rw [if_neg hgone, List.filter_cons_of_pos (by simp [hgone]), List.foldl_cons]
  exact hfold current.entries d

end Delta

/-! ## Edits -/

namespace ChannelEdits

open Attribute LawfulAttribute Program

variable {α ρ : Type} [Attribute α ρ] {gone : KeySet} {edits : ChannelEdits}
  {stored : KeyMap Channel}

theorem without_modify (edits : ChannelEdits) (channel : String) (f : ChannelEdit → ChannelEdit) :
    (edits.modify channel f).without gone =
      if gone.contains channel then edits.without gone
      else ChannelEdits.modify (edits.without gone) channel f := by
  rw [modify, KeyMap.without_insert, modify]
  split
  · rfl
  · rename_i h
    rw [KeyMap.get?_without_of_not (Bool.not_eq_true _ ▸ h)]

/-- Staging a restricted delta on restricted edits gives the restricted edits. -/
theorem without_stage [Reference ρ] (edits : ChannelEdits) (name : String) (d : Delta ρ) :
    (stage α edits name d).without gone = stage α (edits.without gone) name (d.without gone) := by
  have hremoved : ∀ (channels : List String) (edits : ChannelEdits),
      (channels.foldl (fun edits channel => removeEdit α edits channel name) edits).without gone =
        (channels.filter fun channel => !gone.contains channel).foldl
          (fun edits channel => removeEdit α edits channel name) (edits.without gone) := by
    intro channels
    induction channels with
    | nil => exact fun _ => rfl
    | cons channel channels ih =>
      intro edits
      rw [List.foldl_cons, ih, removeEdit, without_modify]
      by_cases hgone : gone.contains channel = true
      · rw [if_pos hgone, List.filter_cons_of_neg (by simp [hgone])]
      · rw [if_neg hgone, List.filter_cons_of_pos (by simp [hgone]), List.foldl_cons, removeEdit]
  have hput : ∀ (upserts : List (String × ρ)) (edits : ChannelEdits),
      (upserts.foldl (fun edits e => putEdit α edits e.1 e.2) edits).without gone =
        (upserts.filter fun e => !gone.contains e.1).foldl
          (fun edits e => putEdit α edits e.1 e.2) (edits.without gone) := by
    intro upserts
    induction upserts with
    | nil => exact fun _ => rfl
    | cons e upserts ih =>
      intro edits
      rw [List.foldl_cons, ih, putEdit, without_modify]
      by_cases hgone : gone.contains e.1 = true
      · rw [if_pos hgone, List.filter_cons_of_neg (by simp [hgone])]
      · rw [if_neg hgone, List.filter_cons_of_pos (by simp [hgone]), List.foldl_cons, putEdit]
  have hkeys : (d.without gone).removed.keys =
      d.removed.keys.filter fun channel => !gone.contains channel := KeyMap.keys_without d.removed
  have hsteps := hput d.upserts
    (d.removed.keys.foldl (fun edits channel => removeEdit α edits channel name) edits)
  rw [hremoved, ← hkeys, ← Delta.upserts_without] at hsteps
  exact hsteps

/-- Restricted edits do the same to the channels that are left. -/
theorem applyTo_without {c : Channel} (h : gone.contains c.name = false) :
    applyTo (edits.without gone) c = edits.applyTo c := by
  rw [applyTo, KeyMap.get?_without_of_not h, applyTo]

/-- The stored channels that are left, after the edits of them. -/
theorem mapValues_applyTo_without (named : ∀ name c, stored.get? name = some c → c.name = name) :
    ((stored.without gone).mapValues fun _ c => applyTo (edits.without gone) c) =
      (stored.mapValues fun _ c => edits.applyTo c).without gone := by
  refine KeyMap.ext_get? fun name => ?_
  rw [KeyMap.without_mapValues, KeyMap.get?_mapValues, KeyMap.get?_mapValues]
  cases hget : (stored.without gone).get? name with
  | none => rfl
  | some c =>
    obtain ⟨hgone, hstored⟩ := KeyMap.get?_without_eq_some_iff.mp hget
    rw [Option.map_some, Option.map_some, applyTo_without (by rwa [named name c hstored])]

/-- Of the channels that change, those change that are left. -/
theorem changed_without (named : ∀ name c, stored.get? name = some c → c.name = name) :
    changed (edits.without gone) (stored.without gone) = (edits.changed stored).without gone := by
  refine KeyMap.ext_get? fun name => ?_
  rw [changed, changed, KeyMap.without_filterMap, KeyMap.get?_filterMap, KeyMap.get?_filterMap]
  cases hget : (stored.without gone).get? name with
  | none => rfl
  | some c =>
    obtain ⟨hgone, hstored⟩ := KeyMap.get?_without_eq_some_iff.mp hget
    rw [Option.bind_some, Option.bind_some, applyTo_without (by rwa [named name c hstored])]

theorem Applicable.without (h : edits.Applicable stored) :
    Applicable (edits.without gone) (stored.without gone) := by
  intro name edit hedit hnone
  obtain ⟨hgone, hedit⟩ := KeyMap.get?_without_eq_some_iff.mp hedit
  rw [KeyMap.get?_without_of_not hgone] at hnone
  exact h name edit hedit hnone

/-- The writes of edits, without the channels of a set. -/
theorem returns_operations_without {channels : Collection Channel} {P : Channel → Prop}
    {b : Backend} {s' : Store} {ops : List Operation} (wf : channels.HoldsOnly P b.store)
    (wf' : channels.HoldsOnly P s')
    (lost : channels.contents s' = (channels.contents b.store).without gone)
    (h : (edits.operations channels).Returns b ops) :
    (operations (edits.without gone) channels).Returns { b with store := s' }
      (ops.filter fun op => !gone.contains op.id) := by
  obtain ⟨hreach, happlicable, rfl⟩ := (returns_operations_iff wf).mp h
  refine (returns_operations_iff (b := { b with store := s' }) wf').mpr ⟨?_, ?_, ?_⟩
  · refine hreach.imp (fun hnil => ?_) id
    rw [KeyMap.keys_without, hnil, List.filter_nil]
  · change Applicable _ (channels.contents s')
    rw [lost]
    exact happlicable.without
  · change _ = (changed _ (channels.contents s')).values.map channels.replaceOp
    have named : ∀ name c, (channels.contents b.store).get? name = some c → c.name = name :=
      fun _ _ => wf.name_eq
    rw [lost, changed_without named, KeyMap.without, KeyMap.values_filter_key
      (fun _ _ => name_of_get?_changed named) fun name => !gone.contains name, List.filter_map]
    rfl

variable [Reference ρ] [LawfulAttribute α] {names : String → Prop}

theorem About.without (h : About α names edits) : About α names (edits.without gone) where
  applyTo_eq c := by
    by_cases hgone : gone.contains c.name = true
    · rw [applyTo, KeyMap.get?_without_of_contains hgone]
      exact (setRefs_refs c).symm
    · rw [applyTo_without (Bool.not_eq_true _ ▸ hgone)]
      exact h.applyTo_eq c
  named channel := by
    by_cases hgone : gone.contains channel = true
    · rw [partOf, KeyMap.get?_without_of_contains hgone]
      exact (about_empty (α := α) names).named channel
    · rw [partOf, KeyMap.get?_without_of_not (Bool.not_eq_true _ ▸ hgone)]
      exact h.named channel
  mentions channel name hm := by
    by_cases hgone : gone.contains channel = true
    · rw [partOf, KeyMap.get?_without_of_contains hgone] at hm
      exact (about_empty (α := α) names).mentions channel name hm
    · rw [partOf, KeyMap.get?_without_of_not (Bool.not_eq_true _ ▸ hgone)] at hm
      exact h.mentions channel name hm

end ChannelEdits

end ChannelDirectory

import ChannelDirectory.Membership.Edits
import ChannelDirectory.Proofs.Collection.Reads

/-!
# Writing the edits of channels

`ChannelEdits.operations` reads the channels that are edited and replaces those that change.
On a store in shape these writes carry the edits out on every channel
(`contents_after_operations`) : a channel that is not written is one that no edit changes.

The writes are followed edit by edit (`get?_contents_after_writes`). Edits are of different
channels, so no write changes what a later edit has read.
-/

namespace ChannelDirectory

namespace ChannelEdits

open Collection Program

variable {channels : Collection Channel} {P : Channel → Prop} {current : KeyMap Channel}
  {s : Store} {ops : List Operation} {edits : ChannelEdits}

theorem readOnly_operations (edits : ChannelEdits) (channels : Collection Channel) :
    (edits.operations channels).ReadOnly :=
  (channels.readOnly_findAll edits.keys).bind fun _ => readOnly_ofExcept _

theorem applyTo_of_get? {name : String} {edit : ChannelEdit} (h : edits.get? name = some edit)
    {c : Channel} (hc : c.name = name) : edits.applyTo c = edit.apply c := by
  rw [applyTo, hc, h]

/-- What one edit adds to the writes of the edits after it. -/
theorem writes_cons_ok {name : String} {edit : ChannelEdit} {rest : List (String × ChannelEdit)}
    (h : writes channels current ((name, edit) :: rest) = .ok ops) :
    (current.get? name = none ∧ edit.onlyRemoves = true ∧
        writes channels current rest = .ok ops) ∨
      ∃ c more, current.get? name = some c ∧ writes channels current rest = .ok more ∧
        ops = if edit.apply c = c then more else channels.replaceOp (edit.apply c) :: more := by
  rw [writes] at h
  split at h
  · rename_i hnone
    split at h
    · rename_i hremoves
      exact Or.inl ⟨hnone, hremoves, h⟩
    · cases h
  · rename_i c hsome
    cases hrest : writes channels current rest with
    | error e =>
      rw [hrest] at h
      cases h
    | ok more =>
      rw [hrest] at h
      refine Or.inr ⟨c, more, hsome, rfl, ?_⟩
      change (if edit.apply c = c then Except.ok more
        else Except.ok (channels.replaceOp (edit.apply c) :: more)) = Except.ok ops at h
      split at h
      · rename_i hsame
        rw [if_pos hsame, Except.ok.inj h]
      · rename_i hdiff
        rw [if_neg hdiff, Except.ok.inj h]

/-- Every write replaces a channel that was read by the edited one. -/
theorem mem_writes {entries : List (String × ChannelEdit)}
    (h : writes channels current entries = .ok ops) {op : Operation} (hop : op ∈ ops) :
    ∃ e ∈ entries, ∃ c, current.get? e.1 = some c ∧ op = channels.replaceOp (e.2.apply c) := by
  induction entries generalizing ops with
  | nil =>
    cases h
    cases hop
  | cons e rest ih =>
    rcases writes_cons_ok h with ⟨-, -, hrest⟩ | ⟨c, more, hc, hrest, rfl⟩
    · obtain ⟨e', he', found⟩ := ih hrest hop
      exact ⟨e', List.mem_cons_of_mem _ he', found⟩
    · have later : op ∈ more → ∃ e' ∈ e :: rest, ∃ c, current.get? e'.1 = some c ∧
          op = channels.replaceOp (e'.2.apply c) := by
        intro hmore
        obtain ⟨e', he', found⟩ := ih hrest hmore
        exact ⟨e', List.mem_cons_of_mem _ he', found⟩
      split at hop
      · exact later hop
      · rcases List.mem_cons.mp hop with rfl | hmore
        · exact ⟨e, List.mem_cons_self, c, hc, rfl⟩
        · exact later hmore

/-- There are no writes only if a channel is missing that is to gain a reference. -/
theorem notFound_of_writes {entries : List (String × ChannelEdit)} {e : Error}
    (h : writes channels current entries = .error e) : ∃ name, e = .notFound .channel name := by
  induction entries with
  | nil => cases h
  | cons entry rest ih =>
    obtain ⟨name, edit⟩ := entry
    rw [writes] at h
    split at h
    · split at h
      · exact ih h
      · cases h
        exact ⟨name, rfl⟩
    · cases hrest : writes channels current rest with
      | error e' =>
        rw [hrest] at h
        cases h
        exact ih hrest
      | ok more =>
        rw [hrest] at h
        change (if _ then Except.ok _ else Except.ok _) = Except.error e at h
        split at h <;> cases h

/-- An edit of a stored channel is carried out by its write, or by none if it changes nothing. -/
theorem exists_after_edit (wf : channels.HoldsOnly P s) {name : String} {edit : ChannelEdit}
    {c : Channel} (hget : (channels.contents s).get? name = some c) (hname : c.name = name)
    (hP : P (edit.apply c)) :
    ∃ s₁, (∀ more, s.after (if edit.apply c = c then more
        else channels.replaceOp (edit.apply c) :: more) = s₁.after more) ∧
      channels.HoldsOnly P s₁ ∧
      ∀ key, (channels.contents s₁).get? key =
        if key = name then some (edit.apply c) else (channels.contents s).get? key := by
  by_cases hsame : edit.apply c = c
  · refine ⟨s, fun more => by rw [if_pos hsame], wf, fun key => ?_⟩
    split
    · rename_i hkey
      rw [hkey, hget, hsame]
    · rfl
  · have hedit : Entity.name (edit.apply c) = name := hname
    refine ⟨(s.apply (channels.replaceOp (edit.apply c))).2,
      fun more => by rw [if_neg hsame, Store.after_cons], wf.apply (writesOnly_replaceOp hP),
      fun key => ?_⟩
    rw [contents_apply_replaceOp wf (by rw [hedit]; exact hget), hedit, KeyMap.get?_insert]
    rfl

/-- The writes carry out each edit on the channel of its name. -/
theorem get?_contents_after_writes {entries : List (String × ChannelEdit)}
    (ascending : Ascending entries) (h : writes channels current entries = .ok ops)
    (wf : channels.HoldsOnly P s)
    (hcurrent : ∀ e ∈ entries, current.get? e.1 = (channels.contents s).get? e.1)
    (hP : ∀ e ∈ entries, ∀ c : Channel, c.name = e.1 → P c → P (e.2.apply c)) (key : String) :
    (channels.contents (s.after ops)).get? key =
      ((channels.contents s).get? key).map fun c =>
        ((KeyMap.lookup key entries).getD ChannelEdit.empty).apply c := by
  induction entries generalizing ops s with
  | nil =>
    cases h
    rw [Store.after_nil]
    exact Option.map_id'.symm
  | cons e rest ih =>
    obtain ⟨name, edit⟩ := e
    obtain ⟨first, tail⟩ := List.pairwise_cons.mp ascending
    obtain ⟨hPedit, hP⟩ := List.forall_mem_cons.mp hP
    obtain ⟨hname, hcurrent⟩ := List.forall_mem_cons.mp hcurrent
    have rest_none : KeyMap.lookup name rest = none := KeyMap.lookup_eq_none_of_lt first
    rcases writes_cons_ok h with ⟨hnone, -, hrest⟩ | ⟨c, more, hc, hrest, rfl⟩
    · rw [ih tail hrest wf hcurrent hP]
      by_cases hkey : key = name
      · rw [hkey, ← hname, hnone]
        rfl
      · rw [KeyMap.lookup, if_neg hkey]
    · have hget := hname.symm.trans hc
      obtain ⟨hcname, hPc⟩ := wf.of_get?_contents hget
      obtain ⟨s₁, hafter, wf₁, hget₁⟩ := exists_after_edit wf hget hcname (hPedit c hcname hPc)
      have hcurrent₁ : ∀ e ∈ rest, current.get? e.1 = (channels.contents s₁).get? e.1 := by
        intro e he
        have hne : e.1 ≠ name := fun heq => String.lt_irrefl name (heq ▸ first e he)
        rw [hget₁, if_neg hne]
        exact hcurrent e he
      rw [hafter, ih tail hrest wf₁ hcurrent₁ hP, hget₁]
      by_cases hkey : key = name
      · rw [if_pos hkey, hkey, hget, rest_none, KeyMap.lookup, if_pos rfl]
        rfl
      · rw [if_neg hkey, KeyMap.lookup, if_neg hkey]

/-- The edits keep a property of the channels they are for. -/
def Keep (edits : ChannelEdits) (P : Channel → Prop) : Prop :=
  ∀ c, P c → P (edits.applyTo c)

/-- The writes are made from the channels that are stored. -/
theorem returns_operations {b : Backend} (wf : channels.HoldsOnly P b.store)
    (h : (edits.operations channels).Returns b ops) :
    ∃ current, writes channels current edits.entries = .ok ops ∧
      ∀ e ∈ edits.entries, current.get? e.1 = (channels.contents b.store).get? e.1 := by
  obtain ⟨found, hfound, hops⟩ := (returns_bind (channels.readOnly_findAll _)).mp h
  obtain ⟨-, rfl⟩ := (returns_findAll wf).mp hfound
  refine ⟨_, returns_ofExcept.mp hops, fun e he => ?_⟩
  have hkey : e.1 ∈ edits.keys := List.mem_map_of_mem he
  refine (wf.get?_ofList_found edits.keys id e.1).trans ?_
  rw [if_pos hkey, Option.map_id, id]

/-- The writes of edits belong to the channels. -/
theorem writesOnly_operations {b : Backend} (wf : channels.HoldsOnly P b.store)
    (hP : edits.Keep P) (h : (edits.operations channels).Returns b ops) {op : Operation}
    (hop : op ∈ ops) : op.index = channels.index ∧ channels.WritesOnly P op := by
  obtain ⟨current, hwrites, hcurrent⟩ := returns_operations wf h
  obtain ⟨e, he, c, hc, rfl⟩ := mem_writes hwrites hop
  rw [hcurrent e he] at hc
  obtain ⟨hname, hPc⟩ := wf.of_get?_contents hc
  refine ⟨rfl, writesOnly_replaceOp ?_⟩
  have hedit := applyTo_of_get? (KeyMap.get?_eq_some_iff_mem.mpr he) hname
  rw [← hedit]
  exact hP c hPc

/-- The writes carry the edits out on every channel, also if other indices have been
written before. -/
theorem contents_after_operations {b : Backend} (wf : channels.HoldsOnly P b.store)
    (hP : edits.Keep P) (h : (edits.operations channels).Returns b ops)
    (hs : s.documents channels.index = b.store.documents channels.index) :
    channels.contents (s.after ops) =
      (channels.contents b.store).mapValues fun _ c => edits.applyTo c := by
  obtain ⟨current, hwrites, hcurrent⟩ := returns_operations wf h
  have hcontents : channels.contents s = channels.contents b.store := contents_congr hs
  refine KeyMap.ext_get? fun key => ?_
  rw [get?_contents_after_writes edits.ascending hwrites (wf.congr hs) (by rwa [hcontents]),
    hcontents, KeyMap.get?_mapValues]
  · cases hget : (channels.contents b.store).get? key with
    | none => rfl
    | some c =>
      have hname : c.name = key := wf.name_eq hget
      rw [Option.map_some, Option.map_some, applyTo, hname, KeyMap.get?]
      cases KeyMap.lookup key edits.entries <;> rfl
  · intro e he c hname hPc
    have hedit := applyTo_of_get? (KeyMap.get?_eq_some_iff_mem.mpr he) hname
    exact hedit ▸ hP c hPc

end ChannelEdits

end ChannelDirectory

import ChannelDirectory.Proofs.Membership.Staging

/-!
# Staging after other edits

An edit of references is carried out in one go : what it mentions is taken off, and what it puts
follows in the order of the names (`RefEdit.Named.apply_eq`). So a change that is added to an edit
is the same as the change carried out after it, if the names that are put come in order
(`apply_removeRef`, `apply_putRef`).

For edits of channels that only put references of names up to some name, staging a delta of that
name is carrying out the edits, and then the delta on its own (`About.applyTo_stage_eq`). This is
what lets the changes of many records in one batch be read as one write after another, in the
order of the names of the records.
-/

namespace ChannelDirectory

open Attribute LawfulAttribute

/-! ## One channel -/

section References

variable {ρ : Type} [Reference ρ]

/-- Erasing many names keeps the references of the others. -/
theorem foldl_eraseRef_eq (names : List String) (refs : List ρ) :
    names.foldl eraseRef refs = refs.filter fun r => Reference.name r ∉ names := by
  induction names generalizing refs with
  | nil => simp
  | cons name names ih =>
    rw [List.foldl_cons, ih, eraseRef, List.filter_filter]
    refine List.filter_congr fun r _ => ?_
    by_cases h : Reference.name r = name <;> simp [h]

/-- References that are put stand at the end, in place of those of their names. -/
theorem putRefs_eq (refs more : List ρ) :
    putRefs refs more =
      (refs.filter fun r => Reference.name r ∉ more.map Reference.name) ++ dedupRefs more := by
  induction more using List.reverseRecOn with
  | nil => simp [putRefs, dedupRefs]
  | append_singleton more ref ih =>
    have hput : ∀ refs : List ρ, putRefs refs (more ++ [ref]) = putRef (putRefs refs more) ref :=
      fun refs => List.foldl_concat putRef refs ref more
    rw [dedupRefs, hput, hput, ih, ← dedupRefs, putRef, eraseRef_append, List.append_assoc,
      ← putRef, eraseRef, List.filter_filter]
    congr 1
    refine List.filter_congr fun r _ => ?_
    by_cases h : Reference.name r = Reference.name ref <;> simp [h]

/-- Putting references of different names takes these names off and appends them in their order. -/
theorem putRefs_eq_append {more : List ρ} (distinct : DistinctRefs more) (refs : List ρ) :
    putRefs refs more =
      (refs.filter fun r => Reference.name r ∉ more.map Reference.name) ++ more := by
  rw [putRefs_eq, dedupRefs_of_distinct distinct]

end References

namespace KeyMap

variable {β : Type} {key : String}

/-- A binding with the greatest key is inserted at the end. -/
theorem insertEntry_eq_append (value : β) {entries : List (String × β)}
    (ascending : Ascending entries) (hlast : ∀ e ∈ entries, e.1 ≤ key) :
    insertEntry key value entries = (entries.filter fun e => e.1 != key) ++ [(key, value)] := by
  induction entries with
  | nil => rfl
  | cons e rest ih =>
    obtain ⟨first, tail⟩ := List.pairwise_cons.mp ascending
    obtain ⟨hfirst, hrest⟩ := List.forall_mem_cons.mp hlast
    rw [insertEntry, if_neg (String.not_lt.mpr hfirst)]
    split
    · -- The key is bound here, and no key comes after it.
      rename_i heq
      have hnil : rest = [] := List.eq_nil_iff_forall_not_mem.mpr fun e' he' =>
        String.not_lt.mpr (hrest e' he') (heq ▸ first e' he')
      rw [hnil, List.filter_cons_of_neg (by simp [heq])]
      rfl
    · rename_i hne
      rw [ih tail hrest, List.filter_cons_of_pos (by simpa using Ne.symm hne)]
      rfl

/-- The value of a key that comes last stands at the end. -/
theorem values_insert_of_le {m : KeyMap β} (hlast : ∀ key' ∈ m.keys, key' ≤ key) (value : β) :
    (m.insert key value).values = (m.erase key).values ++ [value] := by
  have hentries := insertEntry_eq_append value m.ascending fun e he =>
    hlast e.1 (List.mem_map_of_mem he)
  exact (congrArg (List.map Prod.snd) hentries).trans List.map_append

end KeyMap

namespace RefEdit

variable {ρ : Type} [Reference ρ] {e : RefEdit ρ}

theorem Named.names_values (h : e.Named) : e.put.values.map Reference.name = e.put.keys := by
  rw [KeyMap.values, KeyMap.keys, List.map_map]
  refine List.map_congr_left fun entry hentry => ?_
  exact h entry.1 entry.2 (KeyMap.get?_eq_some_iff_mem.mpr hentry)

/-- What is not mentioned comes first, then what is put, in the order of the names. -/
theorem Named.apply_eq (h : e.Named) (refs : List ρ) :
    e.apply refs = (refs.filter fun r =>
      Reference.name r ∉ e.removed.keys ∧ Reference.name r ∉ e.put.keys) ++ e.put.values := by
  rw [apply, putRefs_eq_append h.distinctRefs_values, foldl_eraseRef_eq, List.filter_filter,
    h.names_values]
  congr 1
  refine List.filter_congr fun r _ => ?_
  simp [and_comm]

theorem Named.eraseRef_values (h : e.Named) (name : String) :
    eraseRef e.put.values name = (e.put.erase name).values := by
  rw [eraseRef, KeyMap.values, KeyMap.values, KeyMap.erase, List.filter_map]
  refine congrArg (List.map Prod.snd) (List.filter_congr fun entry hentry => ?_)
  rw [Function.comp_apply, h entry.1 entry.2 (KeyMap.get?_eq_some_iff_mem.mpr hentry)]

/-- A removal that is added to an edit is carried out after it. -/
theorem Named.apply_removeRef (h : e.Named) (name : String) (refs : List ρ) :
    (e.removeRef name).apply refs = eraseRef (e.apply refs) name := by
  rw [(h.removeRef name).apply_eq, h.apply_eq, eraseRef_append, h.eraseRef_values, eraseRef,
    List.filter_filter]
  congr 1
  refine List.filter_congr fun r _ => ?_
  by_cases hname : Reference.name r = name <;>
    simp [RefEdit.removeRef, KeySet.add, KeyMap.mem_keys_insert, KeyMap.mem_keys_erase, hname]

/-- A reference that is put in an edit is put after it, if its name comes last. -/
theorem Named.apply_putRef (h : e.Named) {ref : ρ}
    (hlast : ∀ name ∈ e.put.keys, name ≤ Reference.name ref) (refs : List ρ) :
    (e.putRef ref).apply refs = ChannelDirectory.putRef (e.apply refs) ref := by
  have hvalues : (e.putRef ref).put.values =
      (e.put.erase (Reference.name ref)).values ++ [ref] := KeyMap.values_insert_of_le hlast ref
  rw [(h.putRef ref).apply_eq, h.apply_eq, ChannelDirectory.putRef, eraseRef_append,
    h.eraseRef_values, hvalues, ← List.append_assoc, eraseRef, List.filter_filter]
  congr 2
  refine List.filter_congr fun r _ => ?_
  by_cases hname : Reference.name r = Reference.name ref <;>
    simp [RefEdit.putRef, KeyMap.mem_keys_insert, KeyMap.mem_keys_erase, hname]

end RefEdit

/-! ## Many channels -/

variable {α ρ : Type} [Attribute α ρ] [Reference ρ] [LawfulAttribute α]

variable (α) in
/-- Takes the reference of a name off the channel of a name. -/
def eraseAt (name : String) (c : Channel) (channel : String) : Channel :=
  if c.name = channel then setRefs α c (eraseRef (refs α c) name) else c

variable (α) in
/-- Puts a reference on the channel of a name. -/
def putAt (c : Channel) (upsert : String × ρ) : Channel :=
  if c.name = upsert.1 then setRefs α c (putRef (refs α c) upsert.2) else c

theorem eraseAt_eraseAt (name : String) (c : Channel) (channel : String) :
    eraseAt α name (eraseAt α name c channel) channel = eraseAt α name c channel := by
  by_cases h : c.name = channel
  · simp only [eraseAt, h, name_setRefs, refs_setRefs, eraseRef_eraseRef, setRefs_setRefs, if_true]
  · simp only [eraseAt, h, if_false]

theorem putAt_putAt (c : Channel) (upsert : String × ρ) :
    putAt α (putAt α c upsert) upsert = putAt α c upsert := by
  by_cases h : c.name = upsert.1
  · simp only [putAt, h, name_setRefs, refs_setRefs, putRef_putRef, setRefs_setRefs, if_true]
  · simp only [putAt, h, if_false]

variable (α) in
/-- The channel after the changes of a delta of a name. -/
def Delta.carryOut (d : Delta ρ) (name : String) (c : Channel) : Channel :=
  d.upserts.foldl (putAt α) (d.removed.keys.foldl (eraseAt α name) c)

namespace ChannelEdits

variable {edits : ChannelEdits} {name : String}

theorem applyTo_modify (edits : ChannelEdits) (channel : String) (f : RefEdit ρ → RefEdit ρ)
    (c : Channel) :
    (edits.modify channel (modifyEdit α f)).applyTo c =
      if c.name = channel then
        setRefs α (edits.applyTo c) ((f (partOf α edits c.name)).apply (refs α c))
      else edits.applyTo c := by
  rw [applyTo_eq_apply, modify, KeyMap.get?_insert, applyTo_eq_apply]
  split
  · rename_i hname
    rw [Option.getD_some, apply_modifyEdit, hname, partOf]
  · rfl

/-- Collecting a removal has the effect of making it. -/
theorem About.applyTo_removeEdit {names : String → Prop} (h : About α names edits)
    (channel name : String) (c : Channel) :
    (Attribute.removeEdit α edits channel name).applyTo c =
      eraseAt α name (edits.applyTo c) channel := by
  rw [Attribute.removeEdit, applyTo_modify, eraseAt, ChannelEdits.name_applyTo]
  split
  · rw [(h.named c.name).apply_removeRef, refs_applyTo]
  · rfl

/-- Collecting a reference to put has the effect of putting it, if its name is not below the
others. -/
theorem About.applyTo_putEdit {ref : ρ} (h : About α (· ≤ Reference.name ref) edits)
    (channel : String) (c : Channel) :
    (Attribute.putEdit α edits channel ref).applyTo c =
      putAt α (edits.applyTo c) (channel, ref) := by
  have hlast : ∀ name ∈ (partOf α edits c.name).put.keys, name ≤ Reference.name ref :=
    fun name hname => h.mentions c.name name (Or.inl (KeyMap.mem_keys_iff.mp hname))
  rw [Attribute.putEdit, applyTo_modify, putAt, ChannelEdits.name_applyTo]
  split
  · rw [(h.named c.name).apply_putRef hlast, refs_applyTo]
  · rfl

/-- After edits of names that come no later, a staged delta is carried out on what they lead to. -/
theorem About.applyTo_stage (h : About α (· ≤ name) edits) {d : Delta ρ} (hd : d.Names name)
    (c : Channel) :
    (Attribute.stage α edits name d).applyTo c = d.carryOut α name (edits.applyTo c) := by
  have hremoved : ∀ (channels : List String) {edits : ChannelEdits}, About α (· ≤ name) edits →
      (channels.foldl (fun edits channel => Attribute.removeEdit α edits channel name)
          edits).applyTo c =
        channels.foldl (eraseAt α name) (edits.applyTo c) := by
    intro channels
    induction channels with
    | nil => exact fun _ => rfl
    | cons channel channels ih =>
      intro edits h
      rw [List.foldl_cons, ih (h.removeEdit channel (String.le_refl name)), h.applyTo_removeEdit,
        List.foldl_cons]
  have hput : ∀ (upserts : List (String × ρ)) {edits : ChannelEdits}, About α (· ≤ name) edits →
      (∀ e ∈ upserts, Reference.name e.2 = name) →
      (upserts.foldl (fun edits e => Attribute.putEdit α edits e.1 e.2) edits).applyTo c =
        upserts.foldl (putAt α) (edits.applyTo c) := by
    intro upserts
    induction upserts with
    | nil => exact fun _ _ => rfl
    | cons e upserts ih =>
      intro edits h hnames
      obtain ⟨hname, hrest⟩ := List.forall_mem_cons.mp hnames
      have habout : About α (· ≤ Reference.name e.2) edits := by rwa [hname]
      rw [List.foldl_cons, ih (h.putEdit e.1 (hname ▸ String.le_refl _)) hrest,
        habout.applyTo_putEdit, List.foldl_cons]
  have hsteps := hput d.upserts (h.foldl_removeEdit (String.le_refl name) d.removed.keys) hd
  rw [hremoved d.removed.keys h] at hsteps
  exact hsteps

/-- Staging after edits of names that come no later is carrying out the edits, and then what is
staged on its own. -/
theorem About.applyTo_stage_eq (h : About α (· ≤ name) edits) {d : Delta ρ} (hd : d.Names name)
    (c : Channel) :
    (Attribute.stage α edits name d).applyTo c =
      (Attribute.stage α KeyMap.empty name d).applyTo (edits.applyTo c) := by
  rw [h.applyTo_stage hd, (about_empty (α := α) (· ≤ name)).applyTo_stage hd]
  rfl

end ChannelEdits

end ChannelDirectory

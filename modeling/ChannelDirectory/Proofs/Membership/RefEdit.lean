import ChannelDirectory.Membership.Edits
import ChannelDirectory.Proofs.KeyMap
import ChannelDirectory.Proofs.Record.References

/-!
# What an edit does to references

An edit of references is read through `findRef?` : a name that is put has the reference that
is put, a name that is removed has none, and every other name keeps what it had
(`RefEdit.findRef?_apply`). This asks that each reference is put under its own name
(`RefEdit.Named`), which holds of every edit that is built by puts and removals.

Of references whose names the edit does not mention, not even the order changes
(`RefEdit.filter_apply`).
-/

namespace ChannelDirectory

namespace RefEdit

variable {ρ : Type} {e : RefEdit ρ}

/-- The edit says something about a name. -/
def Mentions (e : RefEdit ρ) (name : String) : Prop :=
  (∃ ref, e.put.get? name = some ref) ∨ name ∈ e.removed.keys

theorem not_mentions_empty (name : String) : ¬(empty : RefEdit ρ).Mentions name := by
  rintro (⟨ref, h⟩ | h) <;> cases h

/-- Removing a name mentions no other. -/
theorem mentions_removeRef {name name' : String} (h : (e.removeRef name).Mentions name') :
    name' = name ∨ e.Mentions name' := by
  by_cases hname : name' = name
  · exact Or.inl hname
  · rcases h with ⟨other, hput⟩ | hremoved
    · rw [RefEdit.removeRef, KeyMap.get?_erase, if_neg hname] at hput
      exact Or.inr (Or.inl ⟨other, hput⟩)
    · exact KeyMap.mem_keys_insert.mp hremoved |>.imp id Or.inr

variable [Reference ρ]

/-- Every reference is put under its own name. -/
def Named (e : RefEdit ρ) : Prop :=
  ∀ name ref, e.put.get? name = some ref → Reference.name ref = name

theorem named_empty : (empty : RefEdit ρ).Named := by
  rintro name ref h
  cases h

theorem Named.putRef (h : e.Named) (ref : ρ) : (e.putRef ref).Named := by
  intro name other hget
  rw [RefEdit.putRef, KeyMap.get?_insert] at hget
  split at hget
  · rename_i heq
    rw [← Option.some.inj hget, heq]
  · exact h name other hget

theorem Named.removeRef (h : e.Named) (name : String) : (e.removeRef name).Named := by
  intro name' ref hget
  rw [RefEdit.removeRef, KeyMap.get?_erase] at hget
  split at hget
  · cases hget
  · exact h name' ref hget

/-- Putting a reference mentions no other name. -/
theorem mentions_putRef {ref : ρ} {name : String} (h : (e.putRef ref).Mentions name) :
    name = Reference.name ref ∨ e.Mentions name := by
  by_cases hname : name = Reference.name ref
  · exact Or.inl hname
  · rcases h with ⟨other, hput⟩ | hremoved
    · rw [RefEdit.putRef, KeyMap.get?_insert, if_neg hname] at hput
      exact Or.inr (Or.inl ⟨other, hput⟩)
    · exact Or.inr (Or.inr (KeyMap.mem_keys_erase.mp hremoved).2)

/-! ## Applying an edit -/

/-- After erasing many names nothing of these is found. -/
theorem findRef?_foldl_eraseRef (names : List String) (refs : List ρ) (name : String) :
    findRef? (names.foldl eraseRef refs) name =
      if name ∈ names then none else findRef? refs name := by
  induction names generalizing refs with
  | nil => simp
  | cons n names ih =>
    rw [List.foldl_cons, ih, findRef?_eraseRef]
    by_cases h : name = n <;> simp [h]

theorem distinctRefs_foldl_eraseRef {names : List String} {refs : List ρ} (h : DistinctRefs refs) :
    DistinctRefs (names.foldl eraseRef refs) := by
  induction names generalizing refs with
  | nil => exact h
  | cons n names ih => exact ih (distinctRefs_eraseRef h n)

/-- Erasing names keeps what is selected by other names. -/
theorem filter_foldl_eraseRef {keep : String → Bool} {names : List String}
    (h : ∀ name ∈ names, keep name = false) (refs : List ρ) :
    (names.foldl eraseRef refs).filter (fun r => keep (Reference.name r)) =
      refs.filter fun r => keep (Reference.name r) := by
  induction names generalizing refs with
  | nil => rfl
  | cons n names ih =>
    rw [List.foldl_cons, ih (fun m hm => h m (List.mem_cons_of_mem _ hm)),
      filter_eraseRef (h n List.mem_cons_self)]

/-- The references to put have different names. -/
theorem Named.distinctRefs_values (h : e.Named) : DistinctRefs e.put.values := by
  have hnames : e.put.values.map Reference.name = e.put.keys := by
    rw [KeyMap.values, KeyMap.keys, List.map_map]
    refine List.map_congr_left fun entry hentry => ?_
    exact h entry.1 entry.2 (KeyMap.get?_eq_some_iff_mem.mpr hentry)
  rw [DistinctRefs, hnames]
  exact e.put.keys_nodup

/-- The references to put are found under their keys. -/
theorem Named.findRef?_values (h : e.Named) (name : String) :
    findRef? e.put.values name = e.put.get? name := by
  refine Option.ext fun ref => ?_
  rw [findRef?_eq_some_iff h.distinctRefs_values, KeyMap.mem_values_iff]
  constructor
  · rintro ⟨⟨key, hkey⟩, rfl⟩
    rwa [h key ref hkey]
  · intro hget
    exact ⟨⟨name, hget⟩, h name ref hget⟩

/-- A name has what is put for it, else nothing if it is removed, else what it had. -/
theorem Named.findRef?_apply (h : e.Named) (refs : List ρ) (name : String) :
    findRef? (e.apply refs) name =
      (e.put.get? name).or (if name ∈ e.removed.keys then none else findRef? refs name) := by
  rw [apply, findRef?_putRefs, findRef?_reverse_of_distinct h.distinctRefs_values,
    h.findRef?_values, findRef?_foldl_eraseRef]

/-- An edit leaves one reference for each name. -/
theorem distinctRefs_apply {refs : List ρ} (h : DistinctRefs refs) : DistinctRefs (e.apply refs) :=
  distinctRefs_putRefs (distinctRefs_foldl_eraseRef h) _

/-- References of names that the edit does not mention stay as they are, in their order. -/
theorem Named.filter_apply (h : e.Named) {keep : String → Bool}
    (hkeep : ∀ name, e.Mentions name → keep name = false) (refs : List ρ) :
    (e.apply refs).filter (fun r => keep (Reference.name r)) =
      refs.filter fun r => keep (Reference.name r) := by
  rw [apply, filter_putRefs, filter_foldl_eraseRef]
  · exact fun name hname => hkeep name (Or.inr hname)
  · intro ref href
    obtain ⟨name, hname⟩ := KeyMap.mem_values_iff.mp href
    rw [h name ref hname]
    exact hkeep name (Or.inl ⟨ref, hname⟩)

/-- Putting a reference is seen under its name only. -/
theorem Named.findRef?_apply_putRef (h : e.Named) (ref : ρ) (refs : List ρ) (name : String) :
    findRef? ((e.putRef ref).apply refs) name =
      if name = Reference.name ref then some ref else findRef? (e.apply refs) name := by
  rw [(h.putRef ref).findRef?_apply, h.findRef?_apply]
  by_cases hname : name = Reference.name ref
  · simp [RefEdit.putRef, hname]
  · simp [RefEdit.putRef, hname, KeyMap.mem_keys_erase]

/-- Removing a reference is seen under its name only. -/
theorem Named.findRef?_apply_removeRef (h : e.Named) (name' : String) (refs : List ρ)
    (name : String) :
    findRef? ((e.removeRef name').apply refs) name =
      if name = name' then none else findRef? (e.apply refs) name := by
  rw [(h.removeRef name').findRef?_apply, h.findRef?_apply]
  by_cases hname : name = name'
  · simp [RefEdit.removeRef, KeySet.add, hname, KeyMap.mem_keys_insert]
  · simp [RefEdit.removeRef, KeySet.add, hname, KeyMap.mem_keys_insert]

end RefEdit

end ChannelDirectory

import ChannelDirectory.Record
import Mathlib.Data.List.Nodup

/-!
# Lists of references

The references of a channel stand for a map from names to references, and `findRef?` reads
it. The operations that build references keep one reference for each name (`DistinctRefs`),
and under this condition a reference is found exactly if it is in the list
(`findRef?_eq_some_iff`).

Erasing and putting change nothing but the reference of one name : `filter_eraseRef` and
`filter_putRef` say so of the list itself, order included.
-/

namespace ChannelDirectory

variable {ρ : Type} [Reference ρ]

/-- No two references have the same name. -/
def DistinctRefs (refs : List ρ) : Prop :=
  (refs.map Reference.name).Nodup

instance (refs : List ρ) : Decidable (DistinctRefs refs) :=
  inferInstanceAs (Decidable (List.Nodup _))

theorem distinctRefs_nil : DistinctRefs ([] : List ρ) :=
  List.nodup_nil

/-! ## Finding -/

theorem mem_of_findRef? {refs : List ρ} {name : String} {ref : ρ}
    (h : findRef? refs name = some ref) : ref ∈ refs :=
  List.mem_of_find?_eq_some h

theorem name_of_findRef? {refs : List ρ} {name : String} {ref : ρ}
    (h : findRef? refs name = some ref) : Reference.name ref = name := by
  simpa using List.find?_some h

theorem findRef?_eq_none_iff {refs : List ρ} {name : String} :
    findRef? refs name = none ↔ ∀ ref ∈ refs, Reference.name ref ≠ name := by
  simp [findRef?, List.find?_eq_none]

theorem findRef?_isSome_iff {refs : List ρ} {name : String} :
    (findRef? refs name).isSome = true ↔ ∃ ref ∈ refs, Reference.name ref = name := by
  simp [findRef?]

/-- Where every name occurs once, finding is membership. -/
theorem findRef?_eq_some_iff {refs : List ρ} (distinct : DistinctRefs refs) {name : String}
    {ref : ρ} : findRef? refs name = some ref ↔ ref ∈ refs ∧ Reference.name ref = name := by
  constructor
  · intro h
    exact ⟨mem_of_findRef? h, name_of_findRef? h⟩
  · rintro ⟨hmem, rfl⟩
    obtain ⟨other, hother⟩ : ∃ other, findRef? refs (Reference.name ref) = some other :=
      Option.isSome_iff_exists.mp (findRef?_isSome_iff.mpr ⟨ref, hmem, rfl⟩)
    rw [hother, List.inj_on_of_nodup_map distinct (mem_of_findRef? hother) hmem
      (name_of_findRef? hother)]

/-- Where every name occurs once, there is nothing of a name but what is found. -/
theorem filter_name_of_distinct {refs : List ρ} (distinct : DistinctRefs refs) (name : String) :
    refs.filter (fun r => Reference.name r = name) = (findRef? refs name).toList := by
  induction refs with
  | nil => rfl
  | cons ref refs ih =>
    obtain ⟨hnotin, hrest⟩ := List.nodup_cons.mp distinct
    by_cases h : Reference.name ref = name
    · have hnone : refs.filter (fun r => Reference.name r = name) = [] := by
        rw [List.filter_eq_nil_iff]
        intro r hr hname
        have heq : Reference.name r = Reference.name ref := (of_decide_eq_true hname).trans h.symm
        exact hnotin (heq ▸ List.mem_map_of_mem hr)
      rw [List.filter_cons_of_pos (by simpa using h), hnone, findRef?,
        List.find?_cons_of_pos (by simpa using h)]
      rfl
    · rw [List.filter_cons_of_neg (by simpa using h), ih hrest, findRef?, findRef?,
        List.find?_cons_of_neg (by simpa using h)]

/-! ## Erasing -/

theorem mem_eraseRef {refs : List ρ} {name : String} {ref : ρ} :
    ref ∈ eraseRef refs name ↔ ref ∈ refs ∧ Reference.name ref ≠ name := by
  simp [eraseRef]

theorem findRef?_eraseRef (refs : List ρ) (name name' : String) :
    findRef? (eraseRef refs name) name' = if name' = name then none else findRef? refs name' := by
  by_cases h : name' = name
  · subst h
    rw [if_pos rfl, findRef?_eq_none_iff]
    exact fun ref hmem => (mem_eraseRef.mp hmem).2
  · rw [if_neg h, findRef?, eraseRef, List.find?_filter]
    congr 1
    funext ref
    by_cases hr : Reference.name ref = name' <;> simp [hr, h]

theorem distinctRefs_eraseRef {refs : List ρ} (h : DistinctRefs refs) (name : String) :
    DistinctRefs (eraseRef refs name) :=
  List.Nodup.sublist (List.filter_sublist.map Reference.name) h

/-- What is off is not taken off again. -/
theorem eraseRef_eraseRef (refs : List ρ) (name : String) :
    eraseRef (eraseRef refs name) name = eraseRef refs name := by
  simp only [eraseRef, List.filter_filter, Bool.and_self]

theorem eraseRef_comm (refs : List ρ) (name name' : String) :
    eraseRef (eraseRef refs name) name' = eraseRef (eraseRef refs name') name := by
  simp only [eraseRef, List.filter_filter, Bool.and_comm]

theorem eraseRef_append (refs more : List ρ) (name : String) :
    eraseRef (refs ++ more) name = eraseRef refs name ++ eraseRef more name :=
  List.filter_append refs more

/-- Erasing a name that is not asked for is not seen. -/
theorem filter_eraseRef {keep : String → Bool} {name : String} (h : keep name = false)
    (refs : List ρ) :
    (eraseRef refs name).filter (fun r => keep (Reference.name r)) =
      refs.filter fun r => keep (Reference.name r) := by
  rw [eraseRef, List.filter_filter]
  refine List.filter_congr fun ref _ => ?_
  by_cases hr : Reference.name ref = name <;> simp [hr, h]

/-! ## Putting -/

theorem findRef?_append_singleton (refs : List ρ) (ref : ρ) (name : String) :
    findRef? (refs ++ [ref]) name =
      (findRef? refs name).or (if name = Reference.name ref then some ref else none) := by
  by_cases h : name = Reference.name ref
  · simp [findRef?, h]
  · simp [findRef?, h, Ne.symm h]

theorem findRef?_putRef (refs : List ρ) (ref : ρ) (name : String) :
    findRef? (putRef refs ref) name =
      if name = Reference.name ref then some ref else findRef? refs name := by
  rw [putRef, findRef?_append_singleton, findRef?_eraseRef]
  by_cases h : name = Reference.name ref <;> simp [h]

theorem distinctRefs_putRef {refs : List ρ} (h : DistinctRefs refs) (ref : ρ) :
    DistinctRefs (putRef refs ref) := by
  rw [DistinctRefs, putRef, List.map_append, List.nodup_append]
  refine ⟨distinctRefs_eraseRef h _, by simp, ?_⟩
  intro name hname name' hname'
  obtain ⟨other, hother, rfl⟩ := List.mem_map.mp hname
  simp only [List.map_cons, List.map_nil, List.mem_singleton] at hname'
  rw [hname']
  exact (mem_eraseRef.mp hother).2

/-- A reference that is put goes with its name. -/
theorem eraseRef_putRef_self (refs : List ρ) (ref : ρ) :
    eraseRef (putRef refs ref) (Reference.name ref) = eraseRef refs (Reference.name ref) := by
  have hlast : eraseRef [ref] (Reference.name ref) = [] := by simp [eraseRef]
  rw [putRef, eraseRef_append, eraseRef_eraseRef, hlast, List.append_nil]

theorem eraseRef_putRef_of_ne {ref : ρ} {name : String} (h : Reference.name ref ≠ name)
    (refs : List ρ) : eraseRef (putRef refs ref) name = putRef (eraseRef refs name) ref := by
  have hlast : eraseRef [ref] name = [ref] := by simp [eraseRef, h]
  rw [putRef, eraseRef_append, eraseRef_comm, hlast, putRef]

/-- A reference that stands at the end is put there again. -/
theorem putRef_putRef (refs : List ρ) (ref : ρ) :
    putRef (putRef refs ref) ref = putRef refs ref := by
  rw [putRef, eraseRef_putRef_self, ← putRef]

/-- Putting a reference of a name that is not asked for is not seen. -/
theorem filter_putRef {keep : String → Bool} {ref : ρ} (h : keep (Reference.name ref) = false)
    (refs : List ρ) :
    (putRef refs ref).filter (fun r => keep (Reference.name r)) =
      refs.filter fun r => keep (Reference.name r) := by
  rw [putRef, List.filter_append, filter_eraseRef h]
  simp [h]

/-! ## Putting one after another -/

theorem findRef?_putRefs (refs more : List ρ) (name : String) :
    findRef? (putRefs refs more) name =
      (findRef? more.reverse name).or (findRef? refs name) := by
  induction more generalizing refs with
  | nil => simp [putRefs, findRef?]
  | cons ref more ih =>
    rw [putRefs, List.foldl_cons, ← putRefs, ih, findRef?_putRef, List.reverse_cons,
      findRef?_append_singleton]
    cases findRef? more.reverse name with
    | some _ => simp
    | none => by_cases h : name = Reference.name ref <;> simp [h]

/-- The last reference of a name counts, on both sides. -/
theorem findRef?_reverse_putRefs (refs more : List ρ) (name : String) :
    findRef? (putRefs refs more).reverse name =
      (findRef? more.reverse name).or (findRef? refs.reverse name) := by
  induction more generalizing refs with
  | nil => simp [putRefs, findRef?]
  | cons ref more ih =>
    rw [putRefs, List.foldl_cons, ← putRefs, ih, List.reverse_cons, findRef?_append_singleton,
      putRef, eraseRef, List.reverse_append, ← List.filter_reverse, ← eraseRef]
    cases findRef? more.reverse name with
    | some _ => simp
    | none =>
      by_cases h : name = Reference.name ref
      · simp [findRef?, h]
      · have herase := findRef?_eraseRef refs.reverse (Reference.name ref) name
        simpa [findRef?, h, Ne.symm h] using herase

theorem distinctRefs_putRefs {refs : List ρ} (h : DistinctRefs refs) (more : List ρ) :
    DistinctRefs (putRefs refs more) := by
  induction more generalizing refs with
  | nil => exact h
  | cons ref more ih => exact ih (distinctRefs_putRef h ref)

theorem filter_putRefs {keep : String → Bool} {more : List ρ}
    (h : ∀ ref ∈ more, keep (Reference.name ref) = false) (refs : List ρ) :
    (putRefs refs more).filter (fun r => keep (Reference.name r)) =
      refs.filter fun r => keep (Reference.name r) := by
  induction more generalizing refs with
  | nil => rfl
  | cons ref more ih =>
    rw [putRefs, List.foldl_cons, ← putRefs, ih (fun r hr => h r (List.mem_cons_of_mem _ hr)),
      filter_putRef (h ref List.mem_cons_self)]

/-- The last reference of a name is kept. -/
theorem findRef?_dedupRefs (refs : List ρ) (name : String) :
    findRef? (dedupRefs refs) name = findRef? refs.reverse name := by
  rw [dedupRefs, findRef?_putRefs]
  simp [findRef?]

theorem distinctRefs_dedupRefs (refs : List ρ) : DistinctRefs (dedupRefs refs) :=
  distinctRefs_putRefs distinctRefs_nil refs

theorem putRefs_of_distinct {refs more : List ρ} (h : DistinctRefs (refs ++ more)) :
    putRefs refs more = refs ++ more := by
  induction more generalizing refs with
  | nil => simp [putRefs]
  | cons ref more ih =>
    have hput : putRef refs ref = refs ++ [ref] := by
      have hne : ∀ r ∈ refs, Reference.name r ≠ Reference.name ref := by
        intro r hr
        rw [DistinctRefs, List.map_append, List.nodup_append] at h
        exact h.2.2 _ (List.mem_map_of_mem hr) _ (by simp)
      rw [putRef, eraseRef, List.filter_eq_self.mpr (by simpa using hne)]
    rw [putRefs, List.foldl_cons, ← putRefs, hput, ih (by simpa using h)]
    simp

/-- Where every name occurs once, there is nothing to drop. -/
theorem dedupRefs_of_distinct {refs : List ρ} (h : DistinctRefs refs) : dedupRefs refs = refs :=
  putRefs_of_distinct h

theorem findRef?_reverse_of_distinct {refs : List ρ} (h : DistinctRefs refs) (name : String) :
    findRef? refs.reverse name = findRef? refs name := by
  rw [← findRef?_dedupRefs, dedupRefs_of_distinct h]

end ChannelDirectory

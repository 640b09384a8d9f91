import ChannelDirectory.Proofs.Record.Validity

/-!
# Merging and putting again

Putting references is associative, order included : references that were themselves put one after
another can be put as they came out (`putRefs_putRefs`). What makes it so is that a reference that
is put again loses its place, and erasing a name from references and from those that are put on them
is erasing it from the outcome (`eraseRef_putRefs`).

So requests may be merged with each other before they are merged into a channel, and merging one
twice is merging it once (`Channel.merges_compose`). Dropping references of the same name keeps the
last one of each, in the order in which the names came last, and there is only one list of that kind
(`keepsLast_iff`).
-/

namespace ChannelDirectory

section References

variable {ρ : Type} [Reference ρ] {refs kept : List ρ} {first second : ρ}

/-! ## Putting -/

/-- A name that is erased is not put either. -/
theorem eraseRef_putRefs (refs more : List ρ) (name : String) :
    eraseRef (putRefs refs more) name = putRefs (eraseRef refs name) (eraseRef more name) := by
  induction more generalizing refs with
  | nil => rfl
  | cons ref more ih =>
    rw [putRefs, List.foldl_cons, ← putRefs, ih]
    by_cases h : Reference.name ref = name
    · have herase : eraseRef (ref :: more) name = eraseRef more name :=
        List.filter_cons_of_neg (by simpa using h)
      rw [herase, ← h, eraseRef_putRef_self]
    · have hkeep : eraseRef (ref :: more) name = ref :: eraseRef more name :=
        List.filter_cons_of_pos (by simpa using h)
      rw [hkeep, eraseRef_putRef_of_ne h]
      rfl

/-- A reference that is put last is put last on both. -/
theorem putRefs_putRef (refs more : List ρ) (ref : ρ) :
    putRefs refs (putRef more ref) = putRef (putRefs refs more) ref := by
  have hlast : putRefs refs (putRef more ref) =
      putRef (putRefs refs (eraseRef more (Reference.name ref))) ref :=
    List.foldl_concat putRef refs ref _
  rw [hlast, putRef, putRef, eraseRef_putRefs, eraseRef_putRefs, eraseRef_eraseRef]

/-- References that are put one after another may be put on each other first. -/
theorem putRefs_putRefs (refs more last : List ρ) :
    putRefs (putRefs refs more) last = putRefs refs (putRefs more last) := by
  induction last generalizing more with
  | nil => rfl
  | cons ref last ih =>
    calc putRefs (putRefs refs more) (ref :: last)
        = putRefs (putRef (putRefs refs more) ref) last := rfl
      _ = putRefs (putRefs refs (putRef more ref)) last := by rw [putRefs_putRef]
      _ = putRefs refs (putRefs (putRef more ref) last) := ih _
      _ = putRefs refs (putRefs more (ref :: last)) := rfl

/-- References that are put a second time are there already. -/
theorem putRefs_twice (refs more : List ρ) :
    putRefs (putRefs refs more) more = putRefs refs more := by
  have hothers : (putRefs refs more).filter (fun r => Reference.name r ∉ more.map Reference.name) =
      refs.filter fun r => Reference.name r ∉ more.map Reference.name := by
    refine @filter_putRefs ρ _ (· ∉ more.map Reference.name) more (fun ref href => ?_) refs
    simpa using ⟨ref, href, rfl⟩
  rw [putRefs_eq (putRefs refs more), hothers, ← putRefs_eq]

/-! ## The last ones -/

/-- After the last reference of the one name, there is one of the other name. -/
def EndsBefore (refs : List ρ) (first second : ρ) : Prop :=
  ∃ before after, refs = before ++ first :: after ∧
    (∀ ref ∈ after, Reference.name ref ≠ Reference.name first) ∧
      ∃ ref ∈ after, Reference.name ref = Reference.name second

/-- One reference of every name is kept, the last one, in the order of the last ones. -/
structure KeepsLast (refs kept : List ρ) : Prop where
  one : ∀ name, kept.filter (fun r => Reference.name r = name) =
    (findRef? refs.reverse name).toList
  ordered : kept.Pairwise (EndsBefore refs)

theorem EndsBefore.cons (h : EndsBefore refs first second) (ref : ρ) :
    EndsBefore (ref :: refs) first second := by
  obtain ⟨before, after, rfl, hlast, hlater⟩ := h
  exact ⟨ref :: before, after, rfl, hlast, hlater⟩

/-- Of two names, one comes last. -/
theorem EndsBefore.asymm (h : EndsBefore refs first second) : ¬EndsBefore refs second first := by
  obtain ⟨before, after, hrefs, hlast, ref, href, hname⟩ := h
  rintro ⟨before', after', hrefs', hlast', ref', href', hname'⟩
  have hsuffix : ∀ {before after : List ρ} {r}, refs = before ++ r :: after → after <:+ refs := by
    rintro before after r rfl
    exact (List.suffix_cons r after).trans (List.suffix_append before _)
  rcases List.suffix_or_suffix_of_suffix (hsuffix hrefs) (hsuffix hrefs') with hle | hle
  · exact hlast' ref (hle.subset href) hname
  · exact hlast ref' (hle.subset href') hname'

theorem pairwise_lastRefs (refs : List ρ) : (lastRefs refs).Pairwise (EndsBefore refs) := by
  induction refs with
  | nil => exact .nil
  | cons ref refs ih =>
    have hrest : (lastRefs refs).Pairwise (EndsBefore (ref :: refs)) := ih.imp (·.cons ref)
    rw [lastRefs]
    split
    · exact hrest
    · rename_i hnone
      refine List.pairwise_cons.mpr ⟨fun second hsecond => ?_, hrest⟩
      have hlast : ∀ r ∈ refs, Reference.name r ≠ Reference.name ref :=
        fun r hr heq => hnone (heq ▸ List.mem_map_of_mem hr)
      have hlater := mem_names_lastRefs_iff.mp (List.mem_map_of_mem hsecond)
      exact ⟨[], refs, rfl, hlast, List.mem_map.mp hlater⟩

theorem keepsLast_dedupRefs (refs : List ρ) : KeepsLast refs (dedupRefs refs) := by
  constructor
  · intro name
    rw [filter_name_of_distinct (distinctRefs_dedupRefs refs), findRef?_dedupRefs]
  · rw [dedupRefs_eq_lastRefs]
    exact pairwise_lastRefs refs

/-- What is kept is determined by being one of every name, the last, and by its order. -/
theorem keepsLast_iff : KeepsLast refs kept ↔ kept = dedupRefs refs := by
  classical
  constructor
  · intro h
    have hperm : kept.Perm (dedupRefs refs) := by
      refine List.perm_iff_count.mpr fun ref => ?_
      have hcount : ∀ list : List ρ,
          (list.filter fun r => Reference.name r = Reference.name ref).count ref = list.count ref :=
        fun list => List.count_filter (by simp)
      rw [← hcount, h.one, ← (keepsLast_dedupRefs refs).one, hcount]
    exact hperm.eq_of_pairwise (fun _ _ _ _ hfirst hsecond => absurd hsecond hfirst.asymm)
      h.ordered (keepsLast_dedupRefs refs).ordered
  · rintro rfl
    exact keepsLast_dedupRefs refs

end References

namespace Channel

theorem merge_twice (c update : Channel) : (c.merge update).merge update = c.merge update := by
  simp only [merge, putRefs_twice, mk.injEq, and_true, true_and]
  by_cases h : update.owner = "" <;> simp [h]

theorem merge_merge (c update later : Channel) :
    (c.merge update).merge later = c.merge (update.merge later) := by
  simp only [merge, putRefs_putRefs, mk.injEq, and_true, true_and]
  by_cases h : later.owner = "" <;> simp [h]

/-- Merging a request twice is merging it once, and two requests that are merged one after the other
may be merged with each other first, order included. The channel keeps its name and, in front and
in order, the references of names that the request does not have ; those of the request follow.
Dropping references of the same name keeps exactly the last one of each, in the order of the last
ones, and doing it again changes nothing. -/
theorem merges_compose (c update later : Channel) :
    (c.merge update).merge update = c.merge update ∧
      (c.merge update).merge later = c.merge (update.merge later) ∧
      (c.merge update).name = c.name ∧
      (c.merge update).tags =
        (c.tags.filter fun tag => tag.name ∉ update.tags.map TagRef.name) ++ update.dedup.tags ∧
      (c.merge update).properties =
        (c.properties.filter fun property =>
          property.name ∉ update.properties.map PropertyRef.name) ++ update.dedup.properties ∧
      (∀ tags, KeepsLast c.tags tags ↔ tags = c.dedup.tags) ∧
      (∀ properties, KeepsLast c.properties properties ↔ properties = c.dedup.properties) ∧
      c.dedup.dedup = c.dedup := by
  refine ⟨merge_twice c update, merge_merge c update later, rfl, putRefs_eq _ _, putRefs_eq _ _,
    fun _ => keepsLast_iff, fun _ => keepsLast_iff, ?_⟩
  rw [dedup, dedup, dedupRefs_of_distinct (distinctRefs_dedupRefs _),
    dedupRefs_of_distinct (distinctRefs_dedupRefs _)]

/-- A tag that the channel has, and that the request has twice. -/
example : (merge { name := "a", tags := [⟨"t", "x"⟩, ⟨"u", "x"⟩] }
    { name := "b", tags := [⟨"t", "y"⟩, ⟨"v", "y"⟩, ⟨"t", "z"⟩] }).tags =
      [⟨"u", "x"⟩, ⟨"v", "y"⟩, ⟨"t", "z"⟩] := by decide

end Channel

end ChannelDirectory

import ChannelDirectory.Proofs.KeyMap
import ChannelDirectory.Store.Search

/-!
# The order of hits

Hits come in the order of the names by which they are sorted (`matching_sorted`), each document
once. A search after a name sees those hits that come after it (`Store.matchingAfter`).

A reading page by page starts each search after a name that it takes from the last page. What it
gets next depends on this name and the one by which the last hit is sorted : if the name is not
the earlier one, the next hits are among those that the page has left over
(`matchingAfter_next_sublist`), and if it is, the last hit comes again (`mem_page_next`).
-/

namespace ChannelDirectory

namespace Store

variable {s : Store} {index : String} {p : Predicate} {after : Option String}

/-- The hits are in the order of the names that they are sorted by. -/
theorem matching_sorted (s : Store) (index : String) (p : Predicate) :
    (s.matching index p).Pairwise fun h h' => h.sortName ≤ h'.sortName := by
  have htrans : ∀ a b c : Hit, (!decide (b.sortName < a.sortName)) = true →
      (!decide (c.sortName < b.sortName)) = true → (!decide (c.sortName < a.sortName)) = true := by
    intro a b c hab hbc
    simp only [Bool.not_eq_true', decide_eq_false_iff_not, String.not_lt] at hab hbc ⊢
    exact String.le_trans hab hbc
  have htotal : ∀ a b : Hit, ((!decide (b.sortName < a.sortName)) ||
      !decide (a.sortName < b.sortName)) = true := by
    intro a b
    simp only [Bool.or_eq_true, Bool.not_eq_true', decide_eq_false_iff_not, String.not_lt]
    exact String.le_total _ _
  refine (List.pairwise_mergeSort htrans htotal _).imp fun {a b} h => ?_
  simpa only [Bool.not_eq_true', decide_eq_false_iff_not, String.not_lt] using h

/-- No two hits are the same document. -/
theorem nodup_ids_matching (s : Store) (index : String) (p : Predicate) :
    ((s.matching index p).map Hit.id).Nodup := by
  have hids : (((s.documents index).filter fun _ doc => p.holds doc).entries.map
      fun e => Hit.mk e.1 e.2).map Hit.id =
        ((s.documents index).filter fun _ doc => p.holds doc).keys := by
    rw [List.map_map, KeyMap.keys]
    rfl
  refine ((List.mergeSort_perm _ _).map Hit.id).nodup_iff.mpr ?_
  exact hids ▸ KeyMap.keys_nodup _

/-- The hits that come after a name. -/
def matchingAfter (s : Store) (index : String) (p : Predicate) : Option String → List Hit
  | none => s.matching index p
  | some name => (s.matching index p).filter fun hit => name < hit.sortName

theorem matchingAfter_sublist (s : Store) (index : String) (p : Predicate)
    (after : Option String) : (s.matchingAfter index p after).Sublist (s.matching index p) := by
  cases after with
  | none => exact List.Sublist.refl _
  | some name => exact List.filter_sublist

/-- The hits after a name are above it. -/
theorem lt_of_mem_matchingAfter {hit : Hit} (h : hit ∈ s.matchingAfter index p after) :
    ∀ name ∈ after, name < hit.sortName := by
  rintro name rfl
  exact of_decide_eq_true (List.mem_filter.mp h).2

/-- Starting after a later name leaves some of the hits out. -/
theorem matchingAfter_some {name : String} (h : ∀ name' ∈ after, name' < name) :
    s.matchingAfter index p (some name) =
      (s.matchingAfter index p after).filter fun hit => name < hit.sortName := by
  cases after with
  | none => rfl
  | some name' =>
    rw [matchingAfter, matchingAfter, List.filter_filter]
    refine List.filter_congr fun hit _ => ?_
    by_cases hlt : name < hit.sortName
    · simp [hlt, String.lt_trans (h name' rfl) hlt]
    · simp [hlt]

/-- What comes after the last name of a page is left over by the page, if that name is not too
early. -/
theorem matchingAfter_next_sublist {size : Nat} {last : Hit} {name : String}
    (hlast : ((s.matchingAfter index p after).take size).getLast? = some last)
    (h : last.sortName ≤ name) :
    (s.matchingAfter index p (some name)).Sublist ((s.matchingAfter index p after).drop size) := by
  obtain ⟨init, hpage⟩ := List.getLast?_eq_some_iff.mp hlast
  have hmem : last ∈ s.matchingAfter index p after :=
    List.mem_of_mem_take (List.mem_of_mem_getLast? hlast)
  have hsorted : (init ++ [last]).Pairwise fun h h' => h.sortName ≤ h'.sortName := by
    rw [← hpage]
    exact ((matching_sorted s index p).sublist (matchingAfter_sublist s index p after)).sublist
      (List.take_sublist _ _)
  have hpage_nil : ((s.matchingAfter index p after).take size).filter
      (fun hit => name < hit.sortName) = [] := by
    rw [List.filter_eq_nil_iff, hpage]
    intro hit hhit hlt
    have hle : hit.sortName ≤ last.sortName := by
      rcases List.mem_append.mp hhit with hinit | hlast
      · exact (List.pairwise_append.mp hsorted).2.2 hit hinit last (List.mem_singleton_self _)
      · exact List.mem_singleton.mp hlast ▸ String.le_refl _
    exact String.not_lt.mpr (String.le_trans hle h) (of_decide_eq_true hlt)
  have hlater : ∀ name' ∈ after, name' < name := fun name' hname' =>
    Std.lt_of_lt_of_le (lt_of_mem_matchingAfter hmem name' hname') h
  rw [matchingAfter_some hlater, ← List.take_append_drop size (s.matchingAfter index p after),
    List.filter_append, hpage_nil, List.nil_append, List.take_append_drop]
  exact List.filter_sublist

/-- If the last name of a page is too early, the last document of the page is on the next one. -/
theorem mem_page_next {size : Nat} {last : Hit} {name : String}
    (hlast : ((s.matchingAfter index p after).take size).getLast? = some last)
    (hlater : ∀ name' ∈ after, name' < name) (h : name < last.sortName) :
    last ∈ (s.matchingAfter index p (some name)).take size := by
  have hfirst : ((s.matchingAfter index p after).take size).filter
      (fun hit => name < hit.sortName) <+: s.matchingAfter index p (some name) := by
    rw [matchingAfter_some hlater]
    exact (List.take_prefix _ _).filter _
  have hlength : (((s.matchingAfter index p after).take size).filter
      (fun hit => name < hit.sortName)).length ≤ size :=
    (List.length_filter_le _ _).trans (List.length_take_le _ _)
  refine (List.prefix_take_iff.mpr ⟨hfirst, hlength⟩).subset ?_
  exact List.mem_filter.mpr ⟨List.mem_of_mem_getLast? hlast, decide_eq_true h⟩

end Store

end ChannelDirectory

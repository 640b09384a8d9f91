import ChannelDirectory.Proofs.Collection.Reads

/-!
# Reading a whole result set

`Collection.select` lists the records whose documents satisfy a predicate, by name. On a
store in shape this is what the backend finds (`matching_eq`), and `findMatching` reads it
page by page.

What a page starts after is the last name of the page before, and names are strictly
ascending, so what is still to be read is what the pages so far have left over
(`filter_after_last`). `returns_findFrom` follows this rest by induction on the budget : the
reading returns exactly the rest, if a page fits the window of the backend and the budget
is greater than the number of full pages in it.
-/

namespace ChannelDirectory

namespace Collection

open Program

variable {α : Type} {c : Collection α} {P : α → Prop} {s : Store} {b : Backend}

/-- A page of the collection does not reach beyond the window of the backend. -/
def Fits (c : Collection α) (b : Backend) : Prop :=
  addCounts 0 c.pageSize ≤ b.window

/-- A page that is not greater than the window fits it. -/
theorem fits_of_pageSize_le (h : c.pageSize ≤ b.window) : c.Fits b := by
  rw [Fits, addCounts, Nat.zero_add]
  split
  · omega
  · exact h

/-- A page that fits the window is not refused. -/
theorem Fits.rejection?_eq (hfits : c.Fits b) (p : Predicate) (after : Option String) :
    b.rejection? (c.pageRequest p after) = none := by
  have hle : ¬b.window < addCounts 0 c.pageSize := Nat.not_lt.mpr hfits
  simp [Backend.rejection?, pageRequest, hle]

/-- A page that does not fit the window is refused. -/
theorem rejection?_of_not_fits (h : ¬c.Fits b) (p : Predicate) (after : Option String) :
    b.rejection? (c.pageRequest p after) =
      some (.windowTooLarge (addCounts 0 c.pageSize) b.window) := by
  have hlt : b.window < addCounts 0 c.pageSize := Nat.not_le.mp h
  simp [Backend.rejection?, pageRequest, hlt]

theorem Fits.answer_search (hfits : c.Fits b) (p : Predicate) (after : Option String) :
    (b.answer (.search c.index (c.pageRequest p after))).1 =
      .ok (b.store.search c.index (c.pageRequest p after)) := by
  simp [Backend.answer, hfits.rejection?_eq]

/-- A page that fits the window is delivered by an available backend. -/
theorem Fits.handle_search (hfits : c.Fits b) (havail : b.available = true) (p : Predicate)
    (after : Option String) :
    (b.handle (.search c.index (c.pageRequest p after))).1 =
      .ok (b.store.search c.index (c.pageRequest p after)) := by
  rw [Backend.handle, if_pos havail]
  exact hfits.answer_search p after

/-- A page is read exactly if it fits the window, and the program goes on with it. -/
theorem returns_search_bind {β : Type} {p : Predicate} {after : Option String}
    {k : SearchResult → Program β} {value : β} :
    (request (.search c.index (c.pageRequest p after)) >>= k).Returns b value ↔
      b.available = true ∧ c.Fits b ∧
        (k (b.store.search c.index (c.pageRequest p after))).Returns b value := by
  by_cases hfits : c.Fits b
  · rw [returns_request_bind rfl (hfits.answer_search p after)]
    simp [hfits]
  · have hreject := rejection?_of_not_fits hfits p after
    rw [returns_bind (readOnly_request rfl)]
    simp only [hfits, false_and, and_false, iff_false]
    rintro ⟨page, hpage, -⟩
    rw [returns_request] at hpage
    by_cases havail : b.available = true
    · simp [Backend.handle, Backend.answer, havail, hreject] at hpage
    · simp [Backend.handle, havail] at hpage

variable [Entity α]

/-- The records whose documents satisfy a predicate, by name. -/
def select (c : Collection α) (p : Predicate) (s : Store) : List α :=
  ((c.contents s).filter fun _ record => p.holds (Entity.encode Json.ofMembers record)).values

/-- Those of these records that come after a name. -/
def selectAfter (c : Collection α) (p : Predicate) (s : Store) : Option String → List α
  | none => c.select p s
  | some name => (c.select p s).filter fun record => name < Entity.name record

/-- The hit of a record. -/
def hitOf (record : α) : Hit :=
  ⟨Entity.name record, Entity.encode Json.ofMembers record⟩

/-- The records that are selected are the stored ones that match. -/
theorem mem_select {p : Predicate} {record : α} :
    record ∈ c.select p s ↔
      (∃ id, (c.contents s).get? id = some record) ∧
        p.holds (Entity.encode Json.ofMembers record) = true := by
  simp [select, KeyMap.mem_values_iff, Option.filter_eq_some_iff]

theorem readOnly_findFrom (c : Collection α) (p : Predicate) (budget : Nat)
    (after : Option String) : (c.findFrom p budget after).ReadOnly := by
  induction budget generalizing after with
  | zero => trivial
  | succ budget ih =>
    refine (readOnly_request rfl).bind fun page => (readOnly_ofExcept _).bind fun records => ?_
    split
    · trivial
    · exact (ih _).bind fun more => trivial

theorem readOnly_findMatching (c : Collection α) (budget : Nat) (p : Predicate) :
    (c.findMatching budget p).ReadOnly :=
  c.readOnly_findFrom p budget none

/-- In ascending order, what comes after the last of some first records are the others. -/
theorem filter_after_last {first others : List α} {last : α}
    (ascending : (first ++ others).Pairwise fun r r' => Entity.name r < Entity.name r')
    (hlast : first.getLast? = some last) :
    (first ++ others).filter (fun r => Entity.name last < Entity.name r) = others := by
  obtain ⟨init, rfl⟩ := List.getLast?_eq_some_iff.mp hlast
  obtain ⟨hfirst, -, hcross⟩ := List.pairwise_append.mp ascending
  obtain ⟨-, -, hinit⟩ := List.pairwise_append.mp hfirst
  have none_before : (init ++ [last]).filter
      (fun r => decide (Entity.name last < Entity.name r)) = [] := by
    rw [List.filter_eq_nil_iff]
    intro r hr
    rcases List.mem_append.mp hr with hr | hr
    · have hbefore : Entity.name r < Entity.name last := hinit r hr last (by simp)
      exact fun hafter => String.lt_asymm hbefore (of_decide_eq_true hafter)
    · rw [List.mem_singleton.mp hr]
      exact fun hafter => String.lt_irrefl _ (of_decide_eq_true hafter)
  have all_after : others.filter (fun r => decide (Entity.name last < Entity.name r)) = others := by
    rw [List.filter_eq_self]
    intro r hr
    exact decide_eq_true (hcross last (by simp) r hr)
  rw [List.filter_append, none_before, all_after, List.nil_append]

variable [LawfulEntity α]

theorem sortName_hitOf (record : α) : (hitOf record).sortName = Entity.name record := by
  simp [Hit.sortName, hitOf, LawfulEntity.get?_name, Json.string?]

/-- The hits of encoded records are decoded to these records. -/
theorem decodeHits_map (c : Collection α) (records : List α) :
    c.decodeHits (records.map hitOf) = .ok records := by
  rw [decodeHits]
  induction records with
  | nil => rfl
  | cons record records ih =>
    rw [List.map_cons, List.mapM_cons, ih]
    simp only [hitOf, decode_encode]
    rfl

/-- Where only encoded records are stored, the documents are the encodings of the contents. -/
theorem HoldsOnly.documents_eq (wf : c.HoldsOnly P s) :
    s.documents c.index =
      (c.contents s).mapValues fun _ record => Entity.encode Json.ofMembers record := by
  refine KeyMap.ext_get? fun id => ?_
  rw [KeyMap.get?_mapValues]
  exact wf.get?_store id

theorem HoldsOnly.names_select (wf : c.HoldsOnly P s) (p : Predicate) :
    (c.select p s).map Entity.name =
      ((c.contents s).filter fun _ r => p.holds (Entity.encode Json.ofMembers r)).keys := by
  rw [select, KeyMap.values, KeyMap.keys, List.map_map]
  refine List.map_congr_left fun e he => ?_
  have hget : (c.contents s).get? e.1 = some e.2 :=
    KeyMap.get?_eq_some_iff_mem.mpr (List.mem_filter.mp he).1
  exact wf.name_eq hget

/-- The records that are selected are in the order of their names. -/
theorem HoldsOnly.select_ascending (wf : c.HoldsOnly P s) (p : Predicate) :
    (c.select p s).Pairwise fun r r' => Entity.name r < Entity.name r' := by
  have h := KeyMap.keys_ascending
    ((c.contents s).filter fun _ r => p.holds (Entity.encode Json.ofMembers r))
  rwa [← wf.names_select p, List.pairwise_map] at h

/-- What the backend finds are the selected records, in their order. -/
theorem HoldsOnly.matching_eq (wf : c.HoldsOnly P s) (p : Predicate) :
    s.matching c.index p = (c.select p s).map hitOf := by
  have hits : (((s.documents c.index).filter fun _ doc => p.holds doc).entries.map
      fun e => Hit.mk e.1 e.2) = (c.select p s).map hitOf := by
    rw [wf.documents_eq]
    simp only [KeyMap.filter, KeyMap.mapValues, select, KeyMap.values, List.filter_map,
      List.map_map]
    refine List.map_congr_left fun e he => ?_
    have hget : (c.contents s).get? e.1 = some e.2 :=
      KeyMap.get?_eq_some_iff_mem.mpr (List.mem_filter.mp he).1
    simp [hitOf, wf.name_eq hget]
  rw [Store.matching]
  change (((s.documents c.index).filter fun _ doc => p.holds doc).entries.map
    fun e => Hit.mk e.1 e.2).mergeSort _ = _
  rw [hits]
  refine List.mergeSort_of_pairwise (List.pairwise_map.mpr ?_)
  refine (wf.select_ascending p).imp fun {r r'} h => ?_
  rw [sortName_hitOf, sortName_hitOf, decide_eq_false (String.lt_asymm h), Bool.not_false]

/-- The page after a name is the first part of what comes after it. -/
theorem HoldsOnly.hits_search (wf : c.HoldsOnly P s) (p : Predicate) (after : Option String) :
    (s.search c.index (c.pageRequest p after)).hits =
      ((c.selectAfter p s after).take c.pageSize).map hitOf := by
  rw [Store.search, pageRequest, wf.matching_eq]
  cases after with
  | none => simp [selectAfter, List.map_take]
  | some name =>
    simp [selectAfter, List.map_take, List.filter_map, Function.comp_def, sortName_hitOf]

/-- After a full page, what is still to be read is the rest without the page. -/
theorem HoldsOnly.selectAfter_page (wf : c.HoldsOnly P s) (hsize : 0 < c.pageSize) {p : Predicate}
    {seen rest : List α} (hselect : c.select p s = seen ++ rest)
    (hfull : c.pageSize ≤ rest.length) :
    c.select p s = (seen ++ rest.take c.pageSize) ++ rest.drop c.pageSize ∧
      c.selectAfter p s ((rest.take c.pageSize).getLast?.map Entity.name) =
        rest.drop c.pageSize := by
  have hsplit : c.select p s = (seen ++ rest.take c.pageSize) ++ rest.drop c.pageSize := by
    rw [hselect, List.append_assoc, List.take_append_drop]
  have hne : rest.take c.pageSize ≠ [] := by
    rw [← List.length_pos_iff, List.length_take]
    omega
  have hlast := List.getLast?_eq_some_getLast hne
  refine ⟨hsplit, ?_⟩
  rw [hlast, Option.map_some, selectAfter, hsplit]
  refine filter_after_last (hsplit ▸ wf.select_ascending p) ?_
  rw [List.getLast?_append, hlast, Option.some_or]

omit [Entity α] [LawfulEntity α] in
/-- A full page takes one page off the rest. -/
theorem length_drop_div (hsize : 0 < c.pageSize) {rest : List α}
    (hfull : c.pageSize ≤ rest.length) :
    (rest.drop c.pageSize).length / c.pageSize + 1 = rest.length / c.pageSize := by
  rw [List.length_drop, Nat.div_eq_sub_div hsize hfull]

/-- Reading on from a name returns the rest that comes after it. -/
theorem returns_findFrom (wf : c.HoldsOnly P b.store) (hsize : 0 < c.pageSize) (p : Predicate)
    {budget : Nat} {after : Option String} {seen rest found : List α}
    (hselect : c.select p b.store = seen ++ rest) (hrest : c.selectAfter p b.store after = rest) :
    (c.findFrom p budget after).Returns b found ↔
      b.available = true ∧ c.Fits b ∧ rest.length / c.pageSize < budget ∧ found = rest := by
  induction budget generalizing after seen rest found with
  | zero => simp [findFrom]
  | succ budget ih =>
    rw [findFrom, returns_search_bind, wf.hits_search, hrest, decodeHits_map,
      returns_bind (readOnly_ofExcept _)]
    simp only [returns_ofExcept, Except.ok.injEq, exists_eq_left']
    refine and_congr_right fun _ => and_congr_right fun _ => ?_
    split
    · rename_i hshort
      have hlt : rest.length < c.pageSize := by
        rw [List.length_take] at hshort
        omega
      rw [List.take_of_length_le (Nat.le_of_lt hlt), Nat.div_eq_of_lt hlt]
      simp
    · rename_i hfull
      have hle : c.pageSize ≤ rest.length := by
        rw [List.length_take] at hfull
        omega
      obtain ⟨hsplit, hnext⟩ := wf.selectAfter_page hsize hselect hle
      -- A full page takes one page off the rest, and one off the budget.
      have hpages : (rest.drop c.pageSize).length / c.pageSize < budget ↔
          rest.length / c.pageSize < budget + 1 := by
        rw [← length_drop_div hsize hle]
        omega
      rw [returns_bind (c.readOnly_findFrom p budget _)]
      simp only [pure_eq, returns_done]
      constructor
      · rintro ⟨more, hmore, rfl⟩
        obtain ⟨-, -, hbudget, rfl⟩ := (ih hsplit hnext).mp hmore
        exact ⟨hpages.mp hbudget, List.take_append_drop _ _⟩
      · rintro ⟨hbudget, rfl⟩
        refine ⟨_, (ih hsplit hnext).mpr ⟨‹_›, ‹_›, hpages.mpr hbudget, rfl⟩, ?_⟩
        exact (List.take_append_drop _ _).symm

/-- A whole result set is read exactly if the backend answers, a page fits its window and
the budget allows for the full pages and the last one. -/
theorem returns_findMatching (wf : c.HoldsOnly P b.store) (hsize : 0 < c.pageSize) {p : Predicate}
    {budget : Nat} {found : List α} :
    (c.findMatching budget p).Returns b found ↔
      b.available = true ∧ c.Fits b ∧ (c.select p b.store).length / c.pageSize < budget ∧
        found = c.select p b.store :=
  returns_findFrom wf hsize p (List.nil_append _).symm rfl

end Collection

end ChannelDirectory

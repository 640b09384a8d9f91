import ChannelDirectory.Proofs.Program.Calls
import ChannelDirectory.Proofs.Program.Endings
import ChannelDirectory.Proofs.Record.Naming
import ChannelDirectory.Proofs.Store.Matching

/-!
# When reading page by page makes progress

A reading asks for the hits after the name of the last record of the page before, while the
backend compares with the names by which it sorts. Both names agree for documents that are
objects. A document that is an array may have a record whose name comes before the id by which
the document is sorted (`Hit.Misplaced`), and if it is the last one of a page, the next page
brings it again.

This is all that can go wrong, whatever the index holds : `findMatching_reads_once_iff` says that
a reading ends, with ascending names to start after and no document delivered twice, exactly if
none of its full pages steps back in this way. The proof follows the hits that are still to be
read (`Store.matchingAfter`) : a full page that does not step back is taken off them
(`matchingAfter_next_sublist`), and one that does finds its last document among the next ones
(`mem_page_next`).
-/

namespace ChannelDirectory

open Collection Program

/-! ## One page -/

namespace Collection

variable {α : Type} [Entity α] {c : Collection α} {b : Backend} {p : Predicate} {budget : Nat}
  {after : Option String}

omit [Entity α] in
/-- The hits of a page are the first of those that match after the name. -/
theorem hits_search_eq (c : Collection α) (s : Store) (p : Predicate) (after : Option String) :
    (s.search c.index (c.pageRequest p after)).hits =
      (s.matchingAfter c.index p after).take c.pageSize := by
  cases after <;> rfl

/-- The last record of a page is that of its last hit. -/
theorem getLast?_of_decodeHits {hits : List Hit} {records : List α}
    (h : c.decodeHits hits = .ok records) {last : Hit} (hlast : hits.getLast? = some last) :
    ∃ record : α, Entity.decode last.source = .ok record ∧ records.getLast? = some record := by
  have hall := List.forall₂_reverse_iff.mpr (mapM_eq_ok_iff.mp h)
  rw [List.getLast?_eq_head?_reverse] at hlast ⊢
  obtain ⟨init, hhits⟩ := List.head?_eq_some_iff.mp hlast
  rw [hhits, List.forall₂_cons_left_iff] at hall
  obtain ⟨record, rest, hdecode, -, hrecords⟩ := hall
  exact ⟨record, decode_eq_ok_iff.mp hdecode, by rw [hrecords, List.head?_cons]⟩

/-- A document is no record. -/
def NoRecord (c : Collection α) (e : Error) : Prop :=
  ∃ id cause, e = .invalidDocument c.index id cause

theorem noRecord_of_decodeHits {hits : List Hit} {e : Error} (h : c.decodeHits hits = .error e) :
    c.NoRecord e := by
  obtain ⟨hit, -, hfail⟩ := exists_of_mapM_eq_error h
  obtain ⟨cause, rfl⟩ := invalidDocument_of_decode hfail
  exact ⟨hit.id, cause, rfl⟩

/-- After these hits a reading goes on, and this is the last one and its record. -/
structure GoesOn (c : Collection α) (hits : List Hit) (last : Hit) (record : α) : Prop where
  full : hits.length = c.pageSize
  decodes : ∃ records, c.decodeHits hits = .ok records
  last_eq : hits.getLast? = some last
  decode_eq : Entity.decode last.source = .ok record

theorem goesOn_singleton (hsize : c.pageSize = 1) {hit : Hit} {record : α}
    (h : Entity.decode hit.source = .ok record) : c.GoesOn [hit] hit record where
  full := hsize.symm
  decodes := by
    refine ⟨[record], mapM_eq_ok_iff.mpr (.cons (decode_eq_ok_iff.mpr h) .nil)⟩
  last_eq := rfl
  decode_eq := h

/-- The search for a page of a reading, and its answer. -/
def turn (c : Collection α) (b : Backend) (p : Predicate) (after : Option String) : Call :=
  ⟨.search c.index (c.pageRequest p after), .ok (b.store.search c.index (c.pageRequest p after))⟩

omit [Entity α] in
theorem after?_turn : (c.turn b p after).after? = after := rfl

omit [Entity α] in
theorem hits_turn :
    (c.turn b p after).hits = (b.store.matchingAfter c.index p after).take c.pageSize :=
  c.hits_search_eq b.store p after

/-- What a reading does with a page. -/
def takePage (c : Collection α) (p : Predicate) (budget : Nat) (hits : List Hit) :
    Program (List α) := do
  let records ← ofExcept (c.decodeHits hits)
  if records.length < c.pageSize then return records
  else
    let more ← c.findFrom p budget (records.getLast?.map Entity.name)
    return records ++ more

/-- A reading is a search for a page and what is done with its hits. -/
theorem findFrom_succ (havail : b.available = true) (hfits : c.Fits b) (p : Predicate)
    (budget : Nat) (after : Option String) :
    (c.findFrom p (budget + 1) after).calls b =
        c.turn b p after :: (c.takePage p budget (c.turn b p after).hits).calls b ∧
      (c.findFrom p (budget + 1) after).run b =
        (c.takePage p budget (c.turn b p after).hits).run b := by
  have hanswer := hfits.handle_search havail p after
  exact ⟨calls_request_bind rfl hanswer, run_request_bind rfl hanswer⟩

/-- A page that cannot be decoded ends the reading. -/
theorem takePage_of_error {hits : List Hit} {e : Error} (h : c.decodeHits hits = .error e) :
    c.takePage p budget hits = fail e := by
  rw [takePage, h]
  rfl

/-- A page that is not full is the last. -/
theorem takePage_of_short {hits : List Hit} {records : List α}
    (h : c.decodeHits hits = .ok records) (hshort : records.length < c.pageSize) :
    c.takePage p budget hits = done records := by
  rw [takePage, h]
  exact if_pos hshort

/-- The reading goes on after the name of the last record. -/
theorem GoesOn.takePage_eq {hits : List Hit} {last : Hit} {record : α}
    (h : c.GoesOn hits last record) (p : Predicate) (budget : Nat) :
    ∃ records, c.takePage p budget hits =
      c.findFrom p budget (some (Entity.name record)) >>= fun more => done (records ++ more) := by
  obtain ⟨hfull, ⟨records, hdecode⟩, hlast, hrecord⟩ := h
  have hlength : hits.length = records.length := (mapM_eq_ok_iff.mp hdecode).length_eq
  have hnext : records.getLast?.map Entity.name = some (Entity.name record) := by
    obtain ⟨record', hrecord', hlast'⟩ := getLast?_of_decodeHits hdecode hlast
    rw [hrecord] at hrecord'
    rw [hlast', Option.map_some, Except.ok.inj hrecord']
  refine ⟨records, ?_⟩
  rw [takePage, hdecode, ← hnext]
  exact if_neg (by omega)

/-- Before a full page, at least as many hits are still to be read. -/
theorem GoesOn.pageSize_le {last : Hit} {record : α}
    (h : c.GoesOn (c.turn b p after).hits last record) :
    c.pageSize ≤ (b.store.matchingAfter c.index p after).length := by
  rw [← h.full, hits_turn]
  exact List.length_take_le' _ _

/-- A page of records after which a reading does not go on is not full. -/
theorem length_lt_of_not_goesOn (hsize : 0 < c.pageSize) {records : List α}
    (hdecode : c.decodeHits (c.turn b p after).hits = .ok records)
    (h : ¬∃ last record, c.GoesOn (c.turn b p after).hits last record) :
    records.length < c.pageSize := by
  have hlength : (c.turn b p after).hits.length = records.length :=
    (mapM_eq_ok_iff.mp hdecode).length_eq
  have hle : (c.turn b p after).hits.length ≤ c.pageSize := by
    rw [hits_turn]
    exact List.length_take_le _ _
  by_contra hfull
  have hne : (c.turn b p after).hits ≠ [] := List.ne_nil_of_length_pos (by omega)
  have hlast := List.getLast?_eq_some_getLast hne
  obtain ⟨record, hrecord, -⟩ := getLast?_of_decodeHits hdecode hlast
  exact h ⟨_, record, by omega, ⟨records, hdecode⟩, hlast, hrecord⟩

/-- A reading ends with a page, or it goes on after the name of the last record. -/
theorem findFrom_cases (havail : b.available = true) (hfits : c.Fits b) (hsize : 0 < c.pageSize)
    (p : Predicate) (budget : Nat) (after : Option String) :
    ((∀ last record, ¬c.GoesOn (c.turn b p after).hits last record) ∧
        (c.findFrom p (budget + 1) after).calls b = [c.turn b p after] ∧
        (c.findFrom p (budget + 1) after).EndsIn b c.NoRecord False) ∨
      ∃ last record, c.GoesOn (c.turn b p after).hits last record ∧
        (c.findFrom p (budget + 1) after).calls b =
          c.turn b p after :: (c.findFrom p budget (some (Entity.name record))).calls b ∧
        ((c.findFrom p budget (some (Entity.name record))).EndsIn b c.NoRecord False →
          (c.findFrom p (budget + 1) after).EndsIn b c.NoRecord False) := by
  obtain ⟨hcalls, hrun⟩ := findFrom_succ havail hfits p budget after
  rw [hcalls, EndsIn, hrun]
  by_cases hgo : ∃ last record, c.GoesOn (c.turn b p after).hits last record
  · obtain ⟨last, record, hgo⟩ := hgo
    obtain ⟨records, htake⟩ := hgo.takePage_eq p budget
    rw [htake, calls_bind_done]
    refine Or.inr ⟨last, record, hgo, rfl, fun hrest => ?_⟩
    exact hrest.bind (c.readOnly_findFrom p budget _) fun more _ => endsIn_done _
  · refine Or.inl ⟨fun last record h => hgo ⟨last, record, h⟩, ?_⟩
    cases hdecode : c.decodeHits (c.turn b p after).hits with
    | error e =>
      rw [takePage_of_error hdecode]
      exact ⟨rfl, noRecord_of_decodeHits hdecode⟩
    | ok records =>
      rw [takePage_of_short hdecode (length_lt_of_not_goesOn hsize hdecode hgo)]
      exact ⟨rfl, trivial⟩

/-- A reading that goes on uses up its budget if the rest of it does. -/
theorem GoesOn.run_eq_exhausted (havail : b.available = true) (hfits : c.Fits b) {last : Hit}
    {record : α} (h : c.GoesOn (c.turn b p after).hits last record)
    (hrest : ((c.findFrom p budget (some (Entity.name record))).run b).1 = .exhausted) :
    ((c.findFrom p (budget + 1) after).run b).1 = .exhausted := by
  obtain ⟨records, htake⟩ := h.takePage_eq p budget
  rw [(findFrom_succ havail hfits p budget after).2, htake,
    (c.readOnly_findFrom p budget _).run_bind, hrest]

/-- A page that leads back to the name that it starts after is read over and over. -/
theorem GoesOn.circles (havail : b.available = true) (hfits : c.Fits b) {name : String} {last : Hit}
    {record : α} (h : c.GoesOn (c.turn b p (some name)).hits last record)
    (hname : Entity.name record = name) (budget : Nat) :
    ((c.findFrom p budget (some name)).run b).1 = .exhausted := by
  induction budget with
  | zero => rfl
  | succ budget ih => exact h.run_eq_exhausted havail hfits (hname ▸ ih)

/-- Every call of a reading is a search for a page. -/
theorem exists_turn_of_mem_calls (havail : b.available = true) (hfits : c.Fits b)
    (hsize : 0 < c.pageSize) {call : Call} (hcall : call ∈ (c.findFrom p budget after).calls b) :
    ∃ after', call = c.turn b p after' := by
  induction budget generalizing after with
  | zero => cases hcall
  | succ budget ih =>
    rcases findFrom_cases havail hfits hsize p budget after with
      ⟨-, hcalls, -⟩ | ⟨last, record, -, hcalls, -⟩
    · rw [hcalls] at hcall
      exact ⟨after, List.mem_singleton.mp hcall⟩
    · rw [hcalls] at hcall
      rcases List.mem_cons.mp hcall with rfl | hmore
      · exact ⟨after, rfl⟩
      · exact ih hmore

/-! ## A whole reading -/

/-- The reading goes on after these hits, and the last one is sorted after the name of its
record. -/
def StepsBack (c : Collection α) (hits : List Hit) : Prop :=
  ∃ last record, c.GoesOn hits last record ∧ last.Misplaced

/-- What a reading from a name on achieves : it delivers some of the hits that are still to be
read, and starts its searches after greater and greater names. -/
structure Advances (c : Collection α) (p : Predicate) (b : Backend) (budget : Nat)
    (after : Option String) : Prop where
  ends : (c.findFrom p budget after).EndsIn b c.NoRecord False
  ascending : (((c.findFrom p budget after).calls b).filterMap Call.after?).Pairwise (· < ·)
  delivered : (((c.findFrom p budget after).calls b).flatMap Call.hits).Sublist
    (b.store.matchingAfter c.index p after)
  few : ((c.findFrom p budget after).calls b).length ≤
    (b.store.matchingAfter c.index p after).length + 1

/-- A reading ends, with records or at a document that is no record. Its searches start after
greater and greater names, no document is delivered twice, and there is at most one search more
than there are documents to find. -/
structure ReadsOnce (c : Collection α) (p : Predicate) (b : Backend) (budget : Nat) : Prop where
  ends : (c.findMatching budget p).EndsIn b c.NoRecord False
  ascending : (((c.findMatching budget p).calls b).filterMap Call.after?).Pairwise (· < ·)
  once : ((((c.findMatching budget p).calls b).flatMap Call.hits).map Hit.id).Nodup
  few : ((c.findMatching budget p).calls b).length ≤ (b.store.matching c.index p).length + 1

variable [NamedEntity α]

/-- The name of the last record is not before the one by which its document is sorted. -/
theorem GoesOn.sortName_le {hits : List Hit} {last : Hit} {record : α}
    (h : c.GoesOn hits last record) (hplace : ¬last.Misplaced) :
    last.sortName ≤ Entity.name record := by
  rw [← String.not_lt, Hit.name_lt_sortName_iff (NamedEntity.named_of_decode h.decode_eq)]
  exact hplace

/-- A full page that does not step back leads to a later name. -/
theorem GoesOn.lt_name {last : Hit} {record : α} (h : c.GoesOn (c.turn b p after).hits last record)
    (hplace : ¬last.Misplaced) : ∀ name ∈ after, name < Entity.name record := by
  intro name hname
  have hmem : last ∈ b.store.matchingAfter c.index p after := by
    have := List.mem_of_mem_getLast? h.last_eq
    rw [hits_turn] at this
    exact List.mem_of_mem_take this
  exact Std.lt_of_lt_of_le (Store.lt_of_mem_matchingAfter hmem name hname) (h.sortName_le hplace)

/-- A full page that does not step back leaves less to read. -/
theorem GoesOn.matchingAfter_sublist {last : Hit} {record : α}
    (h : c.GoesOn (c.turn b p after).hits last record) (hplace : ¬last.Misplaced) :
    (b.store.matchingAfter c.index p (some (Entity.name record))).Sublist
      ((b.store.matchingAfter c.index p after).drop c.pageSize) := by
  refine Store.matchingAfter_next_sublist ?_ (h.sortName_le hplace)
  rw [← hits_turn]
  exact h.last_eq

/-- After a full page less is left to read, unless its last document is in the wrong place. -/
theorem GoesOn.length_matchingAfter_lt (hsize : 0 < c.pageSize) {last : Hit} {record : α}
    (h : c.GoesOn (c.turn b p after).hits last record) (hplace : ¬last.Misplaced) :
    (b.store.matchingAfter c.index p (some (Entity.name record))).length <
      (b.store.matchingAfter c.index p after).length := by
  have hle := (h.matchingAfter_sublist hplace).length_le
  have hfull := h.pageSize_le
  rw [List.length_drop] at hle
  omega

omit [Entity α] [NamedEntity α] in
theorem filterMap_after?_turn (calls : List Call) :
    (c.turn b p after :: calls).filterMap Call.after? =
      after.toList ++ calls.filterMap Call.after? := by
  rw [List.filterMap_cons, after?_turn]
  cases after <;> rfl

omit [NamedEntity α] in
/-- A reading from a name on starts with the search after this name. -/
theorem exists_calls_eq (havail : b.available = true) (hfits : c.Fits b) (hbudget : 0 < budget)
    (p : Predicate) (after : Option String) :
    ∃ more, (c.findFrom p budget after).calls b = c.turn b p after :: more := by
  obtain ⟨budget, rfl⟩ := Nat.exists_eq_add_one_of_ne_zero (Nat.ne_zero_of_lt hbudget)
  exact ⟨_, (findFrom_succ havail hfits p budget after).1⟩

/-- Ascending names go on ascending behind an earlier one. -/
theorem ascending_append {name : String} {names : List String}
    (h : (name :: names).Pairwise (· < ·)) (hlater : ∀ name' ∈ after, name' < name) :
    (after.toList ++ name :: names).Pairwise (· < ·) := by
  cases after with
  | none => exact h
  | some name' =>
    refine List.pairwise_cons.mpr ⟨fun other hother => ?_, h⟩
    rcases List.mem_cons.mp hother with rfl | hother
    · exact hlater name' rfl
    · exact String.lt_trans (hlater name' rfl) ((List.pairwise_cons.mp h).1 other hother)

/-- If no page steps back, a reading advances. -/
theorem advances (havail : b.available = true) (hfits : c.Fits b) (hsize : 0 < c.pageSize)
    (hbudget : (b.store.matchingAfter c.index p after).length < budget)
    (h : ∀ call ∈ (c.findFrom p budget after).calls b, ¬c.StepsBack call.hits) :
    c.Advances p b budget after := by
  induction budget generalizing after with
  | zero => exact absurd hbudget (Nat.not_lt_zero _)
  | succ budget ih =>
    rcases findFrom_cases havail hfits hsize p budget after with
      ⟨-, hcalls, hends⟩ | ⟨last, record, hgo, hcalls, hends⟩
    · refine ⟨hends, ?_, ?_, ?_⟩
      · rw [hcalls, filterMap_after?_turn]
        cases after <;> simp
      · rw [hcalls, List.flatMap_singleton, hits_turn]
        exact List.take_sublist _ _
      · rw [hcalls, List.length_singleton]
        exact Nat.le_add_left _ _
    · rw [hcalls] at h
      obtain ⟨hfirst, hmore⟩ := List.forall_mem_cons.mp h
      have hplace : ¬last.Misplaced := fun hplace => hfirst ⟨last, record, hgo, hplace⟩
      have hless := hgo.length_matchingAfter_lt hsize hplace
      have hrest : c.Advances p b budget (some (Entity.name record)) := ih (by omega) hmore
      refine ⟨hends hrest.ends, ?_, ?_, ?_⟩
      · obtain ⟨more, heq⟩ := exists_calls_eq havail hfits (by omega : 0 < budget) p
          (some (Entity.name record))
        have hascending := hrest.ascending
        rw [hcalls, filterMap_after?_turn]
        rw [heq, filterMap_after?_turn] at hascending ⊢
        exact ascending_append hascending (hgo.lt_name hplace)
      · have hdelivered := (List.Sublist.refl (c.turn b p after).hits).append
          (hrest.delivered.trans (hgo.matchingAfter_sublist hplace))
        rw [hits_turn, List.take_append_drop] at hdelivered
        rw [hcalls, List.flatMap_cons, hits_turn]
        exact hdelivered
      · rw [hcalls, List.length_cons]
        have := hrest.few
        omega

/-- A page that steps back is the first one of two that deliver the same document, or leads to a
name that is not greater. -/
theorem not_stepsBack (havail : b.available = true) (hfits : c.Fits b) (hsize : 0 < c.pageSize)
    (hbudget : (b.store.matchingAfter c.index p after).length < budget)
    (ascending : (((c.findFrom p budget after).calls b).filterMap Call.after?).Pairwise (· < ·))
    (once : ((((c.findFrom p budget after).calls b).flatMap Call.hits).map Hit.id).Nodup) :
    ∀ call ∈ (c.findFrom p budget after).calls b, ¬c.StepsBack call.hits := by
  induction budget generalizing after with
  | zero => exact absurd hbudget (Nat.not_lt_zero _)
  | succ budget ih =>
    rcases findFrom_cases havail hfits hsize p budget after with
      ⟨hstop, hcalls, -⟩ | ⟨last, record, hgo, hcalls, -⟩
    · rw [hcalls]
      rintro call hcall ⟨last, record, hgo, -⟩
      rw [List.mem_singleton.mp hcall] at hgo
      exact hstop last record hgo
    · rw [hcalls, filterMap_after?_turn, List.pairwise_append] at ascending
      rw [hcalls, List.flatMap_cons, List.map_append, List.nodup_append] at once
      have hfull := hgo.pageSize_le
      obtain ⟨more, heq⟩ := exists_calls_eq havail hfits (by omega : 0 < budget) p
        (some (Entity.name record))
      have hplace : ¬last.Misplaced := by
        intro hplace
        have hlater : ∀ name ∈ after, name < Entity.name record := by
          rintro name rfl
          refine ascending.2.2 name (List.mem_singleton_self _) _ ?_
          rw [heq, filterMap_after?_turn]
          exact List.mem_cons_self
        have hagain : last ∈ (c.turn b p (some (Entity.name record))).hits := by
          rw [hits_turn]
          refine Store.mem_page_next (hits_turn (c := c) ▸ hgo.last_eq) hlater ?_
          exact (Hit.name_lt_sortName_iff (NamedEntity.named_of_decode hgo.decode_eq)).mpr hplace
        refine once.2.2 last.id (List.mem_map_of_mem (List.mem_of_mem_getLast? hgo.last_eq))
          last.id (List.mem_map_of_mem ?_) rfl
        rw [heq, List.flatMap_cons]
        exact List.mem_append_left _ hagain
      have hless := hgo.length_matchingAfter_lt hsize hplace
      rw [hcalls, List.forall_mem_cons]
      refine ⟨?_, ih (by omega) ascending.2.1 once.2.1⟩
      rintro ⟨last', record', hgo', hplace'⟩
      have hsame : last' = last := Option.some.inj (hgo'.last_eq.symm.trans hgo.last_eq)
      exact hplace (hsame ▸ hplace')

/-- A reading ends, and delivers no document twice, exactly if none of its pages steps back; so it
does if no document that satisfies the predicate is an array whose first text comes before its
id. The backend is assumed to match every predicate (`Store.matching`). -/
theorem findMatching_reads_once_iff (c : Collection α) (b : Backend) (p : Predicate) (budget : Nat)
    (havail : b.available = true) (hsize : 0 < c.pageSize) (hwindow : c.pageSize ≤ b.window)
    (hbudget : (b.store.matching c.index p).length < budget) :
    (c.ReadsOnce p b budget ↔
        ∀ call ∈ (c.findMatching budget p).calls b, ¬c.StepsBack call.hits) ∧
      ((∀ hit ∈ b.store.matching c.index p, ¬hit.Misplaced) → c.ReadsOnce p b budget) := by
  have hfits : c.Fits b := fits_of_pageSize_le hwindow
  have hiff : c.ReadsOnce p b budget ↔
      ∀ call ∈ (c.findMatching budget p).calls b, ¬c.StepsBack call.hits := by
    constructor
    · intro h
      exact not_stepsBack havail hfits hsize hbudget h.ascending h.once
    · intro h
      have hadvances : c.Advances p b budget none := advances havail hfits hsize hbudget h
      refine ⟨hadvances.ends, hadvances.ascending, ?_, hadvances.few⟩
      exact (Store.nodup_ids_matching b.store c.index p).sublist (hadvances.delivered.map Hit.id)
  refine ⟨hiff, fun hplace => hiff.mpr ?_⟩
  rintro call hcall ⟨last, record, hgo, hmisplaced⟩
  obtain ⟨after, rfl⟩ := exists_turn_of_mem_calls havail hfits hsize hcall
  have hlast : last ∈ (b.store.matchingAfter c.index p after).take c.pageSize := by
    rw [← hits_turn]
    exact List.mem_of_mem_getLast? hgo.last_eq
  exact hplace last ((Store.matchingAfter_sublist b.store c.index p after).subset
    (List.mem_of_mem_take hlast)) hmisplaced

/-! ## An array among objects -/

/-- Two channels, and an array that stands for a channel and is sorted between them. -/
def withArray (name : String) : Backend where
  store := ((Store.empty.put "channelfinder" "a" (.object [("name", .string "a")])).put
    "channelfinder" "c" (.array [.string name])).put
      "channelfinder" "d" (.object [("name", .string "d")])

/-- The channels, in pages of a size. -/
def channelPages (size : Nat) : Collection Channel := ⟨"channelfinder", size⟩

/-- An array whose name comes after its id is passed like any other document. -/
theorem withArray_read_once : (channelPages 1).ReadsOnce .matchAll (withArray "cc") 4 ∧
    (((channelPages 1).findMatching 4 .matchAll).calls (withArray "cc")).filterMap Call.after? =
      ["a", "cc", "d"] := by
  have hmatching : (withArray "cc").store.matching "channelfinder" .matchAll =
      [⟨"a", .object [("name", .string "a")]⟩, ⟨"c", .array [.string "cc"]⟩,
        ⟨"d", .object [("name", .string "d")]⟩] := by
    cbv
  refine ⟨(findMatching_reads_once_iff (channelPages 1) (withArray "cc") .matchAll 4 rfl (by decide)
    (by decide) ?_).2 ?_, ?_⟩
  · change ((withArray "cc").store.matching "channelfinder" .matchAll).length < 4
    rw [hmatching]
    decide
  · change ∀ hit ∈ (withArray "cc").store.matching "channelfinder" .matchAll, ¬hit.Misplaced
    rw [hmatching]
    decide
  · cbv

/-- An array whose name comes before its id is delivered on two pages of two, and pages of one
never get past it. -/
theorem withArray_read_twice : ¬(channelPages 2).ReadsOnce .matchAll (withArray "b") 4 ∧
    ∀ budget, (((channelPages 1).findMatching budget .matchAll).run (withArray "b")).1 =
      .exhausted := by
  constructor
  · intro h
    have hids : ((((channelPages 2).findMatching 4 .matchAll).calls (withArray "b")).flatMap
        Call.hits).map Hit.id = ["a", "c", "c", "d"] := by
      cbv
    exact absurd (hids ▸ h.once) (by decide)
  · have hfits : (channelPages 1).Fits (withArray "b") := fits_of_pageSize_le (by decide)
    have hfirst : ((channelPages 1).turn (withArray "b") .matchAll none).hits =
        [⟨"a", .object [("name", .string "a")]⟩] := by
      cbv
    have hsecond : ((channelPages 1).turn (withArray "b") .matchAll (some "a")).hits =
        [⟨"c", .array [.string "b"]⟩] := by
      cbv
    have hthird : ((channelPages 1).turn (withArray "b") .matchAll (some "b")).hits =
        [⟨"c", .array [.string "b"]⟩] := by
      cbv
    have hgo : ∀ {after : Option String} {hit : Hit} (c : Channel),
        ((channelPages 1).turn (withArray "b") .matchAll after).hits = [hit] →
          Entity.decode hit.source = .ok c →
            (channelPages 1).GoesOn ((channelPages 1).turn (withArray "b") .matchAll after).hits
              hit c := by
      intro after hit c hhits hdecode
      rw [hhits]
      exact goesOn_singleton rfl hdecode
    have hcircles : ∀ budget, (((channelPages 1).findFrom .matchAll budget (some "b")).run
        (withArray "b")).1 = .exhausted :=
      (hgo ⟨"b", "", [], []⟩ hthird rfl).circles rfl hfits rfl
    have hpast : ∀ budget, (((channelPages 1).findFrom .matchAll budget (some "a")).run
        (withArray "b")).1 = .exhausted := by
      intro budget
      cases budget with
      | zero => rfl
      | succ budget =>
        exact (hgo ⟨"b", "", [], []⟩ hsecond rfl).run_eq_exhausted rfl hfits (hcircles budget)
    intro budget
    cases budget with
    | zero => rfl
    | succ budget =>
      exact (hgo ⟨"a", "", [], []⟩ hfirst rfl).run_eq_exhausted rfl hfits (hpast budget)

end Collection

end ChannelDirectory

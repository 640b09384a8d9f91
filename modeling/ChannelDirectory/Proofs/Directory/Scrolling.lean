import ChannelDirectory.Proofs.Directory.Selection
import ChannelDirectory.Proofs.Program.Interleaving
import ChannelDirectory.Scroll

/-!
# Scrolling among other clients

A scroll delivers the channels that satisfied its predicate when it was opened, by name and page
by page. Its cursor holds what is still to be delivered (`Backend.Holds`), and between the calls of
the reader nobody else touches it, whatever else they write, open or close. So each call takes one
page off the rest (`runShared_nextPage`), a page that is not full is the last one and closes the
cursor, and every later call fails (`runShared_nextPage_lost`).

`Directory.scroll_delivers_snapshot` puts the calls of a whole reading together, each through a
directory of its own : what the pages hold does not depend on who called what in between.
-/

namespace ChannelDirectory

open Collection Program

/-! ## Pages of a list -/

/-- A list consists of full pages and a last one that is not full. -/
theorem exists_pages {α : Type} {size : Nat} (hsize : 0 < size) (items : List α) :
    ∃ (pages : List (List α)) (last : List α), pages.flatten ++ last = items ∧
      (∀ page ∈ pages, page.length = size) ∧ last.length < size := by
  induction hlength : items.length using Nat.strongRecOn generalizing items with
  | ind length ih =>
    subst hlength
    by_cases hshort : items.length < size
    · exact ⟨[], items, rfl, by simp, hshort⟩
    · obtain ⟨pages, last, hitems, hfull, hlast⟩ :=
        ih (items.drop size).length (by rw [List.length_drop]; omega) (items.drop size) rfl
      refine ⟨items.take size :: pages, last, ?_, ?_, hlast⟩
      · rw [List.flatten_cons, List.append_assoc, hitems, List.take_append_drop]
      · simp only [List.forall_mem_cons]
        exact ⟨by rw [List.length_take]; omega, hfull⟩

namespace Directory

variable {dir : Directory} {b : Backend} {s : Shared} {p : Predicate} {serial size : Nat}
  {P : Channel → Prop}

/-! ## One page -/

/-- The cursor of a reader has these full pages and this last one to deliver, and no other client
touches it. -/
structure Offers (s : Shared) (serial size : Nat) (pages : List (List Channel))
    (last : List Channel) : Prop where
  holds : s.backend.Holds serial ((pages.flatten ++ last).map hitOf) size
  spares : s.Spares serial
  full : ∀ page ∈ pages, page.length = size
  short : last.length < size

/-- The first page of those that are to be delivered. -/
def firstPage (serial : Nat) : List (List Channel) → List Channel → ScrollPage
  | [], last => ⟨none, last⟩
  | page :: _, _ => ⟨some (.issued serial), page⟩

/-- How the first page leaves the cursor : the last page closes it. -/
def Turned (s : Shared) (serial size : Nat) : List (List Channel) → List Channel → Prop
  | [], _ => s.backend.Lost serial
  | _ :: pages, last => Offers s serial size pages last

variable {pages : List (List Channel)} {last : List Channel}

/-- A batch that has been fetched is the first page of what there was to deliver. -/
theorem runShared_finishPage (dir : Directory) (spares : s.Spares serial)
    (full : ∀ page ∈ pages, page.length = size) (short : last.length < size)
    (holds : s.backend.Holds serial (((pages.flatten ++ last).map hitOf).drop size) size) :
    ∃ s', (dir.finishPage ⟨.issued serial, ((pages.flatten ++ last).map hitOf).take size,
        size⟩).runShared s = (.ok (firstPage serial pages last), s') ∧
      Turned s' serial size pages last := by
  cases pages with
  | nil =>
    rw [List.flatten_nil, List.nil_append] at holds ⊢
    rw [List.take_of_length_le (by rw [List.length_map]; omega)]
    refine ⟨(s.handle (.closeScroll (.issued serial))).2, ?_, ?_⟩
    · rw [finishPage, decodeHits_map]
      change (if (last.map hitOf).length < size then _ else _ : Program ScrollPage).runShared s = _
      rw [if_pos (by rwa [List.length_map])]
      exact runShared_request_bind holds.handle_closeScroll.1
    · exact Shared.lost_handle holds.handle_closeScroll.2
  | cons page pages =>
    obtain ⟨hpage, full⟩ := List.forall_mem_cons.mp full
    have hsplit : ((page :: pages).flatten ++ last).map (hitOf (α := Channel)) =
        page.map hitOf ++ (pages.flatten ++ last).map hitOf := by
      rw [List.flatten_cons, List.append_assoc, List.map_append]
    have hlength : (page.map (hitOf (α := Channel))).length = size := by rw [List.length_map, hpage]
    rw [hsplit, List.drop_left' hlength] at holds
    rw [hsplit, List.take_left' hlength]
    refine ⟨s, ?_, holds, spares, full, short⟩
    rw [finishPage, decodeHits_map]
    change (if (page.map hitOf).length < size then _ else _ : Program ScrollPage).runShared s = _
    rw [if_neg (by omega)]
    rfl

/-- Opening a scroll delivers its first page. -/
theorem runShared_openScroll (havail : b.available = true) (fresh : b.Fresh)
    (wf : dir.channels.HoldsOnly P b.store) (hlife : dir.config.scrollLifetime ≠ 0)
    (hselect : pages.flatten ++ last = dir.channels.select p b.store)
    (full : ∀ page ∈ pages, page.length = size) (short : last.length < size)
    {others : List (List Request)} (spares : Shared.Spares ⟨b, others⟩ b.nextSerial) :
    ∃ s', (dir.openScroll size p).runShared ⟨b, others⟩ =
        (.ok (firstPage b.nextSerial pages last), s') ∧
      Turned s' b.nextSerial size pages last := by
  obtain ⟨hanswer, holds⟩ := Backend.handle_openScroll havail fresh (Nat.ne_zero_of_lt short)
    hlife dir.config.channelIndex p
  have hmatching : b.store.matching dir.config.channelIndex p =
      (pages.flatten ++ last).map hitOf := by
    rw [hselect]
    exact wf.matching_eq p
  rw [hmatching] at hanswer holds
  obtain ⟨s', hrun, hturned⟩ := runShared_finishPage dir (spares.handle _) full short
    (Shared.holds_handle spares holds)
  exact ⟨s', (runShared_request_bind hanswer).trans hrun, hturned⟩

/-- A call for the next page delivers the first one of what is left. -/
theorem runShared_nextPage (h : Offers s serial size pages last)
    (hlife : dir.config.scrollLifetime ≠ 0) :
    ∃ s', (dir.nextPage (.issued serial)).runShared s =
        (.ok (firstPage serial pages last), s') ∧ Turned s' serial size pages last := by
  obtain ⟨hanswer, holds⟩ := h.holds.handle_continueScroll hlife
  obtain ⟨s', hrun, hturned⟩ := runShared_finishPage dir (h.spares.handle _) h.full h.short
    (Shared.holds_handle h.spares holds)
  exact ⟨s', (runShared_request_bind hanswer).trans hrun, hturned⟩

/-- Once the cursor is closed, a call for the next page fails. -/
theorem runShared_nextPage_lost (dir : Directory) (h : s.backend.Lost serial) :
    ∃ s', (dir.nextPage (.issued serial)).runShared s =
        (.failed (.backend (.scrollNotFound (.issued serial))), s') ∧ s'.backend.Lost serial :=
  ⟨_, runShared_request_bind_error (h.handle_continueScroll _), Shared.lost_handle (h.handle _)⟩

/-! ## All pages -/

/-- Calls for the next page of a cursor, one after another, each through a directory of its
own. Their outcomes do not stop the reader. -/
def nextPages (cursor : CursorId) : List Directory → Shared → List (Outcome ScrollPage) × Shared
  | [], s => ([], s)
  | dir :: dirs, s =>
    let (outcome, s) := (dir.nextPage cursor).runShared s
    let (outcomes, s) := nextPages cursor dirs s
    (outcome :: outcomes, s)

/-- What the calls of a reader end with, who calls often enough : the full pages, the last page,
and then failures. -/
def deliveries (serial : Nat) (pages : List (List Channel)) (last : List Channel)
    (failures : Nat) : List (Outcome ScrollPage) :=
  pages.map (fun page => .ok ⟨some (.issued serial), page⟩) ++ .ok ⟨none, last⟩ ::
    List.replicate failures (.failed (.backend (.scrollNotFound (.issued serial))))

/-- A cursor that is lost is reported as not found at each further call, and stays lost. -/
theorem nextPages_lost (dirs : List Directory) (h : s.backend.Lost serial) :
    (nextPages (.issued serial) dirs s).1 =
        List.replicate dirs.length (.failed (.backend (.scrollNotFound (.issued serial)))) ∧
      (nextPages (.issued serial) dirs s).2.backend.Lost serial := by
  induction dirs generalizing s with
  | nil => exact ⟨rfl, h⟩
  | cons dir dirs ih =>
    obtain ⟨s', hrun, hlost⟩ := runShared_nextPage_lost dir h
    obtain ⟨houtcomes, hafter⟩ := ih hlost
    rw [nextPages, hrun]
    exact ⟨congrArg _ houtcomes, hafter⟩

/-- After the first page a reader gets the others one by one, and the last page closes the
cursor. -/
theorem nextPages_turned {dirs : List Directory} (h : Turned s serial size pages last)
    (hlife : ∀ dir ∈ dirs, dir.config.scrollLifetime ≠ 0) {failures : Nat}
    (hfailures : dirs.length ≤ failures) :
    .ok (firstPage serial pages last) :: (nextPages (.issued serial) dirs s).1 =
        (deliveries serial pages last failures).take (dirs.length + 1) ∧
      (pages.length ≤ dirs.length → (nextPages (.issued serial) dirs s).2.backend.Lost serial) := by
  induction dirs generalizing s pages with
  | nil =>
    cases pages with
    | nil => exact ⟨rfl, fun _ => h⟩
    | cons page pages => exact ⟨rfl, fun hle => absurd hle (Nat.not_succ_le_zero _)⟩
  | cons dir dirs ih =>
    cases pages with
    | nil =>
      obtain ⟨houtcomes, hlost⟩ := nextPages_lost (dir :: dirs) h
      refine ⟨congrArg _ (houtcomes.trans ?_), fun _ => hlost⟩
      exact (List.take_replicate.trans (by rw [Nat.min_eq_left hfailures])).symm
    | cons page pages =>
      obtain ⟨hfirst, hlife⟩ := List.forall_mem_cons.mp hlife
      obtain ⟨s', hrun, hturned⟩ := runShared_nextPage h hfirst
      obtain ⟨houtcomes, hlost⟩ := ih hturned hlife (Nat.le_of_succ_le hfailures)
      rw [nextPages, hrun]
      exact ⟨congrArg _ houtcomes, fun hle => hlost (Nat.le_of_succ_le_succ hle)⟩

/-- A page without a cursor is the last one. -/
theorem drain_last (dir : Directory) (budget : Nat) (channels : List Channel) :
    dir.drain budget ⟨none, channels⟩ = pure channels := by
  cases budget <;> rfl

/-- Draining reads on from the first page to the last one. -/
theorem runShared_drain {budget : Nat} (h : Turned s serial size pages last)
    (hlife : dir.config.scrollLifetime ≠ 0) (hbudget : pages.length ≤ budget) :
    ((dir.drain budget (firstPage serial pages last)).runShared s).1 =
      .ok (pages.flatten ++ last) := by
  induction pages generalizing s budget with
  | nil =>
    rw [firstPage, drain_last]
    rfl
  | cons page pages ih =>
    obtain ⟨budget, rfl⟩ := Nat.exists_eq_add_one_of_ne_zero (Nat.ne_zero_of_lt hbudget)
    obtain ⟨s', hrun, hturned⟩ := runShared_nextPage h hlife
    have hmore := ih hturned (Nat.le_of_succ_le_succ hbudget)
    rw [firstPage, drain, runShared_bind, hrun]
    change ((dir.drain budget (firstPage serial pages last) >>= fun more =>
      pure (page ++ more)).runShared s').1 = _
    rw [runShared_bind]
    rcases hdrain : (dir.drain budget (firstPage serial pages last)).runShared s'
      with ⟨outcome, after⟩
    rw [hdrain] at hmore
    obtain rfl : outcome = .ok (pages.flatten ++ last) := hmore
    rw [List.flatten_cons, List.append_assoc]
    rfl

/-! ## Readers -/

/-- The program opens a scroll with pages of a size : for a predicate, or for parameters that
stand for it. A positive size in the parameters is the size of the pages. -/
inductive Opens (dir : Directory) (size : Nat) (p : Predicate) : Program ScrollPage → Prop
  | predicate : Opens dir size p (dir.openScroll size p)
  | query {params : QueryParams} {query : Query} (asked : Nat) :
      Query.compile params = .ok query → query.predicate = p →
      (match query.size with
        | some wanted => if 0 < wanted then wanted.toNat else asked
        | none => asked) = size →
      Opens dir size p (dir.openQueryScroll asked params)

/-- However a scroll is opened, it is a scroll for a predicate with pages of one size. -/
theorem Opens.eq_openScroll {opening : Program ScrollPage} (h : dir.Opens size p opening) :
    opening = dir.openScroll size p := by
  cases h with
  | predicate => rfl
  | @query params query asked hcompile hp hsize =>
    rw [openQueryScroll, Program.compile, hcompile, bind_done]
    subst hp hsize
    cases query.size <;> rfl

/-- The outcomes of a reader : opening a scroll, and then calling for more pages of its cursor. -/
def readPages (opening : Program ScrollPage) (cursor : CursorId) (nexts : List Directory)
    (s : Shared) : List (Outcome ScrollPage) × Shared :=
  let (first, s) := opening.runShared s
  let (outcomes, s) := nextPages cursor nexts s
  (first :: outcomes, s)

/-- A scroll delivers the channels that satisfy its predicate when it is opened, each once and by
name, whatever other clients write, open, continue and close in between : full pages, then one
that is not full, and from then on its cursor is unknown and every call for a page fails. The
calls for pages may come through any directories, and what an export returns is the same list.
Lifetimes are such that a clock can measure them (`Backend.openScroll`). -/
theorem scroll_delivers_snapshot (dir : Directory) (b : Backend) (p : Predicate) (size : Nat)
    (opening : Program ScrollPage) (hopens : dir.Opens size p opening) (hsize : 0 < size)
    (havail : b.available = true) (fresh : b.Fresh)
    (wf : dir.channels.HoldsOnly (fun _ => True) b.store)
    (hlife : dir.config.scrollLifetime ≠ 0) :
    ∃ pages last,
      dir.Selects b.store (fun c => p.holds (toDocument c) = true) (pages.flatten ++ last) ∧
      (∀ page ∈ pages, page.length = size) ∧ last.length < size ∧
      ∀ others, Shared.Spares ⟨b, others⟩ b.nextSerial →
        (∀ nexts : List Directory, (∀ next ∈ nexts, next.config.scrollLifetime ≠ 0) →
          ∃ after, readPages opening (.issued b.nextSerial) nexts ⟨b, others⟩ =
              ((deliveries b.nextSerial pages last nexts.length).take (nexts.length + 1), after) ∧
            (pages.length ≤ nexts.length → after.backend.cursor? (.issued b.nextSerial) = none)) ∧
        (pages.length ≤ dir.pageBudget →
          ((dir.exportChannels size p).runShared ⟨b, others⟩).1 = .ok (pages.flatten ++ last)) := by
  obtain ⟨pages, last, hselect, full, short⟩ := exists_pages hsize (dir.channels.select p b.store)
  refine ⟨pages, last, hselect ▸ selects_select wf p, full, short, fun others spares => ?_⟩
  obtain ⟨s', hrun, hturned⟩ := runShared_openScroll havail fresh wf hlife hselect full short spares
  refine ⟨fun nexts hnexts => ?_, fun hbudget => ?_⟩
  · obtain ⟨houtcomes, hlost⟩ := nextPages_turned hturned hnexts (Nat.le_refl _)
    rw [hopens.eq_openScroll, readPages, hrun]
    exact ⟨_, Prod.ext houtcomes rfl, fun hle => (hlost hle).gone⟩
  · rw [exportChannels, runShared_bind, hrun]
    exact runShared_drain hturned hlife hbudget

/-- Three channels, and a cursor that another client has opened. -/
def scrolled : Backend where
  store := usual.filled [⟨"A", "o", [], []⟩, ⟨"B", "o", [], []⟩, ⟨"C", "o", [], []⟩] [] []
  cursors := [⟨0, [], 1, 5⟩]
  nextSerial := 1

/-- Other clients delete a channel, create one, open a cursor, and continue and close theirs. -/
def visits : List (List Request) :=
  [[.bulk [usual.channels.deleteOp "C", usual.channels.putOp ⟨"D", "o", [], []⟩],
      .openScroll "channelfinder" .matchAll 1 9],
    [.continueScroll (.issued 0) 9, .closeScroll (.issued 2)]]

/-- Pages of two for parameters, continued through another directory : the deleted channel is
delivered, and the new one is not. -/
theorem scrolled_among_visits :
    ∃ pages last, usual.Selects scrolled.store
        (fun c => Predicate.matchAll.holds (toDocument c) = true) (pages.flatten ++ last) ∧
      (readPages (usual.openQueryScroll 7 ⟨[("~size", ["2"])]⟩) (.issued 1)
        [⟨{ scrollPageSize := 1 }, 0⟩, usual] ⟨scrolled, visits⟩).1 =
          (deliveries 1 pages last 2).take 3 ∧
      (deliveries 1 pages last 2).take 3 =
        [.ok ⟨some (.issued 1), [⟨"A", "o", [], []⟩, ⟨"B", "o", [], []⟩]⟩,
          .ok ⟨none, [⟨"C", "o", [], []⟩]⟩,
          .failed (.backend (.scrollNotFound (.issued 1)))] := by
  have wf : usual.WellFormed scrolled.store :=
    wellFormed_filled distinctIndices_usual (by decide) _ _
  obtain ⟨pages, last, hselects, full, short, hreads⟩ := scroll_delivers_snapshot usual scrolled
    .matchAll 2 (usual.openQueryScroll 7 ⟨[("~size", ["2"])]⟩) (.query 7 rfl rfl rfl) (by decide)
    rfl (by decide) (wf.channels.mono fun _ _ => trivial) (by decide)
  obtain ⟨after, hread, -⟩ := (hreads visits (by decide)).1 [⟨{ scrollPageSize := 1 }, 0⟩, usual]
    (by decide)
  refine ⟨pages, last, hselects, congrArg Prod.fst hread, ?_⟩
  have hall : pages.flatten ++ last =
      [⟨"A", "o", [], []⟩, ⟨"B", "o", [], []⟩, ⟨"C", "o", [], []⟩] :=
    (hselects.unique (selects_select wf.channels .matchAll)).trans (by decide +kernel)
  -- Three channels are a page of two and one that is not full.
  cases pages with
  | nil =>
    rw [List.flatten_nil, List.nil_append] at hall
    rw [hall] at short
    exact absurd short (by decide)
  | cons page pages =>
    obtain ⟨hpage, hpages⟩ := List.forall_mem_cons.mp full
    obtain ⟨c, c', rfl⟩ := List.length_eq_two.mp hpage
    obtain ⟨rfl, rfl, hrest⟩ : c = _ ∧ c' = _ ∧ pages.flatten ++ last = [⟨"C", "o", [], []⟩] := by
      simpa using hall
    cases pages with
    | nil =>
      obtain rfl : last = _ := hrest
      rfl
    | cons page pages =>
      have hlength := congrArg List.length hrest
      rw [List.flatten_cons, List.length_append, List.length_append,
        hpages page List.mem_cons_self, List.length_singleton] at hlength
      omega

end Directory

end ChannelDirectory

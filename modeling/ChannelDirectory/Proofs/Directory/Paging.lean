import ChannelDirectory.Proofs.Directory.Members
import ChannelDirectory.Proofs.Directory.Selection
import ChannelDirectory.Proofs.Program.Calls

/-!
# Ways of reading a result set

The channels that satisfy a predicate can be read in windows at an offset, page by page after the
last name of the page before, or all at once as members. The three use different sort orders and
are limited by different bounds.

On a store that nobody writes to they agree (`Directory.readings_agree`). A listing is a part of
what is found after a name (`run_list`), so windows are cut out of the whole selection, and a page
that is full leaves the rest to the next one (`readsOn_iff`).
-/

namespace ChannelDirectory

open Collection Program

/-- Consecutive windows cover a list from its start. -/
theorem flatten_windows {α : Type} (items : List α) (size count : Nat) :
    ((List.range count).map fun i => (items.drop (i * size)).take size).flatten =
      items.take (count * size) := by
  induction count with
  | zero => simp
  | succ count ih =>
    rw [List.range_succ, List.map_append, List.flatten_append, ih, List.map_singleton,
      List.flatten_singleton, Nat.add_one_mul, List.take_add]

theorem addCounts_comm (a b : Nat) : addCounts a b = addCounts b a := by
  rw [addCounts, Nat.add_comm, addCounts]

theorem addCounts_le (a b : Nat) : addCounts a b ≤ a + b := by
  rw [addCounts]
  split
  · omega
  · exact Nat.le_refl _

/-- Programs that leave the backend as it was are run one after another. -/
theorem Program.run_each {α β : Type} {b : Backend} {items : List α} {f : α → Program β}
    {value : α → β} (h : ∀ item ∈ items, (f item).run b = (.ok (value item), b)) :
    (each items f).run b = (.ok (items.map value), b) := by
  induction items with
  | nil => rfl
  | cons item items ih =>
    rw [each, run_bind, h item List.mem_cons_self]
    change (each items f >>= fun values => pure (value item :: values)).run b = _
    rw [run_bind, ih fun i hi => h i (List.mem_cons_of_mem _ hi)]
    rfl

namespace Query

/-- The search for a page of a query. -/
def searchFor (query : Query) (page : Page) : SearchRequest :=
  { predicate := query.predicate, size := page.size, offset := page.offset,
    order := if query.searchAfter.isSome then .byName else .relevance,
    after := query.searchAfter, trackTotal := query.trackTotal }

/-- The window of a size at an offset. -/
def window (p : Predicate) (size offset : Nat) : Query :=
  { predicate := p, size := some size, offset := some offset }

/-- The page of a size that starts after a name. -/
def following (p : Predicate) (size : Nat) (after : Option String) : Query :=
  { predicate := p, size := some size, searchAfter := after }

theorem page_window (p : Predicate) (size offset default : Nat) :
    (window p size offset).page default = .ok ⟨size, offset⟩ := by
  simp only [page, window, not_lt.mpr (Int.natCast_nonneg _), if_false]
  rfl

theorem page_following (p : Predicate) (size default : Nat) (after : Option String) :
    (following p size after).page default = .ok ⟨size, 0⟩ := by
  simp only [page, following, not_lt.mpr (Int.natCast_nonneg _), if_false]
  rfl

end Query

namespace Directory

variable {dir : Directory} {b : Backend} {p : Predicate} {P : Channel → Prop} {size offset : Nat}

/-! ## One page -/

/-- A query is sent exactly if its page is in order and within the window. -/
theorem searchRequest_eq_ok_iff {query : Query} {request : SearchRequest} :
    dir.searchRequest query = .ok request ↔
      ∃ page, query.page dir.config.querySize = .ok page ∧
        page.reach ≤ dir.config.maxResultWindow ∧ request = query.searchFor page := by
  rw [searchRequest]
  cases query.page dir.config.querySize with
  | error e => simp
  | ok page =>
    by_cases hlimit : dir.config.maxResultWindow < page.reach
    · simp [hlimit]
    · simp only [if_neg hlimit, Except.ok.injEq, exists_eq_left', Nat.not_lt.mp hlimit, true_and]
      exact eq_comm

/-- A listing is refused by its own check only. -/
theorem rejection?_searchFor {query : Query} {page : Page} (hwindow : page.reach ≤ b.window) :
    b.rejection? (query.searchFor page) = none := by
  have hreach : ¬b.window < addCounts page.offset page.size := by
    rw [addCounts_comm]
    exact Nat.not_lt.mpr hwindow
  cases hafter : query.searchAfter <;>
    simp [Backend.rejection?, Query.searchFor, hreach, hafter]

/-- A page within both windows is cut out of what is found after a name. The total, if it is asked
for, is that of all that is found. -/
theorem run_search (havail : b.available = true) (wf : dir.channels.HoldsOnly P b.store)
    {query : Query} {page : Page} (hpage : query.page dir.config.querySize = .ok page)
    (hlimit : page.reach ≤ dir.config.maxResultWindow) (hwindow : page.reach ≤ b.window)
    {found : List Channel}
    (hfound : ((dir.channels.selectAfter query.predicate b.store query.searchAfter).drop
      page.offset).take page.size = found) :
    (dir.search query).run b =
      (.ok ⟨found, if query.trackTotal then (dir.channels.select query.predicate b.store).length
        else found.length⟩, b) := by
  have hasked : dir.searchRequest query = .ok (query.searchFor page) :=
    searchRequest_eq_ok_iff.mpr ⟨page, hpage, hlimit, rfl⟩
  have hanswer : (b.handle (.search dir.config.channelIndex (query.searchFor page))).1 =
      .ok (b.store.search dir.config.channelIndex (query.searchFor page)) := by
    rw [Backend.handle, if_pos havail, Backend.answer, rejection?_searchFor hwindow]
  have hmatching : b.store.matching dir.config.channelIndex query.predicate =
      (dir.channels.select query.predicate b.store).map hitOf :=
    wf.matching_eq query.predicate
  have hhits : (b.store.search dir.config.channelIndex (query.searchFor page)).hits =
      found.map hitOf := by
    rw [Store.search, Query.searchFor, hmatching, ← hfound]
    cases query.searchAfter with
    | none => simp [selectAfter, List.map_take, List.map_drop]
    | some name =>
      simp [selectAfter, List.map_take, List.map_drop, List.filter_map,
        Function.comp_def, sortName_hitOf]
  have htotal : (b.store.search dir.config.channelIndex (query.searchFor page)).total =
      if query.trackTotal then some (dir.channels.select query.predicate b.store).length
      else none := by
    rw [Store.search, Query.searchFor, hmatching, List.length_map]
  rw [search, hasked, Program.ofExcept, bind_done, run_request_bind rfl hanswer, hhits,
    decodeHits_map, htotal]
  cases query.trackTotal <;> rfl

/-- The channels of a listing are those of its page. -/
theorem run_list (havail : b.available = true) (wf : dir.channels.HoldsOnly P b.store)
    {query : Query} {page : Page} (hpage : query.page dir.config.querySize = .ok page)
    (hlimit : page.reach ≤ dir.config.maxResultWindow) (hwindow : page.reach ≤ b.window) :
    (dir.list query).run b =
      (.ok (((dir.channels.selectAfter query.predicate b.store query.searchAfter).drop
        page.offset).take page.size), b) := by
  rw [list, run_bind, run_search havail wf hpage hlimit hwindow rfl]
  rfl

/-- A window within the bounds is cut out of the whole selection. -/
theorem run_list_window (havail : b.available = true) (wf : dir.channels.HoldsOnly P b.store)
    (p : Predicate) (hlimit : offset + size ≤ dir.config.maxResultWindow)
    (hwindow : offset + size ≤ b.window) :
    (dir.list (.window p size offset)).run b =
      (.ok (((dir.channels.select p b.store).drop offset).take size), b) := by
  have hreach : Page.reach ⟨size, offset⟩ ≤ offset + size := by
    rw [Nat.add_comm]
    exact addCounts_le size offset
  exact run_list havail wf (Query.page_window p size offset _) (hreach.trans hlimit)
    (hreach.trans hwindow)

/-- The page after a name holds the first ones of those that come after it. -/
theorem run_list_following (havail : b.available = true) (wf : dir.channels.HoldsOnly P b.store)
    (p : Predicate) (hlimit : size ≤ dir.config.maxResultWindow) (hwindow : size ≤ b.window)
    (after : Option String) :
    (dir.list (.following p size after)).run b =
      (.ok ((dir.channels.selectAfter p b.store after).take size), b) := by
  have hreach : Page.reach ⟨size, 0⟩ ≤ size := addCounts_le size 0
  exact run_list havail wf (Query.page_following p size _ after) (hreach.trans hlimit)
    (hreach.trans hwindow)

/-! ## Page after page -/

/-- What a client reads that asks for the page after a name, and then always for the page after
the last name of the page before, until a page is not full. -/
inductive ReadsOn (dir : Directory) (b : Backend) (p : Predicate) (size : Nat) :
    Option String → List Channel → Prop
  | last {after : Option String} {page : List Channel} :
      (dir.list (.following p size after)).run b = (.ok page, b) → page.length < size →
      ReadsOn dir b p size after page
  | more {after : Option String} {page rest : List Channel} :
      (dir.list (.following p size after)).run b = (.ok page, b) → size ≤ page.length →
      ReadsOn dir b p size (page.getLast?.map Channel.name) rest →
      ReadsOn dir b p size after (page ++ rest)

variable {after : Option String} {seen rest found found' : List Channel}

/-- Reading on gives all that comes after the name : a full page leaves the rest to the next. -/
theorem readsOn (havail : b.available = true) (wf : dir.channels.HoldsOnly P b.store)
    (hsize : 0 < size) (hlimit : size ≤ dir.config.maxResultWindow) (hwindow : size ≤ b.window)
    (hselect : dir.channels.select p b.store = seen ++ rest)
    (hrest : dir.channels.selectAfter p b.store after = rest) :
    dir.ReadsOn b p size after rest := by
  induction hlength : rest.length using Nat.strongRecOn generalizing after seen rest with
  | ind length ih =>
    subst hlength
    have hpage := run_list_following havail wf p hlimit hwindow after
    rw [hrest] at hpage
    by_cases hshort : rest.length < size
    · rw [List.take_of_length_le (Nat.le_of_lt hshort)] at hpage
      exact .last hpage hshort
    · have hle : size ≤ rest.length := Nat.not_lt.mp hshort
      -- The same index, with the pages of the client.
      have wf' : Collection.HoldsOnly ⟨dir.config.channelIndex, size⟩ P b.store := wf
      obtain ⟨hsplit, hnext⟩ := wf'.selectAfter_page hsize hselect hle
      have hmore := ih (rest.drop size).length (by rw [List.length_drop]; omega) hsplit hnext rfl
      rw [← List.take_append_drop size rest]
      exact .more hpage (by rw [List.length_take]; omega) hmore

/-- Reading on finds one list of channels only. -/
theorem ReadsOn.unique (h : dir.ReadsOn b p size after found)
    (h' : dir.ReadsOn b p size after found') : found' = found := by
  induction h generalizing found' with
  | last hpage hshort =>
    cases h' with
    | last hpage' => exact Outcome.ok.inj (congrArg Prod.fst (hpage'.symm.trans hpage))
    | more hpage' hfull' =>
      obtain rfl := Outcome.ok.inj (congrArg Prod.fst (hpage'.symm.trans hpage))
      exact absurd hshort (Nat.not_lt.mpr hfull')
  | more hpage hfull _ ih =>
    cases h' with
    | last hpage' hshort' =>
      obtain rfl := Outcome.ok.inj (congrArg Prod.fst (hpage'.symm.trans hpage))
      exact absurd hshort' (Nat.not_lt.mpr hfull)
    | more hpage' _ hrest' =>
      obtain rfl := Outcome.ok.inj (congrArg Prod.fst (hpage'.symm.trans hpage))
      rw [ih hrest']

/-- A client that reads on from the start ends with the whole selection, and with nothing else. -/
theorem readsOn_iff (havail : b.available = true) (wf : dir.channels.HoldsOnly P b.store)
    (hsize : 0 < size) (hlimit : size ≤ dir.config.maxResultWindow) (hwindow : size ≤ b.window) :
    dir.ReadsOn b p size none found ↔ found = dir.channels.select p b.store := by
  have hall : dir.ReadsOn b p size none (dir.channels.select p b.store) :=
    readsOn havail wf hsize hlimit hwindow (List.nil_append _).symm rfl
  constructor
  · exact hall.unique
  · rintro rfl
    exact hall

/-! ## The three readings -/

/-- The windows that follow each other, as many as are asked for. -/
def windows (dir : Directory) (p : Predicate) (size count : Nat) : Program (List (List Channel)) :=
  each (List.range count) fun i => dir.list (.window p size (i * size))

/-- Windows that stay within the bounds are the pieces of the selection. -/
theorem run_windows (havail : b.available = true) (wf : dir.channels.HoldsOnly P b.store)
    (p : Predicate) {count : Nat} (hlimit : count * size ≤ dir.config.maxResultWindow)
    (hwindow : count * size ≤ b.window) :
    (dir.windows p size count).run b =
      (.ok ((List.range count).map fun i =>
        ((dir.channels.select p b.store).drop (i * size)).take size), b) := by
  refine run_each fun i hi => ?_
  have hend : i * size + size ≤ count * size := by
    rw [← Nat.succ_mul]
    exact Nat.mul_le_mul_right size (List.mem_range.mp hi)
  exact run_list_window havail wf p (hend.trans hlimit) (hend.trans hwindow)

/-- On a store that nobody writes to, the channels that satisfy a predicate, by name, are what
windows at an offset are cut out of, what is read page after page, and what the members are. A
window at an offset must lie within the bounds of the configuration and of the backend ; reading
on and reading members only ask that a page does. The predicate is assumed to be one that the
backend can match at all (`Store.matching`). -/
theorem readings_agree (dir : Directory) (b : Backend) (p : Predicate) (size : Nat)
    (havail : b.available = true) (wf : dir.channels.HoldsOnly (fun _ => True) b.store)
    (hsize : 0 < size) (hlimit : size ≤ dir.config.maxResultWindow) (hwindow : size ≤ b.window) :
    ∃ found, dir.Selects b.store (fun c => p.holds (toDocument c) = true) found ∧
      (∀ offset, offset + size ≤ dir.config.maxResultWindow → offset + size ≤ b.window →
        (dir.list (.window p size offset)).run b = (.ok ((found.drop offset).take size), b)) ∧
      (∀ count, count * size ≤ dir.config.maxResultWindow → count * size ≤ b.window →
        ∃ pages, (dir.windows p size count).run b = (.ok pages, b) ∧
          pages.flatten = found.take (count * size)) ∧
      (∀ read, dir.ReadsOn b p size none read ↔ read = found) ∧
      (dir.config.querySize ≤ b.window → dir.Ample b.store →
        (dir.members p).run b = (.ok found, b)) := by
  refine ⟨dir.channels.select p b.store, selects_select wf p, ?_, ?_, ?_, ?_⟩
  · exact fun offset => run_list_window havail wf p
  · exact fun count hlimit hwindow =>
      ⟨_, run_windows havail wf p hlimit hwindow, flatten_windows _ _ _⟩
  · exact fun read => readsOn_iff havail wf hsize hlimit hwindow
  · intro hquery hample
    have hfits : dir.channels.Fits b :=
      fits_of_pageSize_le (max_le hquery (hsize.trans_le hwindow))
    have hbudget : (dir.channels.select p b.store).length / dir.channels.pageSize <
        dir.pageBudget :=
      (Nat.div_le_div_right (length_select_le p)).trans_lt hample
    have hmembers : (dir.members p).Returns b (dir.channels.select p b.store) :=
      (returns_findMatching wf dir.pageSize_pos).mpr ⟨havail, hfits, hbudget, rfl⟩
    rw [hmembers.run_eq, (dir.readOnly_members p).run_snd]

/-- A directory whose listings reach four channels, and that reads three at a time. -/
def narrow : Directory := ⟨{ querySize := 3, maxResultWindow := 4 }, 3⟩

/-- Six channels behind a window of four, some of whose names begin like each other. -/
def crowded : Backend where
  store := narrow.filled
    [⟨"S10", "o", [⟨"t", ""⟩], []⟩, ⟨"S", "o", [⟨"t", ""⟩], []⟩, ⟨"S2", "o", [⟨"t", ""⟩], []⟩,
      ⟨"S11", "o", [], []⟩, ⟨"S1", "o", [⟨"t", ""⟩], []⟩, ⟨"T", "o", [⟨"t", ""⟩], []⟩] [] []
  window := 4

/-- Two windows of two show the first four of five channels ; reading on shows all of them, and so
do the members. -/
theorem crowded_readings_agree :
    ∃ found, narrow.Selects crowded.store
        (fun c => (Predicate.hasTag "t").holds (toDocument c) = true) found ∧
      found.map Channel.name = ["S", "S1", "S10", "S2", "T"] ∧
      (∃ pages, (narrow.windows (.hasTag "t") 2 2).run crowded = (.ok pages, crowded) ∧
        pages.flatten = found.take 4) ∧
      narrow.ReadsOn crowded (.hasTag "t") 2 none found := by
  have wf : narrow.WellFormed crowded.store :=
    wellFormed_filled (by decide) (by decide) _ _
  obtain ⟨found, hselects, -, hwindows, hreads, hmembers⟩ := readings_agree narrow crowded
    (.hasTag "t") 2 rfl (wf.channels.mono fun _ _ => trivial) (by decide) (by decide) (by decide)
  have hfound : (narrow.members (.hasTag "t")).run crowded = (.ok found, crowded) :=
    hmembers (by decide) (by decide)
  have hnames : found.map Channel.name = ["S", "S1", "S10", "S2", "T"] := by
    have hlisted : (narrow.members (.hasTag "t")).Returns crowded
        (["S", "S1", "S10", "S2", "T"].map fun name => ⟨name, "o", [⟨"t", ""⟩], []⟩) := by
      cbv
    obtain rfl := Outcome.ok.inj ((congrArg Prod.fst hfound).symm.trans hlisted)
    rfl
  exact ⟨found, hselects, hnames, hwindows 2 (by decide) (by decide), (hreads found).mpr rfl⟩

end Directory

end ChannelDirectory

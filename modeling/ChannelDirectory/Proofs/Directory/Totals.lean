import ChannelDirectory.Proofs.Directory.Paging
import ChannelDirectory.Proofs.Query.PagingKeys

/-!
# Totals and pages

A count only depends on the predicate that parameters compile to, and a listing takes its total
before it looks for the page. So a size or an offset among the parameters, even one that no listing
accepts, changes no count, and a listing that is asked for the total reports what is counted for the
same parameters, whatever page of it is shown (`Directory.count_ignores_paging`).
-/

namespace ChannelDirectory

open Program Query

/-- The size of a page is the one that is asked for, or the usual one. -/
theorem Query.size_of_page {query : Query} {page : Page} {usual : Nat}
    (h : query.page usual = .ok page) : (page.size : Int) = query.size.getD usual := by
  obtain ⟨p, size, offset, after, track⟩ := query
  -- A size that is accepted stays, whatever is read after it.
  have hsize (n : Nat) (h : Query.page ⟨p, some n, offset, after, track⟩ usual = .ok page) :
      page.size = n := by
    simp only [Query.page, Int.natCast_nonneg, not_lt.mpr, if_false] at h
    cases offset with
    | none =>
      cases h
      rfl
    | some m =>
      change (if m < 0 then _ else _) = _ at h
      split at h <;> cases h
      rfl
  cases size with
  | none =>
    refine congrArg _ (hsize usual ?_)
    simpa [Query.page, not_lt.mpr (Int.natCast_nonneg usual)] using h
  | some n =>
    rcases Int.lt_or_le n 0 with hneg | hnat
    · simp only [Query.page, if_pos hneg] at h
      cases h
    · obtain ⟨n, rfl⟩ := Int.eq_ofNat_of_zero_le hnat
      exact congrArg _ (hsize n h)

/-- A backend that answers a search is available, and the answer is that of its store. -/
theorem Backend.answer_of_search {b : Backend} {index : String} {request : SearchRequest}
    {result : SearchResult} (h : (b.handle (.search index request)).1 = .ok result) :
    b.available = true ∧ result = b.store.search index request := by
  rw [Backend.handle] at h
  split at h
  · rename_i havail
    rw [Backend.answer] at h
    cases hrejects : b.rejection? request with
    | none =>
      rw [hrejects] at h
      exact ⟨havail, (Except.ok.inj h).symm⟩
    | some reason =>
      rw [hrejects] at h
      cases h
  · cases h

namespace Program

theorem readOnly_compile (params : QueryParams) : (Program.compile params).ReadOnly := by
  rw [Program.compile]
  cases Query.compile params <;> trivial

/-- A query is compiled without the backend. -/
theorem returns_compile {b : Backend} {params : QueryParams} {query : Query} :
    (Program.compile params).Returns b query ↔ Query.compile params = .ok query := by
  rw [Program.compile]
  cases Query.compile params <;> simp [eq_comm]

end Program

namespace Directory

variable {dir : Directory} {b : Backend} {query : Query} {params : QueryParams} {listing : Listing}

/-! ## Counts -/

/-- A count is the number of documents that match. -/
theorem run_count_matching (havail : b.available = true) (p : Predicate) :
    (dir.count p).run b = (.ok (b.store.matching dir.config.channelIndex p).length, b) := by
  have hanswer : (b.handle (.count dir.config.channelIndex p)).1 =
      .ok (b.store.matching dir.config.channelIndex p).length := by
    rw [Backend.handle, if_pos havail, Backend.answer]
  exact Prod.ext (returns_request.mpr hanswer) ((readOnly_request rfl).run_snd b)

/-- The total of a query is the count of its predicate. -/
theorem queryCount_eq_count (h : Query.compile params = .ok query) :
    dir.queryCount params = dir.count query.predicate := by
  rw [queryCount, Program.compile, h, bind_done]

/-! ## Listings -/

/-- A listing that succeeds has the channels of its page, and all documents that match are its
total if it is asked for. -/
theorem exists_page_of_search (h : (dir.search query).Returns b listing) :
    b.available = true ∧ ∃ page, query.page dir.config.querySize = .ok page ∧
      dir.channels.decodeHits
        (b.store.search dir.config.channelIndex (query.searchFor page)).hits =
          .ok listing.channels ∧
      (query.trackTotal = true →
        listing.count = (b.store.matching dir.config.channelIndex query.predicate).length) := by
  obtain ⟨request, hrequest, h⟩ := (returns_bind (readOnly_ofExcept _)).mp h
  obtain ⟨page, hpage, -, rfl⟩ := searchRequest_eq_ok_iff.mp (returns_ofExcept.mp hrequest)
  obtain ⟨result, hresult, h⟩ := (returns_bind (readOnly_request rfl)).mp h
  obtain ⟨channels, hchannels, h⟩ := (returns_bind (readOnly_ofExcept _)).mp h
  obtain rfl := returns_done.mp h
  obtain ⟨havail, rfl⟩ := Backend.answer_of_search (returns_request.mp hresult)
  refine ⟨havail, page, hpage, returns_ofExcept.mp hchannels, fun htotal => ?_⟩
  rw [Store.search, Query.searchFor, htotal]
  rfl

/-- A page holds no more channels than its size. -/
theorem length_le_of_decodeHits {s : Store} {request : SearchRequest} {channels : List Channel}
    (h : dir.channels.decodeHits (s.search dir.config.channelIndex request).hits = .ok channels) :
    channels.length ≤ request.size := by
  rw [← (mapM_eq_ok_iff.mp h).length_eq]
  exact List.length_take_le _ _

/-- Pairs with sizes and offsets anywhere among others compile to a query for the same documents,
whatever their numbers are, and the same number is counted. A listing that succeeds shows no more
channels than the size that is asked for, and its total, if it is asked for, is what is counted for
the same parameters. Neither fails for the size of a pattern (`Store.matching`). -/
theorem count_ignores_paging (dir : Directory) (b : Backend) :
    (∀ pairs pairs' query, Query.compile (.ofPairs pairs) = .ok query → PagedWith pairs pairs' →
      ∃ query', Query.compile (.ofPairs pairs') = .ok query' ∧
        query'.predicate = query.predicate ∧
        (dir.queryCount (.ofPairs pairs')).run b = (dir.queryCount (.ofPairs pairs)).run b ∧
        (b.available = true → (dir.queryCount (.ofPairs pairs')).run b =
          (.ok (b.store.matching dir.config.channelIndex query.predicate).length, b))) ∧
    (∀ params listing, (dir.querySearch params).Returns b listing →
      (listing.channels.length : Int) ≤
        (lastUnder "~size" greatest? params.entries).getD dir.config.querySize ∧
      (lastUnder "~track_total_hits" firstSwitch? params.entries = some true →
        (dir.queryCount params).run b = (.ok listing.count, b))) := by
  refine ⟨fun pairs pairs' query hcompile h => ?_, fun params listing h => ?_⟩
  · obtain ⟨query', hcompile', hsame⟩ := exists_compile_pagedWith h hcompile
    refine ⟨query', hcompile', hsame, ?_, fun havail => ?_⟩
    · rw [queryCount_eq_count hcompile', hsame, queryCount_eq_count hcompile]
    · rw [queryCount_eq_count hcompile', hsame, run_count_matching havail]
  · obtain ⟨query, hcompile, h⟩ := (returns_bind (readOnly_compile params)).mp h
    replace hcompile := returns_compile.mp hcompile
    have hpaged := paged_compile hcompile
    obtain ⟨havail, page, hpage, hhits, hcount⟩ := exists_page_of_search h
    refine ⟨?_, fun htotal => ?_⟩
    · rw [← hpaged.size, ← size_of_page hpage]
      exact Int.ofNat_le.mpr (length_le_of_decodeHits hhits)
    · rw [queryCount_eq_count hcompile, run_count_matching havail,
        hcount (by rw [hpaged.trackTotal, htotal]; rfl)]

/-- Three channels. -/
def few : Backend where
  store := usual.filled [⟨"S1", "o", [], []⟩, ⟨"S2", "o", [], []⟩, ⟨"T", "o", [], []⟩] [] []

/-- A negative offset, and a negative size under a negated key, leave two channels to be counted,
and a page of one after a name is listed with the same total. -/
theorem few_count_ignores_paging :
    (usual.queryCount (.ofPairs [("~from ", "-1"), ("~name", "S*"), (" ~size !=", " -5 ")])).run
        few = (.ok 2, few) ∧
      (usual.queryCount (.ofPairs [("~name", "S*"), ("~track_total_hits", "True"), ("~size", "1"),
        ("~search_after", "S1")])).run few = (.ok 2, few) := by
  obtain ⟨hcounts, hlists⟩ := count_ignores_paging usual few
  have wf : usual.WellFormed few.store :=
    wellFormed_filled distinctIndices_usual (by decide) _ _
  constructor
  · have hfrom : GivesPage ("~from ", "-1") :=
      ⟨⟨_, spells_ofText _, by decide⟩, -1, number?_eq_some_iff.mp (by decide)⟩
    have hsize : GivesPage (" ~size !=", " -5 ") :=
      ⟨⟨_, spells_ofText _, by decide⟩, -5, number?_eq_some_iff.mp (by decide)⟩
    obtain ⟨query, hcompile, hlength⟩ : ∃ query,
        Query.compile (.ofPairs [("~name", "S*")]) = .ok query ∧
          (usual.channels.select query.predicate few.store).length = 2 :=
      ⟨_, rfl, by decide +kernel⟩
    obtain ⟨-, -, -, hcount, -⟩ := hcounts _ _ query hcompile
      (.insert hfrom (.keep _ (.insert hsize .nil)))
    rw [hcount, queryCount_eq_count hcompile, run_count rfl wf.channels, hlength]
  · obtain ⟨query, hcompile, hpage, hfound, htrack, hlength⟩ : ∃ query,
        Query.compile (.ofPairs [("~name", "S*"), ("~track_total_hits", "True"), ("~size", "1"),
          ("~search_after", "S1")]) = .ok query ∧
        query.page usual.config.querySize = .ok ⟨1, 0⟩ ∧
        ((usual.channels.selectAfter query.predicate few.store query.searchAfter).drop 0).take 1 =
          [⟨"S2", "o", [], []⟩] ∧
        query.trackTotal = true ∧
        (usual.channels.select query.predicate few.store).length = 2 :=
      ⟨_, rfl, rfl, by decide +kernel, rfl, by decide +kernel⟩
    have hlisted : (usual.querySearch (.ofPairs [("~name", "S*"), ("~track_total_hits", "True"),
        ("~size", "1"), ("~search_after", "S1")])).Returns few ⟨[⟨"S2", "o", [], []⟩], 2⟩ := by
      refine (returns_bind (readOnly_compile _)).mpr ⟨query, returns_compile.mpr hcompile, ?_⟩
      rw [Returns, run_search rfl wf.channels hpage (by decide) (by decide) hfound, htrack, hlength]
      rfl
    exact (hlists _ _ hlisted).2 (by decide)

end Directory

end ChannelDirectory

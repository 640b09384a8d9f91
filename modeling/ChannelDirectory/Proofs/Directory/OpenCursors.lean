import ChannelDirectory.Proofs.Directory.Scrolling

/-!
# Which cursors stay open

A cursor of a scroll is open exactly as long as its reader is told about it. A call that fetches a
page either hands the cursor over with the page or has closed it, whether the page was the last
one or held a document that is no channel (`Directory.Settled`). So opening a scroll adds the
cursor that it hands over and no other, the next page leaves the cursor open or closes it, and an
export, which asks for pages until it is handed no cursor, leaves all cursors as they were
(`Directory.scrolling_leaks_no_cursor`).
-/

namespace ChannelDirectory

open Program

/-! ## Open cursors -/

namespace Backend

/-- The cursors that are open. -/
def openCursors (b : Backend) : List CursorId :=
  b.cursors.map fun c => .issued c.serial

/-- The backend answers, it has not given out the next serial number, and no cursor expires. -/
structure Steady (b : Backend) : Prop where
  available : b.available = true
  fresh : b.Fresh
  lasting : ∀ c ∈ b.cursors, c.expired = false

variable {b : Backend} {id : CursorId} {size lifetime : Nat}

/-- On a steady backend no cursor expires. -/
theorem Steady.dropExpired (h : b.Steady) : b.dropExpired = b := by
  have hkept : (b.cursors.filter fun c => !c.expired) = b.cursors := by
    rw [List.filter_eq_self]
    exact fun c hc => by rw [h.lasting c hc, Bool.not_false]
  rw [Backend.dropExpired, hkept]

/-- The cursor that is given out next is not open yet. -/
theorem Steady.next_notMem (h : b.Steady) : .issued b.nextSerial ∉ b.openCursors := by
  intro hmem
  obtain ⟨c, hc, hserial⟩ := List.mem_map.mp hmem
  exact absurd (CursorId.issued.inj hserial) (Nat.ne_of_lt (h.fresh c hc))

theorem filter_openCursors_self (h : id ∉ b.openCursors) :
    b.openCursors.filter (· ≠ id) = b.openCursors := by
  rw [List.filter_eq_self]
  rintro other hother
  exact decide_eq_true fun heq => h (heq ▸ hother)

/-- A cursor that is not found is not open. -/
theorem notMem_of_cursor?_eq_none (h : b.cursor? id = none) : id ∉ b.openCursors := by
  intro hmem
  obtain ⟨c, hc, rfl⟩ := List.mem_map.mp hmem
  rw [cursor?, List.find?_eq_none] at h
  exact h c hc (beq_self_eq_true _)

/-- A cursor is found by its serial number only. -/
theorem id_of_cursor? {c : Cursor} (h : b.cursor? id = some c) : id = .issued c.serial := by
  cases id with
  | issued serial => rw [serial_of_cursor? h]
  | foreign text => cases h

/-- A new cursor is added to those that are open. -/
theorem Steady.openScroll (h : b.Steady) (hsize : size ≠ 0) (hlife : lifetime ≠ 0) (index : String)
    (p : Predicate) :
    (b.handle (.openScroll index p size lifetime)).2.Steady ∧
      (b.handle (.openScroll index p size lifetime)).2.openCursors =
        b.openCursors ++ [.issued b.nextSerial] := by
  refine ⟨⟨?_, h.fresh.handle _, ?_⟩, ?_⟩ <;>
    rw [handle, if_pos h.available, answer, Backend.openScroll, if_neg hsize, h.dropExpired]
  · exact h.available
  · intro c hc
    rcases List.mem_append.mp hc with hold | hnew
    · exact h.lasting c hold
    · rw [List.mem_singleton.mp hnew, Cursor.expired]
      exact beq_false_of_ne hlife
  · rw [openCursors, List.map_append]
    rfl

theorem serial_renewed (renewed c : Cursor) :
    (if c.serial = renewed.serial then renewed else c).serial = c.serial := by
  split
  · rename_i heq
    exact heq.symm
  · rfl

/-- Continuing a cursor changes none of those that are open. -/
theorem Steady.continueScroll (h : b.Steady) (hlife : lifetime ≠ 0) (id : CursorId) :
    (b.handle (.continueScroll id lifetime)).2.Steady ∧
      (b.handle (.continueScroll id lifetime)).2.openCursors = b.openCursors := by
  have hafter : (b.handle (.continueScroll id lifetime)).2 =
      (b.continueScroll id lifetime).2 := by rw [handle, if_pos h.available]; rfl
  have hfresh := h.fresh.handle (.continueScroll id lifetime)
  rw [hafter, Backend.continueScroll, h.dropExpired] at hfresh ⊢
  cases hfound : b.cursor? id with
  | none => exact ⟨h, rfl⟩
  | some found =>
    rw [hfound] at hfresh
    refine ⟨⟨h.available, hfresh, ?_⟩, ?_⟩
    · intro c hc
      obtain ⟨old, hold, rfl⟩ := List.mem_map.mp hc
      split
      · exact beq_false_of_ne hlife
      · exact h.lasting old hold
    · rw [openCursors, openCursors, List.map_map]
      exact List.map_congr_left fun c _ => congrArg CursorId.issued (serial_renewed
        ⟨found.serial, found.remaining.drop found.pageSize, found.pageSize, lifetime⟩ c)

/-- Closing a cursor takes it away from those that are open. -/
theorem Steady.closeScroll (h : b.Steady) (id : CursorId) :
    (b.handle (.closeScroll id)).2.Steady ∧
      (b.handle (.closeScroll id)).2.openCursors = b.openCursors.filter (· ≠ id) := by
  have hafter : (b.handle (.closeScroll id)).2 = (b.closeScroll id).2 := by
    rw [handle, if_pos h.available]; rfl
  have hfresh := h.fresh.handle (.closeScroll id)
  rw [hafter, Backend.closeScroll] at hfresh ⊢
  cases hfound : b.cursor? id with
  | none => exact ⟨h, (filter_openCursors_self (notMem_of_cursor?_eq_none hfound)).symm⟩
  | some found =>
    rw [hfound] at hfresh
    refine ⟨⟨h.available, hfresh, fun c hc => h.lasting c (List.mem_filter.mp hc).1⟩, ?_⟩
    obtain rfl : id = .issued found.serial := id_of_cursor? hfound
    rw [openCursors, openCursors, List.filter_map]
    refine congrArg _ (List.filter_congr fun c _ => ?_)
    exact decide_eq_decide.mpr (not_congr ⟨congrArg _, CursorId.issued.inj⟩)

/-- Without a new cursor, the cursors are those that were open before it. -/
theorem Steady.filter_next (h : b.Steady) :
    (b.openCursors ++ [CursorId.issued b.nextSerial]).filter (· ≠ .issued b.nextSerial) =
      b.openCursors := by
  rw [List.filter_append, filter_openCursors_self h.next_notMem]
  simp

end Backend

section Calls

variable {α β : Type} {b : Backend} {r : Request} {k : r.Answer → Program β}

theorem run_call (r : Request) (next : Except BackendError r.Answer → Program α) (b : Backend) :
    (call r next).run b = (next (b.handle r).1).run (b.handle r).2 :=
  rfl

/-- After a request that is answered a program goes on with the answer. -/
theorem run_request_bind_ok {answer : r.Answer} (h : (b.handle r).1 = .ok answer) :
    (request r >>= k).run b = (k answer).run (b.handle r).2 := by
  rw [request, bind_call, run_call, h, bind_done]

/-- A request that is not answered ends the program. -/
theorem run_request_bind_error {e : BackendError} (h : (b.handle r).1 = .error e) :
    (request r >>= k).run b = (.failed (.backend e), (b.handle r).2) := by
  rw [request, bind_call, run_call, h, bind_fail]
  rfl

end Calls

namespace Directory

variable {dir : Directory} {b after : Backend} {id : CursorId} {serial size : Nat}
  {remaining : List Hit} {outcome : Outcome ScrollPage} {channels : List Channel}

/-! ## One page -/

/-- The cursor that a call for a page hands over. -/
def handedOver : Outcome ScrollPage → Option CursorId
  | .ok page => page.cursor
  | .failed _ | .exhausted => none

/-- How a call for a page ends that hands over no cursor : with the last page or an error. -/
inductive IsEnd : Outcome ScrollPage → Prop
  | page (channels : List Channel) : IsEnd (.ok ⟨none, channels⟩)
  | error (e : Error) : IsEnd (.failed e)

theorem IsEnd.handedOver (h : IsEnd outcome) : handedOver outcome = none := by
  cases h <;> rfl

/-- A batch makes a page with its cursor only if it is full. Otherwise its cursor is closed. -/
theorem run_finishPage_cases (dir : Directory) (batch : ScrollBatch) (b : Backend) :
    (∃ channels, batch.pageSize ≤ batch.hits.length ∧
      (dir.finishPage batch).run b = (.ok ⟨some batch.cursor, channels⟩, b)) ∨
    ∃ outcome, IsEnd outcome ∧
      (dir.finishPage batch).run b = (outcome, (b.handle (.closeScroll batch.cursor)).2) := by
  rw [finishPage]
  cases dir.channels.decodeHits batch.hits with
  | error e => exact .inr ⟨_, .error e, rfl⟩
  | ok channels =>
    dsimp only
    split
    · refine .inr ?_
      cases hanswer : (b.handle (.closeScroll batch.cursor)).1 with
      | error e => exact ⟨_, .error _, run_request_bind_error hanswer⟩
      | ok answer => exact ⟨_, .page channels, run_request_bind_ok hanswer⟩
    · rename_i hfull
      exact .inl ⟨channels, Nat.not_lt.mp hfull, rfl⟩

/-- A call for a page of a cursor either hands the cursor over and leaves the open cursors as they
are, or ends and leaves all of them but this one. -/
inductive Settled (id : CursorId) (cursors : List CursorId) : Outcome ScrollPage × Backend → Prop
  | kept (page : List Channel) {left : Backend} : left.Steady → left.openCursors = cursors →
      Settled id cursors (.ok ⟨some id, page⟩, left)
  | closed {ending : Outcome ScrollPage} {left : Backend} : IsEnd ending → left.Steady →
      left.openCursors = cursors.filter (· ≠ id) → Settled id cursors (ending, left)

/-- Finishing a page hands over its cursor, or ends and leaves the others. -/
theorem settled_finishPage (dir : Directory) (h : b.Steady) (batch : ScrollBatch) :
    Settled batch.cursor b.openCursors ((dir.finishPage batch).run b) := by
  rcases run_finishPage_cases dir batch b with ⟨channels, -, hrun⟩ | ⟨outcome, hend, hrun⟩ <;>
    rw [hrun]
  · exact .kept channels h rfl
  · obtain ⟨hsteady, hopen⟩ := h.closeScroll batch.cursor
    exact .closed hend hsteady hopen

/-- A request for the next page of a cursor hands it over again, or closes it. -/
theorem settled_nextPage (h : b.Steady) (hlife : dir.config.scrollLifetime ≠ 0) (id : CursorId) :
    Settled id b.openCursors ((dir.nextPage id).run b) := by
  obtain ⟨hsteady, hopen⟩ := h.continueScroll hlife id
  cases hfound : b.cursor? id with
  | none =>
    have hanswer : (b.handle (.continueScroll id dir.config.scrollLifetime)).1 =
        .error (.scrollNotFound id) := by
      rw [Backend.handle, if_pos h.available, Backend.answer, Backend.continueScroll,
        h.dropExpired, hfound]
    rw [nextPage, run_request_bind_error hanswer]
    refine .closed (.error _) hsteady (hopen.trans ?_)
    exact (Backend.filter_openCursors_self (Backend.notMem_of_cursor?_eq_none hfound)).symm
  | some found =>
    have hanswer : (b.handle (.continueScroll id dir.config.scrollLifetime)).1 =
        .ok ⟨id, found.remaining.take found.pageSize, found.pageSize⟩ := by
      rw [Backend.handle, if_pos h.available, Backend.answer, Backend.continueScroll,
        h.dropExpired, hfound]
    rw [nextPage, run_request_bind_ok hanswer, ← hopen]
    exact settled_finishPage dir hsteady
      ⟨id, found.remaining.take found.pageSize, found.pageSize⟩

/-- A scroll with pages of no channel is refused, and opens nothing. -/
theorem run_openScroll_zero (havail : b.available = true) (p : Predicate) :
    ∃ e, (dir.openScroll 0 p).run b = (.failed e, b) := by
  have hrefused : b.handle (.openScroll dir.config.channelIndex p 0 dir.config.scrollLifetime) =
      (.error (.rejected .emptyScrollPage), b) := by
    rw [Backend.handle, if_pos havail]
    rfl
  refine ⟨.backend (.rejected .emptyScrollPage), ?_⟩
  rw [openScroll, run_request_bind_error (congrArg Prod.fst hrefused), hrefused]

/-- Opening a scroll fails with nothing changed, or is a call for a page of a new cursor. -/
theorem settled_openScroll (h : b.Steady) (hlife : dir.config.scrollLifetime ≠ 0) (size : Nat)
    (p : Predicate) :
    (∃ e, (dir.openScroll size p).run b = (.failed e, b)) ∨
      Settled (.issued b.nextSerial) (b.openCursors ++ [.issued b.nextSerial])
        ((dir.openScroll size p).run b) := by
  rcases Nat.eq_zero_or_pos size with rfl | hsize
  · exact .inl (run_openScroll_zero h.available p)
  · obtain ⟨hanswer, -⟩ := Backend.handle_openScroll h.available h.fresh hsize.ne' hlife
      dir.config.channelIndex p
    obtain ⟨hsteady, hopen⟩ := h.openScroll hsize.ne' hlife dir.config.channelIndex p
    rw [openScroll, run_request_bind_ok hanswer, ← hopen]
    exact .inr (settled_finishPage dir hsteady
      ⟨.issued b.nextSerial, (b.store.matching dir.config.channelIndex p).take size, size⟩)

/-- A call adds the cursor that it hands over to those that were open, and no other. -/
structure Adds (b : Backend) (ran : Outcome ScrollPage × Backend) : Prop where
  steady : ran.2.Steady
  cursors : ran.2.openCursors = b.openCursors ++ (handedOver ran.1).toList
  new : ∀ cursor ∈ handedOver ran.1, cursor ∉ b.openCursors

theorem adds_failed (h : b.Steady) (e : Error) : Adds b (.failed e, b) :=
  ⟨h, (List.append_nil _).symm, by rintro cursor ⟨⟩⟩

/-- Opening a scroll leaves open what was open, and in addition the cursor that it hands over. -/
theorem adds_openScroll (h : b.Steady) (hlife : dir.config.scrollLifetime ≠ 0) (size : Nat)
    (p : Predicate) : Adds b ((dir.openScroll size p).run b) := by
  rcases settled_openScroll h hlife size p with ⟨e, hrun⟩ | hsettled
  · rw [hrun]
    exact adds_failed h e
  generalize (dir.openScroll size p).run b = ran at hsettled
  cases hsettled with
  | kept page hsteady hopen =>
    exact ⟨hsteady, hopen, fun cursor hcursor => Option.some.inj hcursor ▸ h.next_notMem⟩
  | closed hend hsteady hopen =>
    rw [h.filter_next] at hopen
    refine ⟨hsteady, ?_, ?_⟩ <;> rw [hend.handedOver]
    · exact hopen.trans (List.append_nil _).symm
    · rintro cursor ⟨⟩

/-- Opening a scroll for parameters leaves open what was open, and in addition the cursor that it
hands over. -/
theorem adds_openQueryScroll (h : b.Steady) (hlife : dir.config.scrollLifetime ≠ 0) (asked : Nat)
    (params : QueryParams) : Adds b ((dir.openQueryScroll asked params).run b) := by
  cases hcompile : Query.compile params with
  | error e =>
    rw [openQueryScroll, Program.compile, hcompile]
    exact adds_failed h (.query e)
  | ok query =>
    rw [(Opens.query asked hcompile rfl rfl).eq_openScroll]
    exact adds_openScroll h hlife _ query.predicate

/-! ## All pages -/

/-- After a page that hands its cursor over, an export ends as the rest of it does. -/
theorem run_drain_kept (budget : Nat) (channels : List Channel) {cursor : CursorId}
    {page : List Channel} (h : (dir.nextPage id).run b = (.ok ⟨some cursor, page⟩, after)) :
    ((dir.drain (budget + 1) ⟨some id, channels⟩).run b).2 =
        ((dir.drain budget ⟨some cursor, page⟩).run after).2 ∧
      (((dir.drain (budget + 1) ⟨some id, channels⟩).run b).1 = .exhausted ↔
        ((dir.drain budget ⟨some cursor, page⟩).run after).1 = .exhausted) := by
  rw [drain, run_bind, h]
  dsimp only
  rw [run_bind]
  rcases (dir.drain budget ⟨some cursor, page⟩).run after with ⟨_ | _ | _, final⟩
  · exact ⟨rfl, by rintro ⟨⟩, by rintro ⟨⟩⟩
  · exact ⟨rfl, by rintro ⟨⟩, by rintro ⟨⟩⟩
  · exact ⟨rfl, Iff.rfl⟩

/-- After a call that hands no cursor over, nothing else is called if a last page needs nothing
more. -/
theorem IsEnd.run_bind {β : Type} {p : Program ScrollPage} {k : ScrollPage → Program β}
    (hend : IsEnd outcome) (hlast : ∀ channels, ∃ value, k ⟨none, channels⟩ = done value)
    (hrun : p.run b = (outcome, after)) :
    ((p >>= k).run b).2 = after ∧ ((p >>= k).run b).1 ≠ .exhausted := by
  rw [Program.run_bind, hrun]
  cases hend with
  | page channels =>
    obtain ⟨value, hvalue⟩ := hlast channels
    dsimp only
    rw [hvalue]
    exact ⟨rfl, by rintro ⟨⟩⟩
  | error e => exact ⟨rfl, by rintro ⟨⟩⟩

/-- After a page that hands no cursor over, an export ends. -/
theorem IsEnd.run_drain (hend : IsEnd outcome) (budget : Nat) (channels : List Channel)
    (hrun : (dir.nextPage id).run b = (outcome, after)) :
    ((dir.drain (budget + 1) ⟨some id, channels⟩).run b).2 = after ∧
      ((dir.drain (budget + 1) ⟨some id, channels⟩).run b).1 ≠ .exhausted := by
  refine hend.run_bind (fun last => ⟨channels ++ last, ?_⟩) hrun
  rw [drain_last]
  rfl

/-- An export whose scroll ends with its first page ends there. -/
theorem IsEnd.run_exportChannels {p : Predicate} (hend : IsEnd outcome)
    (hrun : (dir.openScroll size p).run b = (outcome, after)) :
    ((dir.exportChannels size p).run b).2 = after ∧
      ((dir.exportChannels size p).run b).1 ≠ .exhausted :=
  hend.run_bind (fun last => ⟨last, drain_last dir dir.pageBudget last⟩) hrun

/-- A full page takes one page off those that are left. -/
theorem length_drop_lt_of_full {hits : List Hit} {budget : Nat} (hsize : 0 < size)
    (hfull : size ≤ (hits.take size).length) (hbudget : hits.length / size < budget + 1) :
    (hits.drop size).length / size < budget := by
  have hle : size ≤ hits.length := hfull.trans (List.length_take_le' size hits)
  rw [Nat.div_eq_sub_div hsize hle] at hbudget
  rw [List.length_drop]
  exact Nat.lt_of_succ_lt_succ hbudget

/-- An export that has not used up its budget has closed its cursor, whichever page it ended
with. -/
theorem run_drain_steady (hlife : dir.config.scrollLifetime ≠ 0) {budget : Nat}
    (h : b.Steady) (hended : ((dir.drain budget ⟨some id, channels⟩).run b).1 ≠ .exhausted) :
    ((dir.drain budget ⟨some id, channels⟩).run b).2.Steady ∧
      ((dir.drain budget ⟨some id, channels⟩).run b).2.openCursors =
        b.openCursors.filter (· ≠ id) := by
  induction budget generalizing b channels with
  | zero => exact absurd rfl hended
  | succ budget ih =>
    have hsettled := settled_nextPage h hlife id
    rcases hrun : (dir.nextPage id).run b with ⟨outcome, after⟩
    rw [hrun] at hsettled
    cases hsettled with
    | kept page hsteady hopen =>
      obtain ⟨hsame, hexhausted⟩ := run_drain_kept budget channels hrun
      rw [hsame, ← hopen]
      exact ih hsteady fun h => hended (hexhausted.mpr h)
    | closed hend hsteady hopen =>
      rw [(hend.run_drain budget channels hrun).1]
      exact ⟨hsteady, hopen⟩

/-- An export ends if its budget has a page for every full one that is left, and one more. -/
theorem run_drain_ne_exhausted (hlife : dir.config.scrollLifetime ≠ 0) (hsize : 0 < size)
    {budget : Nat} (h : b.Holds serial remaining size)
    (hbudget : remaining.length / size < budget) :
    ((dir.drain budget ⟨some (.issued serial), channels⟩).run b).1 ≠ .exhausted := by
  induction budget generalizing b remaining channels with
  | zero => exact absurd hbudget (Nat.not_lt_zero _)
  | succ budget ih =>
    obtain ⟨hanswer, hholds⟩ := h.handle_continueScroll hlife
    have hnext : (dir.nextPage (.issued serial)).run b =
        (dir.finishPage ⟨.issued serial, remaining.take size, size⟩).run _ :=
      run_request_bind_ok hanswer
    rcases run_finishPage_cases dir ⟨.issued serial, remaining.take size, size⟩
        (b.handle (.continueScroll (.issued serial) dir.config.scrollLifetime)).2 with
      ⟨page, hfull, hrun⟩ | ⟨outcome, hend, hrun⟩
    · rw [ne_eq, (run_drain_kept budget channels (hnext.trans hrun)).2]
      exact ih hholds (length_drop_lt_of_full hsize hfull hbudget)
    · exact (hend.run_drain budget channels (hnext.trans hrun)).2

/-- An export closes the cursor that it has opened, and no other, unless its budget is too small. -/
theorem run_exportChannels_steady (h : b.Steady) (hlife : dir.config.scrollLifetime ≠ 0)
    (size : Nat) (p : Predicate) (hended : ((dir.exportChannels size p).run b).1 ≠ .exhausted) :
    ((dir.exportChannels size p).run b).2.Steady ∧
      ((dir.exportChannels size p).run b).2.openCursors = b.openCursors := by
  rcases settled_openScroll h hlife size p with ⟨e, hrun⟩ | hsettled
  · rw [((IsEnd.error e).run_exportChannels hrun).1]
    exact ⟨h, rfl⟩
  rcases hrun : (dir.openScroll size p).run b with ⟨outcome, after⟩
  rw [hrun] at hsettled
  rw [← h.filter_next]
  cases hsettled with
  | kept page hsteady hopen =>
    rw [exportChannels, run_bind, hrun] at hended ⊢
    exact hopen ▸ run_drain_steady hlife hsteady hended
  | closed hend hsteady hopen =>
    rw [(hend.run_exportChannels hrun).1]
    exact ⟨hsteady, hopen⟩

/-- A budget of one page for each full page that there is to read is enough. -/
theorem run_exportChannels_ne_exhausted (h : b.Steady) (hlife : dir.config.scrollLifetime ≠ 0)
    {p : Predicate}
    (hbudget : (b.store.matching dir.config.channelIndex p).length / size ≤ dir.pageBudget) :
    ((dir.exportChannels size p).run b).1 ≠ .exhausted := by
  rcases Nat.eq_zero_or_pos size with rfl | hsize
  · obtain ⟨e, hrun⟩ := run_openScroll_zero h.available p
    exact ((IsEnd.error e).run_exportChannels hrun).2
  obtain ⟨hanswer, hholds⟩ := Backend.handle_openScroll h.available h.fresh hsize.ne' hlife
    dir.config.channelIndex p
  have hopen : (dir.openScroll size p).run b =
      (dir.finishPage ⟨.issued b.nextSerial, (b.store.matching _ p).take size, size⟩).run _ :=
    run_request_bind_ok hanswer
  rcases run_finishPage_cases dir
      ⟨.issued b.nextSerial, (b.store.matching dir.config.channelIndex p).take size, size⟩
      (b.handle (.openScroll dir.config.channelIndex p size dir.config.scrollLifetime)).2 with
    ⟨page, hfull, hrun⟩ | ⟨outcome, hend, hrun⟩
  · rw [exportChannels, run_bind, hopen, hrun]
    exact run_drain_ne_exhausted hlife hsize hholds
      (length_drop_lt_of_full hsize hfull (Nat.lt_succ_of_le hbudget))
  · exact (hend.run_exportChannels (hopen.trans hrun)).2

/-- No call for a page leaves a cursor open that its caller does not know. Opening a scroll adds
the cursor that it hands over, and none if it hands over none. The next page of a cursor hands
over the same cursor, or closes it and no other. An export that ends leaves the cursors as they
were, and it ends if its budget has a page for every full one. Lifetimes are such that a clock can
measure them (`Backend.openScroll`). -/
theorem scrolling_leaks_no_cursor (dir : Directory) (b : Backend) (size : Nat) (p : Predicate)
    (params : QueryParams) (id : CursorId) (steady : b.Steady)
    (hlife : dir.config.scrollLifetime ≠ 0) :
    Adds b ((dir.openScroll size p).run b) ∧
    Adds b ((dir.openQueryScroll size params).run b) ∧
    Settled id b.openCursors ((dir.nextPage id).run b) ∧
    (((dir.exportChannels size p).run b).1 ≠ .exhausted →
      ((dir.exportChannels size p).run b).2.Steady ∧
      ((dir.exportChannels size p).run b).2.openCursors = b.openCursors) ∧
    ((b.store.matching dir.config.channelIndex p).length / size ≤ dir.pageBudget →
      ((dir.exportChannels size p).run b).1 ≠ .exhausted) :=
  ⟨adds_openScroll steady hlife size p, adds_openQueryScroll steady hlife size params,
    settled_nextPage steady hlife id, run_exportChannels_steady steady hlife size p,
    run_exportChannels_ne_exhausted steady hlife⟩

/-- Two channels, then a document that is no channel, and a cursor of another client. -/
def damaged : Backend where
  store := (usual.filled [⟨"A", "o", [], []⟩, ⟨"B", "o", [], []⟩] [] []).put "channelfinder" "C"
    (.object [])
  cursors := [⟨0, [], 1, 5⟩]
  nextSerial := 1

/-- An export with pages of one fails at its third page, and only the other client's cursor is
open then. Opening the same scroll hands over a second cursor. -/
theorem damaged_export_closes :
    ((usual.exportChannels 1 .matchAll).run damaged).1 =
        .failed (.invalidDocument "channelfinder" "C" (.missingField "name")) ∧
      ((usual.exportChannels 1 .matchAll).run damaged).2.openCursors = [.issued 0] ∧
      ((usual.openScroll 1 .matchAll).run damaged).2.openCursors = [.issued 0, .issued 1] := by
  obtain ⟨hadds, -, -, hrestores, hends⟩ := scrolling_leaks_no_cursor usual damaged 1 .matchAll
    ⟨[]⟩ (.issued 0) ⟨rfl, by decide, by decide⟩ (by decide)
  refine ⟨?_, (hrestores (hends ?_)).2, hadds.cursors.trans ?_⟩ <;> cbv

end Directory

end ChannelDirectory

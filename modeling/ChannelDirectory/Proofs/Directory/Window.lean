import ChannelDirectory.Proofs.Directory.Conduct
import ChannelDirectory.Proofs.Directory.Paging

/-!
# Refused pages

The backend refuses a page that reaches beyond its window. A listing checks its page against the
same bound before it asks for it, so it is never refused. A reading of a whole result set checks
nothing : it goes on after the last name, but each of its pages has the default size of a listing,
and a window that is smaller than this size refuses the first one.

`Directory.pages_refused_iff` says which operations are refused, whatever is stored : all readings
of whole result sets, and all writes of tags and properties that come to read members. How a write
gets there is `Directory.reachesMembers`. That nothing else is refused comes from
`Regime.unrefused`, a rule that every operation keeps to if pages fit.
-/

namespace ChannelDirectory

open Attribute Collection LawfulAttribute Program

/-- The rule that nobody is refused anything. -/
def Regime.unrefused (window : Nat) : Regime where
  state b := b.window = window
  allows _ := True
  errors e := ¬e.IsRefusal
  congr h _ hwindow := hwindow.trans h
  after h _ := h
  errors_of_not_refusal h := h

namespace Program

variable {α β γ : Type} {p : Program α} {k : α → Program β} {good : α → Prop} {b : Backend}

/-- The program ends because the backend refuses a request. -/
def Refused (p : Program α) (b : Backend) : Prop :=
  ∃ reason, (p.run b).1 = .failed (.backend (.rejected reason))

/-- A program of which each request is within the window is not refused. -/
theorem Upholds.not_refused (h : p.Upholds (.unrefused b.window) good) : ¬p.Refused b := by
  rintro ⟨reason, hrun⟩
  obtain ⟨-, -, herrors⟩ := h.run rfl
  exact herrors _ hrun trivial

/-- A program is refused in its first part, or in what follows it. -/
theorem ReadOnly.refused_bind_iff (hread : p.ReadOnly) :
    (p >>= k).Refused b ↔ p.Refused b ∨ ∃ value, p.Returns b value ∧ (k value).Refused b := by
  unfold Refused Returns
  rw [hread.run_bind]
  cases (p.run b).1 <;> simp

/-- Giving up the answer does not change what is refused. -/
theorem refused_discard_iff : p.discard.Refused b ↔ p.Refused b := by
  unfold Refused
  rw [discard, run_bind]
  rcases p.run b with ⟨value | e | _, after⟩
  · change (∃ reason, Outcome.ok () = _) ↔ _
    simp
  · simp
  · simp

/-- A program whose first request fails is refused exactly if this request is. -/
theorem refused_request_bind_iff {r : Request} (hread : r.isRead = true) {k : r.Answer → Program β}
    {e : BackendError} (h : (b.handle r).1 = .error e) :
    (request r >>= k).Refused b ↔ ∃ reason, e = .rejected reason := by
  have hrun : ((request r).run b).1 = .failed (.backend e) := by
    rw [request, run, runWith]
    rcases hanswer : b.handle r with ⟨answer, after⟩
    obtain rfl : answer = .error e := (congrArg Prod.fst hanswer).symm.trans h
    rfl
  unfold Refused
  rw [(readOnly_request hread).run_bind, hrun]
  simp

end Program

/-! ## Reading a collection -/

namespace Collection

variable {α β : Type} [Entity α] {c : Collection α} {b : Backend}

omit [Entity α] in
/-- Pages that fit are not refused. -/
theorem Fits.paged (hfits : c.Fits b) : c.Paged (.unrefused b.window) := by
  intro b' p after reason hb' hreject
  have hfits' : c.Fits b' := by
    rw [Fits, show b'.window = b.window from hb']
    exact hfits
  rw [hfits'.rejection?_eq] at hreject
  cases hreject

/-- If pages do not fit, whatever starts with a reading of the whole collection is refused. -/
theorem refused_findMatching_bind_iff (hfits : ¬c.Fits b) {budget : Nat} {p : Predicate}
    {k : List α → Program β} :
    (c.findMatching budget p >>= k).Refused b ↔ b.available = true ∧ 0 < budget := by
  cases budget with
  | zero => simp [findMatching, findFrom, Refused, run, runWith]
  | succ budget =>
    rw [findMatching, findFrom, bind_assoc]
    by_cases havail : b.available = true
    · have hanswer : (b.handle (.search c.index (c.pageRequest p none))).1 =
          .error (.rejected (.windowTooLarge (addCounts 0 c.pageSize) b.window)) := by
        rw [Backend.handle, if_pos havail, Backend.answer, rejection?_of_not_fits hfits]
      rw [refused_request_bind_iff rfl hanswer]
      simp [havail]
    · have hanswer : (b.handle (.search c.index (c.pageRequest p none))).1 =
          .error .unavailable := by
        rw [Backend.handle, if_neg havail]
      rw [refused_request_bind_iff rfl hanswer]
      simp [havail]

/-- A search is refused exactly if its pages do not fit the window and the first is asked for. -/
theorem refused_findMatching_iff {budget : Nat} {p : Predicate} :
    (c.findMatching budget p).Refused b ↔ (b.available = true ∧ 0 < budget) ∧ ¬c.Fits b := by
  by_cases hfits : c.Fits b
  · have hnot := (upholds_findMatching yields_true hfits.paged budget p).not_refused
    simp [hnot, hfits]
  · rw [← Program.bind_pure (c.findMatching budget p), refused_findMatching_bind_iff hfits]
    simp [hfits]

end Collection

namespace Directory

variable {dir : Directory} {b : Backend}

/-- The backend is asked for pages of whole result sets, and refuses them : they are as large as
those of a listing that asks for no size. -/
def RefusesPages (dir : Directory) (b : Backend) : Prop :=
  (b.available = true ∧ 0 < dir.pageBudget) ∧ b.window < addCounts 0 (max dir.config.querySize 1)

/-- Pages are refused exactly if they do not fit the window and one is asked for. -/
theorem refusesPages_iff_not_fits :
    dir.RefusesPages b ↔ (b.available = true ∧ 0 < dir.pageBudget) ∧ ¬dir.channels.Fits b :=
  and_congr_right fun _ => Nat.not_le.symm

/-- The only thing that matters is whether the default size of a listing exceeds the window. -/
theorem refusesPages_iff (havail : b.available = true) (hbudget : 0 < dir.pageBudget)
    (hwindow : 0 < b.window) (hcount : dir.config.querySize ≤ maxCount) :
    dir.RefusesPages b ↔ b.window < dir.config.querySize := by
  rw [RefusesPages, and_iff_right ⟨havail, hbudget⟩, addCounts, if_neg]
  · omega
  · have hone : 1 ≤ maxCount := by decide
    omega

/-! ## Listings -/

/-- A listing does not ask for a page that its own check excludes. -/
theorem not_refused_search (hwindow : b.window = dir.config.maxResultWindow) (query : Query) :
    ¬(dir.search query).Refused b := by
  have hchecked : (ofExcept (dir.searchRequest query)).Upholds (.unrefused b.window) fun request =>
      ∃ page : Page, page.reach ≤ b.window ∧ request = query.searchFor page := by
    refine upholds_ofExcept (fun request hok => ?_) fun error herror => ?_
    · obtain ⟨page, -, hlimit, rfl⟩ := searchRequest_eq_ok_iff.mp hok
      exact ⟨page, hwindow ▸ hlimit, rfl⟩
    · rw [searchRequest] at herror
      split at herror
      · cases herror
        exact not_false
      · split at herror
        · cases herror
          exact not_false
        · cases herror
  have hsearch : (dir.search query).Upholds (.unrefused b.window) fun _ => True := by
    refine hchecked.bind fun request hrequest => ?_
    obtain ⟨page, hreach, rfl⟩ := hrequest
    have hanswer : ∀ b' : Backend, b'.window = b.window → ∃ result,
        (b'.answer (.search dir.config.channelIndex (query.searchFor page))).1 = .ok result ∧
          True := by
      intro b' hb'
      rw [Backend.answer, rejection?_searchFor (hb' ▸ hreach)]
      exact ⟨_, rfl, trivial⟩
    refine (upholds_request (fun _ => True) (List.forall_mem_nil _) hanswer).bind fun result _ => ?_
    exact (upholds_mapM_decode (G := fun _ => True) fun _ _ _ _ => trivial).bind fun _ _ => trivial
  exact hsearch.not_refused

/-- What a listing says of a page that reaches too far. -/
theorem run_search_of_lt_reach {query : Query} {page : Page}
    (hpage : query.page dir.config.querySize = .ok page)
    (hreach : dir.config.maxResultWindow < page.reach) :
    (dir.search query).run b =
      (.failed (.windowTooLarge page.reach dir.config.maxResultWindow), b) := by
  rw [search, searchRequest, hpage]
  simp only [if_pos hreach]
  rfl

/-! ## Tags and properties -/

section Attributes

variable {α ρ : Type} [Attribute α ρ] [Reference ρ] [LawfulAttribute α] [DecidableEq ρ]

omit [DecidableEq ρ] in
/-- Nobody is refused anything, whatever is known of channels and references. -/
theorem attributeRules_unrefused (dir : Directory) (window : Nat) :
    dir.AttributeRules (.unrefused window) (fun _ => True) α fun _ => True where
  yields _ _ _ _ _ _ _ := trivial
  put _ _ := trivial
  replace _ _ := trivial
  delete _ := trivial
  refs _ _ _ _ := trivial
  setRefs _ _ _ _ _ := trivial
  memberRef _ _ _ _ := trivial
  singleRef _ _ _ _ _ := trivial
  rebind _ _ _ _ := trivial
  putRecord _ _ := trivial
  deleteRecord _ := trivial

/-- What a write does before it reads members, and whether it reads any. -/
def reachesMembers (dir : Directory) : AttributeCommand α → Program Bool
  | .create name record => do
    checkName name record
    dir.checkRecord record
    let _ ← check (requestedMembers record)
    return true
  | .createMany records => do
    let _ ← each (lastByName records).values dir.checkRecord
    match (lastByName records).values with
    | [] => return false
    | record :: _ =>
      let _ ← check (requestedMembers record)
      return true
  | .update name request => do
    let existing ← (dir.records α).require name
    let newName := if Entity.name request = "" then name else Entity.name request
    let newOwner := if owner request = "" then owner existing else owner request
    let record := withIdentity request newName newOwner
    dir.checkRecord record
    let _ ← check (requestedMembers record)
    return true
  | .updateMany records =>
    match (lastByName records).entries with
    | [] => return false
    | (name, record) :: _ => do
      let existing ← (dir.records α).get name
      let record := match existing with
        | some existing => withIdentity record name (owner existing)
        | none => record
      dir.checkRecord record
      let _ ← check (requestedMembers record)
      return true
  | .remove name => do
    let _ ← (dir.records α).require name
    return true
  | .addToChannel .. | .removeFromChannel .. => return false

/-- Where pages are refused, the program is refused if and only if the reads before it come to
`true`. -/
def RefusedAfter (dir : Directory) (b : Backend) {β : Type} (p : Program β)
    (reads : Program Bool) : Prop :=
  p.Refused b ↔ (b.available = true ∧ 0 < dir.pageBudget) ∧ reads.Returns b true

variable {β γ : Type} {p : Program β}

/-- Reads that are not refused can be made first. -/
theorem RefusedAfter.bind {good : β → Prop} {k : β → Program γ} {reads : β → Program Bool}
    (hread : p.ReadOnly) (hquiet : p.Upholds (.unrefused b.window) good)
    (h : ∀ value, dir.RefusedAfter b (k value) (reads value)) :
    dir.RefusedAfter b (p >>= k) (p >>= reads) := by
  unfold RefusedAfter
  rw [hread.refused_bind_iff, or_iff_right hquiet.not_refused, returns_bind hread,
    ← exists_and_left]
  refine exists_congr fun value => ?_
  rw [show (k value).Refused b ↔ _ from h value]
  exact and_left_comm

theorem RefusedAfter.discard {reads : Program Bool} (h : dir.RefusedAfter b p reads) :
    dir.RefusedAfter b p.discard reads :=
  refused_discard_iff.trans h

/-- A program that asks for no page is not refused. -/
theorem refusedAfter_of_upholds {good : β → Prop} (h : p.Upholds (.unrefused b.window) good) :
    dir.RefusedAfter b p (done false) := by
  simp [RefusedAfter, h.not_refused]

omit [DecidableEq ρ] in
/-- A batch for no records at all is not refused. -/
theorem refusedAfter_nothing {keys : List String} (h : keys = []) :
    dir.RefusedAfter b (dir.submitEdits [] KeyMap.empty >>= fun _ => dir.readAttributes α keys)
      (done false) := by
  subst h
  have rules := attributeRules_unrefused (α := α) dir b.window
  have hsubmit := rules.upholds_submitEdits (List.forall_mem_nil _) ChannelEdits.put_empty
  have hread : (dir.readAttributes α []).Upholds (.unrefused b.window) fun _ => True := trivial
  exact refusedAfter_of_upholds (hsubmit.bind fun _ _ => hread)

section Refusing

variable (hfits : ¬dir.channels.Fits b)

include hfits

/-- A search is refused at once. -/
theorem refusedAfter_members {p : Predicate} {k : List Channel → Program β} :
    dir.RefusedAfter b (dir.members p >>= k) (done true) := by
  rw [RefusedAfter, members, refused_findMatching_bind_iff hfits]
  simp

omit [LawfulAttribute α] [DecidableEq ρ] in
theorem refusedAfter_currentMembers {name : String} {k : KeyMap ρ → Program β} :
    dir.RefusedAfter b (dir.currentMembers α name >>= k) (done true) := by
  rw [currentMembers, bind_assoc]
  exact refusedAfter_members hfits

/-- Staging a replacement is refused once the members that it asks for have been checked. -/
theorem refusedAfter_stageReplace {record : α} {edits : ChannelEdits}
    {k : ChannelEdits → Program β} :
    dir.RefusedAfter b (dir.stageReplace record edits >>= k) (do
      let _ ← check (requestedMembers record)
      return true) := by
  rw [stageReplace, bind_assoc]
  refine .bind (readOnly_check _) ((attributeRules_unrefused dir _).upholds_requestedMembers record)
    fun desired => ?_
  rw [bind_assoc]
  exact refusedAfter_currentMembers hfits

/-- A batch of records reads the members of the first one first. -/
theorem refusedAfter_createAttributes (records : List α) :
    dir.RefusedAfter b (dir.createAttributes records)
      (dir.reachesMembers (.createMany records)) := by
  have hread := readOnly_each fun record (_ : record ∈ (lastByName records).values) =>
    readOnly_checkRecord dir record
  refine .bind hread (upholds_each fun record _ => upholds_checkRecord dir record) fun _ => ?_
  cases hvalues : (lastByName records).values with
  | nil =>
    have hkeys : (lastByName records).keys = [] := by
      rw [KeyMap.keys, List.map_eq_nil_iff]
      exact List.map_eq_nil_iff.mp hvalues
    exact refusedAfter_nothing hkeys
  | cons record rest =>
    rw [stageReplaceAll, Program.bind_assoc]
    exact refusedAfter_stageReplace hfits

/-- An update is refused once it reaches the members of a name. -/
theorem refusedAfter_updateAttribute (name : String) (request : α) :
    dir.RefusedAfter b (dir.updateAttribute name request)
      (dir.reachesMembers (.update name request)) := by
  have rules := attributeRules_unrefused (α := α) dir b.window
  refine .bind (readOnly_require _ _) (upholds_requireRecord dir name) fun existing => ?_
  refine .bind (readOnly_checkRecord _ _) (upholds_checkRecord _ _) fun _ => ?_
  refine .bind (readOnly_check _) (rules.upholds_requestedMembers _) fun desired => ?_
  exact refusedAfter_currentMembers hfits

/-- What many updates do for their first record, whether it exists or not. -/
theorem refusedAfter_updateAttributes (records : List α) :
    dir.RefusedAfter b (dir.updateAttributes records)
      (dir.reachesMembers (.updateMany records)) := by
  have rules := attributeRules_unrefused (α := α) dir b.window
  rw [updateAttributes, reachesMembers]
  cases hentries : (lastByName records).entries with
  | nil =>
    have hkeys : (lastByName records).keys = [] := by
      rw [KeyMap.keys, hentries, List.map_nil]
    exact refusedAfter_nothing hkeys
  | cons entry rest =>
    rw [stageMergeAll, stageMerge, Program.bind_assoc, Program.bind_assoc]
    refine .bind (readOnly_get _ _) (upholds_get yields_true _) fun existing => ?_
    cases existing with
    | none | some existing =>
      dsimp only
      rw [Program.bind_assoc]
      refine .bind (readOnly_checkRecord _ _) (upholds_checkRecord _ _) fun _ => ?_
      rw [Program.bind_assoc]
      refine .bind (readOnly_check _) (rules.upholds_requestedMembers _) fun desired => ?_
      rw [Program.bind_assoc]
      exact refusedAfter_currentMembers hfits

/-- If pages are refused, a write is refused as soon as it reads members. -/
theorem refusedAfter_attributeProgram (command : AttributeCommand α) :
    dir.RefusedAfter b (dir.attributeProgram command) (dir.reachesMembers command) := by
  have rules := attributeRules_unrefused (α := α) dir b.window
  cases command with
  | create name record =>
    refine RefusedAfter.discard (.bind (readOnly_checkName _ _) (upholds_checkName _ _)
      fun _ => ?_)
    refine .bind (readOnly_checkRecord _ _) (upholds_checkRecord _ _) fun _ => ?_
    exact refusedAfter_stageReplace hfits
  | createMany records => exact (refusedAfter_createAttributes hfits records).discard
  | addToChannel name channel request =>
    exact (refusedAfter_of_upholds (rules.upholds_addToChannel name channel request)).discard
  | update name request => exact (refusedAfter_updateAttribute hfits name request).discard
  | updateMany records => exact (refusedAfter_updateAttributes hfits records).discard
  | remove name =>
    refine .bind (readOnly_require _ _) (upholds_requireRecord dir name) fun _ => ?_
    exact refusedAfter_currentMembers hfits
  | removeFromChannel name channel =>
    exact refusedAfter_of_upholds (rules.upholds_removeFromChannel name channel)

end Refusing

omit [DecidableEq ρ] in
/-- Reading a record with its members is refused exactly if pages are and the record is there. -/
theorem refused_readAttribute_iff {name : String} :
    (dir.readAttribute α name true).Refused b ↔
      dir.RefusesPages b ∧ ∃ record : α, ((dir.records α).require name).Returns b record := by
  rw [refusesPages_iff_not_fits]
  by_cases hfits : dir.channels.Fits b
  · have rules := attributeRules_unrefused (α := α) dir b.window
    have hnot := (rules.upholds_readAttribute hfits.paged name true).not_refused
    simp [hnot, hfits]
  · have hread := readOnly_require (dir.records α) name
    have hafter : dir.RefusedAfter b (dir.readAttribute α name true) (do
        let _ ← (dir.records α).require name
        return true) :=
      .bind hread (upholds_requireRecord dir name) fun _ => refusedAfter_members hfits
    rw [show (dir.readAttribute α name true).Refused b ↔ _ from hafter, returns_bind hread]
    simp [hfits]

/-- A command is refused exactly if pages are and it comes to read the members of a name. -/
theorem refused_attributeProgram_iff {command : AttributeCommand α} :
    (dir.attributeProgram command).Refused b ↔
      dir.RefusesPages b ∧ (dir.reachesMembers command).Returns b true := by
  rw [refusesPages_iff_not_fits]
  by_cases hfits : dir.channels.Fits b
  · have rules := attributeRules_unrefused (α := α) dir b.window
    have hnot := (rules.upholds_attributeProgram hfits.paged command).not_refused
    simp [hnot, hfits]
  · have hafter := refusedAfter_attributeProgram hfits command
    rw [show (dir.attributeProgram command).Refused b ↔ _ from hafter]
    simp [hfits]

end Attributes

/-! ## Which operations are refused -/

/-- Behind a window that is its own bound for listings, a directory has no listing refused : one
that reaches too far fails before. Readings of whole result sets, and writes that come to read
members, are refused exactly if the default size of a listing is greater than the bound. -/
theorem pages_refused_iff (α : Type) {ρ : Type} [Attribute α ρ] [Reference ρ] [LawfulAttribute α]
    [DecidableEq ρ] (dir : Directory) (b : Backend)
    (hwindow : b.window = dir.config.maxResultWindow) :
    (∀ query, ¬(dir.search query).Refused b) ∧
    (∀ query page, query.page dir.config.querySize = .ok page →
      dir.config.maxResultWindow < page.reach →
      (dir.search query).run b =
        (.failed (.windowTooLarge page.reach dir.config.maxResultWindow), b)) ∧
    (∀ p, (dir.members p).Refused b ↔ dir.RefusesPages b) ∧
    ((dir.channels.list dir.pageBudget).Refused b ↔ dir.RefusesPages b) ∧
    ((dir.listAttributes α).Refused b ↔ dir.RefusesPages b) ∧
    (∀ name, (dir.readAttribute α name true).Refused b ↔
      dir.RefusesPages b ∧ ∃ record : α, ((dir.records α).require name).Returns b record) ∧
    (∀ command : AttributeCommand α, (dir.attributeProgram command).Refused b ↔
      dir.RefusesPages b ∧ (dir.reachesMembers command).Returns b true) ∧
    (b.available = true → 0 < dir.pageBudget → 0 < dir.config.maxResultWindow →
      dir.config.querySize ≤ maxCount →
      (dir.RefusesPages b ↔ dir.config.maxResultWindow < dir.config.querySize)) := by
  have hpages : _ ↔ dir.RefusesPages b := refusesPages_iff_not_fits.symm
  refine ⟨not_refused_search hwindow, fun query page => run_search_of_lt_reach,
    fun p => refused_findMatching_iff.trans hpages, refused_findMatching_iff.trans hpages,
    refused_findMatching_iff.trans hpages, fun name => refused_readAttribute_iff,
    fun command => refused_attributeProgram_iff, fun havail hbudget hpos hcount => ?_⟩
  rw [← hwindow] at hpos ⊢
  exact refusesPages_iff havail hbudget hpos hcount

/-- A directory of which only the bound for listings has been set. -/
def shortListings : Directory := ⟨{ maxResultWindow := 500 }, 3⟩

/-- One channel that carries a tag, behind a window of five hundred. -/
def taggedBehindWindow : Backend where
  store := shortListings.filled [⟨"A", "o", [⟨"t", "x"⟩], []⟩] [⟨"t", "x", []⟩] []
  window := 500

/-- The tag cannot be read with its members, nor deleted, but it can be taken off the channel. -/
theorem shortListings_refused :
    (shortListings.readAttribute Tag "t" true).Refused taggedBehindWindow ∧
      (shortListings.attributeProgram (α := Tag) (.remove "t")).Refused taggedBehindWindow ∧
      ¬(shortListings.attributeProgram (α := Tag) (.removeFromChannel "t" "A")).Refused
        taggedBehindWindow := by
  obtain ⟨-, -, -, -, -, hread, hwrite, hrefuses⟩ :=
    pages_refused_iff Tag shortListings taggedBehindWindow rfl
  have hrefused : shortListings.RefusesPages taggedBehindWindow :=
    (hrefuses rfl (by decide) (by decide) (by decide)).mpr (by decide)
  have hrequire : ((shortListings.records Tag).require "t").Returns taggedBehindWindow
      ⟨"t", "x", []⟩ := by
    cbv
  have hremove : (shortListings.reachesMembers (α := Tag) (.remove "t")).Returns taggedBehindWindow
      true := by
    cbv
  refine ⟨(hread "t").mpr ⟨hrefused, _, hrequire⟩, (hwrite (.remove "t")).mpr ⟨hrefused, hremove⟩,
    fun h => ?_⟩
  obtain ⟨-, hreads⟩ := (hwrite (.removeFromChannel "t" "A")).mp h
  cases hreads

/-- The members of a directory with one channel are refused, although its backend has the window
that the directory is configured for. -/
theorem shortListings_members_refused :
    taggedBehindWindow.window = shortListings.config.maxResultWindow ∧
      (shortListings.members .matchAll).run taggedBehindWindow =
        (.failed (.backend (.rejected (.windowTooLarge 10000 500))), taggedBehindWindow) :=
  ⟨rfl, by cbv⟩

end Directory

end ChannelDirectory

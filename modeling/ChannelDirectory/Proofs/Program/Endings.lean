import ChannelDirectory.Proofs.Collection.Pages
import ChannelDirectory.Proofs.Store.Batches

/-!
# How a program can end

`p.EndsIn b errors short` bounds the ways in which `p` can end on a backend that do not give a
value : its error is among `errors`, and it uses up its budget of pages only if `short` holds.
The bound of a sequence of reads comes from those of its parts (`EndsIn.bind`), where a later
part is only looked at for a value that the earlier ones return.

No read ends with a partial failure, and reading a whole result set uses up a budget only if
that is smaller than the number of pages (`endsIn_findMatching`). For a write,
`Write.harmless` puts the bounds of its plan, its batch and its answer together.
-/

namespace ChannelDirectory

/-- The error is not about a batch that was carried out in part. -/
def Error.IsWhole (e : Error) : Prop :=
  e.kind ≠ .partialFailure

theorem Error.isWhole_backend (e : BackendError) : (Error.backend e).IsWhole := by
  cases e <;> rintro ⟨⟩

namespace Program

variable {α β : Type} {p : Program α} {k : α → Program β} {b : Backend}
  {errors errors' : Error → Prop} {short short' : Prop}

/-- Without a value the program ends with one of some errors, or, if it has too few pages, with
its budget used up. -/
def EndsIn (p : Program α) (b : Backend) (errors : Error → Prop) (short : Prop) : Prop :=
  match (p.run b).1 with
  | .ok _ => True
  | .failed e => errors e
  | .exhausted => short

/-- A statement about endings may be weakened. -/
theorem EndsIn.mono (h : p.EndsIn b errors short) (herrors : ∀ e, errors e → errors' e)
    (hshort : short → short') : p.EndsIn b errors' short' := by
  unfold EndsIn at h ⊢
  cases hrun : (p.run b).1 with
  | ok value => trivial
  | failed e =>
    rw [hrun] at h
    exact herrors e h
  | exhausted =>
    rw [hrun] at h
    exact hshort h

theorem EndsIn.of_failed (h : p.EndsIn b errors short) {e : Error}
    (hrun : (p.run b).1 = .failed e) : errors e := by
  rwa [EndsIn, hrun] at h

theorem EndsIn.of_exhausted (h : p.EndsIn b errors short) (hrun : (p.run b).1 = .exhausted) :
    short := by
  rwa [EndsIn, hrun] at h

theorem Returns.endsIn {value : α} (h : p.Returns b value) : p.EndsIn b errors short := by
  rw [EndsIn, h]
  trivial

theorem endsIn_done (value : α) : (done value).EndsIn b errors short := trivial

theorem endsIn_fail {e : Error} (h : errors e) : (fail e : Program α).EndsIn b errors short := h

theorem endsIn_ofExcept {e : Except Error α} (h : ∀ error, e = .error error → errors error) :
    (ofExcept e).EndsIn b errors short := by
  cases e with
  | ok value => exact endsIn_done value
  | error error => exact endsIn_fail (h error rfl)

/-- A failed check is the fault of the client. -/
theorem endsIn_check (e : Except ValidationError α) : (check e).EndsIn b Error.IsWhole short := by
  cases e with
  | ok value => exact endsIn_done value
  | error e =>
    refine endsIn_fail ?_
    rw [Error.IsWhole, Error.kind]
    rintro ⟨⟩

/-- A request ends with an answer or with the error of the backend. -/
theorem endsIn_request {r : Request} (h : ∀ e, (b.handle r).1 = .error e → errors (.backend e)) :
    (request r).EndsIn b errors short := by
  unfold EndsIn
  rw [run, request, runWith]
  rcases hanswer : b.handle r with ⟨answer | answer, after⟩
  · exact h answer (congrArg Prod.fst hanswer)
  · trivial

theorem endsIn_request_whole (r : Request) : (request r).EndsIn b Error.IsWhole short :=
  endsIn_request fun e _ => Error.isWhole_backend e

/-- A sequence of reads ends in what its parts can end in. -/
theorem EndsIn.bind (hread : p.ReadOnly) (hp : p.EndsIn b errors short)
    (hk : ∀ value, p.Returns b value → (k value).EndsIn b errors short) :
    (p >>= k).EndsIn b errors short := by
  unfold EndsIn at hp ⊢
  rw [hread.run_bind]
  cases hrun : (p.run b).1 with
  | ok value => exact hk value hrun
  | failed e => rwa [hrun] at hp
  | exhausted => rwa [hrun] at hp

/-- Reading one after the other fails as one of the reads does. -/
theorem endsIn_each {items : List α} {f : α → Program β} (hread : ∀ item, (f item).ReadOnly)
    (h : ∀ item ∈ items, (f item).EndsIn b errors short) :
    (each items f).EndsIn b errors short := by
  induction items with
  | nil => exact endsIn_done _
  | cons item items ih =>
    refine (h item List.mem_cons_self).bind (hread item) fun value _ => ?_
    have hrest := ih fun i hi => h i (List.mem_cons_of_mem _ hi)
    exact hrest.bind (readOnly_each fun i _ => hread i) fun values _ => endsIn_done _

end Program

/-! ## Reads of a collection -/

namespace Collection

open Program

variable {α : Type} {c : Collection α} {P : α → Prop} {b : Backend} {short : Prop}

theorem endsIn_contains (c : Collection α) (id : String) :
    (c.contains id).EndsIn b Error.IsWhole short :=
  (endsIn_request_whole _).bind (readOnly_request rfl) fun _ _ => endsIn_done _

theorem endsIn_missing (c : Collection α) (ids : List String) :
    (c.missing ids).EndsIn b Error.IsWhole short := by
  unfold missing
  split
  · exact endsIn_done _
  · exact (endsIn_request_whole _).bind (readOnly_request rfl) fun _ _ => endsIn_done _

variable [Entity α]

theorem isWhole_of_decode {id : String} {doc : Json} {e : Error} (h : c.decode id doc = .error e) :
    e.IsWhole := by
  obtain ⟨cause, rfl⟩ := invalidDocument_of_decode h
  rintro ⟨⟩

theorem isWhole_of_mapM_decode {γ : Type} {items : List γ} {id : γ → String} {doc : γ → Json}
    {e : Error} (h : items.mapM (fun item => c.decode (id item) (doc item)) = .error e) :
    e.IsWhole := by
  obtain ⟨item, -, hitem⟩ := exists_of_mapM_eq_error h
  exact isWhole_of_decode hitem

theorem endsIn_get (c : Collection α) (id : String) : (c.get id).EndsIn b Error.IsWhole short := by
  refine (endsIn_request_whole _).bind (readOnly_request rfl) fun doc _ => ?_
  cases doc with
  | none => exact endsIn_done _
  | some doc =>
    exact (endsIn_ofExcept fun _ => isWhole_of_decode).bind (readOnly_ofExcept _) fun _ _ =>
      endsIn_done _

theorem endsIn_require (c : Collection α) (id : String) :
    (c.require id).EndsIn b Error.IsWhole short := by
  refine (c.endsIn_get id).bind (c.readOnly_get id) fun found _ => ?_
  cases found with
  | none => exact endsIn_fail (by rintro ⟨⟩)
  | some record => exact endsIn_done _

theorem endsIn_findAll (c : Collection α) (ids : List String) :
    (c.findAll ids).EndsIn b Error.IsWhole short := by
  unfold findAll
  split
  · exact endsIn_done _
  · exact (endsIn_request_whole _).bind (readOnly_request rfl) fun docs _ =>
      endsIn_ofExcept fun _ => isWhole_of_mapM_decode

/-- The errors of reading page by page : the backend does not answer, or a page does not fit its
window. -/
def NoPage (c : Collection α) (b : Backend) (e : Error) : Prop :=
  e.IsWhole ∧ ¬(b.available = true ∧ c.Fits b)

omit [Entity α] in
/-- A search for a page fails only if there is no such page. -/
theorem endsIn_search (c : Collection α) (p : Predicate) (after : Option String) :
    (request (.search c.index (c.pageRequest p after))).EndsIn b (c.NoPage b) short := by
  refine endsIn_request fun e he => ⟨Error.isWhole_backend e, ?_⟩
  rintro ⟨havail, hfits⟩
  rw [hfits.handle_search havail] at he
  cases he

omit [Entity α] in
/-- The page that is returned is the one in the store. -/
theorem eq_of_returns_search {p : Predicate} {after : Option String} {page : SearchResult}
    (h : (request (.search c.index (c.pageRequest p after))).Returns b page) :
    page = b.store.search c.index (c.pageRequest p after) := by
  rw [← Program.bind_pure (request _), returns_search_bind] at h
  exact returns_done.mp h.2.2

variable [LawfulEntity α]

/-- Reading on uses up the budget only if there are too many full pages in the rest. -/
theorem endsIn_findFrom (wf : c.HoldsOnly P b.store) (hsize : 0 < c.pageSize) (p : Predicate)
    {budget : Nat} {after : Option String} {seen rest : List α}
    (hselect : c.select p b.store = seen ++ rest) (hrest : c.selectAfter p b.store after = rest) :
    (c.findFrom p budget after).EndsIn b (c.NoPage b) (budget ≤ rest.length / c.pageSize) := by
  induction budget generalizing after seen rest with
  | zero => exact Nat.zero_le _
  | succ budget ih =>
    refine (c.endsIn_search p after).bind (readOnly_request rfl) fun page hpage => ?_
    have hhits : page.hits = (rest.take c.pageSize).map hitOf := by
      rw [← hrest, ← wf.hits_search]
      exact congrArg SearchResult.hits (eq_of_returns_search hpage)
    rw [hhits, decodeHits_map]
    change (if (rest.take c.pageSize).length < c.pageSize then _ else _ :
      Program (List α)).EndsIn b _ _
    split
    · exact endsIn_done _
    · rename_i hfull
      have hle : c.pageSize ≤ rest.length := by
        rw [List.length_take] at hfull
        omega
      obtain ⟨hsplit, hnext⟩ := wf.selectAfter_page hsize hselect hle
      have hpages : budget ≤ (rest.drop c.pageSize).length / c.pageSize →
          budget + 1 ≤ rest.length / c.pageSize := by
        rw [← length_drop_div hsize hle]
        exact Nat.succ_le_succ
      have hmore := (ih hsplit hnext).mono (fun e he => he) hpages
      exact hmore.bind (c.readOnly_findFrom p budget _) fun more _ => endsIn_done _

/-- Reading a whole result set uses up the budget only if there are too many full pages. -/
theorem endsIn_findMatching (wf : c.HoldsOnly P b.store) (hsize : 0 < c.pageSize) (p : Predicate)
    (budget : Nat) :
    (c.findMatching budget p).EndsIn b (c.NoPage b)
      (budget ≤ (c.select p b.store).length / c.pageSize) :=
  endsIn_findFrom wf hsize p (List.nil_append _).symm rfl

end Collection

/-! ## Writes -/

/-- Whenever the program ends with an error, nothing has changed, and the error is about the
whole request. If it uses up its budget, it has too few pages. -/
def Program.Harmless {α : Type} (p : Program α) (b : Backend) (short : Prop) : Prop :=
  ∀ outcome b', p.run b = (outcome, b') →
    (∀ e, outcome = .failed e → b' = b ∧ e.IsWhole) ∧ (outcome = .exhausted → short)

open Program in
/-- A write fails without a trace if its plan does, if its batch is always carried out, and if
its answer fails only after a batch without effect. -/
theorem Write.harmless {β : Type} {w : Write β} {b : Backend} {short : Prop}
    (hplan : w.plan.EndsIn b Error.IsWhole short)
    (hbatch : ∀ batch, w.plan.Returns b batch →
      (b.store.summary batch.ops).isSuccess = true ∧
        (batch.answer (b.store.summary batch.ops)).EndsIn (b.after batch.ops)
          (fun e => e.IsWhole ∧ b.after batch.ops = b) short) :
    w.program.Harmless b short := by
  intro outcome b' h
  rw [Write.program, w.readOnly_plan.run_bind] at h
  cases hrun : (w.plan.run b).1 with
  | failed e =>
    rw [hrun] at h
    obtain ⟨rfl, rfl⟩ := Prod.mk.inj h
    refine ⟨?_, by rintro ⟨⟩⟩
    rintro _ ⟨⟩
    exact ⟨rfl, hplan.of_failed hrun⟩
  | exhausted =>
    rw [hrun] at h
    obtain ⟨rfl, rfl⟩ := Prod.mk.inj h
    exact ⟨by rintro _ ⟨⟩, fun _ => hplan.of_exhausted hrun⟩
  | ok batch =>
    rw [hrun] at h
    obtain ⟨hsuccess, hanswer⟩ := hbatch batch hrun
    change batch.program.run b = _ at h
    rw [Batched.program, Program.run_bind, run_execute] at h
    by_cases hreach : batch.ops = [] ∨ b.available = true
    · rw [if_pos hreach, if_pos hsuccess] at h
      have hafter := (batch.readOnly_answer (b.store.summary batch.ops)).run_snd (b.after batch.ops)
      change (batch.answer (b.store.summary batch.ops)).run (b.after batch.ops) = _ at h
      rw [h] at hafter
      refine ⟨?_, ?_⟩
      · rintro e rfl
        obtain ⟨hwhole, hsame⟩ := hanswer.of_failed (congrArg Prod.fst h)
        exact ⟨hafter.trans hsame, hwhole⟩
      · rintro rfl
        exact hanswer.of_exhausted (congrArg Prod.fst h)
    · rw [if_neg hreach] at h
      obtain ⟨rfl, rfl⟩ := Prod.mk.inj h
      refine ⟨?_, by rintro ⟨⟩⟩
      rintro _ ⟨⟩
      exact ⟨rfl, Error.isWhole_backend _⟩

end ChannelDirectory

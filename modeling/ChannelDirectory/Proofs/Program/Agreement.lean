import ChannelDirectory.Proofs.Program.Endings

/-!
# Programs that end alike

`p.Alike same b p' b'` : run on `b` and `b'`, two programs end alike. Both end with a value, and
these are related by `same`, or both fail with the same error, or both use up their budget. Programs
that read in sequence end alike if their parts do, where the later parts are only looked at for
related values of the earlier ones (`Program.Alike.bind`).

A single record is read alike where the backends have the same document of it, and the check that
records are there is alike where the same ones are. So what a program reads can be followed to what
its end depends on.
-/

namespace ChannelDirectory

/-- The outcomes are the same, up to values that are related. -/
def Outcome.Alike {α β : Type} (same : α → β → Prop) : Outcome α → Outcome β → Prop
  | .ok value, .ok value' => same value value'
  | .failed e, .failed e' => e = e'
  | .exhausted, .exhausted => True
  | _, _ => False

theorem Outcome.alike_eq_iff {α : Type} {outcome outcome' : Outcome α} :
    outcome.Alike Eq outcome' ↔ outcome = outcome' := by
  cases outcome <;> cases outcome' <;> simp [Alike]

namespace Program

variable {α α' β β' : Type} {same : α → α' → Prop} {same' : β → β' → Prop} {p : Program α}
  {p' : Program α'} {k : α → Program β} {k' : α' → Program β'} {b b' : Backend}

/-- The programs end alike. -/
def Alike (same : α → α' → Prop) (p : Program α) (b : Backend) (p' : Program α') (b' : Backend) :
    Prop :=
  (p.run b).1.Alike same (p'.run b').1

theorem Alike.mono (h : Alike same p b p' b') {other : α → α' → Prop}
    (hother : ∀ value value', same value value' → other value value') :
    Alike other p b p' b' := by
  unfold Alike at h ⊢
  cases hrun : (p.run b).1 <;> cases hrun' : (p'.run b').1 <;> rw [hrun, hrun'] at h
  case ok.ok value value' => exact hother value value' h
  case failed.failed e e' => exact h
  case exhausted.exhausted => trivial
  all_goals exact h.elim

/-- What one program returns the other returns as well. -/
theorem Alike.returns {p p' : Program α} (h : Alike Eq p b p' b') {value : α}
    (hp : p.Returns b value) : p'.Returns b' value :=
  (Outcome.alike_eq_iff.mp h).symm.trans hp

theorem alike_done {value : α} {value' : α'} (h : same value value') :
    Alike same (done value) b (done value') b' := h

theorem alike_fail (e : Error) : Alike same (fail e) b (fail e) b' := rfl

theorem alike_exhausted : Alike same exhausted b exhausted b' := trivial

theorem alike_ofExcept (e : Except Error α) : Alike Eq (ofExcept e) b (ofExcept e) b' := by
  cases e with
  | ok value => exact alike_done rfl
  | error e => exact alike_fail e

theorem alike_check (e : Except ValidationError α) : Alike Eq (check e) b (check e) b' := by
  cases e with
  | ok value => exact alike_done rfl
  | error e => exact alike_fail _

/-- A call that is answered alike. -/
theorem alike_request {r : Request} (h : (b.handle r).1 = (b'.handle r).1) :
    Alike Eq (request r) b (request r) b' := by
  rw [Alike, Outcome.alike_eq_iff, run, run, request, runWith, runWith]
  rcases hb : b.handle r with ⟨result, after⟩
  rcases hb' : b'.handle r with ⟨result', after'⟩
  rw [hb, hb'] at h
  obtain rfl : result = result' := h
  cases result <;> rfl

/-- Reads in sequence end alike if the first ones do, and for values of them that are related so do
the others. -/
theorem Alike.bind (hread : p.ReadOnly) (hread' : p'.ReadOnly) (h : Alike same p b p' b')
    (hk : ∀ value value', p.Returns b value → same value value' →
      Alike same' (k value) b (k' value') b') :
    Alike same' (p >>= k) b (p' >>= k') b' := by
  unfold Alike at h ⊢
  rw [hread.run_bind, hread'.run_bind]
  cases hrun : (p.run b).1 <;> cases hrun' : (p'.run b').1 <;> rw [hrun, hrun'] at h
  case ok.ok value value' => exact hk value value' hrun h
  case failed.failed e e' => exact h
  case exhausted.exhausted => trivial
  all_goals exact h.elim

/-- The rule for reads whose values are the same. -/
theorem Alike.bind_eq {p : Program α} (hread : p.ReadOnly) {k' : α → Program β'}
    (h : Alike Eq p b p b')
    (hk : ∀ value, p.Returns b value → Alike same' (k value) b (k' value) b') :
    Alike same' (p >>= k) b (p >>= k') b' := by
  refine h.bind hread hread fun value value' hvalue heq => ?_
  obtain rfl := heq
  exact hk value hvalue

/-- Programs that end alike do so if something is made of their values. -/
theorem Alike.map (h : Alike same p b p' b') {f : α → β} {f' : α' → β'}
    (hf : ∀ value value', same value value' → same' (f value) (f' value')) :
    Alike same' (p >>= fun value => done (f value)) b (p' >>= fun value => done (f' value)) b' := by
  unfold Alike at h ⊢
  rw [run_bind, run_bind]
  rcases hrun : p.run b with ⟨_ | _ | _, after⟩ <;>
    rcases hrun' : p'.run b' with ⟨_ | _ | _, after'⟩ <;> rw [hrun, hrun'] at h
  case ok.ok value value' => exact hf value value' h
  case failed.failed e e' => exact h
  case exhausted.exhausted => trivial
  all_goals exact h.elim

end Program

namespace Collection

open Program

variable {α : Type} {b b' : Backend}

/-! ## Reads of a collection -/

/-- The same ones of some documents are there. -/
theorem alike_present (c : Collection α) {ids : List String} (havail : b.available = b'.available)
    (hthere : ∀ id, (b.store.get? c.index id).isSome = (b'.store.get? c.index id).isSome) :
    Alike Eq (Program.request (.present c.index ids)) b (Program.request (.present c.index ids))
      b' := by
  refine alike_request ?_
  rw [Backend.handle, Backend.handle, ← havail, Backend.answer, Backend.answer]
  simp only [hthere]
  split <;> rfl

theorem alike_contains (c : Collection α) {id : String} (havail : b.available = b'.available)
    (hthere : ∀ id, (b.store.get? c.index id).isSome = (b'.store.get? c.index id).isSome) :
    Alike Eq (c.contains id) b (c.contains id) b' :=
  (c.alike_present havail hthere).bind_eq (readOnly_request rfl) fun _ _ => alike_done rfl

theorem alike_missing (c : Collection α) {ids : List String} (havail : b.available = b'.available)
    (hthere : ∀ id, (b.store.get? c.index id).isSome = (b'.store.get? c.index id).isSome) :
    Alike Eq (c.missing ids) b (c.missing ids) b' := by
  unfold missing
  split
  · exact alike_done rfl
  · exact (c.alike_present havail hthere).bind_eq (readOnly_request rfl) fun _ _ => alike_done rfl

variable [Entity α] {P : α → Prop}

/-- A document is read alike where it is the same. -/
theorem alike_get (c : Collection α) {id : String} (havail : b.available = b'.available)
    (hdoc : b.store.get? c.index id = b'.store.get? c.index id) :
    Alike Eq (c.get id) b (c.get id) b' := by
  have hanswer : (b.handle (.get c.index id)).1 = (b'.handle (.get c.index id)).1 := by
    rw [Backend.handle, Backend.handle, ← havail, Backend.answer, Backend.answer, hdoc]
    split <;> rfl
  refine (alike_request hanswer).bind_eq (readOnly_request rfl) fun doc _ => ?_
  cases doc with
  | none => exact alike_done rfl
  | some doc =>
    exact (alike_ofExcept _).bind_eq (readOnly_ofExcept _) fun record _ => alike_done rfl

theorem alike_require (c : Collection α) {id : String} (havail : b.available = b'.available)
    (hdoc : b.store.get? c.index id = b'.store.get? c.index id) :
    Alike Eq (c.require id) b (c.require id) b' := by
  refine (c.alike_get havail hdoc).bind_eq (c.readOnly_get id) fun found _ => ?_
  cases found with
  | none => exact alike_fail _
  | some record => exact alike_done rfl

variable [LawfulEntity α]

/-- Where pages are delivered, only the budget counts. -/
theorem Fits.run_findMatching {c : Collection α} (hfits : c.Fits b) (havail : b.available = true)
    (wf : c.HoldsOnly P b.store) (hsize : 0 < c.pageSize) (p : Predicate) (budget : Nat) :
    ((c.findMatching budget p).run b).1 =
      if (c.select p b.store).length / c.pageSize < budget then .ok (c.select p b.store)
      else .exhausted := by
  have hok : ∀ found, (c.findMatching budget p).Returns b found ↔
      (c.select p b.store).length / c.pageSize < budget ∧ found = c.select p b.store := by
    intro found
    rw [returns_findMatching wf hsize]
    simp only [havail, hfits, true_and]
  split
  · rename_i hbudget
    exact (hok _).mpr ⟨hbudget, rfl⟩
  · rename_i hbudget
    cases hrun : ((c.findMatching budget p).run b).1 with
    | ok found => exact absurd ((hok found).mp hrun).1 hbudget
    | failed e =>
      exact absurd ⟨havail, hfits⟩ ((endsIn_findMatching wf hsize p budget).of_failed hrun).2
    | exhausted => rfl

/-- A whole result set is read alike where the backends have the same window, and as many pages of
it. -/
theorem alike_findMatching (c : Collection α) (wf : c.HoldsOnly P b.store)
    (wf' : c.HoldsOnly P b'.store) (hsize : 0 < c.pageSize) {p : Predicate} (budget : Nat)
    (havail : b.available = b'.available) (hwindow : b.window = b'.window)
    (hlength : (c.select p b.store).length = (c.select p b'.store).length) :
    Alike (fun found found' => found = c.select p b.store ∧ found' = c.select p b'.store)
      (c.findMatching budget p) b (c.findMatching budget p) b' := by
  have hfits_iff : c.Fits b ↔ c.Fits b' := by rw [Fits, Fits, hwindow]
  by_cases hpages : b.available = true ∧ c.Fits b
  · rw [Alike, hpages.2.run_findMatching hpages.1 wf hsize,
      (hfits_iff.mp hpages.2).run_findMatching (havail ▸ hpages.1) wf' hsize, ← hlength]
    split
    · exact ⟨rfl, rfl⟩
    · trivial
  · -- The first page is refused, for the same reason.
    cases budget with
    | zero => exact alike_exhausted
    | succ budget =>
      have hanswer : (b.handle (.search c.index (c.pageRequest p none))).1 =
          (b'.handle (.search c.index (c.pageRequest p none))).1 := by
        rw [Backend.handle, Backend.handle, ← havail]
        by_cases hb : b.available = true
        · have hfits : ¬c.Fits b := fun hfits => hpages ⟨hb, hfits⟩
          rw [if_pos hb, if_pos hb, Backend.answer, Backend.answer,
            rejection?_of_not_fits hfits, rejection?_of_not_fits fun h => hfits (hfits_iff.mpr h),
            hwindow]
        · rw [if_neg hb, if_neg hb]
      refine (alike_request hanswer).bind_eq (readOnly_request rfl) fun page hpage => ?_
      rw [← Program.bind_pure (Program.request _), returns_search_bind] at hpage
      exact absurd ⟨hpage.1, hpage.2.1⟩ hpages

end Collection

end ChannelDirectory

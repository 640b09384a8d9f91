import ChannelDirectory.Proofs.Program.Regime
import ChannelDirectory.Proofs.Store.Reordering

/-!
# Programs that submit one batch

`p.WritesOnce` : whatever its calls are answered, `p` submits at most one batch, and no two writes
of this batch address the same document. Nothing is asked of the backend. Answers may come from
different stores, and may even make no sense, so it cannot be said which records a program has
read; what it goes on with is described by `p.Gives good` instead. A `Write` submits one batch by
its form, and what remains is that every batch that may be planned is separate
(`Write.writesOnce`).

`Program.batches` lists the batches of a run with any handler of calls, such as that of a backend or
of one that is watched (`Program.WritesOnce.batches_cases`).
-/

namespace ChannelDirectory

/-- The batch of a call, if it submits one. -/
def Request.batches : Request → List (List Operation)
  | .bulk ops => [ops]
  | .get .. | .multiGet .. | .present .. | .search .. | .count .. | .openScroll ..
  | .continueScroll .. | .closeScroll .. => []

namespace Program

variable {α β σ : Type} {p : Program α} {k : α → Program β} {good : α → Prop} {good' : β → Prop}
  {handle : σ → (r : Request) → Except BackendError r.Answer × σ}

/-- The batches that a program submits, with a handler of its calls. -/
def batches (handle : σ → (r : Request) → Except BackendError r.Answer × σ) :
    Program α → σ → List (List Operation)
  | done _, _ | fail _, _ | exhausted, _ => []
  | call r next, s => r.batches ++ (next (handle s r).1).batches handle (handle s r).2

/-- Whatever its calls are answered, a value that the program ends with is good. -/
def Gives (good : α → Prop) : Program α → Prop
  | done value => good value
  | fail _ | exhausted => True
  | call _ next => ∀ answer, (next answer).Gives good

/-- Whatever its calls are answered, the program submits at most one batch, and no two writes of
this batch address the same document. -/
def WritesOnce : Program α → Prop
  | done _ | fail _ | exhausted => True
  | call r next => (r.isRead = true ∧ ∀ answer, (next answer).WritesOnce) ∨
      (Separate r.ops ∧ ∀ answer, (next answer).ReadOnly)

/-! ## What a program goes on with -/

theorem gives_true (p : Program α) : p.Gives fun _ => True := by
  induction p with
  | done | fail | exhausted => trivial
  | call r next ih => exact ih

/-- A sequence gives what its second part gives for each value of the first. -/
theorem Gives.bind (hp : p.Gives good) (hk : ∀ value, good value → (k value).Gives good') :
    (p >>= k).Gives good' := by
  induction p with
  | done value => exact hk value hp
  | fail | exhausted => trivial
  | call r next ih => exact fun answer => ih answer (hp answer)

/-- Where it does not matter what the program goes on with. -/
theorem gives_bind (hk : ∀ value, (k value).Gives good') : (p >>= k).Gives good' :=
  p.gives_true.bind fun value _ => hk value

theorem gives_ofExcept {e : Except Error α} (h : ∀ value, e = .ok value → good value) :
    (ofExcept e).Gives good := by
  cases e with
  | ok value => exact h value rfl
  | error => trivial

theorem gives_check {e : Except ValidationError α} (h : ∀ value, e = .ok value → good value) :
    (check e).Gives good := by
  cases e with
  | ok value => exact h value rfl
  | error => trivial

/-! ## One batch -/

/-- A program that reads writes nothing twice. -/
theorem ReadOnly.writesOnce (h : p.ReadOnly) : p.WritesOnce := by
  induction p with
  | done | fail | exhausted => trivial
  | call r next ih => exact Or.inl ⟨h.1, fun answer => ih answer (h.2 answer)⟩

/-- Reads do not count. -/
theorem ReadOnly.writesOnce_bind (hread : p.ReadOnly) (hp : p.Gives good)
    (hk : ∀ value, good value → (k value).WritesOnce) : (p >>= k).WritesOnce := by
  induction p with
  | done value => exact hk value hp
  | fail | exhausted => trivial
  | call r next ih =>
    exact Or.inl ⟨hread.1, fun answer => ih answer (hread.2 answer) (hp answer)⟩

/-- After the batch there are only reads. -/
theorem WritesOnce.bind (hp : p.WritesOnce) (hk : ∀ value, (k value).ReadOnly) :
    (p >>= k).WritesOnce := by
  induction p with
  | done value => exact (hk value).writesOnce
  | fail | exhausted => trivial
  | call r next ih =>
    rcases hp with ⟨hread, hnext⟩ | ⟨hseparate, hnext⟩
    · exact Or.inl ⟨hread, fun answer => ih answer (hnext answer)⟩
    · exact Or.inr ⟨hseparate, fun answer => (hnext answer).bind hk⟩

/-- A batch of separate operations writes nothing twice. -/
theorem writesOnce_execute {ops : List Operation} (h : Separate ops) :
    (execute ops).WritesOnce := by
  have hjudged : ∀ summary : Summary, (if summary.isSuccess then (pure summary : Program Summary)
      else .fail (.partialFailure summary.applied summary.failures)).ReadOnly := by
    intro summary
    split <;> trivial
  refine WritesOnce.bind ?_ hjudged
  rw [submit]
  split
  · trivial
  · refine Or.inr ⟨h, fun answer => ?_⟩
    cases answer <;> trivial

theorem ReadOnly.batches_eq_nil (h : p.ReadOnly) (s : σ) : p.batches handle s = [] := by
  induction p generalizing s with
  | done | fail | exhausted => rfl
  | call r next ih =>
    rw [batches, ih _ (h.2 _), List.append_nil]
    cases r with
    | bulk => cases h.1
    | get | multiGet | present | search | count | openScroll | continueScroll | closeScroll => rfl

/-- A run submits nothing, or one batch of separate writes. -/
theorem WritesOnce.batches_cases (h : p.WritesOnce) (s : σ) :
    p.batches handle s = [] ∨ ∃ ops, p.batches handle s = [ops] ∧ Separate ops := by
  induction p generalizing s with
  | done | fail | exhausted => exact Or.inl rfl
  | call r next ih =>
    rw [batches]
    rcases h with ⟨hread, hnext⟩ | ⟨hseparate, hnext⟩
    · have hnone : r.batches = [] := by
        cases r with
        | bulk => cases hread
        | get | multiGet | present | search | count | openScroll | continueScroll | closeScroll =>
          rfl
      rw [hnone]
      exact ih _ (hnext _) _
    · rw [(hnext _).batches_eq_nil, List.append_nil]
      cases r with
      | bulk ops => exact Or.inr ⟨ops, rfl, hseparate⟩
      | get | multiGet | present | search | count | openScroll | continueScroll | closeScroll =>
        exact Or.inl rfl

end Program

open Program

/-- A write submits one batch, and no document twice if no planned batch does. -/
theorem Write.writesOnce {β : Type} (w : Write β)
    (h : w.plan.Gives fun batch => Separate batch.ops) : w.program.WritesOnce :=
  w.readOnly_plan.writesOnce_bind h fun batch hbatch =>
    (writesOnce_execute hbatch).bind batch.readOnly_answer

end ChannelDirectory

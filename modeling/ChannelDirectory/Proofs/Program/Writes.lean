import ChannelDirectory.Collection
import ChannelDirectory.Proofs.Program.Reads
import ChannelDirectory.Proofs.Store.Contents

/-!
# Programs that write once

A write of the directory reads, submits one batch, and reads again for its answer. `Write`
is a program of this form, with the proofs that it only reads before and after. Whatever
such a program is run on, either nothing has changed and it has no value, or its batch has
been carried out as a whole (`Write.run_cases`). If it ends with a value, the batch was
planned on the store before and the answer was read from the store after (`Write.run_ok`).
-/

namespace ChannelDirectory

/-- The backend after a batch of writes. -/
def Backend.after (b : Backend) (ops : List Operation) : Backend :=
  { b with store := b.store.after ops }

/-- What the caller is told of a batch. -/
def Store.summary (s : Store) (ops : List Operation) : Summary :=
  Summary.ofResults (s.applyAll ops).1

/-- A batch of writes, with the reads that give the answer after it. -/
structure Batched (β : Type) where
  ops : List Operation
  answer : Summary → Program β
  readOnly_answer : ∀ summary, (answer summary).ReadOnly

/-- Reads that plan a batch. -/
structure Write (β : Type) where
  plan : Program (Batched β)
  readOnly_plan : plan.ReadOnly

variable {β : Type} {b b' : Backend} {outcome : Outcome β}

/-- Submits the batch and gives the answer. -/
def Batched.program (batch : Batched β) : Program β := do
  let summary ← execute batch.ops
  batch.answer summary

/-- Plans the batch, submits it and gives the answer. -/
def Write.program (w : Write β) : Program β :=
  w.plan >>= Batched.program

theorem Backend.after_nil (b : Backend) : b.after [] = b := rfl

/-- A batch reaches the backend if there is something in it. -/
theorem run_submit (ops : List Operation) (b : Backend) :
    (submit ops).run b =
      if ops = [] ∨ b.available = true then (.ok (b.store.summary ops), b.after ops)
      else (.failed (.backend .unavailable), b) := by
  cases ops with
  | nil => rfl
  | cons op ops =>
    by_cases havail : b.available = true
    · rw [if_pos (Or.inr havail)]
      simp only [submit, Program.request, List.isEmpty_cons, Bool.false_eq_true, if_false,
        Program.bind_call, Program.run, Program.runWith, Backend.handle, havail, if_true]
      rfl
    · rw [if_neg (by simp [havail])]
      simp only [submit, Program.request, List.isEmpty_cons, Bool.false_eq_true, if_false,
        Program.bind_call, Program.run, Program.runWith, Backend.handle, havail]
      rfl

/-- Executing a batch either carries it out or changes nothing. -/
theorem run_execute (ops : List Operation) (b : Backend) :
    (execute ops).run b =
      if ops = [] ∨ b.available = true then
        (if (b.store.summary ops).isSuccess then .ok (b.store.summary ops)
          else .failed (.partialFailure (b.store.summary ops).applied
            (b.store.summary ops).failures), b.after ops)
      else (.failed (.backend .unavailable), b) := by
  rw [execute, Program.run_bind, run_submit]
  by_cases hreach : ops = [] ∨ b.available = true
  · rw [if_pos hreach, if_pos hreach]
    by_cases hsuccess : (b.store.summary ops).isSuccess = true
    · simp only [hsuccess, if_true]
      rfl
    · simp only [hsuccess]
      rfl
  · rw [if_neg hreach, if_neg hreach]

/-- A batched program leaves the backend as it was and has no value, or has applied its batch. -/
theorem Batched.run_cases (batch : Batched β) (h : batch.program.run b = (outcome, b')) :
    (b' = b ∧ ∀ value, outcome ≠ .ok value) ∨
      b' = b.after batch.ops ∧ ∀ value, outcome = .ok value →
        (b.store.summary batch.ops).isSuccess = true ∧
          (batch.answer (b.store.summary batch.ops)).Returns b' value := by
  rw [Batched.program, Program.run_bind, run_execute] at h
  by_cases hreach : batch.ops = [] ∨ b.available = true
  · rw [if_pos hreach] at h
    by_cases hsuccess : (b.store.summary batch.ops).isSuccess = true
    · simp only [hsuccess, if_true] at h
      have hafter : b' = b.after batch.ops := by
        rw [← (batch.readOnly_answer (b.store.summary batch.ops)).run_snd (b.after batch.ops), h]
      refine Or.inr ⟨hafter, ?_⟩
      rintro value rfl
      exact ⟨hsuccess, by rw [Program.Returns, hafter, h]⟩
    · simp only [hsuccess] at h
      obtain ⟨rfl, rfl⟩ := Prod.mk.inj h
      exact Or.inr ⟨rfl, by simp⟩
  · rw [if_neg hreach] at h
    obtain ⟨rfl, rfl⟩ := Prod.mk.inj h
    exact Or.inl ⟨rfl, by simp⟩

/-- A write leaves the backend as it was, or carries out a batch that was planned on it. -/
theorem Write.run_cases (w : Write β) (h : w.program.run b = (outcome, b')) :
    b' = b ∨ ∃ batch, w.plan.Returns b batch ∧ b' = b.after batch.ops := by
  rcases w.readOnly_plan.run_bind_cases h with ⟨hsame, -⟩ | ⟨batch, hbatch, hrun⟩
  · exact Or.inl hsame
  · rcases batch.run_cases hrun with ⟨hsame, -⟩ | ⟨hafter, -⟩
    · exact Or.inl hsame
    · exact Or.inr ⟨batch, hbatch, hafter⟩

/-- A write that ends with a value has carried out its batch, and the value was read after
it. -/
theorem Write.run_ok (w : Write β) {value : β} (h : w.program.run b = (.ok value, b')) :
    ∃ batch, w.plan.Returns b batch ∧ b' = b.after batch.ops ∧
      (b.store.summary batch.ops).isSuccess = true ∧
        (batch.answer (b.store.summary batch.ops)).Returns b' value := by
  obtain ⟨batch, hbatch, hrun⟩ := w.readOnly_plan.run_bind_eq_ok h
  rcases batch.run_cases hrun with ⟨-, hne⟩ | ⟨hafter, hok⟩
  · exact absurd rfl (hne value)
  · exact ⟨batch, hbatch, hafter, hok value rfl⟩

/-- A batch that is carried out is followed by its answer. -/
theorem Write.run_of_returns (w : Write β) {batch : Batched β} (hbatch : w.plan.Returns b batch)
    (hreach : batch.ops = [] ∨ b.available = true)
    (hsuccess : (b.store.summary batch.ops).isSuccess = true) :
    w.program.run b = (batch.answer (b.store.summary batch.ops)).run (b.after batch.ops) := by
  rw [Write.program, w.readOnly_plan.run_bind, hbatch]
  change Program.run (Batched.program _) b = _
  rw [Batched.program, Program.run_bind, run_execute, if_pos hreach, if_pos hsuccess]

/-- A write ends with a value exactly if its batch is carried out and the value is read after
it. -/
theorem Write.run_eq_ok_iff (w : Write β) {value : β} :
    w.program.run b = (.ok value, b') ↔
      ∃ batch, w.plan.Returns b batch ∧ (batch.ops = [] ∨ b.available = true) ∧
        (b.store.summary batch.ops).isSuccess = true ∧ b' = b.after batch.ops ∧
        (batch.answer (b.store.summary batch.ops)).Returns b' value := by
  constructor
  · intro h
    obtain ⟨batch, hbatch, hafter, hsuccess, hanswer⟩ := w.run_ok h
    refine ⟨batch, hbatch, ?_, hsuccess, hafter, hanswer⟩
    by_contra hreach
    rw [Write.program, w.readOnly_plan.run_bind, hbatch] at h
    change Program.run (Batched.program _) b = _ at h
    rw [Batched.program, Program.run_bind, run_execute, if_neg hreach] at h
    cases h
  · rintro ⟨batch, hbatch, hreach, hsuccess, rfl, hanswer⟩
    rw [w.run_of_returns hbatch hreach hsuccess]
    exact Prod.ext hanswer ((batch.readOnly_answer _).run_snd _)

end ChannelDirectory

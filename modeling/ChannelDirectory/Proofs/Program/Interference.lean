import ChannelDirectory.Interference
import ChannelDirectory.Proofs.Program.Writes

/-!
# Runs that another writer comes into

Another writer that waits acts just before the next batch of writes. Reads do not let it act
(`ReadOnly.runMonitored`), so a write still plans its batch on the backend as it was. The batch is
then carried out on what the other writer has left (`Write.runMonitored_awaiting`). An empty batch
never reaches the backend, and leaves the other writer waiting.
-/

namespace ChannelDirectory

/-- The backend, with another writer that waits for the next batch. -/
def Backend.awaiting (b : Backend) (others : List Operation) : Monitor :=
  ⟨b, some ⟨others, false⟩, []⟩

/-- The backend once the other writer has acted, if only after the run. -/
def Monitor.settled (m : Monitor) : Backend :=
  match m.waiting with
  | some i => m.backend.after i.ops
  | none => m.backend

namespace Program

variable {α β : Type} {p : Program α} {k : α → Program β} {m : Monitor} {b : Backend}
  {others ops : List Operation}

/-- A read leaves the others waiting. -/
theorem handle_of_isRead {r : Request} (h : r.isRead = true) (m : Monitor) :
    m.handle r = ((m.backend.handle r).1, m) := by
  have hsame := Backend.handle_of_isRead h m.backend
  cases r with
  | get | multiGet | present | search | count =>
    simp only [Monitor.handle]
    rw [hsame]
  | bulk | openScroll | continueScroll | closeScroll => cases h

/-- A read answers what the backend says, and leaves the other writer waiting. -/
theorem ReadOnly.runMonitored (h : p.ReadOnly) (m : Monitor) :
    p.runMonitored m = ((p.run m.backend).1, m) := by
  induction p with
  | done | fail | exhausted => rfl
  | call r next ih =>
    rw [Program.runMonitored, runWith, handle_of_isRead h.1, run, runWith]
    have hsame := Backend.handle_of_isRead h.1 m.backend
    rcases hanswer : m.backend.handle r with ⟨answer, after⟩
    rw [hanswer] at hsame
    obtain rfl : after = m.backend := hsame
    exact ih answer (h.2 answer)

theorem runMonitored_bind (p : Program α) (k : α → Program β) (m : Monitor) :
    (p >>= k).runMonitored m =
      match p.runMonitored m with
      | (.ok value, m) => (k value).runMonitored m
      | (.failed e, m) => (.failed e, m)
      | (.exhausted, m) => (.exhausted, m) := by
  simp only [runMonitored, runWith_bind]
  rcases p.runWith Monitor.handle m with ⟨outcome, after⟩
  cases outcome <;> rfl

end Program

open Program

variable {β : Type} {b : Backend} {others ops : List Operation}

/-- A batch is carried out after the other writer has acted. -/
theorem runMonitored_submit (havail : b.available = true) (hops : ops ≠ []) :
    (submit ops).runMonitored (b.awaiting others) =
      (.ok ((b.after others).store.summary ops), ⟨(b.after others).after ops, none, [ops]⟩) := by
  cases ops with
  | nil => exact absurd rfl hops
  | cons op ops =>
    obtain ⟨store, window, available, cursors, serial⟩ := b
    obtain rfl : available = true := havail
    rfl

/-- The others write before the batch, and the batch reports on what they have left. -/
theorem runMonitored_execute (havail : b.available = true) (hops : ops ≠ []) :
    (execute ops).runMonitored (b.awaiting others) =
      (if ((b.after others).store.summary ops).isSuccess then
          .ok ((b.after others).store.summary ops)
        else .failed (.partialFailure ((b.after others).store.summary ops).applied
          ((b.after others).store.summary ops).failures),
        ⟨(b.after others).after ops, none, [ops]⟩) := by
  rw [execute, runMonitored_bind, runMonitored_submit havail hops]
  change (if _ then _ else _ : Program Summary).runMonitored _ = _
  split
  · rfl
  · rfl

/-- The plan is made on the backend as it was, and its batch is carried out on what the other
writer has left. -/
theorem Write.runMonitored_awaiting {w : Write β} {batch : Batched β}
    (hbatch : w.plan.Returns b batch) (hreach : batch.ops = [] ∨ b.available = true) :
    w.program.runMonitored (b.awaiting others) =
      if batch.ops = [] then (((batch.answer {}).run b).1, b.awaiting others)
      else
        (if ((b.after others).store.summary batch.ops).isSuccess then
            ((batch.answer ((b.after others).store.summary batch.ops)).run
              ((b.after others).after batch.ops)).1
          else .failed (.partialFailure ((b.after others).store.summary batch.ops).applied
            ((b.after others).store.summary batch.ops).failures),
          ⟨(b.after others).after batch.ops, none, [batch.ops]⟩) := by
  have hplan : (w.plan.run (b.awaiting others).backend).1 = .ok batch := hbatch
  rw [Write.program, runMonitored_bind, w.readOnly_plan.runMonitored, hplan]
  change batch.program.runMonitored (b.awaiting others) = _
  rw [Batched.program, runMonitored_bind]
  by_cases hempty : batch.ops = []
  · rw [if_pos hempty, hempty]
    change (batch.answer {}).runMonitored (b.awaiting others) = _
    rw [(batch.readOnly_answer {}).runMonitored]
    rfl
  · rw [if_neg hempty, runMonitored_execute (hreach.resolve_left hempty) hempty]
    by_cases hsuccess : ((b.after others).store.summary batch.ops).isSuccess = true
    · rw [if_pos hsuccess, if_pos hsuccess]
      exact (batch.readOnly_answer _).runMonitored _
    · rw [if_neg hsuccess, if_neg hsuccess]

/-- In the end the batch is carried out on what the other writer leaves. -/
theorem Write.settled_awaiting {w : Write β} {batch : Batched β}
    (hbatch : w.plan.Returns b batch) (hreach : batch.ops = [] ∨ b.available = true) :
    (w.program.runMonitored (b.awaiting others)).2.settled =
      (b.after others).after batch.ops := by
  rw [Write.runMonitored_awaiting hbatch hreach]
  split
  · rename_i hempty
    rw [hempty]
    rfl
  · rfl

end ChannelDirectory

import ChannelDirectory.Program

/-!
# Runs with another writer

A `Monitor` is a backend that is watched: it notes every batch of writes, and another
writer may be waiting to act just before the next one. `Program.runMonitored` runs a
program on it. The other writer applies its own operations to the store, and may make the
backend unavailable for the one batch that it came before.
-/

namespace ChannelDirectory

/-- What another writer does just before a batch of writes reaches the backend. -/
structure Interference where
  ops : List Operation
  /-- The backend is unavailable for that batch. -/
  outage : Bool

/-- A backend that is watched. -/
structure Monitor where
  backend : Backend
  /-- The other writer that is waiting. -/
  waiting : Option Interference := none
  /-- The batches of writes that were submitted, the latest last. -/
  batches : List (List Operation) := []

namespace Monitor

/-- The backend after the other writer has acted, available or not. -/
def disturb (b : Backend) (i : Interference) : Backend :=
  if b.available then (b.bulk i.ops).2 else b

/-- Answers a call. A batch of writes lets the other writer act first. -/
def handle (m : Monitor) (request : Request) :
    Except BackendError request.Answer × Monitor :=
  match request with
  | .bulk ops =>
    let batches := if ops.isEmpty then m.batches else m.batches ++ [ops]
    match m.waiting with
    | none =>
      let (answer, backend) := m.backend.handle (.bulk ops)
      (answer, ⟨backend, none, batches⟩)
    | some i =>
      let backend := disturb m.backend i
      if i.outage then (.error .unavailable, ⟨{ backend with available := true }, none, batches⟩)
      else
        let (answer, backend) := backend.handle (.bulk ops)
        (answer, ⟨backend, none, batches⟩)
  | request =>
    let (answer, backend) := m.backend.handle request
    (answer, { m with backend })

end Monitor

/-- Runs a program on a backend that is watched. -/
def Program.runMonitored {α : Type} (p : Program α) (m : Monitor) : Outcome α × Monitor :=
  p.runWith Monitor.handle m

end ChannelDirectory

import ChannelDirectory.Proofs.Store.Cursors

/-!
# Runs among other clients

`Program.runShared` runs a program on a backend that other clients call as well. Between two
calls of the program they may make any calls they like : which ones is given in advance
(`Shared.others`), so a statement about all such lists is one about every interleaving, whatever
the others base their calls on.

What a call of the program achieves for a cursor outlasts the calls that the others make after
it : an open cursor if they spare it (`Shared.holds_handle`), a lost one in any case
(`Shared.lost_handle`).
-/

namespace ChannelDirectory

/-- A backend that other clients call as well. The first list holds the calls that they make
between the next call and the one after it, the second list those that follow this one, and so
on; after the last list they are silent. -/
structure Shared where
  backend : Backend
  others : List (List Request)

/-- The backend after calls of other clients. -/
def Backend.visited (b : Backend) (requests : List Request) : Backend :=
  requests.foldl (fun b r => (b.handle r).2) b

namespace Shared

/-- Answers a call, and lets the other clients make theirs. -/
def handle (s : Shared) (r : Request) : Except BackendError r.Answer × Shared :=
  let (answer, b) := s.backend.handle r
  (answer, ⟨b.visited (s.others.headD []), s.others.tail⟩)

/-- No other client ever continues or closes the cursor of a serial number. -/
def Spares (s : Shared) (serial : Nat) : Prop :=
  ∀ requests ∈ s.others, ∀ r ∈ requests, r.Spares serial

instance (s : Shared) (serial : Nat) : Decidable (s.Spares serial) :=
  inferInstanceAs (Decidable (∀ requests ∈ s.others, ∀ r ∈ requests, _))

end Shared

/-- Runs a program on a backend that other clients call as well. -/
def Program.runShared {α : Type} (p : Program α) (s : Shared) : Outcome α × Shared :=
  p.runWith Shared.handle s

/-! ## Calls of the others -/

section Others

variable {b : Backend} {s : Shared} {serial pageSize : Nat} {remaining : List Hit}
  {requests : List Request} {r : Request}

/-- A cursor that is spared by some requests is held after them. -/
theorem Backend.Holds.visited (h : b.Holds serial remaining pageSize)
    (spares : ∀ r ∈ requests, r.Spares serial) :
    (b.visited requests).Holds serial remaining pageSize := by
  induction requests generalizing b with
  | nil => exact h
  | cons r requests ih =>
    exact ih (h.handle (spares r List.mem_cons_self)) fun r' hr' =>
      spares r' (List.mem_cons_of_mem _ hr')

/-- A cursor that is lost stays lost. -/
theorem Backend.Lost.visited (h : b.Lost serial) (requests : List Request) :
    (b.visited requests).Lost serial := by
  induction requests generalizing b with
  | nil => exact h
  | cons r requests ih => exact ih (h.handle r)

theorem Backend.Fresh.visited (h : b.Fresh) (requests : List Request) :
    (b.visited requests).Fresh := by
  induction requests generalizing b with
  | nil => exact h
  | cons r requests ih => exact ih (h.handle r)

theorem Shared.Spares.handle (h : s.Spares serial) (r : Request) : (s.handle r).2.Spares serial :=
  fun requests hrequests => h requests (List.mem_of_mem_tail hrequests)

theorem Shared.holds_handle (spares : s.Spares serial)
    (h : (s.backend.handle r).2.Holds serial remaining pageSize) :
    (s.handle r).2.backend.Holds serial remaining pageSize := by
  refine h.visited fun r' hr' => ?_
  cases hothers : s.others with
  | nil =>
    rw [hothers] at hr'
    cases hr'
  | cons requests others =>
    rw [hothers] at hr'
    exact spares requests (hothers ▸ List.mem_cons_self) r' hr'

theorem Shared.lost_handle (h : (s.backend.handle r).2.Lost serial) :
    (s.handle r).2.backend.Lost serial :=
  h.visited _

end Others

/-! ## Runs -/

namespace Program

variable {α β : Type} {s : Shared} {r : Request}

theorem runShared_bind (p : Program α) (k : α → Program β) (s : Shared) :
    (p >>= k).runShared s =
      match p.runShared s with
      | (.ok value, s) => (k value).runShared s
      | (.failed e, s) => (.failed e, s)
      | (.exhausted, s) => (.exhausted, s) := by
  simp only [runShared, runWith_bind]
  rcases p.runWith Shared.handle s with ⟨outcome, after⟩
  cases outcome <;> rfl

theorem runShared_call (r : Request) (next : Except BackendError r.Answer → Program α)
    (s : Shared) :
    (call r next).runShared s = (next (s.handle r).1).runShared (s.handle r).2 :=
  rfl

theorem runShared_request_bind {k : r.Answer → Program β} {answer : r.Answer}
    (h : (s.backend.handle r).1 = .ok answer) :
    (request r >>= k).runShared s = (k answer).runShared (s.handle r).2 := by
  replace h : (s.handle r).1 = .ok answer := h
  rw [request, bind_call, runShared_call, h, bind_done]

theorem runShared_request_bind_error {k : r.Answer → Program β} {e : BackendError}
    (h : (s.backend.handle r).1 = .error e) :
    (request r >>= k).runShared s = (.failed (.backend e), (s.handle r).2) := by
  replace h : (s.handle r).1 = .error e := h
  rw [request, bind_call, runShared_call, h, bind_fail]
  rfl

end Program

end ChannelDirectory

import ChannelDirectory.Proofs.Program.Reads

/-!
# What a run asks the backend

`Program.calls` lists the calls that a program makes when it runs undisturbed, each with its
answer. A question that is answered is the first call of a program that starts with it
(`calls_request_bind`), and what a program does with its value asks nothing more
(`calls_bind_done`).

For a reading page by page two views of this list matter : the names that its searches start
after (`Call.after?`), and the hits that they deliver (`Call.hits`).
-/

namespace ChannelDirectory

/-- A call to a backend and its answer. -/
structure Call where
  request : Request
  answer : Except BackendError request.Answer

namespace Call

/-- The name that a search starts after. -/
def after? : Call → Option String
  | ⟨.search _ request, _⟩ => request.after
  | _ => none

/-- The hits that a search delivers. -/
def hits : Call → List Hit
  | ⟨.search _ _, .ok page⟩ => page.hits
  | _ => []

end Call

namespace Program

variable {α β : Type} {b : Backend}

/-- The calls that a program makes when it runs undisturbed. -/
def calls : Program α → Backend → List Call
  | done _, _ | fail _, _ | exhausted, _ => []
  | call request next, b =>
    ⟨request, (b.handle request).1⟩ :: (next (b.handle request).1).calls (b.handle request).2

/-- A program that starts with a question goes on from the same backend. -/
theorem calls_request_bind {r : Request} (h : r.isRead = true) {k : r.Answer → Program β}
    {answer : r.Answer} (hanswer : (b.handle r).1 = .ok answer) :
    (request r >>= k).calls b = ⟨r, .ok answer⟩ :: (k answer).calls b := by
  have hb : (b.handle r).2 = b := Backend.handle_of_isRead h b
  rw [request, bind_call, calls, hb, hanswer, bind_done]

theorem run_request_bind {r : Request} (h : r.isRead = true) {k : r.Answer → Program β}
    {answer : r.Answer} (hanswer : (b.handle r).1 = .ok answer) :
    (request r >>= k).run b = (k answer).run b := by
  rw [(readOnly_request h).run_bind, (returns_request.mpr hanswer : (request r).Returns b answer)]

theorem calls_bind_done (p : Program α) (f : α → β) (b : Backend) :
    (p >>= fun value => done (f value)).calls b = p.calls b := by
  induction p generalizing b with
  | done | fail | exhausted => rfl
  | call r next ih => exact congrArg (_ :: ·) (ih _ _)

end Program

end ChannelDirectory

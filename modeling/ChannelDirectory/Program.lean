import ChannelDirectory.Error

/-!
# Programs over a backend

An operation of the directory is a `Program`: it ends with a value or an error, or calls
the backend and goes on with the answer. All that it knows of the store it learns from
answers, so several programs can be run side by side, call by call.

Reading a whole result set takes as many calls as it has pages. A program that does so is
given a budget of pages and is `exhausted` when they do not suffice, which is neither a
value nor an error.

`Program.runWith` runs a program with any handler of its calls, and `Program.run` with
`Backend.handle`.
-/

namespace ChannelDirectory

/-- An operation that calls a backend. -/
inductive Program (α : Type) : Type where
  /-- Ends with a value. -/
  | done (value : α)
  /-- Ends with an error. -/
  | fail (error : Error)
  /-- Ends because its budget of pages is used up. -/
  | exhausted
  /-- Calls the backend and goes on with its answer. -/
  | call (request : Request) (next : Except BackendError request.Answer → Program α)

/-- How a program ended. -/
inductive Outcome (α : Type) : Type where
  | ok (value : α)
  | failed (error : Error)
  | exhausted

namespace Program

variable {α β σ : Type}

/-- Goes on with the value of a program. -/
def bind : Program α → (α → Program β) → Program β
  | done value, k => k value
  | fail e, _ => fail e
  | exhausted, _ => exhausted
  | call request next, k => call request fun answer => (next answer).bind k

instance : Monad Program where
  pure := done
  bind := bind

/-- Calls the backend; an error of the backend is an error of the program. -/
def request (r : Request) : Program r.Answer :=
  call r fun
    | .ok answer => done answer
    | .error e => fail (.backend e)

/-- The value of a check, or its error. -/
def ofExcept : Except Error α → Program α
  | .ok value => done value
  | .error e => fail e

/-- The value of a check of a record, or its error. -/
def check : Except ValidationError α → Program α
  | .ok value => done value
  | .error e => fail (.validation e)

/-- The query that parameters stand for. -/
def compile (params : QueryParams) : Program Query :=
  match Query.compile params with
  | .ok query => done query
  | .error e => fail (.query e)

/-- Runs programs for the items of a list, one after another. -/
def each (items : List α) (f : α → Program β) : Program (List β) :=
  match items with
  | [] => pure []
  | item :: items => do
    let value ← f item
    let values ← each items f
    return value :: values

/-- Runs a program with a handler of its calls. -/
def runWith (handle : σ → (r : Request) → Except BackendError r.Answer × σ) :
    Program α → σ → Outcome α × σ
  | done value, s => (.ok value, s)
  | fail e, s => (.failed e, s)
  | exhausted, s => (.exhausted, s)
  | call request next, s =>
    let (answer, s) := handle s request
    (next answer).runWith handle s

/-- Runs a program on a backend, undisturbed. -/
def run (p : Program α) (b : Backend) : Outcome α × Backend :=
  p.runWith Backend.handle b

@[simp] theorem pure_eq (value : α) : (pure value : Program α) = done value := rfl

@[simp] theorem bind_done (value : α) (k : α → Program β) : (done value >>= k) = k value := rfl

@[simp] theorem bind_fail (e : Error) (k : α → Program β) : (fail e >>= k) = fail e := rfl

@[simp] theorem bind_exhausted (k : α → Program β) : (exhausted >>= k) = exhausted := rfl

@[simp] theorem bind_call (r : Request) (next : Except BackendError r.Answer → Program α)
    (k : α → Program β) : (call r next >>= k) = call r fun answer => next answer >>= k := rfl

theorem bind_pure (p : Program α) : (p >>= pure) = p := by
  induction p with
  | done _ | fail _ | exhausted => rfl
  | call r next ih => exact congrArg (call r) (funext ih)

/-- Sequences of programs may be bracketed in either way. -/
theorem bind_assoc {γ : Type} (p : Program α) (f : α → Program β) (g : β → Program γ) :
    (p >>= f >>= g) = p >>= fun a => f a >>= g := by
  induction p with
  | done _ | fail _ | exhausted => rfl
  | call r next ih => exact congrArg (call r) (funext ih)

instance : LawfulMonad Program :=
  LawfulMonad.mk' Program bind_pure (fun _ _ => rfl) bind_assoc

/-- A run of two programs in a row is a run of the first followed by one of the second. -/
theorem runWith_bind (handle : σ → (r : Request) → Except BackendError r.Answer × σ)
    (p : Program α) (k : α → Program β) (s : σ) :
    (p >>= k).runWith handle s =
      match p.runWith handle s with
      | (.ok value, s) => (k value).runWith handle s
      | (.failed e, s) => (.failed e, s)
      | (.exhausted, s) => (.exhausted, s) := by
  induction p generalizing s with
  | done _ | fail _ | exhausted => rfl
  | call r next ih => exact ih (handle s r).1 (handle s r).2

end Program

end ChannelDirectory

import ChannelDirectory.Proofs.Store.Batches

/-!
# What a batch reports

A batch may write one document several times, so what becomes of an operation depends on all the
operations before it. `Store.turns` lists the operations of a batch, each with the store that it
finds at its turn, and the results of the batch are read off this list (`Store.results_eq_turns`).
An operation is refused if it replaces a document that is not there at its turn
(`Store.refused`). These are the failures that the caller is told of
(`Store.failures_eq_refused`), and leaving them out makes no difference to the store
(`Store.after_carriedOut`).

`execute_reports` : executing a batch ends well exactly if nothing is refused, names what was
refused otherwise, and changes nothing if the backend is unavailable.
-/

namespace ChannelDirectory

/-- What becomes of an operation whose document is there, or is not. -/
def Operation.status : Operation → (there : Bool) → ItemStatus
  | put .., false => .created
  | put .., true => .updated
  | replace .., true => .updated
  | replace _ id _, false => .failed (Store.missingReason id)
  | delete .., true => .deleted
  | delete .., false => .notFound

/-- The result of an operation on a store. -/
def Operation.result (op : Operation) (s : Store) : ItemResult :=
  ⟨op.index, op.id, op.action, op.status (s.get? op.index op.id).isSome⟩

/-- The operations of a batch whose results report no failure. -/
def carriedOut (ops : List Operation) (results : List ItemResult) : List Operation :=
  ((ops.zip results).filter fun e => e.2.failure?.isNone).map Prod.fst

theorem carriedOut_cons (op : Operation) (ops : List Operation) (item : ItemResult)
    (results : List ItemResult) :
    carriedOut (op :: ops) (item :: results) =
      if item.failure?.isNone then op :: carriedOut ops results else carriedOut ops results := by
  rw [carriedOut, List.zip_cons_cons, List.filter_cons]
  split <;> rfl

namespace Store

/-- The operations of a batch, each with the store that it finds at its turn. -/
def turns (s : Store) (ops : List Operation) : List (Operation × Store) :=
  ops.zipIdx.map fun e => (e.1, s.after (ops.take e.2))

/-- The operations of a batch that replace a document that is not there at their turn. -/
def refused (s : Store) (ops : List Operation) : List Operation :=
  ((s.turns ops).filter fun turn => turn.2.lacks turn.1).map Prod.fst

@[simp]
theorem turns_nil (s : Store) : s.turns [] = [] := rfl

/-- The first operation finds the store as it is, the others what the first one leaves. -/
theorem turns_cons (s : Store) (op : Operation) (ops : List Operation) :
    s.turns (op :: ops) = (op, s) :: (s.apply op).2.turns ops := by
  rw [turns, List.zipIdx_cons', List.map_cons, List.map_map]
  rfl

theorem refused_cons (s : Store) (op : Operation) (ops : List Operation) :
    s.refused (op :: ops) =
      if s.lacks op then op :: (s.apply op).2.refused ops else (s.apply op).2.refused ops := by
  rw [refused, turns_cons, List.filter_cons]
  split <;> rfl

/-- An operation finds what the operations before it have left. -/
theorem mem_turns_iff {s s' : Store} {ops : List Operation} {op : Operation} :
    (op, s') ∈ s.turns ops ↔
      ∃ before rest, ops = before ++ op :: rest ∧ s' = s.after before := by
  induction ops generalizing s with
  | nil => simp
  | cons first ops ih =>
    rw [turns_cons, List.mem_cons, ih]
    constructor
    · rintro (heq | ⟨before, rest, rfl, rfl⟩)
      · obtain ⟨rfl, rfl⟩ := Prod.mk.inj heq
        exact ⟨[], ops, rfl, rfl⟩
      · exact ⟨first :: before, rest, rfl, rfl⟩
    · rintro ⟨_ | ⟨o, before⟩, rest, heq, rfl⟩
      · obtain ⟨rfl, -⟩ := List.cons.inj heq
        exact Or.inl rfl
      · obtain ⟨rfl, rfl⟩ := List.cons.inj heq
        exact Or.inr ⟨before, rest, rfl, rfl⟩

/-- No operation is refused exactly if each replacement finds a document, after all that comes
before it. -/
theorem refused_eq_nil_iff {s : Store} {ops : List Operation} :
    s.refused ops = [] ↔ ∀ before op rest, ops = before ++ op :: rest →
      op.action = .replace → ∃ doc, (s.after before).get? op.index op.id = some doc := by
  simp only [refused, List.map_eq_nil_iff, List.filter_eq_nil_iff, Bool.not_eq_true,
    lacks_eq_false_iff, Prod.forall, mem_turns_iff]
  constructor
  · intro h before op rest hops
    exact h op _ ⟨before, rest, hops, rfl⟩
  · rintro h op _ ⟨before, rest, hops, rfl⟩
    exact h before op rest hops

/-- A write reports what becomes of an operation whose document is there, or is not. -/
theorem status_apply (s : Store) (op : Operation) :
    (s.apply op).1 = op.status (s.get? op.index op.id).isSome := by
  cases op with
  | put index id doc =>
    change (if (s.get? index id).isSome then _ else _) = Operation.status _ (s.get? index id).isSome
    cases (s.get? index id).isSome <;> rfl
  | replace index id doc | delete index id =>
    rw [apply]
    change _ = Operation.status _ (s.get? index id).isSome
    cases (s.get? index id).isSome <;> rfl

/-- Each operation of a batch has its result, in order. -/
theorem results_eq_turns (s : Store) (ops : List Operation) :
    (s.applyAll ops).1 = (s.turns ops).map fun turn => turn.1.result turn.2 := by
  induction ops generalizing s with
  | nil => rfl
  | cons op ops ih =>
    rw [results_cons, ih, turns_cons, List.map_cons, Operation.result, status_apply]

/-- The failures of a batch are its replacements of documents that are not there at their turn. -/
theorem failures_eq_refused (s : Store) (ops : List Operation) :
    (s.summary ops).failures = (s.refused ops).map Operation.missing := by
  rw [summary, Summary.failures_ofResults]
  induction ops generalizing s with
  | nil => rfl
  | cons op ops ih =>
    rw [results_cons, List.filterMap_cons, failure?_apply, ih, refused_cons]
    by_cases hlacks : s.lacks op = true
    · rw [if_pos hlacks, if_pos hlacks, List.map_cons]
    · rw [if_neg hlacks, if_neg hlacks]

/-- Without the operations that report a failure a batch leaves the same store. -/
theorem after_carriedOut (s : Store) (ops : List Operation) :
    s.after (carriedOut ops (s.applyAll ops).1) = s.after ops := by
  induction ops generalizing s with
  | nil => rfl
  | cons op ops ih =>
    rw [results_cons, carriedOut_cons, failure?_apply, after_cons]
    by_cases hlacks : s.lacks op = true
    · rw [if_pos hlacks, if_neg (by simp), ← ih, apply_of_lacks hlacks]
    · rw [if_neg hlacks, if_pos (by simp), after_cons, ih]

/-- A batch succeeds exactly if nothing of it is refused. -/
theorem isSuccess_iff_refused_eq_nil (s : Store) (ops : List Operation) :
    (s.summary ops).isSuccess = true ↔ s.refused ops = [] := by
  rw [Summary.isSuccess, failures_eq_refused, List.isEmpty_iff, List.map_eq_nil_iff]

end Store

theorem Backend.after_append (b : Backend) (ops more : List Operation) :
    b.after (ops ++ more) = (b.after ops).after more := by
  rw [Backend.after, Store.after_append]
  rfl

/-- Executing a batch on an available backend carries it out, and fails with what was refused. -/
theorem run_execute_of_available {b : Backend} (havail : b.available = true)
    (ops : List Operation) :
    (execute ops).run b =
      (if b.store.refused ops = [] then .ok (b.store.summary ops)
        else .failed (.partialFailure (b.store.summary ops).applied
          ((b.store.refused ops).map Operation.missing)), b.after ops) := by
  rw [run_execute, if_pos (Or.inr havail), Store.failures_eq_refused]
  simp only [Store.isSuccess_iff_refused_eq_nil]

/-- Executing operations leaves what they lead to, whatever is reported. -/
theorem run_execute_snd {b : Backend} (havail : b.available = true) (ops : List Operation) :
    ((execute ops).run b).2 = b.after ops := by
  rw [run_execute_of_available havail]

theorem handle_bulk {b : Backend} (havail : b.available = true) (ops : List Operation) :
    b.handle (.bulk ops) = (.ok (b.store.applyAll ops).1, b.after ops) := by
  rw [Backend.handle, if_pos havail]
  rfl

/-- Executing a batch reports exactly what was carried out. On an available backend each operation
has its result, in order, by whether its document is there at its turn. The execution ends well if
and only if no replacement misses its document, and fails with exactly the replacements that do
otherwise. Either way the store is the one that the operations without a failure leave, and two
batches in a row leave what both together leave. An unavailable backend is not changed. -/
theorem execute_reports (b : Backend) (ops : List Operation) :
    (b.available = true →
      (∃ results, b.handle (.bulk ops) = (.ok results, ((execute ops).run b).2) ∧
        results = (b.store.turns ops).map (fun turn => turn.1.result turn.2) ∧
        (b.store.turns ops).map Prod.fst = ops ∧
        ((execute ops).run b).2 = ((execute (carriedOut ops results)).run b).2) ∧
      ((∃ summary, ((execute ops).run b).1 = .ok summary) ↔
        ∀ before op rest, ops = before ++ op :: rest → op.action = .replace →
          ∃ doc, (b.store.after before).get? op.index op.id = some doc) ∧
      ((∃ before op rest, ops = before ++ op :: rest ∧ op.action = .replace ∧
          (b.store.after before).get? op.index op.id = none) →
        ∃ applied failures,
          ((execute ops).run b).1 = .failed (.partialFailure applied failures) ∧
          failures = (b.store.refused ops).map Operation.missing ∧
          applied + failures.length = ops.length) ∧
      ∀ more, ((execute more).run ((execute ops).run b).2).2 =
        ((execute (ops ++ more)).run b).2) ∧
    (b.available = false → ops ≠ [] →
      (execute ops).run b = (.failed (.backend .unavailable), b)) := by
  refine ⟨fun havail => ?_, fun hgone hne => ?_⟩
  · have hrun := run_execute_of_available havail ops
    have havail' : (b.after ops).available = true := havail
    rw [run_execute_snd havail]
    refine ⟨⟨_, handle_bulk havail ops, b.store.results_eq_turns ops, ?_, ?_⟩, ?_, ?_,
      fun more => ?_⟩
    · rw [Store.turns, List.map_map]
      exact List.zipIdx_map_fst 0 ops
    · rw [run_execute_snd havail, Backend.after, Backend.after, Store.after_carriedOut]
    · rw [← Store.refused_eq_nil_iff, hrun]
      by_cases hnone : b.store.refused ops = []
      · exact iff_of_true ⟨_, if_pos hnone⟩ hnone
      · rw [if_neg hnone]
        exact iff_of_false (by rintro ⟨_, ⟨⟩⟩) hnone
    · rintro ⟨before, op, rest, hops, haction, hmissing⟩
      have hsome : b.store.refused ops ≠ [] := fun hnone => by
        obtain ⟨doc, hdoc⟩ := Store.refused_eq_nil_iff.mp hnone before op rest hops haction
        rw [hmissing] at hdoc
        cases hdoc
      refine ⟨_, _, by rw [hrun, if_neg hsome], rfl, ?_⟩
      rw [← Store.failures_eq_refused]
      exact b.store.total_summary ops
    · rw [run_execute_snd havail', run_execute_snd havail, Backend.after_append]
  · rw [run_execute, if_neg]
    simp [hne, hgone]

/-- A backend with one document. -/
def oneDocument : Backend where
  store := Store.empty.put "tags" "t" .null

/-- Writes of two documents, the second of which is never there. -/
def rewrites : List Operation :=
  [.delete "tags" "t", .replace "tags" "t" .null, .put "tags" "t" (.bool true),
    .replace "tags" "t" (.bool false), .replace "tags" "u" .null]

/-- The first replacement comes too early, the second one in time, and the third one misses its
document. -/
theorem rewrites_reported :
    (∃ applied failures,
      ((execute rewrites).run oneDocument).1 = .failed (.partialFailure applied failures) ∧
      failures.map Failure.id = ["t", "u"] ∧ applied = 3) ∧
    (execute rewrites).run { oneDocument with available := false } =
      (.failed (.backend .unavailable), { oneDocument with available := false }) := by
  obtain ⟨-, -, hrefused, -⟩ := (execute_reports oneDocument rewrites).1 rfl
  obtain ⟨applied, failures, hrun, rfl, htotal⟩ := hrefused
    ⟨[.delete "tags" "t"], .replace "tags" "t" .null, _, rfl, rfl, by decide⟩
  have hfailures : ((oneDocument.store.refused rewrites).map Operation.missing).map Failure.id =
      ["t", "u"] := by decide
  refine ⟨⟨applied, _, hrun, hfailures, ?_⟩, ?_⟩
  · have hlength := congrArg List.length hfailures
    rw [List.length_map] at hlength
    rw [hlength] at htotal
    exact Nat.add_right_cancel htotal
  · exact (execute_reports { oneDocument with available := false } rewrites).2 rfl
      (List.cons_ne_nil _ _)

end ChannelDirectory

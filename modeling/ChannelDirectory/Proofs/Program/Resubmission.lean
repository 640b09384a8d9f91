import ChannelDirectory.Proofs.Program.Writes
import ChannelDirectory.Proofs.Store.Batches

/-!
# Programs that are submitted again

A program repeats if it ends with the same value when it is run on what it has left, and leaves that
as it is (`Program.Repeats`). A caller who does not know whether a request has arrived can submit it
once more.

A write repeats if all that it puts the second time is stored by then (`Write.repeats`) : such a
batch does not change the store, not even which indices there are (`Store.after_of_settled`).
-/

namespace ChannelDirectory

namespace Store

/-- The operation puts a document that is stored. -/
def Settled (s : Store) (op : Operation) : Prop :=
  ∃ index id doc, op = .put index id doc ∧ s.get? index id = some doc

variable {s : Store}

/-- Putting a document that is stored changes nothing. -/
theorem put_eq_self {index id : String} {doc : Json} (h : s.get? index id = some doc) :
    s.put index id doc = s := by
  refine ext_documents (fun index' => KeyMap.ext_get? fun id' => ?_) fun index' => ?_
  · change (s.put index id doc).get? index' id' = s.get? index' id'
    rw [get?_put]
    split
    · rename_i hsame
      rw [hsame.1, hsame.2, h]
    · rfl
  · have hindex := contains_of_get? h
    have hput := contains_apply s (.put index id doc) index'
    refine hput.trans ?_
    by_cases hsame : index = index'
    · rw [← hsame, hindex, Bool.true_or]
    · simp [Operation.action, Operation.index, hsame]

/-- Puts of different documents leave all of them stored. -/
theorem settled_after {ops : List Operation}
    (hputs : ∀ op ∈ ops, ∃ index id doc, op = .put index id doc)
    (different : ops.Pairwise fun op op' => ¬(op'.index = op.index ∧ op'.id = op.id)) (s : Store) :
    ∀ op ∈ ops, (s.after ops).Settled op := by
  induction ops generalizing s with
  | nil => exact fun op hop => absurd hop List.not_mem_nil
  | cons op ops ih =>
    obtain ⟨⟨index, id, doc, rfl⟩, hrest⟩ := List.forall_mem_cons.mp hputs
    obtain ⟨hfirst, hothers⟩ := List.pairwise_cons.mp different
    rw [after_cons]
    refine List.forall_mem_cons.mpr ⟨⟨index, id, doc, rfl, ?_⟩, ih hrest hothers _⟩
    refine (get?_after_of_ne _ hfirst).trans ?_
    change (s.put index id doc).get? index id = some doc
    rw [get?_put, if_pos ⟨rfl, rfl⟩]

/-- Operations that are settled change nothing. -/
theorem after_of_settled {ops : List Operation} (h : ∀ op ∈ ops, s.Settled op) :
    s.after ops = s := by
  induction ops with
  | nil => rfl
  | cons op ops ih =>
    obtain ⟨⟨index, id, doc, rfl, hdoc⟩, hrest⟩ := List.forall_mem_cons.mp h
    have hfirst : (s.apply (.put index id doc)).2 = s := put_eq_self hdoc
    rw [after_cons, hfirst, ih hrest]

/-- Operations that are settled succeed. -/
theorem isSuccess_summary_of_settled {ops : List Operation} (h : ∀ op ∈ ops, s.Settled op) :
    (s.summary ops).isSuccess = true := by
  refine isSuccess_summary_of_no_replace s fun op hop => ?_
  obtain ⟨index, id, doc, rfl, -⟩ := h op hop
  rintro ⟨⟩

end Store

/-- Whenever the program ends with a value, it ends with this value on what it has left, and leaves
that as it is. -/
def Program.Repeats {β : Type} (p : Program β) (b : Backend) : Prop :=
  ∀ value b', p.run b = (.ok value, b') → p.run b' = (.ok value, b')

namespace Write

variable {β : Type} {b : Backend}

/-- A batch that puts what is stored leads to its answer and changes nothing. -/
theorem run_of_settled (w : Write β) {batch : Batched β} (hbatch : w.plan.Returns b batch)
    (havail : b.available = true) (hsettled : ∀ op ∈ batch.ops, b.store.Settled op) {value : β}
    (hanswer : ∀ summary, (batch.answer summary).Returns b value) :
    w.program.run b = (.ok value, b) := by
  have hafter : b.after batch.ops = b := by
    rw [Backend.after, Store.after_of_settled hsettled]
  refine (w.run_eq_ok_iff).mpr ⟨batch, hbatch, .inr havail,
    Store.isSuccess_summary_of_settled hsettled, hafter.symm, hanswer _⟩

/-- A write repeats if what it puts the second time is stored by then, and its answer stays. -/
theorem repeats (w : Write β)
    (h : ∀ batch value, w.plan.Returns b batch → b.available = true →
      (batch.answer (b.store.summary batch.ops)).Returns (b.after batch.ops) value →
      ∃ again : Batched β, w.plan.Returns (b.after batch.ops) again ∧
        (∀ op ∈ again.ops, (b.store.after batch.ops).Settled op) ∧
        ∀ summary, (again.answer summary).Returns (b.after batch.ops) value) :
    w.program.Repeats b := by
  intro value b' hrun
  obtain ⟨batch, hbatch, hreach, -, rfl, hanswer⟩ := (w.run_eq_ok_iff).mp hrun
  rcases hreach with hnil | havail
  · -- Nothing was submitted, so the second run is the first one.
    rw [hnil, Backend.after_nil] at hrun ⊢
    exact hrun
  · obtain ⟨again, hagain, hsettled, hsame⟩ := h batch value hbatch havail hanswer
    exact w.run_of_settled hagain havail hsettled hsame

end Write

end ChannelDirectory

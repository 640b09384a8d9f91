import ChannelDirectory.Proofs.Directory.BatchEffects
import ChannelDirectory.Proofs.Membership.Changes
import ChannelDirectory.Proofs.Store.Batches

/-!
# The batch of a plan

A plan for tags or properties puts and deletes records, and replaces channels. These are
different indices, and what is replaced is what has been read. With nobody else writing such a
batch is carried out as a whole (`isSuccess_of_returns_operations`), so a write ends with a value
exactly if its plan, the reading of the channels that it edits, and its answer do
(`editWrite_run_eq_ok_iff`). For a plan about one record that can be carried out
(`Directory.WritesFor`) nothing is left but the answer (`WritesFor.exists_run`).
-/

namespace ChannelDirectory

open Attribute ChannelEdits Collection LawfulAttribute Program

namespace ChannelEdits

/-- The writes of edits replace documents that are stored. -/
theorem mem_operations {channels : Collection Channel} {P : Channel → Prop} {edits : ChannelEdits}
    {b : Backend} {ops : List Operation} (wf : channels.HoldsOnly P b.store)
    (h : (edits.operations channels).Returns b ops) {op : Operation} (hop : op ∈ ops) :
    op.action = .replace ∧ op.index = channels.index ∧ b.store.lacks op = false := by
  obtain ⟨current, hwrites, hcurrent⟩ := returns_operations wf h
  obtain ⟨e, he, c, hc, rfl⟩ := mem_writes hwrites hop
  rw [hcurrent e he] at hc
  have hid : c.name = e.1 := wf.name_eq hc
  refine ⟨rfl, rfl, Store.lacks_eq_false_iff.mpr fun _ => ?_⟩
  change ∃ doc, b.store.get? channels.index c.name = some doc
  rw [hid, wf.get?_store, hc]
  exact ⟨_, rfl⟩

end ChannelEdits

namespace Directory

section Runs

variable {β : Type} {dir : Directory} {b b' : Backend} {plan : Program (EditPlan β)} {value : β}

/-- A plan with edits is planned as one batch : its writes of records, then those of the channels
that change. -/
theorem returns_editWrite_plan_iff (hread : plan.ReadOnly) {batch : Batched β} :
    (dir.editWrite plan hread).plan.Returns b batch ↔
      ∃ p more, plan.Returns b p ∧ (p.edits.operations dir.channels).Returns b more ∧
        batch = ⟨p.ops ++ more, fun _ => p.answer, fun _ => p.readOnly_answer⟩ := by
  rw [editWrite, returns_bind hread]
  simp only [batched, returns_bind (readOnly_operations _ dir.channels), pure_eq, returns_done,
    exists_and_left]

/-- The write after its plan : the batch is carried out or not, and if it is, the answer is
read. -/
theorem editWrite_run_of_returns (hread : plan.ReadOnly) {p : EditPlan β} {more : List Operation}
    (hplan : plan.Returns b p) (hmore : (p.edits.operations dir.channels).Returns b more)
    (hreach : p.ops ++ more = [] ∨ b.available = true)
    (hsuccess : (b.store.summary (p.ops ++ more)).isSuccess = true) :
    (dir.editWrite plan hread).program.run b = p.answer.run (b.after (p.ops ++ more)) :=
  Write.run_of_returns _
    ((returns_editWrite_plan_iff hread).mpr ⟨p, more, hplan, hmore, rfl⟩) hreach hsuccess

/-- A write succeeds exactly if its plan is made, its edits can be carried out, and the batch fails
nowhere. -/
theorem editWrite_run_eq_ok_iff (hread : plan.ReadOnly) :
    (dir.editWrite plan hread).program.run b = (.ok value, b') ↔
      ∃ p more, plan.Returns b p ∧ (p.edits.operations dir.channels).Returns b more ∧
        (p.ops ++ more = [] ∨ b.available = true) ∧
        (b.store.summary (p.ops ++ more)).isSuccess = true ∧ b' = b.after (p.ops ++ more) ∧
        p.answer.Returns b' value := by
  rw [Write.run_eq_ok_iff]
  constructor
  · rintro ⟨batch, hbatch, h⟩
    obtain ⟨p, more, hplan, hmore, rfl⟩ := (returns_editWrite_plan_iff hread).mp hbatch
    exact ⟨p, more, hplan, hmore, h⟩
  · rintro ⟨p, more, hplan, hmore, h⟩
    exact ⟨_, (returns_editWrite_plan_iff hread).mpr ⟨p, more, hplan, hmore, rfl⟩, h⟩

end Runs

/-! ## Records and channels in one batch -/

variable {α ρ : Type} [Attribute α ρ] {dir : Directory} {b : Backend}

/-- Puts and deletes of records of one kind. -/
def PutsOrDeletes (dir : Directory) (α : Type) {ρ : Type} [Attribute α ρ] (ops : List Operation) :
    Prop :=
  ∀ op ∈ ops, op.action ≠ .replace ∧ op.index = Attribute.index α dir.config

theorem putsOrDeletes_puts (records : List α) :
    dir.PutsOrDeletes α (records.map (dir.records α).putOp) := by
  intro op hop
  obtain ⟨record, -, rfl⟩ := List.mem_map.mp hop
  exact ⟨by rintro ⟨⟩, rfl⟩

theorem putsOrDeletes_delete (name : String) :
    dir.PutsOrDeletes α [(dir.records α).deleteOp name] := by
  intro op hop
  rw [List.mem_singleton.mp hop]
  exact ⟨by rintro ⟨⟩, rfl⟩

theorem PutsOrDeletes.append {ops more : List Operation} (hops : dir.PutsOrDeletes α ops)
    (hmore : dir.PutsOrDeletes α more) : dir.PutsOrDeletes α (ops ++ more) := by
  intro op hop
  rcases List.mem_append.mp hop with hop | hop
  · exact hops op hop
  · exact hmore op hop

theorem putsOrDeletes_updateOps (name : String) (existing request : α) :
    dir.PutsOrDeletes α (dir.updateOps name existing request) := by
  refine PutsOrDeletes.append ?_ (putsOrDeletes_puts [_])
  split
  · exact fun op hop => absurd hop List.not_mem_nil
  · exact putsOrDeletes_delete name

variable [Reference ρ] [LawfulAttribute α]

/-- What replaces channels does not touch records, and no other write touches channels. -/
theorem PutsOrDeletes.replacesApart (indices : dir.config.DistinctIndices)
    {ops more : List Operation} (hops : dir.PutsOrDeletes α ops)
    (hmore : ∀ op ∈ more, op.action = .replace ∧ op.index = dir.channels.index) :
    ReplacesApart (ops ++ more) := by
  have hindex : Attribute.index α dir.config ≠ dir.config.channelIndex := index_ne indices
  intro op hop op' hop' haction
  rcases List.mem_append.mp hop with hop | hop
  · rcases List.mem_append.mp hop' with hop' | hop'
    · exact absurd haction (hops op' hop').1
    · right
      rw [(hops op hop).2, (hmore op' hop').2]
      exact hindex
  · exact Or.inl (hmore op hop).1

/-- A batch of records and edited channels does what its plan says. -/
theorem edited_of_returns_operations {β : Type} {p : EditPlan β} {more : List Operation}
    {names : String → Prop} (indices : dir.config.DistinctIndices) (shape : dir.InShape α b.store)
    (hops : dir.RecordOps α p.ops) (hedits : p.edits.About α names)
    (hmore : (p.edits.operations dir.channels).Returns b more) :
    dir.Edited α p.ops p.edits b.store (b.store.after (p.ops ++ more)) := by
  have hbatched : (dir.batched p).Returns b
      ⟨p.ops ++ more, fun _ => p.answer, fun _ => p.readOnly_answer⟩ :=
    (returns_bind (readOnly_operations p.edits dir.channels)).mpr
      ⟨more, hmore, returns_done.mpr rfl⟩
  exact (edited_of_returns_batched indices shape hops hedits hbatched).1

/-- The batch of a plan is carried out. -/
theorem isSuccess_of_returns_operations (indices : dir.config.DistinctIndices)
    (wf : dir.channels.HoldsOnly Channel.Distinct b.store) {ops more : List Operation}
    {edits : ChannelEdits} (hops : dir.PutsOrDeletes α ops)
    (hmore : (edits.operations dir.channels).Returns b more) :
    (b.store.summary (ops ++ more)).isSuccess = true := by
  have happart := hops.replacesApart indices fun op hop =>
    ⟨(mem_operations wf hmore hop).1, (mem_operations wf hmore hop).2.1⟩
  refine (Store.isSuccess_summary_iff _ happart).mpr fun op hop => ?_
  rcases List.mem_append.mp hop with hop | hop
  · exact Store.lacks_eq_false_iff.mpr fun haction => absurd haction (hops op hop).1
  · exact (mem_operations wf hmore hop).2.2

/-- The plan writes the record of a name and references to it, and can be carried out. -/
structure WritesFor {β : Type} (dir : Directory) (α : Type) {ρ : Type} [Attribute α ρ] [Reference ρ]
    [LawfulAttribute α] (name : String) (b : Backend) (p : EditPlan β) : Prop where
  available : b.available = true
  ops : dir.PutsOrDeletes α p.ops
  records : dir.RecordOps α p.ops
  ids : ∀ op ∈ p.ops, op.id = name
  about : p.edits.About α (· = name)
  applicable : p.edits.Applicable (dir.channels.contents b.store)

/-- Such a plan is carried out, and makes no other indices than its writes of the record do. -/
theorem WritesFor.exists_run {β : Type} {name : String} {plan : Program (EditPlan β)}
    {p : EditPlan β} (indices : dir.config.DistinctIndices) (shape : dir.InShape α b.store)
    (hread : plan.ReadOnly) (hplan : plan.Returns b p) (h : dir.WritesFor α name b p) :
    ∃ ops, (dir.editWrite plan hread).program.run b = p.answer.run (b.after ops) ∧
      dir.Edited α p.ops p.edits b.store (b.store.after ops) ∧
      ∀ index, (b.store.after ops).indices.contains index =
        (b.store.after p.ops).indices.contains index := by
  obtain ⟨more, hmore⟩ : ∃ more, (p.edits.operations dir.channels).Returns b more :=
    ⟨_, (returns_operations_iff shape.channels).mpr ⟨.inr h.available, h.applicable, rfl⟩⟩
  refine ⟨p.ops ++ more, editWrite_run_of_returns hread hplan hmore (.inr h.available)
    (isSuccess_of_returns_operations indices shape.channels h.ops hmore),
    edited_of_returns_operations indices shape h.records h.about hmore, ?_⟩
  exact Store.contains_after_append_replaces (fun op hop =>
    (mem_operations shape.channels hmore hop).1) b.store

/-! ## The plans of the commands -/

/-- The plan puts and deletes records of one kind, and edits references to them. -/
structure Confined {β : Type} (dir : Directory) (α : Type) {ρ : Type} [Attribute α ρ] [Reference ρ]
    [LawfulAttribute α] (p : EditPlan β) : Prop where
  records : dir.RecordOps α p.ops
  ops : dir.PutsOrDeletes α p.ops
  about : ∃ names, p.edits.About α names

variable [LawfulEntity α] {name channel : String}

/-- An assignment writes no record, and its edits are about its own name. -/
theorem confined_addPlan (shape : dir.InShape α b.store) {request : α} {p : EditPlan α}
    (h : (dir.addPlan name channel request).Returns b p) : dir.Confined α p := by
  obtain ⟨_, _, -, -, -, -, -, hops, -, staged⟩ := returns_addPlan shape h
  exact ⟨hops ▸ recordOps_nil, hops ▸ putsOrDeletes_puts [], _, staged.about⟩

theorem confined_removeFromPlan (shape : dir.InShape α b.store) {p : EditPlan Unit}
    (h : (dir.removeFromPlan α name channel).Returns b p) : dir.Confined α p := by
  obtain ⟨-, -, hops, -, staged⟩ := returns_removeFromPlan shape h
  exact ⟨hops ▸ recordOps_nil, hops ▸ putsOrDeletes_puts [], _, staged.about⟩

variable [DecidableEq ρ]

/-- A creation writes its own record, and its edits are about this name. -/
theorem confined_createPlan (shape : dir.InShape α b.store) {record : α} {p : EditPlan α}
    (h : (dir.createPlan name record).Returns b p) : dir.Confined α p := by
  obtain ⟨_, -, -, -, hops, -, staged⟩ := returns_createPlan shape h
  exact ⟨hops ▸ recordOps_puts [record], hops ▸ putsOrDeletes_puts [record], _, staged.about⟩

/-- Many creations write their own records, and their edits are about these names. -/
theorem confined_createAllPlan (shape : dir.InShape α b.store) {records : List α}
    {p : EditPlan (List α)} (h : (dir.createAllPlan records).Returns b p) : dir.Confined α p := by
  obtain ⟨-, hops, -, staged⟩ := returns_createAllPlan shape h
  exact ⟨hops ▸ recordOps_puts _, hops ▸ putsOrDeletes_puts _, _, staged.about⟩

/-- A deletion writes its own record, and its edits are about this name. -/
theorem confined_removePlan (shape : dir.InShape α b.store) {p : EditPlan Unit}
    (h : (dir.removePlan α name).Returns b p) : dir.Confined α p := by
  obtain ⟨-, hops, -, staged⟩ := returns_removePlan shape h
  exact ⟨hops ▸ recordOps_delete name, hops ▸ putsOrDeletes_delete name, _, staged.about⟩

/-- Many updates write records of the request only, and their edits are about these names. -/
theorem confined_updateAllPlan (shape : dir.InShape α b.store) {records : List α}
    {p : EditPlan (List α)} (h : (dir.updateAllPlan records).Returns b p) : dir.Confined α p := by
  obtain ⟨-, hops, -, staged⟩ := returns_updateAllPlan shape h
  exact ⟨hops ▸ recordOps_puts _, hops ▸ putsOrDeletes_puts _, _, staged.about⟩

variable [LawfulReference ρ]

/-- An update writes records of the old and the new name, and its edits are about these. -/
theorem confined_updatePlan (shape : dir.InShape α b.store) {request : α} {p : EditPlan α}
    (h : (dir.updatePlan name request).Returns b p) : dir.Confined α p := by
  obtain ⟨existing, _, -, -, -, hops, -, staged⟩ := returns_updatePlan shape h
  exact ⟨hops ▸ recordOps_updateOps name existing request,
    hops ▸ putsOrDeletes_updateOps name existing request, _, staged.about⟩

end Directory

end ChannelDirectory

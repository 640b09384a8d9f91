import ChannelDirectory.Proofs.Directory.EditWrites

/-!
# The writes of tags and properties in two parts

Each of these writes is its plan, which only reads, followed by the batch that carries the
plan out (`createAttribute_eq` and its likes).
-/

namespace ChannelDirectory

open Attribute Collection LawfulAttribute Program

namespace Directory

section Plans

variable {α ρ : Type} [Attribute α ρ] [Reference ρ]

theorem readOnly_stageReplace [DecidableEq ρ] (dir : Directory) (record : α)
    (edits : ChannelEdits) : (dir.stageReplace record edits).ReadOnly :=
  (readOnly_check _).bind fun _ => (dir.readOnly_currentMembers _).bind fun _ => trivial

theorem readOnly_stageReplaceAll [DecidableEq ρ] (dir : Directory) (records : List α)
    (edits : ChannelEdits) : (dir.stageReplaceAll records edits).ReadOnly := by
  induction records generalizing edits with
  | nil => trivial
  | cons record records ih => exact (dir.readOnly_stageReplace record edits).bind ih

theorem readOnly_stageRename [DecidableEq ρ] (dir : Directory) (name newName owner : String)
    (current desired : KeyMap ρ) :
    (dir.stageRename α name newName owner current desired).ReadOnly :=
  (dir.readOnly_currentMembers _).bind fun _ => trivial

theorem readOnly_stageMerge [DecidableEq ρ] (dir : Directory) (name : String) (record : α)
    (staged : List Operation × ChannelEdits) : (dir.stageMerge name record staged).ReadOnly := by
  refine ((dir.records α).readOnly_get name).bind fun existing => ?_
  cases existing <;>
    exact (dir.readOnly_checkRecord _).bind fun _ => (readOnly_check _).bind fun _ =>
      (dir.readOnly_currentMembers _).bind fun _ => trivial

theorem readOnly_stageMergeAll [DecidableEq ρ] (dir : Directory) (entries : List (String × α))
    (staged : List Operation × ChannelEdits) : (dir.stageMergeAll entries staged).ReadOnly := by
  induction entries generalizing staged with
  | nil => trivial
  | cons e entries ih => exact (dir.readOnly_stageMerge e.1 e.2 staged).bind ih

/-! ## Plans -/

/-- The plan to make the channels of a record its only members. -/
def createPlan [DecidableEq ρ] (dir : Directory) (name : String) (record : α) :
    Program (EditPlan α) := do
  checkName name record
  dir.checkRecord record
  let edits ← dir.stageReplace record KeyMap.empty
  return ⟨[(dir.records α).putOp record], edits, dir.readAttribute α name true,
    dir.readOnly_readAttribute name true⟩

/-- The plan to make the channels of each record its only members. -/
def createAllPlan [DecidableEq ρ] (dir : Directory) (records : List α) :
    Program (EditPlan (List α)) := do
  let records := lastByName records
  let _ ← Program.each records.values dir.checkRecord
  let edits ← dir.stageReplaceAll records.values KeyMap.empty
  return ⟨records.values.map (dir.records α).putOp, edits, dir.readAttributes α records.keys,
    dir.readOnly_readAttributes records.keys⟩

/-- The plan to add one channel to the members of a record. -/
def addPlan (dir : Directory) (name channel : String) (request : α) : Program (EditPlan α) := do
  checkName name request
  let record ← (dir.records α).require name
  dir.checkChannel channel
  let ref ← Program.check (singleRef record request channel)
  return ⟨[], putEdit α KeyMap.empty channel ref, .done record, readOnly_done record⟩

/-- The name of a record after an update. -/
def updatedName (name : String) (request : α) : String :=
  if Entity.name request = "" then name else Entity.name request

/-- The owner of a record after an update. -/
def updatedOwner (existing request : α) : String :=
  if Attribute.owner request = "" then Attribute.owner existing else Attribute.owner request

/-- The record that an update writes. -/
def updatedRecord (name : String) (existing request : α) : α :=
  withIdentity request (updatedName name request) (updatedOwner existing request)

/-- The plan to update a record and the references to it. -/
def updatePlan [DecidableEq ρ] (dir : Directory) (name : String) (request : α) :
    Program (EditPlan α) := do
  let existing ← (dir.records α).require name
  let newName := updatedName name request
  let record := updatedRecord name existing request
  dir.checkRecord record
  let desired ← Program.check (requestedMembers record)
  let current ← dir.currentMembers α name
  if newName ≠ name then
    let edits ← dir.stageRename α name newName (updatedOwner existing request) current desired
    return ⟨[(dir.records α).deleteOp name, (dir.records α).putOp record], edits,
      dir.readAttribute α newName true, dir.readOnly_readAttribute newName true⟩
  else
    let delta := (Delta.merge current desired).refreshOthers current fun ref =>
      Reference.rebind ref newName (updatedOwner existing request)
    return ⟨[(dir.records α).putOp record], stage α KeyMap.empty name delta,
      dir.readAttribute α newName true, dir.readOnly_readAttribute newName true⟩

/-- The plan to add channels to the members of records. -/
def updateAllPlan [DecidableEq ρ] (dir : Directory) (records : List α) :
    Program (EditPlan (List α)) := do
  let records := lastByName records
  let (ops, edits) ← dir.stageMergeAll records.entries ([], KeyMap.empty)
  return ⟨ops, edits, dir.readAttributes α records.keys, dir.readOnly_readAttributes records.keys⟩

/-- The plan to delete a record and take the references to it off all channels. -/
def removePlan [DecidableEq ρ] (dir : Directory) (α : Type) [Attribute α ρ] (name : String) :
    Program (EditPlan Unit) := do
  let _ ← (dir.records α).require name
  let current ← dir.currentMembers α name
  return ⟨[(dir.records α).deleteOp name], stage α KeyMap.empty name (Delta.strip current),
    .done (), readOnly_done ()⟩

/-- The plan to take a record off one channel. -/
def removeFromPlan (dir : Directory) (α : Type) [Attribute α ρ] (name channel : String) :
    Program (EditPlan Unit) := do
  let _ ← (dir.records α).require name
  dir.checkChannel channel
  return ⟨[], removeEdit α KeyMap.empty channel name, .done (), readOnly_done ()⟩

variable {dir : Directory}

theorem readOnly_createPlan [DecidableEq ρ] (name : String) (record : α) :
    (dir.createPlan name record).ReadOnly :=
  (readOnly_checkName name record).bind fun _ => (dir.readOnly_checkRecord record).bind fun _ =>
    (dir.readOnly_stageReplace record _).bind fun _ => trivial

theorem readOnly_createAllPlan [DecidableEq ρ] (records : List α) :
    (dir.createAllPlan records).ReadOnly :=
  (readOnly_each fun record _ => dir.readOnly_checkRecord record).bind fun _ =>
    (dir.readOnly_stageReplaceAll _ _).bind fun _ => trivial

theorem readOnly_addPlan (name channel : String) (request : α) :
    (dir.addPlan name channel request).ReadOnly :=
  (readOnly_checkName name request).bind fun _ =>
    ((dir.records α).readOnly_require name).bind fun _ =>
      (dir.readOnly_checkChannel channel).bind fun _ => (readOnly_check _).bind fun _ => trivial

theorem readOnly_updatePlan [DecidableEq ρ] (name : String) (request : α) :
    (dir.updatePlan name request).ReadOnly := by
  refine ((dir.records α).readOnly_require name).bind fun existing => ?_
  refine (dir.readOnly_checkRecord _).bind fun _ => (readOnly_check _).bind fun desired => ?_
  refine (dir.readOnly_currentMembers _).bind fun current => ?_
  split
  · exact (dir.readOnly_stageRename _ _ _ _ _).bind fun _ => trivial
  · trivial

theorem readOnly_updateAllPlan [DecidableEq ρ] (records : List α) :
    (dir.updateAllPlan records).ReadOnly :=
  (dir.readOnly_stageMergeAll _ _).bind fun _ => trivial

theorem readOnly_removePlan [DecidableEq ρ] (name : String) :
    (dir.removePlan α name).ReadOnly :=
  ((dir.records α).readOnly_require name).bind fun _ =>
    (dir.readOnly_currentMembers name).bind fun _ => trivial

omit [Reference ρ] in
theorem readOnly_removeFromPlan (name channel : String) :
    (dir.removeFromPlan α name channel).ReadOnly :=
  ((dir.records α).readOnly_require name).bind fun _ =>
    (dir.readOnly_checkChannel channel).bind fun _ => trivial

/-! ## A write is its plan and the batch that follows -/

/-- Creating a record is carrying out its plan. -/
theorem createAttribute_eq [DecidableEq ρ] (name : String) (record : α) :
    dir.createAttribute name record =
      (dir.editWrite (dir.createPlan name record) (readOnly_createPlan name record)).program := by
  rw [editWrite_program]
  simp only [createAttribute, createPlan, bind_assoc, pure_eq, bind_done]

/-- Creating many records is carrying out one plan for all of them. -/
theorem createAttributes_eq [DecidableEq ρ] (records : List α) :
    dir.createAttributes records =
      (dir.editWrite (dir.createAllPlan records) (readOnly_createAllPlan records)).program := by
  rw [editWrite_program]
  simp only [createAttributes, createAllPlan, bind_assoc, pure_eq, bind_done]

/-- Assigning a record to a channel is carrying out its plan. -/
theorem addToChannel_eq (name channel : String) (request : α) :
    dir.addToChannel name channel request =
      (dir.editWrite (dir.addPlan name channel request)
        (readOnly_addPlan name channel request)).program := by
  rw [editWrite_program]
  simp only [addToChannel, addPlan, bind_assoc, pure_eq, bind_done]

/-- Updating a record is carrying out its plan, under the old name or a new one. -/
theorem updateAttribute_eq [DecidableEq ρ] (name : String) (request : α) :
    dir.updateAttribute name request =
      (dir.editWrite (dir.updatePlan name request) (readOnly_updatePlan name request)).program := by
  rw [editWrite_program]
  simp only [updateAttribute, updatePlan, bind_assoc]
  congr 1
  funext existing
  congr 1
  funext _
  congr 1
  funext desired
  congr 1
  funext current
  change (if updatedName name request ≠ name then _ else _) = _
  by_cases hrename : updatedName name request ≠ name
  · rw [if_pos hrename, if_pos hrename, bind_assoc]
    rfl
  · rw [if_neg hrename, if_neg hrename]
    rfl

/-- Updating many records is carrying out one plan for all of them. -/
theorem updateAttributes_eq [DecidableEq ρ] (records : List α) :
    dir.updateAttributes records =
      (dir.editWrite (dir.updateAllPlan records) (readOnly_updateAllPlan records)).program := by
  rw [editWrite_program]
  simp only [updateAttributes, updateAllPlan, bind_assoc, pure_eq, bind_done]

/-- Deleting a record is carrying out its plan. -/
theorem removeAttribute_eq [DecidableEq ρ] (name : String) :
    dir.removeAttribute α name =
      (dir.editWrite (dir.removePlan α name) (readOnly_removePlan name)).program := by
  rw [editWrite_program]
  simp only [removeAttribute, removePlan, submitEdits, bind_assoc, pure_eq, bind_done]

/-- Taking a record off a channel is carrying out its plan. -/
theorem removeFromChannel_eq (name channel : String) :
    dir.removeFromChannel α name channel =
      (dir.editWrite (dir.removeFromPlan α name channel)
        (readOnly_removeFromPlan name channel)).program := by
  rw [editWrite_program]
  simp only [removeFromChannel, removeFromPlan, submitEdits, bind_assoc, pure_eq, bind_done]

end Plans

end Directory

end ChannelDirectory

import ChannelDirectory.Directory

/-!
# Writing tags and properties

Tags and properties are written here together with the references to them. A record and
the references in all channels are written in one batch; the current members are always
read from the channels.

* `createAttribute` makes the channels of the request the only members.
* `updateAttribute` adds them, and brings the references of all other members up to date
  with the owner. Under a new name the members move there.
* `updateAttributes` adds them for many records, which keep their owner if they exist.
* `removeAttribute` takes the reference off every member.
-/

namespace ChannelDirectory

namespace Directory

variable {α ρ : Type} [Attribute α ρ] [Reference ρ] [DecidableEq ρ]

/-- Every record of an attribute, without members. -/
def listAttributes (dir : Directory) (α : Type) {ρ : Type} [Attribute α ρ] : Program (List α) :=
  (dir.records α).list dir.pageBudget

/-- A record of an attribute, with its members if they are asked for. -/
def readAttribute (dir : Directory) (α : Type) {ρ : Type} [Attribute α ρ] (name : String)
    (withMembers : Bool) : Program α := do
  let record ← (dir.records α).require name
  if withMembers then
    let members ← dir.members (Attribute.memberPredicate α name)
    return Attribute.withChannels record members
  else return record

/-- The records of some names, with their members. -/
def readAttributes (dir : Directory) (α : Type) {ρ : Type} [Attribute α ρ] (names : List String) :
    Program (List α) :=
  Program.each names fun name => dir.readAttribute α name true

/-- The channels that carry a reference of a name, with that reference. -/
def currentMembers (dir : Directory) (α : Type) {ρ : Type} [Attribute α ρ] [Reference ρ]
    (name : String) : Program (KeyMap ρ) := do
  let members ← dir.members (Attribute.memberPredicate α name)
  return Attribute.membership α members name

/-- Checks that a request is about the record of a name. -/
def checkName (name : String) (record : α) : Program Unit :=
  if Entity.name record = name then pure ()
  else .fail (.nameMismatch (Entity.kind α) name (Entity.name record))

/-- Checks name and owner of a record, and that its channels exist. -/
def checkRecord (dir : Directory) (record : α) : Program Unit := do
  Program.check (Attribute.validate record)
  let missing ← dir.channels.missing ((Attribute.channels record).map Channel.name)
  match missing with
  | [] => return ()
  | name :: _ => .fail (.notFound .channel name)

/-- Checks that a channel exists. -/
def checkChannel (dir : Directory) (channel : String) : Program Unit := do
  let found ← dir.channels.contains channel
  if found then return () else .fail (.notFound .channel channel)

/-- Writes a batch and the edits of channels. -/
def submitEdits (dir : Directory) (ops : List Operation) (edits : ChannelEdits) :
    Program Unit := do
  let more ← edits.operations dir.channels
  let _ ← execute (ops ++ more)
  return ()

/-- Adds to edits what makes the channels of a record its only members. -/
def stageReplace (dir : Directory) (record : α) (edits : ChannelEdits) :
    Program ChannelEdits := do
  let desired ← Program.check (Attribute.requestedMembers record)
  let current ← dir.currentMembers α (Entity.name record)
  return Attribute.stage α edits (Entity.name record) (Delta.replace current desired)

/-- Adds to edits what makes the channels of each record its only members. -/
def stageReplaceAll (dir : Directory) : List α → ChannelEdits → Program ChannelEdits
  | [], edits => pure edits
  | record :: records, edits => do
    let edits ← dir.stageReplace record edits
    dir.stageReplaceAll records edits

/-- Creates or replaces the record of a name, with the channels of the request as its only
members. -/
def createAttribute (dir : Directory) (name : String) (record : α) : Program α := do
  checkName name record
  dir.checkRecord record
  let edits ← dir.stageReplace record KeyMap.empty
  dir.submitEdits [(dir.records α).putOp record] edits
  dir.readAttribute α name true

/-- Creates or replaces records in one batch, each with the channels of its request as its
only members. Of two records of one name the later one counts. -/
def createAttributes (dir : Directory) (records : List α) : Program (List α) := do
  let records := Attribute.lastByName records
  let _ ← Program.each records.values dir.checkRecord
  let edits ← dir.stageReplaceAll records.values KeyMap.empty
  dir.submitEdits (records.values.map (dir.records α).putOp) edits
  dir.readAttributes α records.keys

/-- Gives one channel a reference to the record of a name. -/
def addToChannel (dir : Directory) (name channel : String) (request : α) : Program α := do
  checkName name request
  let record ← (dir.records α).require name
  dir.checkChannel channel
  let ref ← Program.check (Attribute.singleRef record request channel)
  dir.submitEdits [] (Attribute.putEdit α KeyMap.empty channel ref)
  return record

/-- The edits that move the members of a record to a new name. If the request names no
channels the old members move along; members that the new name had are replaced. -/
def stageRename (dir : Directory) (α : Type) {ρ : Type} [Attribute α ρ] [Reference ρ]
    [DecidableEq ρ] (name newName owner : String) (current desired : KeyMap ρ) :
    Program ChannelEdits := do
  let target := if desired.isEmpty then
      current.mapValues fun _ ref => Reference.rebind ref newName owner
    else desired
  let edits := current.keys.foldl (fun edits channel => Attribute.removeEdit α edits channel name)
    KeyMap.empty
  let taken ← dir.currentMembers α newName
  return Attribute.stage α edits newName (Delta.replace taken target)

/-- Adds the channels of a request to the members of the record of a name. An owner in the
request becomes the owner of the record and of all references to it, and a name in the
request its new name. -/
def updateAttribute (dir : Directory) (name : String) (request : α) : Program α := do
  let existing ← (dir.records α).require name
  let newName := if Entity.name request = "" then name else Entity.name request
  let owner := if Attribute.owner request = "" then Attribute.owner existing
    else Attribute.owner request
  let record := Attribute.withIdentity request newName owner
  dir.checkRecord record
  let desired ← Program.check (Attribute.requestedMembers record)
  let current ← dir.currentMembers α name
  if newName ≠ name then
    let edits ← dir.stageRename α name newName owner current desired
    dir.submitEdits [(dir.records α).deleteOp name, (dir.records α).putOp record] edits
    dir.readAttribute α newName true
  else
    let delta := (Delta.merge current desired).refreshOthers current fun ref =>
      Reference.rebind ref newName owner
    dir.submitEdits [(dir.records α).putOp record] (Attribute.stage α KeyMap.empty name delta)
    dir.readAttribute α newName true

/-- Adds to edits what adds the channels of a record to its members. A record that exists
keeps its owner; one that does not is added to the writes. -/
def stageMerge (dir : Directory) (name : String) (record : α)
    (staged : List Operation × ChannelEdits) : Program (List Operation × ChannelEdits) := do
  let (ops, edits) := staged
  let existing ← (dir.records α).get name
  let (record, ops) := match existing with
    | some existing => (Attribute.withIdentity record name (Attribute.owner existing), ops)
    | none => (record, ops ++ [(dir.records α).putOp record])
  dir.checkRecord record
  let desired ← Program.check (Attribute.requestedMembers record)
  let current ← dir.currentMembers α name
  return (ops, Attribute.stage α edits name (Delta.merge current desired))

/-- Adds to edits what adds the channels of each record to its members. -/
def stageMergeAll (dir : Directory) :
    List (String × α) → List Operation × ChannelEdits → Program (List Operation × ChannelEdits)
  | [], staged => pure staged
  | (name, record) :: records, staged => do
    let staged ← dir.stageMerge name record staged
    dir.stageMergeAll records staged

/-- Adds channels to the members of records in one batch. Of two records of one name the
later one counts. -/
def updateAttributes (dir : Directory) (records : List α) : Program (List α) := do
  let records := Attribute.lastByName records
  let (ops, edits) ← dir.stageMergeAll records.entries ([], KeyMap.empty)
  dir.submitEdits ops edits
  dir.readAttributes α records.keys

/-- Deletes the record of a name and takes the references to it off all channels. -/
def removeAttribute (dir : Directory) (α : Type) {ρ : Type} [Attribute α ρ] [Reference ρ]
    [DecidableEq ρ] (name : String) : Program Unit := do
  let _ ← (dir.records α).require name
  let current ← dir.currentMembers α name
  dir.submitEdits [(dir.records α).deleteOp name]
    (Attribute.stage α KeyMap.empty name (Delta.strip current))

/-- Takes the reference to the record of a name off one channel. -/
def removeFromChannel (dir : Directory) (α : Type) {ρ : Type} [Attribute α ρ] [Reference ρ]
    (name channel : String) : Program Unit := do
  let _ ← (dir.records α).require name
  dir.checkChannel channel
  dir.submitEdits [] (Attribute.removeEdit α KeyMap.empty channel name)

end Directory

end ChannelDirectory

import ChannelDirectory.Directory

/-!
# Writing channels

Channels are created, replaced, merged, renamed and deleted here. A write checks every
channel, keeps the last reference of every name, asks that all tags and properties it
refers to exist, and gives each reference the owner of the record it refers to. Tags and
properties themselves are never written.
-/

namespace ChannelDirectory

/-- The owners of tags and properties, by name. -/
structure Owners where
  tags : KeyMap String
  properties : KeyMap String

/-- The references, each with the owner of its record where one is known. -/
def stampRefs {ρ : Type} [Reference ρ] (owners : KeyMap String) (refs : List ρ) : List ρ :=
  refs.map fun ref =>
    match owners.get? (Reference.name ref) with
    | some owner => withOwner ref owner
    | none => ref

/-- The channel with the owners of the records in its references. -/
def Owners.stamp (owners : Owners) (c : Channel) : Channel :=
  { c with
    tags := stampRefs owners.tags c.tags
    properties := stampRefs owners.properties c.properties }

/-- Checks a channel to be written, and keeps the last reference of every name. -/
def Channel.normalize (c : Channel) : Except ValidationError Channel := do
  validateNamed .channel c.name c.owner
  let c := c.dedup
  c.properties.forM fun p => do
    let _ ← validateValue p.name c.name (some p.value)
  return c

/-- The names of references, in order and without repetition. -/
def refNames {ρ : Type} [Reference ρ] (refs : List ρ) : List String :=
  (KeySet.ofList (refs.map Reference.name)).keys

/-- The first name without a binding. -/
def firstUnbound {α : Type} (names : List String) (m : KeyMap α) : Option String :=
  names.find? fun name => !m.contains name

namespace Directory

/-- The owners of those attributes that exist among some names. -/
def ownersOf (dir : Directory) (α : Type) {ρ : Type} [Attribute α ρ] (names : List String) :
    Program (KeyMap String) := do
  let records ← (dir.records α).findAll names
  return KeyMap.ofList (records.map fun r => (Entity.name r, Attribute.owner r))

/-- The owners of all tags and properties that channels refer to. One that does not exist
is an error. -/
def ownersFor (dir : Directory) (channels : List Channel) : Program Owners := do
  let tagNames := refNames (channels.flatMap Channel.tags)
  let propertyNames := refNames (channels.flatMap Channel.properties)
  let tags ← dir.ownersOf Tag tagNames
  match firstUnbound tagNames tags with
  | some name => .fail (.notFound .tag name)
  | none =>
    let properties ← dir.ownersOf Property propertyNames
    match firstUnbound propertyNames properties with
    | some name => .fail (.notFound .property name)
    | none => return ⟨tags, properties⟩

/-- Prepares one channel to be written. -/
def prepare (dir : Directory) (c : Channel) : Program Channel := do
  let c ← Program.check c.normalize
  let owners ← dir.ownersFor [c]
  return owners.stamp c

/-- Prepares channels to be written, by name. Of two channels of one name the later one
counts. -/
def prepareAll (dir : Directory) (channels : List Channel) : Program (List Channel) := do
  let channels ← Program.check (channels.mapM Channel.normalize)
  let channels := (KeyMap.ofList (channels.map fun c => (c.name, c))).values
  let owners ← dir.ownersFor channels
  return channels.map owners.stamp

/-- The channel of a name. -/
def readChannel (dir : Directory) (name : String) : Program Channel :=
  dir.channels.require name

/-- Creates or replaces the channel of a name. -/
def createChannel (dir : Directory) (name : String) (c : Channel) : Program Channel := do
  if c.name ≠ name then .fail (.nameMismatch .channel name c.name)
  else
    let c ← dir.prepare c
    dir.channels.put c

/-- Creates or replaces channels in one batch. -/
def createChannels (dir : Directory) (channels : List Channel) : Program (List Channel) := do
  let channels ← dir.prepareAll channels
  dir.channels.putAll channels

/-- Merges a request into the channel of a name, and renames the channel if the request has
another name. -/
def updateChannel (dir : Directory) (name : String) (request : Channel) : Program Channel := do
  let existing ← dir.readChannel name
  let newName := if request.name = "" then name else request.name
  let c ← dir.prepare { existing.merge request with name := newName }
  let rename := if newName ≠ name then [dir.channels.deleteOp name] else []
  let _ ← execute (rename ++ [dir.channels.putOp c])
  return c

/-- Merges each request into the channel of its name that existed before; the first request
of a name takes that channel, and a request without one is a channel of its own. -/
def mergeExisting (existing : KeyMap Channel) : List Channel → List Channel
  | [] => []
  | request :: requests =>
    match existing.get? request.name with
    | some c => c.merge request :: mergeExisting (existing.erase request.name) requests
    | none => request :: mergeExisting existing requests

/-- Merges requests into the channels of their names in one batch, and creates those that
do not exist. -/
def updateChannels (dir : Directory) (requests : List Channel) : Program (List Channel) := do
  let found ← dir.channels.findAll (requests.map Channel.name)
  let existing := KeyMap.ofList (found.map fun c => (c.name, c))
  dir.createChannels (mergeExisting existing requests)

/-- Deletes the channel of a name. -/
def removeChannel (dir : Directory) (name : String) : Program Unit := do
  let deleted ← dir.channels.delete name
  if deleted then return () else .fail (.notFound .channel name)

end Directory

end ChannelDirectory

import ChannelDirectory.Collection
import ChannelDirectory.Membership.Delta

/-!
# Edits of channels

All changes of references that one request makes to one channel are collected in a
`ChannelEdit`, so that every channel is written at most once. For each name the last change
counts: putting a reference takes back its removal, and removing one takes back its
putting.

`ChannelEdits.operations` reads the channels and gives one write for each channel that an
edit changes. A channel that is to gain a reference must exist; one that would only lose
references may be gone.
-/

namespace ChannelDirectory

/-- Changes to the references of one kind in one channel. -/
structure RefEdit (ρ : Type) where
  /-- Names whose references are taken off. -/
  removed : KeySet
  /-- References that are put, by name. -/
  put : KeyMap ρ
  deriving DecidableEq

namespace RefEdit

variable {ρ : Type} [Reference ρ]

/-- No change. -/
def empty : RefEdit ρ := ⟨KeyMap.empty, KeyMap.empty⟩

/-- Puts a reference. -/
def putRef (e : RefEdit ρ) (ref : ρ) : RefEdit ρ where
  removed := e.removed.erase (Reference.name ref)
  put := e.put.insert (Reference.name ref) ref

/-- Takes a reference off. -/
def removeRef (e : RefEdit ρ) (name : String) : RefEdit ρ where
  removed := e.removed.add name
  put := e.put.erase name

/-- The references after the changes: removals first, then the references that are put, in
the order of their names. -/
def apply (e : RefEdit ρ) (refs : List ρ) : List ρ :=
  putRefs (e.removed.keys.foldl eraseRef refs) e.put.values

end RefEdit

/-- Changes to the references of one channel. -/
structure ChannelEdit where
  tags : RefEdit TagRef
  properties : RefEdit PropertyRef
  deriving DecidableEq

namespace ChannelEdit

/-- No change. -/
def empty : ChannelEdit := ⟨RefEdit.empty, RefEdit.empty⟩

/-- The channel after the changes. -/
def apply (e : ChannelEdit) (c : Channel) : Channel :=
  { c with tags := e.tags.apply c.tags, properties := e.properties.apply c.properties }

/-- No reference is put. -/
def onlyRemoves (e : ChannelEdit) : Bool :=
  e.tags.put.isEmpty && e.properties.put.isEmpty

end ChannelEdit

/-- Changes to channels, by name. -/
abbrev ChannelEdits := KeyMap ChannelEdit

namespace ChannelEdits

/-- Changes the edit of a channel. -/
def modify (edits : ChannelEdits) (channel : String) (f : ChannelEdit → ChannelEdit) :
    ChannelEdits :=
  edits.insert channel (f ((edits.get? channel).getD ChannelEdit.empty))

/-- Puts a tag on a channel. -/
def putTag (edits : ChannelEdits) (channel : String) (tag : TagRef) : ChannelEdits :=
  edits.modify channel fun e => { e with tags := e.tags.putRef tag }

/-- Takes a tag off a channel. -/
def removeTag (edits : ChannelEdits) (channel name : String) : ChannelEdits :=
  edits.modify channel fun e => { e with tags := e.tags.removeRef name }

/-- Gives a channel a property. -/
def putProperty (edits : ChannelEdits) (channel : String) (property : PropertyRef) :
    ChannelEdits :=
  edits.modify channel fun e => { e with properties := e.properties.putRef property }

/-- Takes a property off a channel. -/
def removeProperty (edits : ChannelEdits) (channel name : String) : ChannelEdits :=
  edits.modify channel fun e => { e with properties := e.properties.removeRef name }

/-- The channel after the edit under its name. -/
def applyTo (edits : ChannelEdits) (c : Channel) : Channel :=
  match edits.get? c.name with
  | some edit => edit.apply c
  | none => c

/-- The writes for edits in order, given the channels that exist, by name. A channel that
an edit does not change is not written. -/
def writes (channels : Collection Channel) (current : KeyMap Channel) :
    List (String × ChannelEdit) → Except Error (List Operation)
  | [] => .ok []
  | (name, edit) :: edits =>
    match current.get? name with
    | none =>
      if edit.onlyRemoves then writes channels current edits
      else .error (.notFound .channel name)
    | some channel => do
      let ops ← writes channels current edits
      let edited := edit.apply channel
      if edited = channel then return ops else return channels.replaceOp edited :: ops

/-- Reads the channels that are edited and gives the writes that carry the edits out. -/
def operations (edits : ChannelEdits) (channels : Collection Channel) :
    Program (List Operation) := do
  let found ← channels.findAll edits.keys
  let current := KeyMap.ofList (found.map fun c => (c.name, c))
  Program.ofExcept (writes channels current edits.entries)

end ChannelEdits

end ChannelDirectory

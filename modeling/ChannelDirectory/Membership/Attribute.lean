import ChannelDirectory.Config
import ChannelDirectory.Membership.Edits

/-!
# What tags and properties have in common

Tags and properties are records whose members are the channels that carry a reference to
them. `Attribute` names what differs: the type of the references, where a channel keeps
them, and how a request names its members. Everything about membership is then said once,
for both.
-/

namespace ChannelDirectory

/-- A type of records to which channels carry references. -/
class Attribute (α : Type) (ρ : outParam Type) extends Entity α where
  /-- The owner of a record. -/
  owner : α → String
  /-- The channels in a record: members that were asked for or requested. -/
  channels : α → List Channel
  /-- The record with other channels in it. -/
  withChannels : α → List Channel → α
  /-- The record under another name and owner. -/
  withIdentity : α → String → String → α
  /-- The index of the records. -/
  index : Config → String
  /-- The channels that carry a reference of a name. -/
  memberPredicate : String → Predicate
  /-- The references that a channel carries. -/
  refs : Channel → List ρ
  /-- The reference that a request means for one of its channels, with the owner of the
  record. -/
  memberRef : α → Channel → Except ValidationError ρ
  /-- The reference to a record that a request means for a single channel, given the
  record, the request and the name of the channel. -/
  singleRef : α → α → String → Except ValidationError ρ
  /-- Changes the references of this kind in an edit. -/
  modifyEdit : (RefEdit ρ → RefEdit ρ) → ChannelEdit → ChannelEdit

instance : Attribute Tag TagRef where
  owner := Tag.owner
  channels := Tag.channels
  withChannels t channels := { t with channels }
  withIdentity t name owner := { t with name, owner }
  index := Config.tagIndex
  memberPredicate := Predicate.hasTag
  refs := Channel.tags
  memberRef t _ := .ok t.toRef
  singleRef t _ _ := .ok t.toRef
  modifyEdit f e := { e with tags := f e.tags }

instance : Attribute Property PropertyRef where
  owner := Property.owner
  channels := Property.channels
  withChannels p channels := { p with channels }
  withIdentity p name owner := { p with name, owner }
  index := Config.propertyIndex
  memberPredicate := Predicate.hasProperty
  refs := Channel.properties
  memberRef p c :=
    p.toRef <$> validateValue p.name c.name ((c.property? p.name).map PropertyRef.value)
  singleRef p request channel := p.toRef <$> validateValue p.name channel request.value
  modifyEdit f e := { e with properties := f e.properties }

namespace Attribute

variable {α ρ : Type} [Attribute α ρ] [Reference ρ]

/-- Checks name and owner of a record. -/
def validate (record : α) : Except ValidationError Unit :=
  validateNamed (Entity.kind α) (Entity.name record) (owner record)

variable (α) in
/-- The reference of a name that a channel carries. -/
def currentRef? (c : Channel) (name : String) : Option ρ :=
  findRef? (refs α c) name

/-- The members that a request names, with the references they are to carry. Of two
channels of one name the later one counts. -/
def requestedMembers (record : α) : Except ValidationError (KeyMap ρ) := do
  let members ← (channels record).mapM fun c => (fun ref => (c.name, ref)) <$> memberRef record c
  return KeyMap.ofList members

variable (α) in
/-- The membership that channels show: each channel that carries a reference of a name,
with that reference. -/
def membership (found : List Channel) (name : String) : KeyMap ρ :=
  KeyMap.ofList (found.filterMap fun c => (currentRef? α c name).map fun ref => (c.name, ref))

variable (α) in
/-- Puts a reference on a channel. -/
def putEdit (edits : ChannelEdits) (channel : String) (ref : ρ) : ChannelEdits :=
  edits.modify channel (modifyEdit α fun e => e.putRef ref)

variable (α) in
/-- Takes a reference off a channel. -/
def removeEdit (edits : ChannelEdits) (channel name : String) : ChannelEdits :=
  edits.modify channel (modifyEdit α fun e => e.removeRef name)

variable (α) in
/-- Adds the changes of a membership to edits. -/
def stage (edits : ChannelEdits) (name : String) (delta : Delta ρ) : ChannelEdits :=
  let edits := delta.removed.keys.foldl (fun edits channel => removeEdit α edits channel name) edits
  delta.upserts.foldl (fun edits (channel, ref) => putEdit α edits channel ref) edits

/-- The last record of every name, by name. -/
def lastByName (records : List α) : KeyMap α :=
  KeyMap.ofList (records.map fun r => (Entity.name r, r))

end Attribute

end ChannelDirectory

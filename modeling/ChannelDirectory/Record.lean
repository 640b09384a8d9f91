/-!
# Channels, tags and properties

A channel carries references to tags and properties; a property reference also holds the
channel's own value. Tags and properties are records of their own with a name and an
owner. The channels in a tag or property record are not stored with it: they describe the
members in a request or an answer.

References are lists that are unique by name when they are built with `putRef`: putting a
reference drops the one of the same name and appends. `dedupRefs` and `Channel.merge` are
repeated puts, so the last reference of a name wins and stands where it was last put.
-/

namespace ChannelDirectory

/-- The kinds of records. -/
inductive RecordKind where
  | channel
  | tag
  | property
  deriving DecidableEq, Repr

/-- The kind as a word in the middle of a sentence. -/
def RecordKind.word : RecordKind → String
  | channel => "channel"
  | tag => "tag"
  | property => "property"

/-- What references in a channel have in common. -/
class Reference (ρ : Type) where
  /-- The name of the record that is referred to. -/
  name : ρ → String
  /-- The owner of that record. -/
  owner : ρ → String
  /-- The same reference to a record of another name and owner. -/
  rebind : ρ → String → String → ρ

/-- A tag on a channel. -/
structure TagRef where
  name : String
  owner : String := ""
  deriving DecidableEq, Repr

instance : Reference TagRef where
  name := TagRef.name
  owner := TagRef.owner
  rebind _ name owner := ⟨name, owner⟩

/-- A property of a channel, with its value. -/
structure PropertyRef where
  name : String
  owner : String := ""
  value : String := ""
  deriving DecidableEq, Repr

instance : Reference PropertyRef where
  name := PropertyRef.name
  owner := PropertyRef.owner
  rebind ref name owner := ⟨name, owner, ref.value⟩

section References

variable {ρ : Type} [Reference ρ]

/-- The reference of a name. -/
def findRef? (refs : List ρ) (name : String) : Option ρ :=
  refs.find? fun r => Reference.name r == name

/-- The references without those of a name. -/
def eraseRef (refs : List ρ) (name : String) : List ρ :=
  refs.filter fun r => Reference.name r != name

/-- Puts a reference at the end, in place of those of the same name. -/
def putRef (refs : List ρ) (ref : ρ) : List ρ :=
  eraseRef refs (Reference.name ref) ++ [ref]

/-- Puts references one after another. -/
def putRefs (refs more : List ρ) : List ρ :=
  more.foldl putRef refs

/-- Keeps the last reference of every name. -/
def dedupRefs (refs : List ρ) : List ρ :=
  putRefs [] refs

/-- The reference with another owner. -/
def withOwner (ref : ρ) (owner : String) : ρ :=
  Reference.rebind ref (Reference.name ref) owner

end References

/-- A channel. -/
structure Channel where
  name : String
  owner : String := ""
  tags : List TagRef := []
  properties : List PropertyRef := []
  deriving DecidableEq, Repr

namespace Channel

/-- The tag of a name. -/
def tag? (c : Channel) (name : String) : Option TagRef :=
  findRef? c.tags name

/-- The property of a name. -/
def property? (c : Channel) (name : String) : Option PropertyRef :=
  findRef? c.properties name

/-- Puts a tag on the channel. -/
def addTag (c : Channel) (tag : TagRef) : Channel :=
  { c with tags := putRef c.tags tag }

/-- Takes the tag of a name off the channel. -/
def removeTag (c : Channel) (name : String) : Channel :=
  { c with tags := eraseRef c.tags name }

/-- Gives the channel a property. -/
def addProperty (c : Channel) (property : PropertyRef) : Channel :=
  { c with properties := putRef c.properties property }

/-- Takes the property of a name off the channel. -/
def removeProperty (c : Channel) (name : String) : Channel :=
  { c with properties := eraseRef c.properties name }

/-- Keeps the last tag and the last property of every name. -/
def dedup (c : Channel) : Channel :=
  { c with tags := dedupRefs c.tags, properties := dedupRefs c.properties }

/-- Merges an update into the channel: an owner that is not empty replaces the owner, and
tags and properties are put one after another. The name stays. -/
def merge (c update : Channel) : Channel where
  name := c.name
  owner := if update.owner = "" then c.owner else update.owner
  tags := putRefs c.tags update.tags
  properties := putRefs c.properties update.properties

end Channel

/-- A tag, with the channels that carry it where they are asked for or requested. -/
structure Tag where
  name : String
  owner : String := ""
  channels : List Channel := []
  deriving DecidableEq, Repr

namespace Tag

/-- The tag as it is stored. -/
def canonical (t : Tag) : Tag := ⟨t.name, t.owner, []⟩

/-- The reference to the tag. -/
def toRef (t : Tag) : TagRef := ⟨t.name, t.owner⟩

/-- The tag with members of these names. -/
def withChannels (t : Tag) (names : List String) : Tag :=
  { t with channels := names.map fun name => { name } }

end Tag

/-- A property, with the channels that carry it where they are asked for or requested. Each
of those holds its own value; `value` is for requests about a single channel. -/
structure Property where
  name : String
  owner : String := ""
  value : Option String := none
  channels : List Channel := []
  deriving DecidableEq, Repr

namespace Property

/-- The property as it is stored. -/
def canonical (p : Property) : Property := ⟨p.name, p.owner, none, []⟩

/-- The reference to the property with a value. -/
def toRef (p : Property) (value : String) : PropertyRef := ⟨p.name, p.owner, value⟩

/-- The property with members of these names and values. -/
def withChannelValues (p : Property) (members : List (String × String)) : Property :=
  { p with channels := members.map fun (name, value) =>
      { name, properties := [p.toRef value] } }

end Property

end ChannelDirectory

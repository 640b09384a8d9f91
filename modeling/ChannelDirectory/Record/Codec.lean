import ChannelDirectory.Json
import ChannelDirectory.Record
import ChannelDirectory.Decimal.Shortest
import ChannelDirectory.Text.Quoted

/-!
# Records as JSON

Every record type has an `encode` and a `decode`. `encode` takes the function that makes
an object of its members: `Json.ofMembers` for a document, or `Json.object` for an answer
whose members stay in the order of the fields.

Decoding asks only for a name. A member that is absent has a default, one that is there
must have its type, and unknown members do not count. Members are looked at in the order
of their names, so the first bad one in that order is reported, and a missing name last.
An array may stand for a record, its items being the fields in order.
-/

namespace ChannelDirectory

/-- Why a JSON value is no record. -/
inductive DecodeError where
  /-- A member without a default is absent. -/
  | missingField (name : String)
  /-- A value has another type than expected. -/
  | unexpectedType (found : Json) (expected : String)
  /-- An array that stands for a record has a wrong length. -/
  | wrongLength (length : Nat) (expected : String)
  deriving DecidableEq

/-- A JSON value as a message names it. -/
def Json.describe : Json → String
  | .null => "null"
  | .bool true => "boolean `true`"
  | .bool false => "boolean `false`"
  | .integer n => "integer `" ++ toString n ++ "`"
  | .double bits => "floating point `" ++ Decimal.scientific bits ++ "`"
  | .string s => "string " ++ Text.quote s
  | .array _ => "sequence"
  | .object _ => "map"

/-- What the error says. -/
def DecodeError.message : DecodeError → String
  | missingField name => "missing field `" ++ name ++ "`"
  | unexpectedType found expected =>
    "invalid type: " ++ found.describe ++ ", expected " ++ expected
  | wrongLength length expected =>
    "invalid length " ++ toString length ++ ", expected " ++ expected

/-- A function from JSON values to values of a type, which may refuse. -/
abbrev Decoder (α : Type) := Json → Except DecodeError α

namespace Decoder

variable {α : Type}

/-- A text. -/
def text : Decoder String
  | .string s => .ok s
  | value => .error (.unexpectedType value "a string")

/-- A text, or nothing for null. -/
def text? : Decoder (Option String)
  | .null => .ok none
  | value => do return some (← text value)

/-- The values of an array. -/
def list (item : Decoder α) : Decoder (List α)
  | .array items => items.mapM item
  | value => .error (.unexpectedType value "a sequence")

/-- A value that may be absent. -/
def optional (decode : Decoder α) (default : α) : Option Json → Except DecodeError α
  | none => .ok default
  | some value => decode value

/-- A name, which must be there. `found` is the member, decoded if it is there. -/
def required (found : Option String) : Except DecodeError String :=
  match found with
  | none => .error (.missingField "name")
  | some name => .ok name

/-- A record of a type with so many fields: from the members of an object, or from the
items of an array. -/
def record (typeName : String) (fields : Nat) (ofObject : Decoder α)
    (ofItems : Json → List Json → Except DecodeError α) : Decoder α
  | .object members => ofObject (.object members)
  | .array [] =>
    .error (.wrongLength 0 ("struct " ++ typeName ++ " with " ++ toString fields ++ " elements"))
  | .array (first :: rest) => do
    let value ← ofItems first rest
    if fields < rest.length + 1 then
      .error (.wrongLength (rest.length + 1) "fewer elements in array")
    else .ok value
  | value => .error (.unexpectedType value ("struct " ++ typeName))

end Decoder

open Decoder

namespace TagRef

/-- The reference as JSON. -/
def encode (object : List (String × Json) → Json) (r : TagRef) : Json :=
  object [("name", .string r.name), ("owner", .string r.owner)]

/-- A reference from JSON. -/
def decode : Decoder TagRef :=
  record "TagRef" 2
    (fun o => do
      let name ← optional (fun v => some <$> text v) none (o.get? "name")
      let owner ← optional text "" (o.get? "owner")
      return ⟨← required name, owner⟩)
    (fun first rest => do
      let name ← text first
      let owner ← optional text "" rest[0]?
      return ⟨name, owner⟩)

end TagRef

namespace PropertyRef

/-- The reference as JSON. -/
def encode (object : List (String × Json) → Json) (r : PropertyRef) : Json :=
  object [("name", .string r.name), ("owner", .string r.owner), ("value", .string r.value)]

/-- A reference from JSON. -/
def decode : Decoder PropertyRef :=
  record "PropertyRef" 3
    (fun o => do
      let name ← optional (fun v => some <$> text v) none (o.get? "name")
      let owner ← optional text "" (o.get? "owner")
      let value ← optional text "" (o.get? "value")
      return ⟨← required name, owner, value⟩)
    (fun first rest => do
      let name ← text first
      let owner ← optional text "" rest[0]?
      let value ← optional text "" rest[1]?
      return ⟨name, owner, value⟩)

end PropertyRef

namespace Channel

/-- The channel as JSON. -/
def encode (object : List (String × Json) → Json) (c : Channel) : Json :=
  object [("name", .string c.name), ("owner", .string c.owner),
    ("tags", .array (c.tags.map (TagRef.encode object))),
    ("properties", .array (c.properties.map (PropertyRef.encode object)))]

/-- A channel from JSON. -/
def decode : Decoder Channel :=
  record "Channel" 4
    (fun o => do
      let name ← optional (fun v => some <$> text v) none (o.get? "name")
      let owner ← optional text "" (o.get? "owner")
      let properties ← optional (list PropertyRef.decode) [] (o.get? "properties")
      let tags ← optional (list TagRef.decode) [] (o.get? "tags")
      return ⟨← required name, owner, tags, properties⟩)
    (fun first rest => do
      let name ← text first
      let owner ← optional text "" rest[0]?
      let tags ← optional (list TagRef.decode) [] rest[1]?
      let properties ← optional (list PropertyRef.decode) [] rest[2]?
      return ⟨name, owner, tags, properties⟩)

end Channel

/-- The member that lists channels, left out if there are none. -/
def encodeChannels (object : List (String × Json) → Json) (channels : List Channel) :
    List (String × Json) :=
  if channels.isEmpty then []
  else [("channels", .array (channels.map (Channel.encode object)))]

namespace Tag

/-- The tag as JSON. -/
def encode (object : List (String × Json) → Json) (t : Tag) : Json :=
  object ([("name", .string t.name), ("owner", .string t.owner)] ++
    encodeChannels object t.channels)

/-- A tag from JSON. -/
def decode : Decoder Tag :=
  record "Tag" 3
    (fun o => do
      let channels ← optional (list Channel.decode) [] (o.get? "channels")
      let name ← optional (fun v => some <$> text v) none (o.get? "name")
      let owner ← optional text "" (o.get? "owner")
      return ⟨← required name, owner, channels⟩)
    (fun first rest => do
      let name ← text first
      let owner ← optional text "" rest[0]?
      let channels ← optional (list Channel.decode) [] rest[1]?
      return ⟨name, owner, channels⟩)

end Tag

namespace Property

/-- The property as JSON. -/
def encode (object : List (String × Json) → Json) (p : Property) : Json :=
  object ([("name", .string p.name), ("owner", .string p.owner)] ++
    (p.value.toList.map fun value => ("value", .string value)) ++
    encodeChannels object p.channels)

/-- A property from JSON. -/
def decode : Decoder Property :=
  record "Property" 4
    (fun o => do
      let channels ← optional (list Channel.decode) [] (o.get? "channels")
      let name ← optional (fun v => some <$> text v) none (o.get? "name")
      let owner ← optional text "" (o.get? "owner")
      let value ← optional text? none (o.get? "value")
      return ⟨← required name, owner, value, channels⟩)
    (fun first rest => do
      let name ← text first
      let owner ← optional text "" rest[0]?
      let value ← optional text? none rest[1]?
      let channels ← optional (list Channel.decode) [] rest[2]?
      return ⟨name, owner, value, channels⟩)

end Property

/-- A type of records, each with documents of its own. -/
class Entity (α : Type) where
  /-- The kind of the records. -/
  kind : RecordKind
  /-- The name of a record, which is also the id of its document. -/
  name : α → String
  /-- The form in which a record is stored. -/
  stored : α → α
  /-- A record as JSON. -/
  encode : (List (String × Json) → Json) → α → Json
  /-- A record from JSON. -/
  decode : Decoder α

instance : Entity Channel where
  kind := .channel
  name := Channel.name
  stored c := c
  encode := Channel.encode
  decode := Channel.decode

instance : Entity Tag where
  kind := .tag
  name := Tag.name
  stored := Tag.canonical
  encode := Tag.encode
  decode := Tag.decode

instance : Entity Property where
  kind := .property
  name := Property.name
  stored := Property.canonical
  encode := Property.encode
  decode := Property.decode

/-- The document of a record. -/
def toDocument {α : Type} [Entity α] (record : α) : Json :=
  Entity.encode Json.ofMembers (Entity.stored record)

end ChannelDirectory

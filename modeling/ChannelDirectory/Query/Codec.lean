import ChannelDirectory.Json
import ChannelDirectory.Query.Compile

/-!
# Queries as JSON

Segments, predicates and queries have an `encode` and a `decode?`. A case without
arguments is a string, and any other one an object whose only member has the name of the
case. `decode?` takes the segments of a pattern as they are, without normalising them.
-/

namespace ChannelDirectory

/-- An object with one member. -/
def tagged (tag : String) (value : Json) : Json :=
  .object [(tag, value)]

/-- The value of an optional member, where null counts as absent. -/
def optionalMember? {α : Type} (decode : Json → Option α) (name : String) (value : Json) :
    Option (Option α) :=
  match value.get? name with
  | none | some .null => some none
  | some member => (decode member).map some

/-- An optional value, null if it is absent. -/
def encodeOptional {α : Type} (encode : α → Json) : Option α → Json
  | none => .null
  | some value => encode value

/-- An integer that a JSON value stands for. -/
def Json.integer? : Json → Option Int
  | .integer n => some n
  | _ => none

namespace Field

/-- The name of the field in a predicate. -/
def word : Field → String
  | name => "Name"
  | owner => "Owner"
  | tagName => "TagName"
  | propertyName => "PropertyName"
  | propertyValue => "PropertyValue"

/-- The field of a name. -/
def ofWord? : String → Option Field
  | "Name" => some name
  | "Owner" => some owner
  | "TagName" => some tagName
  | "PropertyName" => some propertyName
  | "PropertyValue" => some propertyValue
  | _ => none

end Field

namespace Nesting

/-- The name of the nesting in a predicate. -/
def word : Nesting → String
  | tags => "Tags"
  | properties => "Properties"

/-- The nesting of a name. -/
def ofWord? : String → Option Nesting
  | "Tags" => some tags
  | "Properties" => some properties
  | _ => none

end Nesting

namespace Segment

/-- The segment as JSON. -/
def encode : Segment → Json
  | literal text => tagged "Literal" (.string text)
  | anyChar => .string "AnyChar"
  | anySequence => .string "AnySequence"

/-- A segment from JSON. -/
def decode? : Json → Option Segment
  | .string "AnyChar" => some anyChar
  | .string "AnySequence" => some anySequence
  | .object [("Literal", .string text)] => some (literal text)
  | _ => none

end Segment

namespace Pattern

/-- The pattern as JSON. -/
def encode (p : Pattern) : Json :=
  .object [("segments", .array (p.segments.map Segment.encode))]

/-- A pattern from JSON. -/
def decode? (value : Json) : Option Pattern := do
  let items ← (← value.get? "segments").array?
  return ⟨← items.mapM Segment.decode?⟩

end Pattern

namespace Predicate

mutual

/-- The predicate as JSON. -/
def encode : Predicate → Json
  | matchAll => .string "MatchAll"
  | term field value =>
    tagged "Term" (.object [("field", .string field.word), ("value", .string value)])
  | wildcard field pattern mode =>
    tagged "Wildcard" (.object [("case_insensitive", .bool (mode == .insensitive)),
      ("field", .string field.word), ("pattern", pattern.encode)])
  | and parts => tagged "And" (.array (encodeAll parts))
  | or parts => tagged "Or" (.array (encodeAll parts))
  | not inner => tagged "Not" (encode inner)
  | nested nesting inner =>
    tagged "Nested" (.object [("path", .string nesting.word), ("query", encode inner)])

/-- Predicates as JSON. -/
def encodeAll : List Predicate → List Json
  | [] => []
  | part :: parts => encode part :: encodeAll parts

end

/-- The field that a member names. -/
def decodeField? (value : Json) : Option Field := do
  Field.ofWord? (← (← value.get? "field").string?)

/-- A comparison with one text. -/
def decodeTerm? (value : Json) : Option Predicate := do
  return term (← decodeField? value) (← (← value.get? "value").string?)

/-- A comparison with a pattern. -/
def decodeWildcard? (value : Json) : Option Predicate := do
  let mode ← match ← value.get? "case_insensitive" with
    | .bool true => some CaseMode.insensitive
    | .bool false => some CaseMode.sensitive
    | _ => none
  return wildcard (← decodeField? value) (← Pattern.decode? (← value.get? "pattern")) mode

mutual

/-- A predicate from JSON. -/
def decode? : Json → Option Predicate
  | .string text => if text = "MatchAll" then some matchAll else none
  | .object [(tag, value)] => decodeTagged? tag value
  | _ => none

/-- The predicate of a case. -/
def decodeTagged? (tag : String) : Json → Option Predicate
  | .array items =>
    if tag = "And" then and <$> decodeAll? items
    else if tag = "Or" then or <$> decodeAll? items
    else none
  | .object members =>
    if tag = "Term" then decodeTerm? (.object members)
    else if tag = "Wildcard" then decodeWildcard? (.object members)
    else if tag = "Nested" then decodeNested? none none members
    else if tag = "Not" then not <$> decodeSole? members
    else none
  | .string text => if tag = "Not" ∧ text = "MatchAll" then some (not matchAll) else none
  | _ => none

/-- Predicates from JSON. -/
def decodeAll? : List Json → Option (List Predicate)
  | [] => some []
  | item :: items => do
    let part ← decode? item
    let parts ← decodeAll? items
    return part :: parts

/-- The predicate in an object with one member. -/
def decodeSole? : List (String × Json) → Option Predicate
  | [(tag, value)] => decodeTagged? tag value
  | _ => none

/-- A predicate on elements, from the members that are left. -/
def decodeNested? (nesting : Option Nesting) (inner : Option Predicate) :
    List (String × Json) → Option Predicate
  | [] => do return nested (← nesting) (← inner)
  | (name, value) :: members => do
    if name = "path" then
      decodeNested? (some (← Nesting.ofWord? (← value.string?))) inner members
    else if name = "query" then decodeNested? nesting (some (← decode? value)) members
    else decodeNested? nesting inner members

end

end Predicate

namespace Query

/-- The query as JSON. -/
def encode (query : Query) : Json :=
  .object [("from", encodeOptional .integer query.offset), ("predicate", query.predicate.encode),
    ("search_after", encodeOptional .string query.searchAfter),
    ("size", encodeOptional .integer query.size), ("track_total_hits", .bool query.trackTotal)]

/-- A query from JSON. -/
def decode? (value : Json) : Option Query := do
  let trackTotal ← match ← value.get? "track_total_hits" with
    | .bool b => some b
    | _ => none
  return { predicate := ← Predicate.decode? (← value.get? "predicate")
           size := ← optionalMember? Json.integer? "size" value
           offset := ← optionalMember? Json.integer? "from" value
           searchAfter := ← optionalMember? Json.string? "search_after" value
           trackTotal }

end Query

end ChannelDirectory

import ChannelDirectory.Pattern.Matching

/-!
# Predicates on channels

A `Predicate` is a boolean expression over the fields of a channel document. Tags and
properties are nested collections of a channel; `nested` asks for one element of such a
collection that satisfies a predicate on its own.
-/

namespace ChannelDirectory

/-- The nested collections of a channel. -/
inductive Nesting where
  | tags
  | properties
  deriving DecidableEq, Repr

/-- The member of a channel document that holds the collection. -/
def Nesting.member : Nesting → String
  | tags => "tags"
  | properties => "properties"

/-- The fields of a channel that a predicate can test. -/
inductive Field where
  | name
  | owner
  | tagName
  | propertyName
  | propertyValue
  deriving DecidableEq, Repr

namespace Field

/-- The collection that the field lies in. -/
def nesting : Field → Option Nesting
  | name | owner => none
  | tagName => some .tags
  | propertyName | propertyValue => some .properties

/-- The member that holds the field, of the channel or of an element of its collection. -/
def member : Field → String
  | name | tagName | propertyName => "name"
  | owner => "owner"
  | propertyValue => "value"

/-- The place of the field in a channel document. -/
def path (field : Field) : String :=
  match field.nesting with
  | none => field.member
  | some nesting => nesting.member ++ "." ++ field.member

end Field

/-- A boolean expression over the fields of a channel. -/
inductive Predicate where
  /-- Every channel. -/
  | matchAll
  /-- The field has exactly this value. -/
  | term (field : Field) (value : String)
  /-- The field has a value that the pattern matches. -/
  | wildcard (field : Field) (pattern : Pattern) (mode : CaseMode)
  /-- Every one of these holds. -/
  | and (parts : List Predicate)
  /-- One of these holds. -/
  | or (parts : List Predicate)
  /-- This does not hold. -/
  | not (inner : Predicate)
  /-- Some element of the collection satisfies this. -/
  | nested (nesting : Nesting) (inner : Predicate)

namespace Predicate

instance : Inhabited Predicate := ⟨matchAll⟩

/-- Channels with a tag of exactly this name. -/
def hasTag (name : String) : Predicate :=
  nested .tags (term .tagName name)

/-- Channels with a property of exactly this name. -/
def hasProperty (name : String) : Predicate :=
  nested .properties (term .propertyName name)

/-- The channel of exactly this name. -/
def named (name : String) : Predicate :=
  term .name name

/-- The opposite predicate. A negation loses its sign instead of getting a second one. -/
def negate : Predicate → Predicate
  | not inner => inner
  | p => not p

/-- All of these predicates; none at all hold everywhere, and one stands for itself. -/
def conjunction : List Predicate → Predicate
  | [] => matchAll
  | [p] => p
  | ps => and ps

/-- One of these predicates; one stands for itself. -/
def disjunction : List Predicate → Predicate
  | [p] => p
  | ps => or ps

end Predicate

end ChannelDirectory

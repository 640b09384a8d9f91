import ChannelDirectory.Json
import ChannelDirectory.Query.Predicate

/-!
# Evaluating predicates

`Predicate.holds` evaluates a predicate on a channel document, which may be any JSON
value. A test holds if some value of its field passes it. On the channel itself a field of
a nested collection has one value for each element; on an element it has that element's
value, and all other fields have none. A nested predicate inside another never holds.
-/

namespace ChannelDirectory

/-- Where fields are looked up. -/
inductive Scope where
  /-- On a channel document. -/
  | document (doc : Json)
  /-- On one element of a nested collection. -/
  | element (nesting : Nesting) (item : Json)

/-- The elements of a nested collection. What is no array has none. -/
def Nesting.items (nesting : Nesting) (doc : Json) : List Json :=
  ((doc.get? nesting.member).bind Json.array?).getD []

/-- The text in a member, if it is a text. -/
def Field.text? (field : Field) (holder : Json) : Option String :=
  (holder.get? field.member).bind Json.string?

/-- The values of a field. -/
def Field.values (field : Field) : Scope → List String
  | .document doc =>
    match field.nesting with
    | none => (field.text? doc).toList
    | some nesting => (nesting.items doc).filterMap field.text?
  | .element nesting item =>
    if field.nesting = some nesting then (field.text? item).toList else []

namespace Predicate

mutual

/-- The predicate holds in a scope. -/
def holdsIn : Predicate → Scope → Bool
  | .matchAll, _ => true
  | .term field value, scope => (field.values scope).contains value
  | .wildcard field pattern mode, scope => (field.values scope).any (pattern.matchesText mode)
  | .and parts, scope => allHold parts scope
  | .or parts, scope => someHolds parts scope
  | .not inner, scope => !holdsIn inner scope
  | .nested nesting inner, .document doc =>
    (nesting.items doc).any fun item => holdsIn inner (.element nesting item)
  | .nested _ _, .element _ _ => false

/-- All of the predicates hold in a scope. -/
def allHold : List Predicate → Scope → Bool
  | [], _ => true
  | part :: parts, scope => holdsIn part scope && allHold parts scope

/-- Some of the predicates holds in a scope. -/
def someHolds : List Predicate → Scope → Bool
  | [], _ => false
  | part :: parts, scope => holdsIn part scope || someHolds parts scope

end

/-- The predicate holds of a channel document. -/
def holds (p : Predicate) (doc : Json) : Bool :=
  p.holdsIn (.document doc)

end Predicate

end ChannelDirectory

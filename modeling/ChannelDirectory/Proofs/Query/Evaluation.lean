import ChannelDirectory.Proofs.Membership.LawfulAttribute
import ChannelDirectory.Query.Evaluate

/-!
# Predicates on stored channels

What `Predicate.holdsIn` computes, as a statement for each connective, and the values that
the fields have on the document of a channel and on the elements of its collections. A
nested predicate holds of a document if it holds of an element on its own
(`Predicate.holds_tags_iff`, `Predicate.holds_properties_iff`).
-/

namespace ChannelDirectory

namespace Predicate

variable {scope : Scope}

/-! ## Connectives -/

theorem allHold_iff {parts : List Predicate} :
    allHold parts scope = true ↔ ∀ part ∈ parts, part.holdsIn scope = true := by
  induction parts with
  | nil => simp [allHold]
  | cons part parts ih => simp [allHold, ih]

theorem someHolds_iff {parts : List Predicate} :
    someHolds parts scope = true ↔ ∃ part ∈ parts, part.holdsIn scope = true := by
  induction parts with
  | nil => simp [someHolds]
  | cons part parts ih => simp [someHolds, ih]

theorem holdsIn_conjunction_iff {parts : List Predicate} :
    (conjunction parts).holdsIn scope = true ↔ ∀ part ∈ parts, part.holdsIn scope = true := by
  match parts with
  | [] => simp [conjunction, holdsIn]
  | [part] => simp [conjunction]
  | part :: other :: parts =>
    change (and (part :: other :: parts)).holdsIn scope = true ↔ _
    rw [holdsIn, allHold_iff]

theorem holdsIn_disjunction_iff {parts : List Predicate} :
    (disjunction parts).holdsIn scope = true ↔ ∃ part ∈ parts, part.holdsIn scope = true := by
  match parts with
  | [] => simp [disjunction, holdsIn, someHolds]
  | [part] => simp [disjunction]
  | part :: other :: parts =>
    change (or (part :: other :: parts)).holdsIn scope = true ↔ _
    rw [holdsIn, someHolds_iff]

theorem holdsIn_disjunction_map_iff {α : Type} {items : List α} {test : α → Predicate} :
    (disjunction (items.map test)).holdsIn scope = true ↔
      ∃ item ∈ items, (test item).holdsIn scope = true := by
  simp [holdsIn_disjunction_iff]

theorem holds_disjunction_map_iff {α : Type} {items : List α} {test : α → Predicate} {doc : Json} :
    (disjunction (items.map test)).holds doc = true ↔
      ∃ item ∈ items, (test item).holds doc = true :=
  holdsIn_disjunction_map_iff

/-- Taking the sign off a negation is as good as negating it. -/
theorem holdsIn_negate (p : Predicate) : p.negate.holdsIn scope = !p.holdsIn scope := by
  cases p <;> simp [negate, holdsIn]

theorem holdsIn_wildcard_iff {field : Field} {pattern : Pattern} {mode : CaseMode} :
    (wildcard field pattern mode).holdsIn scope = true ↔
      ∃ value ∈ field.values scope, pattern.matchesText mode value = true := by
  rw [holdsIn, List.any_eq_true]

/-! ## Collections of a channel -/

/-- The scope of a tag of a channel. -/
def onTag (tag : TagRef) : Scope :=
  .element .tags (tag.encode Json.ofMembers)

/-- The scope of a property of a channel. -/
def onProperty (property : PropertyRef) : Scope :=
  .element .properties (property.encode Json.ofMembers)

theorem holds_tags_iff {inner : Predicate} {c : Channel} :
    (nested .tags inner).holds (toDocument c) = true ↔
      ∃ tag ∈ c.tags, inner.holdsIn (onTag tag) = true := by
  rw [holds, holdsIn, toDocument, items_tags, List.any_map, List.any_eq_true]
  rfl

theorem holds_properties_iff {inner : Predicate} {c : Channel} :
    (nested .properties inner).holds (toDocument c) = true ↔
      ∃ property ∈ c.properties, inner.holdsIn (onProperty property) = true := by
  rw [holds, holdsIn, toDocument, items_properties, List.any_map, List.any_eq_true]
  rfl

end Predicate

/-! ## Values of fields -/

namespace Field

open Predicate (onTag onProperty)

theorem values_name (c : Channel) : name.values (.document (toDocument c)) = [c.name] := by
  simp [values, nesting, text?, member, toDocument, Entity.stored, Entity.encode, Channel.encode,
    Json.get?_ofMembers, lastMember?_cons, Json.string?]

theorem values_tagName (tag : TagRef) : tagName.values (onTag tag) = [tag.name] := by
  simp [onTag, values, nesting, text?, member, TagRef.encode, Json.get?_ofMembers,
    lastMember?_cons, Json.string?]

theorem values_propertyName (property : PropertyRef) :
    propertyName.values (onProperty property) = [property.name] := by
  simp [onProperty, values, nesting, text?, member, PropertyRef.encode, Json.get?_ofMembers,
    lastMember?_cons, Json.string?]

theorem values_propertyValue (property : PropertyRef) :
    propertyValue.values (onProperty property) = [property.value] := by
  simp [onProperty, values, nesting, text?, member, PropertyRef.encode, Json.get?_ofMembers,
    lastMember?_cons, Json.string?]

end Field

end ChannelDirectory

import ChannelDirectory.Record.Codec
import ChannelDirectory.Store.Search

/-!
# Where a document keeps the name of its record

A record is decoded from an object, whose member `name` is its name, or from an array, whose
first item is (`NamedEntity.name_of_decode`). A search sorts a document by the member `name`, and
by the id where there is none. So both agree for objects, while an array is sorted by its id : its
name may be another one, and it is `Misplaced` if its id comes after the name
(`name_lt_sortName_iff`).
-/

namespace ChannelDirectory

/-! ## What decoders accept -/

namespace Decoder

variable {α β : Type}

theorem exists_of_bind_eq_ok {x : Except DecodeError α} {f : α → Except DecodeError β} {value : β}
    (h : (x >>= f) = .ok value) : ∃ first, x = .ok first ∧ f first = .ok value := by
  cases x with
  | error e => cases h
  | ok first => exact ⟨first, rfl, h⟩

theorem eq_of_text_eq_ok {doc : Json} {name : String} (h : text doc = .ok name) :
    doc = .string name := by
  cases doc with
  | string s => rw [Except.ok.inj h]
  | null | bool | integer | double | array | object => cases h

/-- A required text is the member that was decoded. -/
theorem eq_of_required_eq_ok {member : Option Json} {found : Option String} {name : String}
    (hfound : optional (fun doc => some <$> text doc) none member = .ok found)
    (h : required found = .ok name) : member = some (.string name) := by
  cases found with
  | none => cases h
  | some found =>
    obtain rfl : found = name := Except.ok.inj h
    cases member with
    | none => cases hfound
    | some doc =>
      rw [optional] at hfound
      cases htext : text doc with
      | error e =>
        rw [htext] at hfound
        cases hfound
      | ok name =>
        rw [htext] at hfound
        cases hfound
        rw [eq_of_text_eq_ok htext]

/-- What stands for a record is an object, or an array with items. -/
theorem record_eq_ok {typeName : String} {fields : Nat} {ofObject : Decoder α}
    {ofItems : Json → List Json → Except DecodeError α} {doc : Json} {value : α}
    (h : record typeName fields ofObject ofItems doc = .ok value) :
    ofObject doc = .ok value ∨
      ∃ first rest, doc = .array (first :: rest) ∧ ofItems first rest = .ok value := by
  cases doc with
  | null | bool | integer | double | string => cases h
  | object members => exact Or.inl h
  | array items =>
    cases items with
    | nil => cases h
    | cons first rest =>
      obtain ⟨found, hfound, h⟩ := exists_of_bind_eq_ok h
      refine Or.inr ⟨first, rest, rfl, ?_⟩
      split at h
      · cases h
      · rw [hfound, ← Except.ok.inj h]

end Decoder

open Decoder

/-- The text that an array starts with. -/
def Json.firstText? : Json → Option String
  | .array (.string text :: _) => some text
  | _ => none

/-- The text under `name` in an object, or the one that an array starts with. -/
def Json.NamedBy (doc : Json) (name : String) : Prop :=
  doc.get? "name" = some (.string name) ∨ doc.firstText? = some name

/-- A type of records whose documents show the name. -/
class NamedEntity (α : Type) [Entity α] : Prop where
  named_of_decode : ∀ {doc : Json} {record : α}, Entity.decode doc = .ok record →
    doc.NamedBy (Entity.name record)

instance : NamedEntity Channel where
  named_of_decode {doc record} h := by
    change Channel.decode doc = .ok record at h
    rw [Channel.decode] at h
    rcases record_eq_ok h with h | ⟨first, rest, rfl, hitems⟩
    · obtain ⟨found, hfound, h⟩ := exists_of_bind_eq_ok h
      obtain ⟨owner, -, h⟩ := exists_of_bind_eq_ok h
      obtain ⟨properties, -, h⟩ := exists_of_bind_eq_ok h
      obtain ⟨tags, -, h⟩ := exists_of_bind_eq_ok h
      obtain ⟨name, hname, h⟩ := exists_of_bind_eq_ok h
      cases h
      exact Or.inl (eq_of_required_eq_ok hfound hname)
    · obtain ⟨name, hname, h⟩ := exists_of_bind_eq_ok hitems
      obtain ⟨owner, -, h⟩ := exists_of_bind_eq_ok h
      obtain ⟨tags, -, h⟩ := exists_of_bind_eq_ok h
      obtain ⟨properties, -, h⟩ := exists_of_bind_eq_ok h
      cases h
      exact Or.inr (by rw [eq_of_text_eq_ok hname]; rfl)

instance : NamedEntity Tag where
  named_of_decode {doc record} h := by
    change Tag.decode doc = .ok record at h
    rw [Tag.decode] at h
    rcases record_eq_ok h with h | ⟨first, rest, rfl, hitems⟩
    · obtain ⟨channels, -, h⟩ := exists_of_bind_eq_ok h
      obtain ⟨found, hfound, h⟩ := exists_of_bind_eq_ok h
      obtain ⟨owner, -, h⟩ := exists_of_bind_eq_ok h
      obtain ⟨name, hname, h⟩ := exists_of_bind_eq_ok h
      cases h
      exact Or.inl (eq_of_required_eq_ok hfound hname)
    · obtain ⟨name, hname, h⟩ := exists_of_bind_eq_ok hitems
      obtain ⟨owner, -, h⟩ := exists_of_bind_eq_ok h
      obtain ⟨channels, -, h⟩ := exists_of_bind_eq_ok h
      cases h
      exact Or.inr (by rw [eq_of_text_eq_ok hname]; rfl)

instance : NamedEntity Property where
  named_of_decode {doc record} h := by
    change Property.decode doc = .ok record at h
    rw [Property.decode] at h
    rcases record_eq_ok h with h | ⟨first, rest, rfl, hitems⟩
    · obtain ⟨channels, -, h⟩ := exists_of_bind_eq_ok h
      obtain ⟨found, hfound, h⟩ := exists_of_bind_eq_ok h
      obtain ⟨owner, -, h⟩ := exists_of_bind_eq_ok h
      obtain ⟨value, -, h⟩ := exists_of_bind_eq_ok h
      obtain ⟨name, hname, h⟩ := exists_of_bind_eq_ok h
      cases h
      exact Or.inl (eq_of_required_eq_ok hfound hname)
    · obtain ⟨name, hname, h⟩ := exists_of_bind_eq_ok hitems
      obtain ⟨owner, -, h⟩ := exists_of_bind_eq_ok h
      obtain ⟨value, -, h⟩ := exists_of_bind_eq_ok h
      obtain ⟨channels, -, h⟩ := exists_of_bind_eq_ok h
      cases h
      exact Or.inr (by rw [eq_of_text_eq_ok hname]; rfl)

/-! ## The name in a search -/

namespace Hit

/-- The document is an array that starts with a text before its id : it is sorted after the name
of its record. -/
def Misplaced (hit : Hit) : Prop :=
  ∃ name ∈ hit.source.firstText?, name < hit.id

instance (hit : Hit) : Decidable hit.Misplaced :=
  inferInstanceAs (Decidable (∃ name ∈ hit.source.firstText?, name < hit.id))

/-- Only an object has members, and only an array has a first item. -/
theorem firstText?_eq_none_of_get? {doc : Json} {name : String} {member : Json}
    (h : doc.get? name = some member) : doc.firstText? = none := by
  cases doc with
  | object members => rfl
  | null | bool | integer | double | string | array => cases h

/-- A hit is sorted after the name of its record exactly if it is misplaced. -/
theorem name_lt_sortName_iff {hit : Hit} {name : String} (h : hit.source.NamedBy name) :
    name < hit.sortName ↔ hit.Misplaced := by
  rcases h with hmember | hfirst
  · have hsort : hit.sortName = name := by
      rw [sortName, hmember, Option.bind_some, Json.string?, Option.getD_some]
    rw [hsort, Misplaced, firstText?_eq_none_of_get? hmember]
    constructor
    · exact fun h => absurd h (String.lt_irrefl _)
    · rintro ⟨other, ⟨⟩, -⟩
  · have hsort : hit.sortName = hit.id := by
      have hmember : hit.source.get? "name" = none := by
        rw [← Option.not_isSome_iff_eq_none, Option.isSome_iff_exists]
        rintro ⟨member, hmember⟩
        rw [firstText?_eq_none_of_get? hmember] at hfirst
        cases hfirst
      rw [sortName, hmember, Option.bind_none, Option.getD_none]
    rw [hsort, Misplaced, hfirst]
    simp

end Hit

end ChannelDirectory

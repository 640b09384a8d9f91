import ChannelDirectory.Json.Reader
import ChannelDirectory.Proofs.KeyMap
import ChannelDirectory.Proofs.Json.Numbers

/-!
# Which values a text can stand for

The reader keeps integers within 64 bits, the members of objects in order, and the nesting below a
bound. `Json.Legible` says so of a value, and every value that is read is `Legible` for the depth
that was allowed (`Json.readLegibly`). A `DoubleFree` value holds no double anywhere, and a value
that is both is `Printable`.
-/

namespace ChannelDirectory.Json

/-- A value nested at most so deep that the reader can give it. -/
inductive Legible : Nat → Json → Prop
  | null {depth : Nat} : Legible depth .null
  | bool {depth : Nat} (value : Bool) : Legible depth (.bool value)
  | integer {depth : Nat} {n : Int} (fits : Fits n) : Legible depth (.integer n)
  | double {depth : Nat} (bits : Nat) : Legible depth (.double bits)
  | string {depth : Nat} (value : String) : Legible depth (.string value)
  | array {depth : Nat} {items : List Json} (legible : ∀ item ∈ items, Legible depth item) :
      Legible (depth + 1) (.array items)
  | object {depth : Nat} {members : List (String × Json)} (ascending : Ascending members)
      (legible : ∀ e ∈ members, Legible depth e.2) : Legible (depth + 1) (.object members)

/-- A value without doubles. -/
inductive DoubleFree : Json → Prop
  | null : DoubleFree .null
  | bool (value : Bool) : DoubleFree (.bool value)
  | integer (n : Int) : DoubleFree (.integer n)
  | string (value : String) : DoubleFree (.string value)
  | array {items : List Json} (free : ∀ item ∈ items, DoubleFree item) : DoubleFree (.array items)
  | object {members : List (String × Json)} (free : ∀ e ∈ members, DoubleFree e.2) :
      DoubleFree (.object members)

/-- A value that its printed form gives back, if it is read at a depth. -/
structure Printable (depth : Nat) (v : Json) : Prop where
  legible : Legible depth v
  free : DoubleFree v

/-- What can be read within a depth can be read within a greater one. -/
theorem Legible.mono {depth depth' : Nat} (hle : depth ≤ depth') {v : Json}
    (h : Legible depth v) : Legible depth' v := by
  induction h generalizing depth' with
  | null => exact .null
  | bool value => exact .bool value
  | integer fits => exact .integer fits
  | double bits => exact .double bits
  | string value => exact .string value
  | array _ ih =>
    obtain ⟨depth', rfl⟩ := Nat.exists_eq_add_one_of_ne_zero (by omega : depth' ≠ 0)
    exact .array fun item hitem => ih item hitem (by omega)
  | object ascending _ ih =>
    obtain ⟨depth', rfl⟩ := Nat.exists_eq_add_one_of_ne_zero (by omega : depth' ≠ 0)
    exact .object ascending fun e he => ih e he (by omega)

variable {depth : Nat} {members : List (String × Json)}

/-- Members that are in order are an object as they are. -/
theorem ofMembers_of_ascending (ascending : Ascending members) :
    ofMembers members = .object members := by
  rw [ofMembers, KeyMap.ofList_entries ⟨members, ascending⟩]

/-- Putting members in order keeps an object legible. -/
theorem Legible.ofMembers (h : ∀ e ∈ members, Legible depth e.2) :
    Legible (depth + 1) (ofMembers members) :=
  .object (KeyMap.ofList members).ascending fun e he => h e (KeyMap.mem_of_mem_entries_ofList he)

theorem Printable.mono {depth' : Nat} (hle : depth ≤ depth') {v : Json} (h : Printable depth v) :
    Printable depth' v :=
  ⟨h.legible.mono hle, h.free⟩

theorem printable_string (value : String) : Printable depth (.string value) :=
  ⟨.string value, .string value⟩

theorem printable_array {items : List Json} (h : ∀ item ∈ items, Printable depth item) :
    Printable (depth + 1) (.array items) :=
  ⟨.array fun item hitem => (h item hitem).legible, .array fun item hitem => (h item hitem).free⟩

theorem printable_ofMembers (h : ∀ e ∈ members, Printable depth e.2) :
    Printable (depth + 1) (ofMembers members) :=
  ⟨.ofMembers fun e he => (h e he).legible,
    .object fun e he => (h e (KeyMap.mem_of_mem_entries_ofList he)).free⟩

/-- The numbers that are read are within the range that can be printed. -/
theorem readNumber_legible {cs rest : List Char} {v : Json} (h : readNumber cs = some (v, rest)) :
    Legible depth v := by
  simp only [readNumber, Option.bind_eq_bind, Option.bind_eq_some_iff] at h
  obtain ⟨⟨whole, cs₁⟩, -, ⟨fraction, cs₂⟩, -, ⟨exponent, cs₃⟩, -, value, hvalue, hv⟩ := h
  obtain ⟨rfl, -⟩ := Prod.mk.inj (Option.some.inj hv)
  rcases number?_cases hvalue with ⟨n, hfits, rfl⟩ | ⟨bits, rfl⟩
  · exact .integer hfits
  · exact .double bits

/-- What the readers give with some fuel is legible for the depth that they were allowed. -/
structure ReadLegibly (fuel : Nat) : Prop where
  value : ∀ depth cs v rest, readValue fuel depth cs = some (v, rest) → Legible depth v
  items : ∀ depth cs items rest, readItems fuel depth cs = some (items, rest) →
    ∀ item ∈ items, Legible depth item
  members : ∀ depth cs members rest, readMembers fuel depth cs = some (members, rest) →
    ∀ e ∈ members, Legible depth e.2
  moreMembers : ∀ depth cs members rest, readMoreMembers fuel depth cs = some (members, rest) →
    ∀ e ∈ members, Legible depth e.2

theorem readLegibly_zero : ReadLegibly 0 where
  value := by rintro depth cs v rest ⟨⟩
  items := by rintro depth cs items rest ⟨⟩
  members := by rintro depth cs members rest ⟨⟩
  moreMembers := by rintro depth cs members rest ⟨⟩

section Step

variable {fuel : Nat} (ih : ReadLegibly fuel)
include ih

/-- A value is read legibly if its parts are. -/
theorem ReadLegibly.readValue_succ {cs rest : List Char} {v : Json}
    (h : readValue (fuel + 1) depth cs = some (v, rest)) : Legible depth v := by
  rw [readValue] at h
  split at h
  · cases h
    exact .null
  · cases h
    exact .bool true
  · cases h
    exact .bool false
  · obtain ⟨_, -, hv⟩ := Option.map_eq_some_iff.mp h
    cases hv
    exact .string _
  · split at h
    · cases h
    · split at h
      · cases h
        exact .array (by simp)
      · obtain ⟨_, hitems, hv⟩ := Option.map_eq_some_iff.mp h
        cases hv
        exact .array (ih.items _ _ _ _ hitems)
  · split at h
    · cases h
    · obtain ⟨_, hmembers, hv⟩ := Option.map_eq_some_iff.mp h
      cases hv
      exact .ofMembers (ih.members _ _ _ _ hmembers)
  · exact readNumber_legible h

theorem ReadLegibly.readItems_succ {cs rest : List Char} {items : List Json}
    (h : readItems (fuel + 1) depth cs = some (items, rest)) :
    ∀ item ∈ items, Legible depth item := by
  rw [readItems] at h
  split at h
  · cases h
  rename_i item _ hitem
  have hfirst := ih.value _ _ _ _ hitem
  split at h
  · obtain ⟨_, hitems, hv⟩ := Option.map_eq_some_iff.mp h
    cases hv
    exact List.forall_mem_cons.mpr ⟨hfirst, ih.items _ _ _ _ hitems⟩
  · cases h
    exact List.forall_mem_singleton.mpr hfirst
  · cases h

theorem ReadLegibly.readMembers_succ {cs rest : List Char}
    (h : readMembers (fuel + 1) depth cs = some (members, rest)) :
    ∀ e ∈ members, Legible depth e.2 := by
  rw [readMembers] at h
  split at h
  · cases h
    exact List.forall_mem_nil _
  · exact ih.moreMembers _ _ _ _ h

theorem ReadLegibly.readMoreMembers_succ {cs rest : List Char}
    (h : readMoreMembers (fuel + 1) depth cs = some (members, rest)) :
    ∀ e ∈ members, Legible depth e.2 := by
  rw [readMoreMembers] at h
  split at h
  · cases h
  split at h
  · cases h
  rename_i hvalue
  have hfirst := ih.value _ _ _ _ hvalue
  split at h
  · obtain ⟨_, hmembers, hv⟩ := Option.map_eq_some_iff.mp h
    cases hv
    exact List.forall_mem_cons.mpr ⟨hfirst, ih.moreMembers _ _ _ _ hmembers⟩
  · cases h
    exact List.forall_mem_singleton.mpr hfirst
  · cases h

end Step

/-- Whatever is read is legible, by induction on the fuel. -/
theorem readLegibly (fuel : Nat) : ReadLegibly fuel := by
  induction fuel with
  | zero => exact readLegibly_zero
  | succ fuel ih =>
    exact ⟨fun _ _ _ _ => ih.readValue_succ, fun _ _ _ _ => ih.readItems_succ,
      fun _ _ _ _ => ih.readMembers_succ, fun _ _ _ _ => ih.readMoreMembers_succ⟩

end ChannelDirectory.Json

import ChannelDirectory.Record.Codec

/-!
# Records read back

A document holds the record that it was made from : `Entity.decode` after `Entity.encode`
gives the record back, for channels, tags and properties with all their members
(`LawfulEntity.decode_encode`). The proofs follow the members of the document, which are
found under their names (`Json.get?_ofMembers`), and the items of its lists
(`Decoder.list_map`).
-/

namespace ChannelDirectory

/-- The last member of a name in a list of members. -/
def lastMember? (members : List (String × Json)) (name : String) : Option Json :=
  (members.reverse.find? fun e => name = e.1).map Prod.snd

/-- A member of an object is the last one of its name. -/
theorem Json.get?_ofMembers (members : List (String × Json)) (name : String) :
    (Json.ofMembers members).get? name = lastMember? members name :=
  KeyMap.get?_ofList members name

theorem lastMember?_append (members more : List (String × Json)) (name : String) :
    lastMember? (members ++ more) name = (lastMember? more name).or (lastMember? members name) := by
  simp [lastMember?, List.find?_append, Option.map_or]

theorem lastMember?_cons (e : String × Json) (members : List (String × Json)) (name : String) :
    lastMember? (e :: members) name =
      (lastMember? members name).or (if name = e.1 then some e.2 else none) := by
  rw [← List.singleton_append, lastMember?_append]
  congr 1
  by_cases h : name = e.1 <;> simp [lastMember?, h]

@[simp]
theorem lastMember?_nil (name : String) : lastMember? [] name = none := rfl

namespace Decoder

variable {α : Type}

theorem record_ofMembers (typeName : String) (fields : Nat) (ofObject : Decoder α)
    (ofItems : Json → List Json → Except DecodeError α) (members : List (String × Json)) :
    record typeName fields ofObject ofItems (Json.ofMembers members) =
      ofObject (Json.ofMembers members) := rfl

/-- A list of encoded items is read item by item. -/
theorem list_map {decode : Decoder α} {encode : α → Json}
    (h : ∀ item, decode (encode item) = .ok item) (items : List α) :
    list decode (.array (items.map encode)) = .ok items := by
  rw [list]
  induction items with
  | nil => rfl
  | cons item items ih =>
    rw [List.map_cons, List.mapM_cons, h, ih]
    rfl

theorem optional_some (decode : Decoder α) (default : α) (value : Json) :
    Decoder.optional decode default (some value) = decode value := rfl

end Decoder

open Decoder

theorem TagRef.decode_encode (r : TagRef) : TagRef.decode (r.encode Json.ofMembers) = .ok r := by
  rw [TagRef.decode, TagRef.encode, record_ofMembers]
  simp only [Json.get?_ofMembers, lastMember?_cons, lastMember?_nil]
  rfl

theorem PropertyRef.decode_encode (r : PropertyRef) :
    PropertyRef.decode (r.encode Json.ofMembers) = .ok r := by
  rw [PropertyRef.decode, PropertyRef.encode, record_ofMembers]
  simp only [Json.get?_ofMembers, lastMember?_cons, lastMember?_nil]
  rfl

theorem Channel.decode_encode (c : Channel) :
    Channel.decode (c.encode Json.ofMembers) = .ok c := by
  have htags := list_map TagRef.decode_encode c.tags
  have hproperties := list_map PropertyRef.decode_encode c.properties
  rw [Channel.decode, Channel.encode, record_ofMembers]
  simp [Json.get?_ofMembers, lastMember?_cons, optional_some, htags, hproperties]
  rfl

/-! ## Tags and properties with channels -/

/-- The member for channels is left out exactly if there are none. -/
theorem decode_encodeChannels (channels : List Channel) :
    Decoder.optional (list Channel.decode) []
      (lastMember? (encodeChannels Json.ofMembers channels) "channels") = .ok channels := by
  cases channels with
  | nil => rfl
  | cons c rest => exact list_map Channel.decode_encode (c :: rest)

theorem lastMember?_encodeChannels {name : String} (h : name ≠ "channels")
    (channels : List Channel) :
    lastMember? (encodeChannels Json.ofMembers channels) name = none := by
  cases channels with
  | nil => rfl
  | cons c rest => simp [encodeChannels, lastMember?, h]

theorem Tag.decode_encode (t : Tag) : Tag.decode (t.encode Json.ofMembers) = .ok t := by
  have hchannels := decode_encodeChannels t.channels
  rw [Tag.decode, Tag.encode, record_ofMembers]
  simp [Json.get?_ofMembers, lastMember?_cons, hchannels, lastMember?_encodeChannels]
  rfl

theorem Property.decode_encode (p : Property) :
    Property.decode (p.encode Json.ofMembers) = .ok p := by
  obtain ⟨name, owner, value, channels⟩ := p
  have hchannels := decode_encodeChannels channels
  rw [Property.decode, Property.encode, record_ofMembers]
  cases value with
  | none =>
    simp [Json.get?_ofMembers, lastMember?_cons, hchannels, lastMember?_encodeChannels]
    rfl
  | some value =>
    simp [Json.get?_ofMembers, lastMember?_cons, hchannels, lastMember?_encodeChannels]
    rfl

/-! ## Entities -/

/-- Documents of the type hold their records, with the name in its member, and the stored
form of a record has the same name. -/
class LawfulEntity (α : Type) [Entity α] : Prop where
  decode_encode : ∀ record : α, Entity.decode (Entity.encode Json.ofMembers record) = .ok record
  name_stored : ∀ record : α, Entity.name (Entity.stored record) = Entity.name record
  get?_name : ∀ record : α,
    (Entity.encode Json.ofMembers record).get? "name" = some (.string (Entity.name record))

instance : LawfulEntity Channel where
  decode_encode := Channel.decode_encode
  name_stored _ := rfl
  get?_name c := by
    simp [Entity.encode, Entity.name, Channel.encode, Json.get?_ofMembers, lastMember?_cons]

instance : LawfulEntity Tag where
  decode_encode := Tag.decode_encode
  name_stored _ := rfl
  get?_name t := by
    simp [Entity.encode, Entity.name, Tag.encode, Json.get?_ofMembers, lastMember?_cons,
      lastMember?_encodeChannels]

instance : LawfulEntity Property where
  decode_encode := Property.decode_encode
  name_stored _ := rfl
  get?_name p := by
    obtain ⟨name, owner, value, channels⟩ := p
    cases value <;>
      simp [Entity.encode, Entity.name, Property.encode, Json.get?_ofMembers, lastMember?_cons,
        lastMember?_encodeChannels]

/-- Records with equal documents are equal. -/
theorem encode_inj {α : Type} [Entity α] [LawfulEntity α] {r r' : α}
    (h : Entity.encode Json.ofMembers r = Entity.encode Json.ofMembers r') : r = r' := by
  have hr := LawfulEntity.decode_encode r
  rw [h, LawfulEntity.decode_encode] at hr
  exact (Except.ok.inj hr).symm

end ChannelDirectory

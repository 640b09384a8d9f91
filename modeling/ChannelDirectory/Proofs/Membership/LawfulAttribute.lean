import ChannelDirectory.Membership.Attribute
import ChannelDirectory.Proofs.Membership.RefEdit
import ChannelDirectory.Proofs.Record.RoundTrip
import ChannelDirectory.Query.Evaluate

/-!
# What tags and properties obey

Proofs about membership are done once, for every `LawfulAttribute`. Its laws say that the
references of one kind are a part of the channel that can be exchanged on its own
(`setRefs`), that an edit of one kind changes this part only, that the references a request
means carry the name and the owner of the record, and that the members are the channels
that satisfy the member predicate.

`Independent` says of two kinds that neither sees the other's part of a channel.
-/

namespace ChannelDirectory

/-- The three indices are different. -/
def Config.DistinctIndices (config : Config) : Prop :=
  config.channelIndex ≠ config.tagIndex ∧ config.channelIndex ≠ config.propertyIndex ∧
    config.tagIndex ≠ config.propertyIndex

instance (config : Config) : Decidable config.DistinctIndices :=
  inferInstanceAs (Decidable (_ ∧ _ ∧ _))

/-- In each of its lists a channel has one reference for each name. -/
def Channel.Distinct (c : Channel) : Prop :=
  DistinctRefs c.tags ∧ DistinctRefs c.properties

instance (c : Channel) : Decidable c.Distinct :=
  inferInstanceAs (Decidable (_ ∧ _))

/-- A rebound reference has the name and owner that it is bound to. -/
class LawfulReference (ρ : Type) [Reference ρ] : Prop where
  name_rebind : ∀ (ref : ρ) (name owner : String),
    Reference.name (Reference.rebind ref name owner) = name
  owner_rebind : ∀ (ref : ρ) (name owner : String),
    Reference.owner (Reference.rebind ref name owner) = owner
  rebind_self : ∀ ref : ρ, Reference.rebind ref (Reference.name ref) (Reference.owner ref) = ref

instance : LawfulReference TagRef where
  name_rebind _ _ _ := rfl
  owner_rebind _ _ _ := rfl
  rebind_self _ := rfl

instance : LawfulReference PropertyRef where
  name_rebind _ _ _ := rfl
  owner_rebind _ _ _ := rfl
  rebind_self _ := rfl

open Attribute in
/-- A kind of attributes whose references are a part of the channels of their own. -/
class LawfulAttribute (α : Type) {ρ : outParam Type} [Attribute α ρ] [Reference ρ] where
  /-- The channel with other references of this kind. -/
  setRefs : Channel → List ρ → Channel
  /-- The part of an edit that is about this kind. -/
  part : ChannelEdit → RefEdit ρ
  refs_setRefs : ∀ (c : Channel) (rs : List ρ), refs α (setRefs c rs) = rs
  setRefs_refs : ∀ c : Channel, setRefs c (refs α c) = c
  setRefs_setRefs : ∀ (c : Channel) (rs rs' : List ρ), setRefs (setRefs c rs) rs' = setRefs c rs'
  name_setRefs : ∀ (c : Channel) (rs : List ρ), (setRefs c rs).name = c.name
  distinct_refs : ∀ {c : Channel}, c.Distinct → DistinctRefs (refs α c)
  distinct_setRefs : ∀ {c : Channel} {rs : List ρ},
    c.Distinct → DistinctRefs rs → (setRefs c rs).Distinct
  part_empty : part ChannelEdit.empty = RefEdit.empty
  part_modifyEdit : ∀ (f : RefEdit ρ → RefEdit ρ) (e : ChannelEdit),
    part (modifyEdit α f e) = f (part e)
  apply_modifyEdit : ∀ (f : RefEdit ρ → RefEdit ρ) (e : ChannelEdit) (c : Channel),
    (modifyEdit α f e).apply c = setRefs (e.apply c) ((f (part e)).apply (refs α c))
  refs_apply : ∀ (e : ChannelEdit) (c : Channel), refs α (e.apply c) = (part e).apply (refs α c)
  memberRef_ok : ∀ {record : α} {c : Channel} {ref : ρ}, memberRef record c = .ok ref →
    Reference.name ref = Entity.name record ∧ Reference.owner ref = owner record
  singleRef_ok : ∀ {record request : α} {channel : String} {ref : ρ},
    singleRef record request channel = .ok ref →
      Reference.name ref = Entity.name record ∧ Reference.owner ref = owner record
  name_withIdentity : ∀ (record : α) (name owner : String),
    Entity.name (withIdentity record name owner) = name
  owner_withIdentity : ∀ (record : α) (name owner' : String),
    owner (withIdentity record name owner') = owner'
  owner_stored : ∀ record : α, owner (Entity.stored record) = owner record
  channels_withChannels : ∀ (record : α) (cs : List Channel),
    channels (withChannels record cs) = cs
  toDocument_eq : ∀ record : α, toDocument record = Json.ofMembers
    [("name", .string (Entity.name record)), ("owner", .string (owner record))]
  holds_memberPredicate : ∀ (name : String) (c : Channel),
    (memberPredicate α name).holds (Entity.encode Json.ofMembers c) =
      (currentRef? α c name).isSome
  index_ne : ∀ {config : Config}, config.DistinctIndices → index α config ≠ config.channelIndex

/-! ## Tags and properties -/

/-- The items of a nested collection are the encoded references. -/
theorem items_tags (c : Channel) :
    Nesting.tags.items (Entity.encode Json.ofMembers c) =
      c.tags.map fun r => r.encode Json.ofMembers := by
  simp [Nesting.items, Nesting.member, Entity.encode, Channel.encode, Json.get?_ofMembers,
    lastMember?_cons, Json.array?]

theorem items_properties (c : Channel) :
    Nesting.properties.items (Entity.encode Json.ofMembers c) =
      c.properties.map fun r => r.encode Json.ofMembers := by
  simp [Nesting.items, Nesting.member, Entity.encode, Channel.encode, Json.get?_ofMembers,
    lastMember?_cons, Json.array?]

/-- An encoded reference passes the test on its name. -/
theorem holdsIn_tagName (name : String) (r : TagRef) :
    (Predicate.term .tagName name).holdsIn (.element .tags (r.encode Json.ofMembers)) =
      (r.name == name) := by
  rw [Bool.eq_iff_iff]
  simp [Predicate.holdsIn, Field.values, Field.nesting, Field.text?, Field.member, TagRef.encode,
    Json.get?_ofMembers, lastMember?_cons, Json.string?]
  exact eq_comm

theorem holdsIn_propertyName (name : String) (r : PropertyRef) :
    (Predicate.term .propertyName name).holdsIn
      (.element .properties (r.encode Json.ofMembers)) = (r.name == name) := by
  rw [Bool.eq_iff_iff]
  simp [Predicate.holdsIn, Field.values, Field.nesting, Field.text?, Field.member,
    PropertyRef.encode, Json.get?_ofMembers, lastMember?_cons, Json.string?]
  exact eq_comm

/-- The predicate for a tag matches the channels that have a reference to it. -/
theorem holds_hasTag (name : String) (c : Channel) :
    (Predicate.hasTag name).holds (Entity.encode Json.ofMembers c) =
      (findRef? c.tags name).isSome := by
  rw [Predicate.holds, Predicate.hasTag, Predicate.holdsIn, items_tags, List.any_map, findRef?,
    List.isSome_find?]
  exact congrArg c.tags.any (funext fun r => holdsIn_tagName name r)

/-- The predicate for a property matches the channels that have a reference to it. -/
theorem holds_hasProperty (name : String) (c : Channel) :
    (Predicate.hasProperty name).holds (Entity.encode Json.ofMembers c) =
      (findRef? c.properties name).isSome := by
  rw [Predicate.holds, Predicate.hasProperty, Predicate.holdsIn, items_properties, List.any_map,
    findRef?, List.isSome_find?]
  exact congrArg c.properties.any (funext fun r => holdsIn_propertyName name r)

/-- The reference that is made of a property has its name and its owner. -/
theorem Property.toRef_of_map_ok {p : Property} {value : Except ValidationError String}
    {ref : PropertyRef} (h : p.toRef <$> value = .ok ref) :
    Reference.name ref = p.name ∧ Reference.owner ref = p.owner := by
  cases value with
  | error e => cases h
  | ok v =>
    rw [← Except.ok.inj h]
    exact ⟨rfl, rfl⟩

instance : LawfulAttribute Tag where
  setRefs c tags := { c with tags }
  part := ChannelEdit.tags
  refs_setRefs _ _ := rfl
  setRefs_refs _ := rfl
  setRefs_setRefs _ _ _ := rfl
  name_setRefs _ _ := rfl
  distinct_refs h := h.1
  distinct_setRefs h hrs := ⟨hrs, h.2⟩
  part_empty := rfl
  part_modifyEdit _ _ := rfl
  apply_modifyEdit _ _ _ := rfl
  refs_apply _ _ := rfl
  memberRef_ok h := by cases h; exact ⟨rfl, rfl⟩
  singleRef_ok h := by cases h; exact ⟨rfl, rfl⟩
  name_withIdentity _ _ _ := rfl
  owner_withIdentity _ _ _ := rfl
  owner_stored _ := rfl
  channels_withChannels _ _ := rfl
  toDocument_eq _ := rfl
  holds_memberPredicate := holds_hasTag
  index_ne h := Ne.symm h.1

instance : LawfulAttribute Property where
  setRefs c properties := { c with properties }
  part := ChannelEdit.properties
  refs_setRefs _ _ := rfl
  setRefs_refs _ := rfl
  setRefs_setRefs _ _ _ := rfl
  name_setRefs _ _ := rfl
  distinct_refs h := h.2
  distinct_setRefs h hrs := ⟨h.1, hrs⟩
  part_empty := rfl
  part_modifyEdit _ _ := rfl
  apply_modifyEdit _ _ _ := rfl
  refs_apply _ _ := rfl
  memberRef_ok h := Property.toRef_of_map_ok h
  singleRef_ok h := Property.toRef_of_map_ok h
  name_withIdentity _ _ _ := rfl
  owner_withIdentity _ _ _ := rfl
  owner_stored _ := rfl
  channels_withChannels _ _ := rfl
  toDocument_eq _ := rfl
  holds_memberPredicate := holds_hasProperty
  index_ne h := Ne.symm h.2.1

/-- Neither of two kinds of attributes sees the other's references or records. -/
structure Independent (α β : Type) {ρ σ : Type} [Attribute α ρ] [Reference ρ] [LawfulAttribute α]
    [Attribute β σ] : Prop where
  refs_setRefs : ∀ (c : Channel) (rs : List ρ),
    Attribute.refs β (LawfulAttribute.setRefs α c rs) = Attribute.refs β c
  index_ne : ∀ {config : Config}, config.DistinctIndices →
    Attribute.index α config ≠ Attribute.index β config

theorem independent_tag_property : Independent Tag Property where
  refs_setRefs _ _ := rfl
  index_ne h := h.2.2

theorem independent_property_tag : Independent Property Tag where
  refs_setRefs _ _ := rfl
  index_ne h := Ne.symm h.2.2

end ChannelDirectory

import ChannelDirectory.Proofs.Directory.Conduct
import ChannelDirectory.Proofs.Directory.Preparation

/-!
# The shape of documents, among many clients

Whatever is stored has been checked by some write. A `Shapely` store holds full channels under
their names, with valid names and owners, one reference for each name and no property without a
value, and tags and properties that consist of a valid name and a valid owner. Paging, membership
and the merging of channels rely on it.

A write may rest on documents that have changed since they were read, so what is kept is not what
the store holds when a write is planned but the shape of every document that is read or written.
`Directory.shape` is the rule that says so, and the commands keep to it (`upholds_shape`), hence any
number of clients, call by call (`clients_keep_shape`).
-/

namespace ChannelDirectory

open Attribute Collection LawfulAttribute Program

/-! ## Channels -/

namespace Channel

/-- The channel has a valid name and owner, one tag and one property for each name, and a value
for every property. -/
structure Shaped (c : Channel) : Prop where
  name : validateName .channel c.name = .ok ()
  owner : validateOwner .channel c.name c.owner = .ok ()
  tags : (c.tags.map TagRef.name).Nodup
  properties : (c.properties.map PropertyRef.name).Nodup
  values : ∀ property ∈ c.properties, property.value ≠ ""

instance : DecidablePred Shaped := fun c =>
  decidable_of_iff (validateName .channel c.name = .ok () ∧
      validateOwner .channel c.name c.owner = .ok () ∧ (c.tags.map TagRef.name).Nodup ∧
      (c.properties.map PropertyRef.name).Nodup ∧ ∀ property ∈ c.properties, property.value ≠ "")
    ⟨fun h => ⟨h.1, h.2.1, h.2.2.1, h.2.2.2.1, h.2.2.2.2⟩,
      fun h => ⟨h.name, h.owner, h.tags, h.properties, h.values⟩⟩

/-- A prepared channel is in shape. -/
theorem Prepared.shaped {c : Channel} (h : c.Prepared) : c.Shaped := by
  obtain ⟨request, normal, owners, hnormal, rfl⟩ := h
  obtain ⟨rfl, hnamed, hvalues⟩ := normalize_eq_ok_iff.mp hnormal
  obtain ⟨hname, howner⟩ := validateNamed_eq_ok_iff.mp hnamed
  refine ⟨hname, howner, ?_, ?_, List.forall_mem_map.mpr fun property hproperty => ?_⟩
  · exact distinctRefs_stampRefs request.distinct_dedup.1
  · exact distinctRefs_stampRefs request.distinct_dedup.2
  · change (stampRef owners.properties property).value ≠ ""
    rw [value_stampRef]
    exact hvalues property hproperty

end Channel

namespace Directory

/-! ## Stores -/

/-- Every record is the object of a valid name, under this name, and a valid owner. -/
def KeepsRecords (s : Store) (index : String) (kind : RecordKind) : Prop :=
  ∀ id doc, s.get? index id = some doc →
    validateName kind id = .ok () ∧ ∃ owner, validateOwner kind id owner = .ok () ∧
      doc = Json.ofMembers [("name", .string id), ("owner", .string owner)]

/-- Every document has the shape of its kind. -/
structure Shapely (dir : Directory) (s : Store) : Prop where
  channels : ∀ id doc, s.get? dir.config.channelIndex id = some doc →
    ∃ c : Channel, c.name = id ∧ c.Shaped ∧ doc = toDocument c
  tags : KeepsRecords s dir.config.tagIndex .tag
  properties : KeepsRecords s dir.config.propertyIndex .property

variable {dir other : Directory} {b : Backend} {s : Store}

/-- A record that was valid when it was put. -/
def Recorded {α ρ : Type} [Attribute α ρ] (record : α) : Prop :=
  ∃ request : α, validate request = .ok () ∧ record = Entity.stored request

/-- All documents are those of channels in shape, and of tags and properties that were valid. -/
structure HoldsShape (dir : Directory) (s : Store) : Prop where
  channels : dir.channels.HoldsOnly Channel.Shaped s
  tags : dir.tags.HoldsOnly Recorded s
  properties : dir.properties.HoldsOnly Recorded s

/-- The write keeps the store in shape. -/
structure WritesShape (dir : Directory) (op : Operation) : Prop where
  channels : dir.channels.WritesOnly Channel.Shaped op
  tags : dir.tags.WritesOnly Recorded op
  properties : dir.properties.WritesOnly Recorded op

/-- The objects of a name and an owner are the documents of records. -/
theorem holdsOnly_recorded_iff {α ρ : Type} [Attribute α ρ] [Reference ρ] [LawfulAttribute α]
    [LawfulEntity α] {c : Collection α}
    (hrecord : ∀ name owner : String, ∃ record : α,
      Entity.name record = name ∧ Attribute.owner record = owner) :
    c.HoldsOnly Recorded s ↔ KeepsRecords s c.index (Entity.kind α) := by
  refine forall₂_congr fun id doc => forall_congr' fun _ => ?_
  constructor
  · rintro ⟨_, rfl, ⟨request, hvalid, rfl⟩, rfl⟩
    obtain ⟨hname, howner⟩ := validateNamed_eq_ok_iff.mp hvalid
    rw [LawfulEntity.name_stored]
    exact ⟨hname, owner request, howner, toDocument_eq request⟩
  · rintro ⟨hname, howner, hvalid, rfl⟩
    obtain ⟨request, rfl, rfl⟩ := hrecord id howner
    exact ⟨Entity.stored request, LawfulEntity.name_stored request,
      ⟨request, validateNamed_eq_ok_iff.mpr ⟨hname, hvalid⟩, rfl⟩, (toDocument_eq request).symm⟩

/-- Every document has its shape exactly if the rule of shapes holds of the store. -/
theorem shapely_iff : dir.Shapely s ↔ dir.HoldsShape s := by
  have htags : dir.tags.HoldsOnly Recorded s ↔ KeepsRecords s dir.config.tagIndex .tag :=
    holdsOnly_recorded_iff fun name owner => ⟨⟨name, owner, []⟩, rfl, rfl⟩
  have hproperties : dir.properties.HoldsOnly Recorded s ↔
      KeepsRecords s dir.config.propertyIndex .property :=
    holdsOnly_recorded_iff fun name owner => ⟨⟨name, owner, none, []⟩, rfl, rfl⟩
  constructor
  · exact fun h => ⟨h.channels, htags.mpr h.tags, hproperties.mpr h.properties⟩
  · exact fun h => ⟨h.channels, htags.mp h.tags, hproperties.mp h.properties⟩

theorem shapely_of_eq_empty (h : s = Store.empty) : dir.Shapely s := by
  subst h
  exact shapely_iff.mpr ⟨holdsOnly_of_documents_eq_empty rfl, holdsOnly_of_documents_eq_empty rfl,
    holdsOnly_of_documents_eq_empty rfl⟩

/-! ## The rule -/

/-- The rule that the store keeps its shape. -/
def shape (dir : Directory) : Regime where
  state b := dir.HoldsShape b.store
  allows := dir.WritesShape
  errors _ := True
  congr h hstore _ := hstore ▸ h
  after h hops := ⟨h.channels.after fun op hop => (hops op hop).channels,
    h.tags.after fun op hop => (hops op hop).tags,
    h.properties.after fun op hop => (hops op hop).properties⟩
  errors_of_not_refusal _ := trivial

/-- Prepared channels have the shape of channels. -/
theorem channelRules_shape (indices : dir.config.DistinctIndices) :
    dir.ChannelRules dir.shape Channel.Shaped where
  yields b id doc record hb hdoc hdecode := by
    obtain ⟨c, -, hshaped, rfl⟩ := hb.channels id doc hdoc
    rw [LawfulEntity.decode_encode] at hdecode
    exact Except.ok.inj hdecode ▸ hshaped
  put c h := ⟨writesOnly_putOp h.shaped, writesOnly_of_index_ne indices.1,
    writesOnly_of_index_ne indices.2.1⟩
  replace c h := ⟨writesOnly_replaceOp h, writesOnly_of_index_ne indices.1,
    writesOnly_of_index_ne indices.2.1⟩
  delete id := ⟨writesOnly_deleteOp id, writesOnly_of_index_ne indices.1,
    writesOnly_of_index_ne indices.2.1⟩

/-- Valid tags have the shape of tags, and their references that of tags on a channel. -/
theorem tagRules_shape (indices : dir.config.DistinctIndices) :
    dir.AttributeRules dir.shape Channel.Shaped Tag fun _ => True where
  toChannelRules := channelRules_shape indices
  refs _ _ _ _ := trivial
  setRefs _ _ hc _ hdistinct := ⟨hc.name, hc.owner, hdistinct hc.tags, hc.properties, hc.values⟩
  memberRef _ _ _ _ := trivial
  singleRef _ _ _ _ _ := trivial
  rebind _ _ _ _ := trivial
  putRecord tag hvalid := ⟨writesOnly_of_index_ne (Ne.symm indices.1),
    writesOnly_putOp ⟨tag, hvalid, rfl⟩, writesOnly_of_index_ne indices.2.2⟩
  deleteRecord name := ⟨writesOnly_of_index_ne (Ne.symm indices.1), writesOnly_deleteOp name,
    writesOnly_of_index_ne indices.2.2⟩

/-- A reference with a value that has been checked has a value. -/
theorem value_ne_empty_of_map_ok {property : Property} {name channel : String}
    {given : Option String} {ref : PropertyRef}
    (h : property.toRef <$> validateValue name channel given = .ok ref) : ref.value ≠ "" := by
  cases hvalue : validateValue name channel given with
  | error e =>
    rw [hvalue] at h
    cases h
  | ok value =>
    rw [hvalue] at h
    rw [← Except.ok.inj h]
    exact (validateValue_eq_ok_iff.mp hvalue).2

/-- Valid properties have the shape of properties, and their references have a value. -/
theorem propertyRules_shape (indices : dir.config.DistinctIndices) :
    dir.AttributeRules dir.shape Channel.Shaped Property fun ref => ref.value ≠ "" where
  toChannelRules := channelRules_shape indices
  refs _ hc := hc.values
  setRefs _ _ hc hsound hdistinct := ⟨hc.name, hc.owner, hc.tags, hdistinct hc.properties, hsound⟩
  memberRef _ _ _ h := value_ne_empty_of_map_ok h
  singleRef _ _ _ _ h := value_ne_empty_of_map_ok h
  rebind _ _ _ h := h
  putRecord property hvalid := ⟨writesOnly_of_index_ne (Ne.symm indices.2.1),
    writesOnly_of_index_ne (Ne.symm indices.2.2), writesOnly_putOp ⟨property, hvalid, rfl⟩⟩
  deleteRecord name := ⟨writesOnly_of_index_ne (Ne.symm indices.2.1),
    writesOnly_of_index_ne (Ne.symm indices.2.2), writesOnly_deleteOp name⟩

/-! ## Clients -/

/-- The directories are about the same documents. They may read in pages of different sizes. -/
structure SharesIndices (other dir : Directory) : Prop where
  channels : other.config.channelIndex = dir.config.channelIndex
  tags : other.config.tagIndex = dir.config.tagIndex
  properties : other.config.propertyIndex = dir.config.propertyIndex

/-- The program is a command, or only reads. -/
inductive IsOperation (dir : Directory) : Program Unit → Prop
  | command {other : Directory} (command : Command) :
      other.SharesIndices dir → IsOperation dir (other.program command)
  | read {p : Program Unit} : p.ReadOnly → IsOperation dir p

/-- Every operation keeps the store in shape. -/
theorem upholds_shape (indices : dir.config.DistinctIndices) {p : Program Unit}
    (h : dir.IsOperation p) : p.Upholds dir.shape fun _ => True := by
  cases h with
  | read hread => exact hread.upholds fun _ => trivial
  | @command other command hshares =>
    have indices' : other.config.DistinctIndices := by
      rw [Config.DistinctIndices, hshares.channels, hshares.tags, hshares.properties]
      exact indices
    have paged : other.channels.Paged other.shape := fun _ _ _ _ _ _ => trivial
    refine (upholds_program (tagRules_shape indices') (propertyRules_shape indices') paged
      command).weaken (fun b hb => ?_) (fun op hop => ?_) fun _ _ => trivial
    · exact ⟨(holdsOnly_of_index_eq hshares.channels).mpr hb.channels,
        (holdsOnly_of_index_eq hshares.tags).mpr hb.tags,
        (holdsOnly_of_index_eq hshares.properties).mpr hb.properties⟩
    · exact ⟨(writesOnly_of_index_eq hshares.channels).mp hop.channels,
        (writesOnly_of_index_eq hshares.tags).mp hop.tags,
        (writesOnly_of_index_eq hshares.properties).mp hop.properties⟩

/-- However the calls of any number of clients are interleaved, and whenever the backend is
unavailable, a store that starts empty or with documents in shape has all its documents in
shape. -/
theorem clients_keep_shape (dir : Directory) (n : Network) (events : List Event)
    (indices : dir.config.DistinctIndices)
    (start : n.backend.store = Store.empty ∨ dir.Shapely n.backend.store)
    (busy : ∀ p ∈ n.clients, dir.IsOperation p)
    (started : ∀ p, .start p ∈ events → dir.IsOperation p) :
    dir.Shapely (n.run events).backend.store := by
  have hshape : dir.Shapely n.backend.store := start.elim shapely_of_eq_empty id
  have hwithin : n.Within dir.shape :=
    ⟨shapely_iff.mp hshape, fun p hp => upholds_shape indices (busy p hp)⟩
  exact shapely_iff.mpr (hwithin.run fun p hp => upholds_shape indices (started p hp)).state

/-- A channel is created, then a tag and a property, and then both are put on the channel at once :
each client reads the channel before the other has written it. -/
def crossing : List Event :=
  [.start (usual.program (.createChannels [⟨"A", "o", [], []⟩])), .turn 0,
    .start (usual.program (.ofTags (.create "t" ⟨"t", "x", []⟩))), .turn 1, .turn 1,
    .start (usual.program (.ofProperties (.create "p" ⟨"p", "y", none, []⟩))), .turn 2, .turn 2,
    .start (usual.program (.ofTags (.addToChannel "t" "A" ⟨"t", "", []⟩))),
    .start (usual.program (.ofProperties (.addToChannel "p" "A" ⟨"p", "", some "1", []⟩))),
    .turn 3, .turn 3, .turn 3, .turn 4, .turn 4, .turn 4, .turn 3, .turn 4]

/-- The tag has been lost from the channel, but its document is still that of a channel. -/
theorem crossing_keeps_shape :
    (Network.run ⟨⟨Store.empty, 10000, true, [], 0⟩, []⟩ crossing).backend.store.get?
        usual.config.channelIndex "A" =
          some (toDocument (⟨"A", "o", [], [⟨"p", "y", "1"⟩]⟩ : Channel)) ∧
      usual.Shapely
        (Network.run ⟨⟨Store.empty, 10000, true, [], 0⟩, []⟩ crossing).backend.store := by
  refine ⟨by cbv, clients_keep_shape usual _ crossing distinctIndices_usual (.inl rfl)
    (List.forall_mem_nil _) fun p hp => ?_⟩
  have hcommand : ∃ command, p = usual.program command := by
    simp only [crossing, List.mem_cons, Event.start.injEq, List.not_mem_nil, reduceCtorEq,
      false_or, or_false] at hp
    rcases hp with rfl | rfl | rfl | rfl | rfl <;> exact ⟨_, rfl⟩
  obtain ⟨command, rfl⟩ := hcommand
  exact .command command ⟨rfl, rfl, rfl⟩

end Directory

end ChannelDirectory

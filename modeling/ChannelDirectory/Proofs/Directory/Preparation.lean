import ChannelDirectory.Channels
import ChannelDirectory.Proofs.Collection.Reads
import ChannelDirectory.Proofs.Directory.WellFormed
import ChannelDirectory.Proofs.Record.Validity

/-!
# Channels that are prepared to be written

A channel that is prepared has passed its checks, has one reference for each name, and each of
its references carries the owner of the record that it names (`returns_prepare`). The owners
that are read for a request are those that `Directory.owners` reads off the store, as far as
the request refers to them.
-/

namespace ChannelDirectory

open Attribute Collection LawfulAttribute Program

/-! ## References with the owners of their records -/

section Stamping

variable {ρ : Type} [Reference ρ]

/-- The reference with the owner of its record where one is known. -/
def stampRef (owners : KeyMap String) (ref : ρ) : ρ :=
  match owners.get? (Reference.name ref) with
  | some owner => withOwner ref owner
  | none => ref

theorem stampRefs_eq_map (owners : KeyMap String) (refs : List ρ) :
    stampRefs owners refs = refs.map (stampRef owners) := rfl

/-- Only the owners of the names that occur matter. -/
theorem stampRefs_congr {owners owners' : KeyMap String} {refs : List ρ}
    (h : ∀ ref ∈ refs, owners.get? (Reference.name ref) = owners'.get? (Reference.name ref)) :
    stampRefs owners refs = stampRefs owners' refs := by
  rw [stampRefs_eq_map, stampRefs_eq_map]
  refine List.map_congr_left fun ref href => ?_
  rw [stampRef, h ref href, stampRef]

variable [LawfulReference ρ]

theorem name_stampRef (owners : KeyMap String) (ref : ρ) :
    Reference.name (stampRef owners ref) = Reference.name ref := by
  unfold stampRef
  split
  · exact LawfulReference.name_rebind ref _ _
  · rfl

/-- A reference takes over the owner that is known for its name. -/
theorem owner_stampRef {owners : KeyMap String} {ref : ρ} {owner : String}
    (h : owners.get? (Reference.name ref) = some owner) :
    Reference.owner (stampRef owners ref) = owner := by
  rw [stampRef, h]
  exact LawfulReference.owner_rebind ref _ _

/-- The reference of a name is stamped where it stands. -/
theorem findRef?_stampRefs (owners : KeyMap String) (refs : List ρ) (name : String) :
    findRef? (stampRefs owners refs) name = (findRef? refs name).map (stampRef owners) := by
  rw [stampRefs_eq_map, findRef?, findRef?, List.find?_map]
  congr 2
  funext ref
  rw [Function.comp_apply, name_stampRef]

/-- Stamping leaves one reference for each name. -/
theorem distinctRefs_stampRefs {owners : KeyMap String} {refs : List ρ} (h : DistinctRefs refs) :
    DistinctRefs (stampRefs owners refs) := by
  have hnames : (stampRefs owners refs).map Reference.name = refs.map Reference.name := by
    rw [stampRefs_eq_map, List.map_map]
    exact List.map_congr_left fun ref _ => name_stampRef owners ref
  rwa [DistinctRefs, hnames]

end Stamping

theorem value_stampRef (owners : KeyMap String) (property : PropertyRef) :
    (stampRef owners property).value = property.value := by
  unfold stampRef
  split <;> rfl

/-! ## Checks -/

/-- A record is checked for its name and for its owner. -/
theorem validateNamed_eq_ok_iff {kind : RecordKind} {name owner : String} :
    validateNamed kind name owner = .ok () ↔
      validateName kind name = .ok () ∧ validateOwner kind name owner = .ok () := by
  rw [validateNamed]
  cases validateName kind name with
  | error e => exact ⟨by rintro ⟨⟩, by rintro ⟨⟨⟩, -⟩⟩
  | ok _ => exact (and_iff_right rfl).symm

theorem validateNamed_eq_ok_iff_valid {kind : RecordKind} {name owner : String} :
    validateNamed kind name owner = .ok () ↔ ValidName name ∧ HasText owner := by
  rw [validateNamed_eq_ok_iff, validateName_eq_ok_iff, validateOwner_eq_ok_iff]

/-- A value passes exactly if it is given and not empty. -/
theorem validateValue_eq_ok_iff {property channel value : String} {given : Option String} :
    validateValue property channel given = .ok value ↔ given = some value ∧ value ≠ "" := by
  cases given with
  | none => simp [validateValue]
  | some other =>
    rw [validateValue]
    by_cases hempty : other = ""
    · subst hempty
      simp [eq_comm]
    · rw [if_neg hempty, Except.ok.injEq, Option.some.injEq]
      constructor
      · rintro rfl
        exact ⟨rfl, hempty⟩
      · exact fun h => h.1

/-- A channel that passes its checks keeps the last reference of every name, and has no property
without a value. -/
theorem Channel.normalize_eq_ok_iff {c normal : Channel} :
    c.normalize = .ok normal ↔ normal = c.dedup ∧
      validateNamed .channel c.name c.owner = .ok () ∧
      ∀ property ∈ c.dedup.properties, property.value ≠ "" := by
  have hvalue : ∀ property : PropertyRef, (do
      let _ ← validateValue property.name c.dedup.name (some property.value)
      return () : Except ValidationError Unit) = .ok () ↔ property.value ≠ "" := by
    intro property
    rw [validateValue]
    by_cases hempty : property.value = ""
    · rw [if_pos hempty]
      exact iff_of_false (by rintro ⟨⟩) fun h => h hempty
    · rw [if_neg hempty]
      exact iff_of_true rfl hempty
  simp only [← hvalue]
  rw [normalize, ← forM_eq_ok_iff]
  cases validateNamed .channel c.name c.owner with
  | error e => exact ⟨by rintro ⟨⟩, by rintro ⟨-, ⟨⟩, -⟩⟩
  | ok _ =>
    change (do
      c.dedup.properties.forM fun p => do
        let _ ← validateValue p.name c.dedup.name (some p.value)
      return c.dedup : Except ValidationError Channel) = .ok normal ↔ _
    cases c.dedup.properties.forM fun p => do
        let _ ← validateValue p.name c.dedup.name (some p.value) with
    | error e => exact ⟨by rintro ⟨⟩, by rintro ⟨-, -, ⟨⟩⟩⟩
    | ok _ =>
      rw [and_iff_left ⟨rfl, rfl⟩]
      exact ⟨fun h => (Except.ok.inj h).symm, fun h => h ▸ rfl⟩

/-- A channel that passes is left with one reference for each name. -/
theorem Channel.normalize_ok {c normal : Channel} (h : c.normalize = .ok normal) :
    normal = c.dedup ∧ validateNamed .channel c.name c.owner = .ok () :=
  (Channel.normalize_eq_ok_iff.mp h).imp_right And.left

/-- A channel passes exactly if it is valid on its own. -/
theorem Channel.normalize_eq_ok_iff_valid {c normal : Channel} :
    c.normalize = .ok normal ↔ normal = c.dedup ∧ c.Valid := by
  rw [normalize_eq_ok_iff, validateNamed_eq_ok_iff_valid]
  have hproperties : c.dedup.properties = lastRefs c.properties :=
    dedupRefs_eq_lastRefs c.properties
  rw [hproperties]
  refine and_congr_right fun _ => ?_
  constructor
  · rintro ⟨⟨hname, howner⟩, hvalues⟩
    exact ⟨hname, howner, hvalues⟩
  · rintro ⟨hname, howner, hvalues⟩
    exact ⟨⟨hname, howner⟩, hvalues⟩

/-- Channels are checked one by one. -/
theorem Channel.mapM_normalize_eq_ok_iff {channels normals : List Channel} :
    channels.mapM Channel.normalize = .ok normals ↔
      normals = channels.map Channel.dedup ∧ ∀ c ∈ channels, c.Valid := by
  rw [mapM_eq_ok_iff]
  simp only [normalize_eq_ok_iff_valid]
  induction channels generalizing normals with
  | nil => simp
  | cons c channels ih =>
    rw [List.forall₂_cons_left_iff]
    simp only [ih, List.map_cons, List.forall_mem_cons]
    constructor
    · rintro ⟨_, _, ⟨rfl, hvalid⟩, ⟨rfl, hall⟩, rfl⟩
      exact ⟨rfl, hvalid, hall⟩
    · rintro ⟨rfl, hvalid, hall⟩
      exact ⟨_, _, ⟨rfl, hvalid⟩, ⟨rfl, hall⟩, rfl⟩

/-- Channels that all pass their checks are kept, each with the last reference of every name. -/
theorem Channel.mapM_normalize_ok {channels normals : List Channel}
    (h : channels.mapM Channel.normalize = .ok normals) :
    normals = channels.map Channel.dedup ∧
      ∀ c ∈ channels, validateNamed .channel c.name c.owner = .ok () := by
  obtain ⟨hnormals, hvalid⟩ := mapM_normalize_eq_ok_iff.mp h
  exact ⟨hnormals, fun c hc =>
    validateNamed_eq_ok_iff_valid.mpr ⟨(hvalid c hc).name, (hvalid c hc).owner⟩⟩

/-- A valid owner is not empty. -/
theorem owner_ne_empty {kind : RecordKind} {name owner : String}
    (h : validateNamed kind name owner = .ok ()) : owner ≠ "" := by
  rintro rfl
  obtain ⟨-, howner⟩ := validateNamed_eq_ok_iff.mp h
  cases howner

theorem Channel.distinct_dedup (c : Channel) : c.dedup.Distinct :=
  ⟨distinctRefs_dedupRefs c.tags, distinctRefs_dedupRefs c.properties⟩

namespace Directory

variable {dir : Directory} {s : Store} {b : Backend}

/-- The owners of all tags and properties that are stored. -/
def owners (dir : Directory) (s : Store) : Owners where
  tags := (dir.tags.contents s).mapValues fun _ t => t.owner
  properties := (dir.properties.contents s).mapValues fun _ p => p.owner

/-- All tags and properties that a channel refers to are stored. -/
def Knows (dir : Directory) (s : Store) (c : Channel) : Prop :=
  (∀ ref ∈ c.tags, ∃ tag, (dir.tags.contents s).get? ref.name = some tag) ∧
    ∀ ref ∈ c.properties, ∃ property, (dir.properties.contents s).get? ref.name = some property

theorem readOnly_ownersOf (dir : Directory) (α : Type) {ρ : Type} [Attribute α ρ]
    (names : List String) : (dir.ownersOf α names).ReadOnly :=
  ((dir.records α).readOnly_findAll names).bind fun _ => trivial

/-- Reading the owners for some channels changes nothing. -/
theorem readOnly_ownersFor (dir : Directory) (channels : List Channel) :
    (dir.ownersFor channels).ReadOnly := by
  refine (dir.readOnly_ownersOf Tag _).bind fun tags => ?_
  split
  · trivial
  · refine (dir.readOnly_ownersOf Property _).bind fun properties => ?_
    split <;> trivial

theorem readOnly_prepare (dir : Directory) (c : Channel) : (dir.prepare c).ReadOnly :=
  (readOnly_check _).bind fun _ => (dir.readOnly_ownersFor _).bind fun _ => trivial

theorem readOnly_prepareAll (dir : Directory) (channels : List Channel) :
    (dir.prepareAll channels).ReadOnly :=
  (readOnly_check _).bind fun _ => (dir.readOnly_ownersFor _).bind fun _ => trivial

theorem mem_refNames_iff {ρ : Type} [Reference ρ] {refs : List ρ} {name : String} :
    name ∈ refNames refs ↔ ∃ ref ∈ refs, Reference.name ref = name :=
  KeySet.mem_keys_ofList.trans List.mem_map

theorem mem_refNames {ρ : Type} [Reference ρ] {refs : List ρ} {ref : ρ} (h : ref ∈ refs) :
    Reference.name ref ∈ refNames refs :=
  mem_refNames_iff.mpr ⟨ref, h, rfl⟩

/-- If no name is found to be missing, all of them are there. -/
theorem get?_of_firstUnbound {α : Type} {names : List String} {m : KeyMap α}
    (h : firstUnbound names m = none) {name : String} (hname : name ∈ names) :
    ∃ value, m.get? name = some value := by
  have hbound := List.find?_eq_none.mp h name hname
  exact KeyMap.contains_iff.mp (by simpa using hbound)

/-- The owners of the records that exist among some names. -/
theorem returns_ownersOf {α ρ : Type} [Attribute α ρ] [LawfulEntity α]
    (wf : (dir.records α).HoldsOnly (fun _ => True) b.store) {names : List String}
    {found : KeyMap String} (h : (dir.ownersOf α names).Returns b found) (name : String) :
    found.get? name =
      if name ∈ names then (((dir.records α).contents b.store).get? name).map owner else none := by
  obtain ⟨records, hrecords, h⟩ := (returns_bind ((dir.records α).readOnly_findAll names)).mp h
  obtain ⟨-, rfl⟩ := (returns_findAll wf).mp hrecords
  rw [returns_done.mp h]
  exact wf.get?_ofList_found names owner name

/-- Of names that are all bound, each has a record, and its owner is what was found. -/
theorem get?_owner_of_bound {α ρ : Type} [Attribute α ρ] {names : List String}
    {found : KeyMap String}
    (hfound : ∀ name, found.get? name =
      if name ∈ names then (((dir.records α).contents s).get? name).map owner else none)
    (hbound : firstUnbound names found = none) {name : String} (hname : name ∈ names) :
    (∃ record, ((dir.records α).contents s).get? name = some record) ∧
      found.get? name = (((dir.records α).contents s).get? name).map owner := by
  obtain ⟨value, hvalue⟩ := get?_of_firstUnbound hbound hname
  have hget := hfound name
  rw [if_pos hname] at hget
  refine ⟨?_, hget⟩
  rw [hget] at hvalue
  obtain ⟨record, hrecord, -⟩ := Option.map_eq_some_iff.mp hvalue
  exact ⟨record, hrecord⟩

/-- The owners of records that are all there are read. -/
theorem exists_returns_ownersOf {α ρ : Type} [Attribute α ρ] [LawfulEntity α]
    (wf : (dir.records α).HoldsOnly (fun _ => True) b.store) (havail : b.available = true)
    (names : List String)
    (hknown : ∀ name ∈ names, ∃ record,
      ((dir.records α).contents b.store).get? name = some record) :
    ∃ found, (dir.ownersOf α names).Returns b found ∧ firstUnbound names found = none := by
  obtain ⟨found, hfound⟩ : ∃ found, (dir.ownersOf α names).Returns b found :=
    ⟨_, (returns_bind ((dir.records α).readOnly_findAll names)).mpr
      ⟨_, (returns_findAll wf).mpr ⟨.inr havail, rfl⟩, returns_done.mpr rfl⟩⟩
  refine ⟨found, hfound, List.find?_eq_none.mpr fun name hname => ?_⟩
  obtain ⟨record, hrecord⟩ := hknown name hname
  have hbound : found.contains name = true := by
    rw [KeyMap.contains, returns_ownersOf wf hfound, if_pos hname, hrecord]
    rfl
  simp [hbound]

/-- The owners that are read for channels are those that are stored. -/
theorem returns_ownersFor (wf : dir.WellFormed b.store) {channels : List Channel} {found : Owners}
    (h : (dir.ownersFor channels).Returns b found) {c : Channel} (hc : c ∈ channels) :
    dir.Knows b.store c ∧ found.stamp c = (dir.owners b.store).stamp c := by
  obtain ⟨tags, htags, h⟩ := (returns_bind (dir.readOnly_ownersOf Tag _)).mp h
  split at h
  · exact absurd h returns_fail
  · rename_i htagsBound
    obtain ⟨properties, hproperties, h⟩ := (returns_bind (dir.readOnly_ownersOf Property _)).mp h
    split at h
    · exact absurd h returns_fail
    · rename_i hpropertiesBound
      obtain rfl := returns_done.mp h
      have htag := fun ref (href : ref ∈ c.tags) =>
        get?_owner_of_bound (returns_ownersOf wf.tags htags) htagsBound
          (mem_refNames (List.mem_flatMap.mpr ⟨c, hc, href⟩))
      have hproperty := fun ref (href : ref ∈ c.properties) =>
        get?_owner_of_bound (returns_ownersOf wf.properties hproperties) hpropertiesBound
          (mem_refNames (List.mem_flatMap.mpr ⟨c, hc, href⟩))
      refine ⟨⟨fun ref href => (htag ref href).1, fun ref href => (hproperty ref href).1⟩, ?_⟩
      have hstampTags : stampRefs tags c.tags = stampRefs (dir.owners b.store).tags c.tags :=
        stampRefs_congr fun ref href => by
          rw [(htag ref href).2, owners, KeyMap.get?_mapValues]
          rfl
      have hstampProperties : stampRefs properties c.properties =
          stampRefs (dir.owners b.store).properties c.properties :=
        stampRefs_congr fun ref href => by
          rw [(hproperty ref href).2, owners, KeyMap.get?_mapValues]
          rfl
      rw [Owners.stamp, Owners.stamp, hstampTags, hstampProperties]

/-- The owners are read for channels that refer to stored records only. -/
theorem exists_returns_ownersFor (wf : dir.WellFormed b.store) (havail : b.available = true)
    (channels : List Channel) (knows : ∀ c ∈ channels, dir.Knows b.store c) :
    ∃ found, (dir.ownersFor channels).Returns b found := by
  obtain ⟨tags, htags, htagsBound⟩ := exists_returns_ownersOf (α := Tag)
    wf.tags havail (refNames (channels.flatMap Channel.tags)) fun name hname => by
      obtain ⟨ref, href, rfl⟩ := mem_refNames_iff.mp hname
      obtain ⟨c, hc, href⟩ := List.mem_flatMap.mp href
      exact (knows c hc).1 ref href
  obtain ⟨properties, hproperties, hpropertiesBound⟩ := exists_returns_ownersOf (α := Property)
    wf.properties havail (refNames (channels.flatMap Channel.properties)) fun name hname => by
      obtain ⟨ref, href, rfl⟩ := mem_refNames_iff.mp hname
      obtain ⟨c, hc, href⟩ := List.mem_flatMap.mp href
      exact (knows c hc).2 ref href
  refine ⟨⟨tags, properties⟩, (returns_bind (dir.readOnly_ownersOf Tag _)).mpr ⟨tags, htags, ?_⟩⟩
  rw [htagsBound]
  refine (returns_bind (dir.readOnly_ownersOf Property _)).mpr ⟨properties, hproperties, ?_⟩
  rw [hpropertiesBound]
  exact returns_done.mpr rfl

/-! ## Prepared channels -/

/-- The channel has one reference for each name, and each of them names a record that exists and
carries its owner. -/
structure Ready (dir : Directory) (s : Store) (c : Channel) : Prop where
  distinct : c.Distinct
  tags : dir.Backs Tag s c
  properties : dir.Backs Property s c

/-- References to known records carry their owners when they are stamped with them. -/
theorem exists_owner_of_mem_stampRefs {α ρ : Type} [Attribute α ρ] [Reference ρ]
    [LawfulReference ρ] {records : KeyMap α} {refs : List ρ}
    (hknown : ∀ ref ∈ refs, ∃ record, records.get? (Reference.name ref) = some record) {ref : ρ}
    (href : ref ∈ stampRefs (records.mapValues fun _ r => owner r) refs) :
    ∃ record, records.get? (Reference.name ref) = some record ∧
      owner record = Reference.owner ref := by
  obtain ⟨plain, hplain, rfl⟩ := List.mem_map.mp href
  obtain ⟨record, hrecord⟩ := hknown plain hplain
  have howner : (records.mapValues fun _ r => owner r).get? (Reference.name plain) =
      some (owner record) := by
    rw [KeyMap.get?_mapValues, hrecord, Option.map_some]
  refine ⟨record, ?_, ?_⟩
  · exact (congrArg records.get? (name_stampRef _ plain)).trans hrecord
  · exact (owner_stampRef howner).symm

/-- A channel without doubles whose records are there is ready once it is stamped. -/
theorem ready_stamp {c : Channel} (distinct : c.Distinct) (knows : dir.Knows s c) :
    dir.Ready s ((dir.owners s).stamp c) where
  distinct := ⟨distinctRefs_stampRefs distinct.1, distinctRefs_stampRefs distinct.2⟩
  tags _ href := exists_owner_of_mem_stampRefs knows.1 href
  properties _ href := exists_owner_of_mem_stampRefs knows.2 href

/-- A channel that is prepared has been checked, its records are there, and it carries their
owners. -/
theorem returns_prepare (wf : dir.WellFormed b.store) {c prepared : Channel}
    (h : (dir.prepare c).Returns b prepared) :
    ∃ normal, c.normalize = .ok normal ∧ dir.Knows b.store normal ∧
      prepared = (dir.owners b.store).stamp normal := by
  obtain ⟨normal, hnormal, h⟩ := (returns_bind (readOnly_check _)).mp h
  obtain ⟨found, hfound, h⟩ := (returns_bind (dir.readOnly_ownersFor _)).mp h
  obtain ⟨knows, hstamp⟩ := returns_ownersFor wf hfound (List.mem_singleton_self normal)
  refine ⟨normal, returns_check.mp hnormal, knows, ?_⟩
  rw [returns_done.mp h, hstamp]

/-- Channels that are prepared have been checked, of each name the last is left, and these carry the
owners of their records. -/
theorem returns_prepareAll (wf : dir.WellFormed b.store) {channels prepared : List Channel}
    (h : (dir.prepareAll channels).Returns b prepared) :
    ∃ normals, channels.mapM Channel.normalize = .ok normals ∧
      (∀ c ∈ (KeyMap.ofList (normals.map fun c => (c.name, c))).values, dir.Knows b.store c) ∧
      prepared = (KeyMap.ofList (normals.map fun c => (c.name, c))).values.map
        (dir.owners b.store).stamp := by
  obtain ⟨normals, hnormals, h⟩ := (returns_bind (readOnly_check _)).mp h
  obtain ⟨found, hfound, h⟩ := (returns_bind (dir.readOnly_ownersFor _)).mp h
  refine ⟨normals, returns_check.mp hnormals, fun c hc => (returns_ownersFor wf hfound hc).1, ?_⟩
  rw [returns_done.mp h]
  exact List.map_congr_left fun c hc => (returns_ownersFor wf hfound hc).2

/-- A channel that passes its checks and refers to stored records only is prepared. -/
theorem returns_prepare_of_knows (wf : dir.WellFormed b.store) (havail : b.available = true)
    {c normal : Channel} (hnormal : c.normalize = .ok normal) (knows : dir.Knows b.store normal) :
    (dir.prepare c).Returns b ((dir.owners b.store).stamp normal) := by
  obtain ⟨found, hfound⟩ := exists_returns_ownersFor wf havail [normal]
    fun c hc => List.mem_singleton.mp hc ▸ knows
  refine (returns_bind (readOnly_check _)).mpr ⟨normal, returns_check.mpr hnormal, ?_⟩
  refine (returns_bind (dir.readOnly_ownersFor _)).mpr ⟨found, hfound, returns_done.mpr ?_⟩
  exact (returns_ownersFor wf hfound (List.mem_singleton_self normal)).2.symm

/-- Valid channels whose records are there are prepared. -/
theorem returns_prepareAll_of_knows (wf : dir.WellFormed b.store) (havail : b.available = true)
    {channels normals : List Channel} (hnormals : channels.mapM Channel.normalize = .ok normals)
    (knows : ∀ c ∈ (KeyMap.ofList (normals.map fun c => (c.name, c))).values,
      dir.Knows b.store c) :
    (dir.prepareAll channels).Returns b
      ((KeyMap.ofList (normals.map fun c => (c.name, c))).values.map
        (dir.owners b.store).stamp) := by
  obtain ⟨found, hfound⟩ := exists_returns_ownersFor wf havail _ knows
  refine (returns_bind (readOnly_check _)).mpr ⟨normals, returns_check.mpr hnormals, ?_⟩
  refine (returns_bind (dir.readOnly_ownersFor _)).mpr ⟨found, hfound, returns_done.mpr ?_⟩
  exact List.map_congr_left fun c hc => (returns_ownersFor wf hfound hc).2.symm

/-- A prepared channel is ready. -/
theorem ready_of_returns_prepare (wf : dir.WellFormed b.store) {c prepared : Channel}
    (h : (dir.prepare c).Returns b prepared) : dir.Ready b.store prepared := by
  obtain ⟨normal, hnormal, knows, rfl⟩ := returns_prepare wf h
  rw [(Channel.normalize_ok hnormal).1] at knows ⊢
  exact ready_stamp c.distinct_dedup knows

/-- All prepared channels are ready. -/
theorem ready_of_returns_prepareAll (wf : dir.WellFormed b.store)
    {channels prepared : List Channel} (h : (dir.prepareAll channels).Returns b prepared)
    {c : Channel} (hc : c ∈ prepared) : dir.Ready b.store c := by
  obtain ⟨normals, hnormals, knows, rfl⟩ := returns_prepareAll wf h
  obtain ⟨rfl, -⟩ := Channel.mapM_normalize_ok hnormals
  obtain ⟨normal, hnormal, rfl⟩ := List.mem_map.mp hc
  obtain ⟨key, hkey⟩ := KeyMap.mem_values_iff.mp hnormal
  obtain ⟨normal', hmem, -, rfl⟩ := KeyMap.mem_of_get?_ofList_map hkey
  obtain ⟨channel, -, rfl⟩ := List.mem_map.mp hmem
  exact ready_stamp channel.distinct_dedup (knows _ hnormal)

end Directory

end ChannelDirectory

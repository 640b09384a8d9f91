import ChannelDirectory.Proofs.Directory.Merging
import ChannelDirectory.Proofs.Store.Batches

/-!
# Which channels are written, and how

A channel can be written if it is valid on its own and the tags and properties it refers to are
stored (`Channel.Valid`, `Directory.Knows`). What is written has the last reference of every name,
with the owner of the record that it names (`Directory.Stamps`).

Many channels can be created exactly if all of them are valid, and of each name the last one refers
to stored records only. A channel can be updated exactly if it is there, and what the request makes
of it can be written. What is written then is the last channel of a name, and the merged channel
(`Directory.channels_checked`).
-/

namespace ChannelDirectory

open Attribute Collection Program

/-! ## Stamped channels -/

/-- The reference with the owner of the record that it names. -/
def StampsRef {α ρ : Type} [Attribute α ρ] [Reference ρ] (records : KeyMap α)
    (ref written : ρ) : Prop :=
  ∃ record, records.get? (Reference.name ref) = some record ∧
    written = withOwner ref (owner record)

/-- References to stored records are stamped one by one. -/
theorem forall₂_stampRefs {α ρ : Type} [Attribute α ρ] [Reference ρ] {records : KeyMap α}
    {refs : List ρ}
    (hknown : ∀ ref ∈ refs, ∃ record, records.get? (Reference.name ref) = some record) :
    List.Forall₂ (StampsRef records) refs
      (stampRefs (records.mapValues fun _ r => owner r) refs) := by
  rw [stampRefs_eq_map, List.forall₂_map_right_iff, List.forall₂_same]
  intro ref href
  obtain ⟨record, hrecord⟩ := hknown ref href
  refine ⟨record, hrecord, ?_⟩
  rw [stampRef, KeyMap.get?_mapValues, hrecord]
  rfl

/-- The references that are left of some others name what those name. -/
theorem forall_lastRefs_iff {ρ : Type} [Reference ρ] {refs : List ρ} {P : String → Prop} :
    (∀ ref ∈ lastRefs refs, P (Reference.name ref)) ↔ ∀ ref ∈ refs, P (Reference.name ref) := by
  have hnames : ∀ refs : List ρ, (∀ ref ∈ refs, P (Reference.name ref)) ↔
      ∀ name ∈ refs.map Reference.name, P name := fun refs => List.forall_mem_map.symm
  simp only [hnames, mem_names_lastRefs_iff]

namespace Directory

variable {dir : Directory} {s : Store} {b b' : Backend}

/-- What is written for a channel : the last reference of every name, in the order in which these
came, each with the owner of the record that it names. -/
structure Stamps (dir : Directory) (s : Store) (c written : Channel) : Prop where
  name : written.name = c.name
  owner : written.owner = c.owner
  tags : List.Forall₂ (StampsRef (dir.tags.contents s)) (lastRefs c.tags) written.tags
  properties : List.Forall₂ (StampsRef (dir.properties.contents s)) (lastRefs c.properties)
    written.properties

/-- Whether the records of a channel are there does not depend on references that are given
twice. -/
theorem knows_dedup_iff {c : Channel} : dir.Knows s c.dedup ↔ dir.Knows s c := by
  have htags : c.dedup.tags = lastRefs c.tags := dedupRefs_eq_lastRefs c.tags
  have hproperties : c.dedup.properties = lastRefs c.properties :=
    dedupRefs_eq_lastRefs c.properties
  rw [Knows, Knows, htags, hproperties]
  exact and_congr
    (forall_lastRefs_iff (P := fun name => ∃ tag, (dir.tags.contents s).get? name = some tag))
    (forall_lastRefs_iff
      (P := fun name => ∃ property, (dir.properties.contents s).get? name = some property))

/-- What is written for a channel whose records are there has the owners of these records. -/
theorem stamps_stamp_dedup {c : Channel} (knows : dir.Knows s c) :
    dir.Stamps s c ((dir.owners s).stamp c.dedup) := by
  obtain ⟨htags, hproperties⟩ := knows_dedup_iff.mpr knows
  refine ⟨rfl, rfl, ?_, ?_⟩
  · rw [← dedupRefs_eq_lastRefs]
    exact forall₂_stampRefs htags
  · rw [← dedupRefs_eq_lastRefs]
    exact forall₂_stampRefs hproperties

/-! ## Preparing -/

/-- A channel is prepared exactly if it is valid on its own and its records are there. -/
theorem returns_prepare_iff (wf : dir.WellFormed b.store) (havail : b.available = true)
    {c prepared : Channel} : (dir.prepare c).Returns b prepared ↔
      c.Valid ∧ dir.Knows b.store c ∧ prepared = (dir.owners b.store).stamp c.dedup := by
  constructor
  · intro h
    obtain ⟨normal, hnormal, knows, hprepared⟩ := returns_prepare wf h
    obtain ⟨rfl, hvalid⟩ := Channel.normalize_eq_ok_iff_valid.mp hnormal
    exact ⟨hvalid, knows_dedup_iff.mp knows, hprepared⟩
  · rintro ⟨hvalid, knows, rfl⟩
    exact returns_prepare_of_knows wf havail
      (Channel.normalize_eq_ok_iff_valid.mpr ⟨rfl, hvalid⟩) (knows_dedup_iff.mpr knows)

/-! ## Creating many channels -/

/-- All channels are valid, and of each name the last one refers to stored records only. -/
structure CanCreate (dir : Directory) (s : Store) (channels : List Channel) : Prop where
  valid : ∀ c ∈ channels, c.Valid
  knows : ∀ name last, (requestsOf channels name).getLast? = some last → dir.Knows s last

/-- The last channel of every name, with the last reference of every name. -/
def lastNormals (channels : List Channel) : KeyMap Channel :=
  KeyMap.ofList ((channels.map Channel.dedup).map fun c => (c.name, c))

/-- Of each name the last channel is left. -/
theorem get?_lastNormals (channels : List Channel) (name : String) :
    (lastNormals channels).get? name =
      (requestsOf channels name).getLast?.map Channel.dedup := by
  rw [lastNormals, KeyMap.get?_ofList_map_self, List.filter_map, List.getLast?_map]
  rfl

theorem keys_lastNormals (channels : List Channel) :
    (lastNormals channels).keys = (lastNormals channels).values.map Channel.name :=
  KeyMap.keys_ofList_map_self _ Channel.name

/-- No name is lost when only the last channel of each is left. -/
theorem mem_keys_lastNormals_iff {channels : List Channel} {name : String} :
    name ∈ (lastNormals channels).keys ↔ name ∈ channels.map Channel.name := by
  rw [← exists_getLast?_requestsOf, KeyMap.mem_keys_iff]
  simp only [get?_lastNormals, Option.map_eq_some_iff]
  constructor
  · rintro ⟨_, last, hlast, -⟩
    exact ⟨last, hlast⟩
  · rintro ⟨last, hlast⟩
    exact ⟨_, last, hlast, rfl⟩

/-- Channels are prepared if all of them are valid, and those that are left refer to stored records
only. The others of a name are not looked up. -/
theorem returns_prepareAll_iff (wf : dir.WellFormed b.store) (havail : b.available = true)
    {channels prepared : List Channel} : (dir.prepareAll channels).Returns b prepared ↔
      dir.CanCreate b.store channels ∧
        prepared = (lastNormals channels).values.map (dir.owners b.store).stamp := by
  have hknows : (∀ normal ∈ (lastNormals channels).values, dir.Knows b.store normal) ↔
      ∀ name last, (requestsOf channels name).getLast? = some last → dir.Knows b.store last := by
    simp only [KeyMap.mem_values_iff, get?_lastNormals, Option.map_eq_some_iff]
    constructor
    · intro h name last hlast
      exact knows_dedup_iff.mp (h _ ⟨name, last, hlast, rfl⟩)
    · rintro h _ ⟨name, last, hlast, rfl⟩
      exact knows_dedup_iff.mpr (h name last hlast)
  constructor
  · intro h
    obtain ⟨normals, hnormals, knows, hprepared⟩ := returns_prepareAll wf h
    obtain ⟨rfl, hvalid⟩ := Channel.mapM_normalize_eq_ok_iff.mp hnormals
    exact ⟨⟨hvalid, hknows.mp knows⟩, hprepared⟩
  · rintro ⟨can, rfl⟩
    exact returns_prepareAll_of_knows wf havail
      (Channel.mapM_normalize_eq_ok_iff.mpr ⟨rfl, can.valid⟩) (hknows.mpr can.knows)

/-- A create ends with the channels that it has prepared and put. -/
theorem run_createChannels_iff (wf : dir.WellFormed b.store) (havail : b.available = true)
    {channels answer : List Channel} :
    (dir.createChannels channels).run b = (.ok answer, b') ↔
      (dir.prepareAll channels).Returns b answer ∧
        b' = b.after (answer.map dir.channels.putOp) := by
  rw [createChannels_eq, Write.run_eq_ok_iff]
  have hstored : ∀ prepared : List Channel, prepared.map Entity.stored = prepared :=
    fun prepared => List.map_id prepared
  constructor
  · rintro ⟨batch, hbatch, -, -, rfl, hanswer⟩
    obtain ⟨prepared, hprepared, rfl⟩ := returns_createAllWrite_plan_iff.mp hbatch
    obtain rfl : answer = prepared := (returns_done.mp hanswer).trans (hstored prepared)
    exact ⟨hprepared, rfl⟩
  · rintro ⟨hprepared, rfl⟩
    have hplan := returns_createAllWrite_plan_iff.mpr ⟨answer, hprepared, rfl⟩
    have hops := channelOps_createAllWrite wf hplan
    exact ⟨_, hplan, Or.inr havail,
      Store.isSuccess_summary_of_no_replace _ fun op => hops.action_ne, rfl,
      returns_done.mpr (hstored answer).symm⟩

/-- What a create of many channels does to a store, and what it answers. -/
structure CreatesLast (dir : Directory) (channels : List Channel) (s s' : Store)
    (answer : List Channel) : Prop where
  named : ∀ name last, (requestsOf channels name).getLast? = some last → ∃ written,
    dir.Stamps s last written ∧ (dir.channels.contents s').get? name = some written ∧
      written ∈ answer
  answered : ∀ name, name ∈ answer.map Channel.name ↔ name ∈ channels.map Channel.name
  ascending : (answer.map Channel.name).Pairwise (· < ·)
  unnamed : ∀ name, name ∉ channels.map Channel.name →
    s'.get? dir.config.channelIndex name = s.get? dir.config.channelIndex name
  others : ∀ index, index ≠ dir.config.channelIndex → s'.documents index = s.documents index

/-- The documents of channels that are not put stay. -/
theorem get?_after_puts_of_ne (s : Store) {channels : List Channel} {name : String}
    (hname : name ∉ channels.map Channel.name) :
    (s.after (channels.map dir.channels.putOp)).get? dir.config.channelIndex name =
      s.get? dir.config.channelIndex name := by
  refine Store.get?_after_of_ne s fun op hop hsame => hname ?_
  obtain ⟨c, hc, rfl⟩ := List.mem_map.mp hop
  exact List.mem_map.mpr ⟨c, hc, hsame.2⟩

/-- A create that succeeds has written the last channel of each name, and answers with what it has
written. -/
theorem createsLast (wf : dir.WellFormed b.store) (havail : b.available = true)
    {channels answer : List Channel}
    (h : (dir.createChannels channels).run b = (.ok answer, b')) :
    dir.CreatesLast channels b.store b'.store answer := by
  obtain ⟨hprepared, rfl⟩ := (run_createChannels_iff wf havail).mp h
  obtain ⟨can, hanswer⟩ := (returns_prepareAll_iff wf havail).mp hprepared
  have hplan := returns_createAllWrite_plan_iff.mpr ⟨answer, hprepared, rfl⟩
  have hnames : answer.map Channel.name = (lastNormals channels).keys := by
    rw [keys_lastNormals, hanswer, List.map_map]
    rfl
  have hanswered : ∀ name, name ∈ answer.map Channel.name ↔ name ∈ channels.map Channel.name := by
    intro name
    rw [hnames, mem_keys_lastNormals_iff]
  refine ⟨fun name last hlast => ?_, hanswered, ?_, fun name hname => ?_, fun index hindex => ?_⟩
  · refine ⟨_, stamps_stamp_dedup (can.knows name last hlast), ?_, ?_⟩
    · refine ((returns_createAllWrite wf hplan).2 name).trans ?_
      rw [← requestsOf, hlast]
      rfl
    · rw [hanswer]
      refine List.mem_map_of_mem (KeyMap.mem_values_iff.mpr ⟨name, ?_⟩)
      rw [get?_lastNormals, hlast]
      rfl
  · rw [hnames]
    exact (lastNormals channels).keys_ascending
  · exact get?_after_puts_of_ne b.store (mt (hanswered name).mp hname)
  · exact (channelOps_createAllWrite wf hplan).documents_eq hindex

/-! ## Updating a channel -/

/-- What a request makes of the channel that exists under a name : the request is merged into it,
and renames it if it has a name. -/
def updated (name : String) (existing request : Channel) : Channel :=
  { existing.merge request with name := if request.name = "" then name else request.name }

/-- The channel is there, and what the request makes of it can be written. -/
def CanUpdate (dir : Directory) (s : Store) (name : String) (request : Channel) : Prop :=
  ∃ existing, (dir.channels.contents s).get? name = some existing ∧
    (updated name existing request).Valid ∧ dir.Knows s (updated name existing request)

/-- What an update of a channel to another one does to a store, and what it answers. -/
structure UpdatesOne (dir : Directory) (name : String) (c : Channel) (s s' : Store)
    (answer : Channel) : Prop where
  written : dir.Stamps s c answer
  stored : (dir.channels.contents s').get? c.name = some answer
  renamed : c.name ≠ name → s'.get? dir.config.channelIndex name = none
  unnamed : ∀ other, other ≠ name → other ≠ c.name →
    s'.get? dir.config.channelIndex other = s.get? dir.config.channelIndex other
  others : ∀ index, index ≠ dir.config.channelIndex → s'.documents index = s.documents index

/-- The writes of an update : the old document goes if the channel is renamed. -/
def channelUpdateOps (dir : Directory) (name : String) (c : Channel) : List Operation :=
  (if c.name ≠ name then [dir.channels.deleteOp name] else []) ++ [dir.channels.putOp c]

/-- An update succeeds exactly if the channel is there and what the request makes of it can be
prepared ; it puts this, and deletes the old document if the name has changed. -/
theorem run_updateChannel_iff (wf : dir.WellFormed b.store) (havail : b.available = true)
    {name : String} {request answer : Channel} :
    (dir.updateChannel name request).run b = (.ok answer, b') ↔
      ∃ existing, (dir.channels.contents b.store).get? name = some existing ∧
        (dir.prepare (updated name existing request)).Returns b answer ∧
        b' = b.after (dir.channelUpdateOps name answer) := by
  -- The plan decides on the new name, and the writes on the name of what is prepared.
  have hname : ∀ {existing prepared},
      (dir.prepare (updated name existing request)).Returns b prepared →
      prepared.name = if request.name = "" then name else request.name := by
    intro existing prepared h
    obtain ⟨-, -, rfl⟩ := (returns_prepare_iff wf havail).mp h
    rfl
  rw [updateChannel_eq, Write.run_eq_ok_iff]
  constructor
  · rintro ⟨batch, hbatch, -, -, rfl, hanswer⟩
    obtain ⟨existing, prepared, hexisting, hprepared, rfl⟩ := returns_updateWrite_plan_iff.mp hbatch
    obtain rfl : answer = prepared := returns_done.mp hanswer
    refine ⟨existing, ((returns_require wf.channels).mp hexisting).2, hprepared, ?_⟩
    rw [channelUpdateOps, hname hprepared]
  · rintro ⟨existing, hexisting, hprepared, rfl⟩
    have hplan := returns_updateWrite_plan_iff.mpr ⟨existing, answer,
      (returns_require wf.channels).mpr ⟨havail, hexisting⟩, hprepared, rfl⟩
    have hops := channelOps_updateWrite wf hplan
    rw [channelUpdateOps, hname hprepared]
    exact ⟨_, hplan, Or.inr havail,
      Store.isSuccess_summary_of_no_replace _ fun op => hops.action_ne, rfl, returns_done.mpr rfl⟩

/-- After an update the channel is stored under its new name only. -/
theorem contents_after_channelUpdateOps (dir : Directory) (s : Store) (name : String)
    (c : Channel) :
    dir.channels.contents (s.after (dir.channelUpdateOps name c)) =
      (if c.name ≠ name then (dir.channels.contents s).erase name
        else dir.channels.contents s).insert c.name c := by
  rw [channelUpdateOps, Store.after_append, Store.after_cons, Store.after_nil, contents_apply_putOp]
  split
  · rw [Store.after_cons, Store.after_nil, contents_apply_deleteOp]
    rfl
  · rfl

/-- An update that succeeds has written the merged channel, and has left nothing under an old
name. -/
theorem updatesOne (wf : dir.WellFormed b.store) (havail : b.available = true) {name : String}
    {request answer : Channel} (h : (dir.updateChannel name request).run b = (.ok answer, b')) :
    ∃ existing, (dir.channels.contents b.store).get? name = some existing ∧
      dir.UpdatesOne name (updated name existing request) b.store b'.store answer := by
  obtain ⟨existing, hexisting, hprepared, rfl⟩ := (run_updateChannel_iff wf havail).mp h
  have hops : dir.ChannelOps b.store (dir.channelUpdateOps name answer) :=
    (channelOps_rename name _).append (channelOps_put (ready_of_returns_prepare wf hprepared))
  obtain ⟨-, knows, hanswer⟩ := (returns_prepare_iff wf havail).mp hprepared
  have written : dir.Stamps b.store (updated name existing request) answer := by
    rw [hanswer]
    exact stamps_stamp_dedup knows
  have holds : dir.channels.HoldsOnly Channel.Distinct
      (b.store.after (dir.channelUpdateOps name answer)) :=
    wf.channels.after fun op => hops.writesOnly fun c hc => hc.distinct
  have hget := fun id =>
    congrArg (KeyMap.get? · id) (contents_after_channelUpdateOps dir b.store name answer)
  simp only [KeyMap.get?_insert, written.name] at hget
  refine ⟨existing, hexisting, written, ?_, fun hne => ?_, fun other hother hnew => ?_,
    fun index hindex => hops.documents_eq hindex⟩
  · exact (hget _).trans (if_pos rfl)
  · -- The put is under the new name, so the delete of the old one is not undone.
    refine (holds.get?_store name).trans ?_
    rw [hget, if_neg (Ne.symm hne), if_pos hne, KeyMap.get?_erase, if_pos rfl]
    rfl
  · refine (holds.get?_store other).trans ((wf.channels.get?_store other).trans ?_).symm
    rw [hget, if_neg hnew]
    split
    · rw [KeyMap.get?_erase, if_neg hother]
    · rfl

/-! ## Both writes -/

/-- Which requests to write channels succeed, and what they lead to. -/
structure ChecksChannels (dir : Directory) (b : Backend) : Prop where
  create_iff : ∀ channels : List Channel,
    (∃ answer b', (dir.createChannels channels).run b = (.ok answer, b')) ↔
      dir.CanCreate b.store channels
  creates : ∀ (channels answer : List Channel) (b' : Backend),
    (dir.createChannels channels).run b = (.ok answer, b') →
      dir.CreatesLast channels b.store b'.store answer
  update_iff : ∀ (name : String) (request : Channel),
    (∃ answer b', (dir.updateChannel name request).run b = (.ok answer, b')) ↔
      dir.CanUpdate b.store name request
  updates : ∀ (name : String) (request answer : Channel) (b' : Backend),
    (dir.updateChannel name request).run b = (.ok answer, b') →
      ∃ existing, (dir.channels.contents b.store).get? name = some existing ∧
        dir.UpdatesOne name (updated name existing request) b.store b'.store answer

/-- Channels are written exactly if they can be, and then the last reference of every name is
left, with the owner of the record that it names. -/
theorem channels_checked (dir : Directory) (b : Backend) (wf : dir.WellFormed b.store)
    (havail : b.available = true) : dir.ChecksChannels b where
  create_iff channels := by
    simp only [run_createChannels_iff wf havail, returns_prepareAll_iff wf havail]
    constructor
    · rintro ⟨_, _, ⟨can, -⟩, -⟩
      exact can
    · intro can
      exact ⟨_, _, ⟨can, rfl⟩, rfl⟩
  creates _ _ _ := createsLast wf havail
  update_iff name request := by
    simp only [run_updateChannel_iff wf havail, returns_prepare_iff wf havail]
    constructor
    · rintro ⟨_, _, existing, hexisting, ⟨hvalid, knows, -⟩, -⟩
      exact ⟨existing, hexisting, hvalid, knows⟩
    · rintro ⟨existing, hexisting, hvalid, knows⟩
      exact ⟨_, _, existing, hexisting, ⟨hvalid, knows, rfl⟩, rfl⟩
  updates _ _ _ _ := updatesOne wf havail

/-- Two requests for one channel, of which only the first names a tag that is not there. -/
def twiceRequested : List Channel :=
  [⟨"C", "o", [⟨"none", ""⟩], []⟩, ⟨"C", "o", [⟨"t", "z"⟩, ⟨"u", ""⟩, ⟨"t", ""⟩], []⟩]

/-- A request that renames a channel and names a tag twice. -/
def movedRequest : Channel := ⟨"D", "", [⟨"u", "z"⟩, ⟨"u", ""⟩], []⟩

theorem returns_twiceRequested : (usual.createChannels twiceRequested).Returns tagOnAB
    [⟨"C", "o", [⟨"u", "y"⟩, ⟨"t", "x"⟩], []⟩] := by
  unfold Returns
  cbv

theorem returns_movedRequest : (usual.updateChannel "A" movedRequest).Returns tagOnAB
    ⟨"D", "o", [⟨"t", "x"⟩, ⟨"u", "y"⟩], []⟩ := by
  unfold Returns
  cbv

theorem run_update_absent :
    (usual.updateChannel "C" ⟨"C", "o", [⟨"t", ""⟩], []⟩).run tagOnAB =
      (.failed (.notFound .channel "C"), tagOnAB) := by
  cbv

/-- The last request is written, with one reference to the tag that it names twice. An update of the
channel is refused, since it is not there. One of another channel renames it and adds a tag to the
one that it has, both with the owners that are stored. -/
theorem twiceRequested_created :
    (∃ answer b', (usual.createChannels twiceRequested).run tagOnAB = (.ok answer, b') ∧
      usual.CanCreate tagOnAB.store twiceRequested ∧
      usual.CreatesLast twiceRequested tagOnAB.store b'.store answer ∧
      answer = [⟨"C", "o", [⟨"u", "y"⟩, ⟨"t", "x"⟩], []⟩]) ∧
    ¬usual.CanUpdate tagOnAB.store "C" ⟨"C", "o", [⟨"t", ""⟩], []⟩ ∧
    ∃ answer b', (usual.updateChannel "A" movedRequest).run tagOnAB = (.ok answer, b') ∧
      usual.CanUpdate tagOnAB.store "A" movedRequest ∧
      (∃ existing, (usual.channels.contents tagOnAB.store).get? "A" = some existing ∧
        usual.UpdatesOne "A" (updated "A" existing movedRequest) tagOnAB.store b'.store answer) ∧
      answer = ⟨"D", "o", [⟨"t", "x"⟩, ⟨"u", "y"⟩], []⟩ := by
  obtain ⟨create_iff, creates, update_iff, updates⟩ :=
    channels_checked usual tagOnAB wellFormed_tagOnAB rfl
  have hcreate := returns_twiceRequested.run_eq
  have hmove := returns_movedRequest.run_eq
  refine ⟨⟨_, _, hcreate, (create_iff _).mp ⟨_, _, hcreate⟩, creates _ _ _ hcreate, rfl⟩,
    fun h => ?_,
    _, _, hmove, (update_iff _ _).mp ⟨_, _, hmove⟩, updates _ _ _ _ hmove, rfl⟩
  obtain ⟨answer, b', hupdate⟩ := (update_iff _ _).mpr h
  rw [run_update_absent] at hupdate
  cases hupdate

end Directory

end ChannelDirectory

import ChannelDirectory.Proofs.Directory.Preparation
import ChannelDirectory.Proofs.Program.Writes

/-!
# The writes of channels

Each write of channels is a `Write` : it reads what it needs, and submits one batch of puts of
prepared channels and of deletes (`createChannel_eq` and its likes). Such a batch changes
nothing but channels, and leaves the store consistent (`ChannelOps.preserves`).
-/

namespace ChannelDirectory

open Collection Program

namespace Directory

variable {dir : Directory} {s : Store} {b : Backend}

/-- Create or replace the channel of a name. -/
def createWrite (dir : Directory) (name : String) (c : Channel) : Write Channel where
  plan :=
    if c.name ≠ name then .fail (.nameMismatch .channel name c.name)
    else do
      let c ← dir.prepare c
      return ⟨[dir.channels.putOp c], fun _ => .done (Entity.stored c), fun _ => trivial⟩
  readOnly_plan := by
    split
    · trivial
    · exact (dir.readOnly_prepare c).bind fun _ => trivial

/-- Create or replace channels. -/
def createAllWrite (dir : Directory) (channels : List Channel) : Write (List Channel) where
  plan := do
    let channels ← dir.prepareAll channels
    return ⟨channels.map dir.channels.putOp, fun _ => .done (channels.map Entity.stored),
      fun _ => trivial⟩
  readOnly_plan := (dir.readOnly_prepareAll channels).bind fun _ => trivial

/-- Merge a request into the channel of a name, and rename it if asked. -/
def updateWrite (dir : Directory) (name : String) (request : Channel) : Write Channel where
  plan := do
    let existing ← dir.readChannel name
    let newName := if request.name = "" then name else request.name
    let c ← dir.prepare { existing.merge request with name := newName }
    let rename := if newName ≠ name then [dir.channels.deleteOp name] else []
    return ⟨rename ++ [dir.channels.putOp c], fun _ => .done c, fun _ => trivial⟩
  readOnly_plan := (dir.channels.readOnly_require name).bind fun _ =>
    (dir.readOnly_prepare _).bind fun _ => trivial

/-- Merge requests into the channels of their names. -/
def updateAllWrite (dir : Directory) (requests : List Channel) : Write (List Channel) where
  plan := do
    let found ← dir.channels.findAll (requests.map Channel.name)
    let existing := KeyMap.ofList (found.map fun c => (c.name, c))
    (dir.createAllWrite (mergeExisting existing requests)).plan
  readOnly_plan := (dir.channels.readOnly_findAll _).bind fun _ =>
    (dir.createAllWrite _).readOnly_plan

/-- Delete the channel of a name. -/
def removeWrite (dir : Directory) (name : String) : Write Unit where
  plan := .done ⟨[dir.channels.deleteOp name],
    fun summary => if 0 < summary.deleted then .done () else .fail (.notFound .channel name),
    fun summary => by split <;> trivial⟩
  readOnly_plan := trivial

/-! ## The writes are these -/

/-- Creating a channel is carrying out its write. -/
theorem createChannel_eq (dir : Directory) (name : String) (c : Channel) :
    dir.createChannel name c = (dir.createWrite name c).program := by
  unfold createChannel Write.program createWrite
  split
  · rfl
  · simp only [Collection.put, Batched.program, bind_assoc, pure_eq, bind_done]

/-- Creating channels is carrying out one write. -/
theorem createChannels_eq (dir : Directory) (channels : List Channel) :
    dir.createChannels channels = (dir.createAllWrite channels).program := by
  simp only [createChannels, Write.program, createAllWrite, Collection.putAll, Batched.program,
    bind_assoc, pure_eq, bind_done]

/-- Updating a channel is carrying out its write. -/
theorem updateChannel_eq (dir : Directory) (name : String) (request : Channel) :
    dir.updateChannel name request = (dir.updateWrite name request).program := by
  simp only [updateChannel, Write.program, updateWrite, Batched.program, bind_assoc, pure_eq,
    bind_done]

/-- Updating channels is carrying out one write. -/
theorem updateChannels_eq (dir : Directory) (requests : List Channel) :
    dir.updateChannels requests = (dir.updateAllWrite requests).program := by
  simp only [updateChannels, Write.program, updateAllWrite, createChannels_eq, bind_assoc]

/-- Deleting a channel is carrying out its write. -/
theorem removeChannel_eq (dir : Directory) (name : String) :
    dir.removeChannel name = (dir.removeWrite name).program := by
  simp only [removeChannel, Write.program, removeWrite, Collection.delete, Batched.program,
    bind_assoc, pure_eq, bind_done, decide_eq_true_eq]

/-! ## What the plans return -/

/-- What creating a channel plans : to put the channel that it has prepared. -/
theorem returns_createWrite_plan_iff {name : String} {c : Channel} {batch : Batched Channel} :
    (dir.createWrite name c).plan.Returns b batch ↔ c.name = name ∧ ∃ prepared,
      (dir.prepare c).Returns b prepared ∧
        batch = ⟨[dir.channels.putOp prepared], fun _ => .done (Entity.stored prepared),
          fun _ => trivial⟩ := by
  unfold createWrite
  dsimp only
  split
  · rename_i hne
    exact iff_of_false returns_fail fun h => hne h.1
  · rename_i hname
    rw [and_iff_right (not_not.mp hname), returns_bind (dir.readOnly_prepare c)]
    simp only [pure_eq, returns_done]

/-- What creating channels plans : to put all that it has prepared. -/
theorem returns_createAllWrite_plan_iff {channels : List Channel}
    {batch : Batched (List Channel)} :
    (dir.createAllWrite channels).plan.Returns b batch ↔ ∃ prepared,
      (dir.prepareAll channels).Returns b prepared ∧
        batch = ⟨prepared.map dir.channels.putOp, fun _ => .done (prepared.map Entity.stored),
          fun _ => trivial⟩ := by
  unfold createAllWrite
  rw [returns_bind (dir.readOnly_prepareAll channels)]
  simp only [pure_eq, returns_done]

/-- What updating a channel plans : to put the merged channel, and to delete the old document if the
name has changed. -/
theorem returns_updateWrite_plan_iff {name : String} {request : Channel}
    {batch : Batched Channel} :
    (dir.updateWrite name request).plan.Returns b batch ↔ ∃ existing prepared,
      (dir.channels.require name).Returns b existing ∧
      (dir.prepare { existing.merge request with
        name := if request.name = "" then name else request.name }).Returns b prepared ∧
      batch = ⟨(if (if request.name = "" then name else request.name) ≠ name then
          [dir.channels.deleteOp name] else []) ++ [dir.channels.putOp prepared],
        fun _ => .done prepared, fun _ => trivial⟩ := by
  unfold updateWrite readChannel
  rw [returns_bind (dir.channels.readOnly_require name)]
  simp only [returns_bind (dir.readOnly_prepare _), pure_eq, returns_done, exists_and_left]

/-! ## Batches of channels -/

/-- Puts of channels that are ready for a store, and deletes of channels. -/
def ChannelOps (dir : Directory) (s : Store) (ops : List Operation) : Prop :=
  ∀ op ∈ ops, (∃ id, op = dir.channels.deleteOp id) ∨
    ∃ c, dir.Ready s c ∧ op = dir.channels.putOp c

theorem ChannelOps.index_eq {ops : List Operation} (hops : dir.ChannelOps s ops) {op : Operation}
    (hop : op ∈ ops) : op.index = dir.config.channelIndex := by
  rcases hops op hop with ⟨id, rfl⟩ | ⟨c, -, rfl⟩ <;> rfl

theorem ChannelOps.action_ne {ops : List Operation} (hops : dir.ChannelOps s ops) {op : Operation}
    (hop : op ∈ ops) : op.action ≠ .replace := by
  rcases hops op hop with ⟨id, rfl⟩ | ⟨c, -, rfl⟩ <;> rintro ⟨⟩

/-- The channels that such a batch writes have what channels that are ready have. -/
theorem ChannelOps.writesOnly {ops : List Operation} (hops : dir.ChannelOps s ops)
    {P : Channel → Prop} (hP : ∀ c, dir.Ready s c → P c) {op : Operation} (hop : op ∈ ops) :
    dir.channels.WritesOnly P op := by
  rcases hops op hop with ⟨id, rfl⟩ | ⟨c, hc, rfl⟩
  · exact writesOnly_deleteOp id
  · exact writesOnly_putOp (hP c hc)

/-- All channels of a consistent store are ready for it. -/
theorem holdsOnly_ready (wf : dir.WellFormed s) (consistent : dir.Consistent s) :
    dir.channels.HoldsOnly (dir.Ready s) s := by
  intro id doc hdoc
  obtain ⟨c, hname, hdistinct, rfl⟩ := wf.channels id doc hdoc
  have hget : (dir.channels.contents s).get? id = some c := by
    rw [get?_contents, hdoc, Option.bind_some, LawfulEntity.decode_encode]
    rfl
  exact ⟨c, hname, ⟨hdistinct, consistent.tags id c hget, consistent.properties id c hget⟩, rfl⟩

/-- Other indices are left alone. -/
theorem ChannelOps.documents_eq {ops : List Operation} (hops : dir.ChannelOps s ops)
    {index : String} (h : index ≠ dir.config.channelIndex) :
    (s.after ops).documents index = s.documents index :=
  Store.documents_after_of_index_ne s fun _ hop => (hops.index_eq hop).symm ▸ Ne.symm h

/-- Writes of prepared channels keep the store well-formed. -/
theorem ChannelOps.wellFormed (indices : dir.config.DistinctIndices) (wf : dir.WellFormed s)
    {ops : List Operation} (hops : dir.ChannelOps s ops) : dir.WellFormed (s.after ops) where
  channels := wf.channels.after fun _ => hops.writesOnly fun _ hc => hc.distinct
  tags := wf.tags.congr (hops.documents_eq (Ne.symm indices.1))
  properties := wf.properties.congr (hops.documents_eq (Ne.symm indices.2.1))

/-- Writes of prepared channels keep the store well-formed and consistent : they change no record,
and what they put has the owners of the records. -/
theorem ChannelOps.preserves (indices : dir.config.DistinctIndices) (wf : dir.WellFormed s)
    (consistent : dir.Consistent s) {ops : List Operation} (hops : dir.ChannelOps s ops) :
    dir.WellFormed (s.after ops) ∧ dir.Consistent (s.after ops) := by
  have htags := hops.documents_eq (Ne.symm indices.1)
  have hproperties := hops.documents_eq (Ne.symm indices.2.1)
  have hready : dir.channels.HoldsOnly (dir.Ready s) (s.after ops) :=
    (holdsOnly_ready wf consistent).after fun op => hops.writesOnly fun c hc => hc
  refine ⟨hops.wellFormed indices wf, ?_, ?_⟩
  · intro id c hc ref href
    rw [show (dir.records Tag).contents (s.after ops) = _ from contents_congr htags]
    exact (hready.of_get?_contents hc).2.tags ref href
  · intro id c hc ref href
    rw [show (dir.records Property).contents (s.after ops) = _ from contents_congr hproperties]
    exact (hready.of_get?_contents hc).2.properties ref href

/-! ## What the writes submit -/

theorem channelOps_nil : dir.ChannelOps s [] := by
  intro op hop
  cases hop

theorem channelOps_delete (id : String) : dir.ChannelOps s [dir.channels.deleteOp id] := by
  intro op hop
  exact Or.inl ⟨id, List.mem_singleton.mp hop⟩

/-- A channel that takes another name is deleted under the old one. -/
theorem channelOps_rename (name newName : String) :
    dir.ChannelOps s (if newName ≠ name then [dir.channels.deleteOp name] else []) := by
  split
  · exact channelOps_delete name
  · exact channelOps_nil

theorem channelOps_put {c : Channel} (h : dir.Ready s c) :
    dir.ChannelOps s [dir.channels.putOp c] := by
  intro op hop
  exact Or.inr ⟨c, h, List.mem_singleton.mp hop⟩

theorem channelOps_puts {channels : List Channel} (h : ∀ c ∈ channels, dir.Ready s c) :
    dir.ChannelOps s (channels.map dir.channels.putOp) := by
  intro op hop
  obtain ⟨c, hc, rfl⟩ := List.mem_map.mp hop
  exact Or.inr ⟨c, h c hc, rfl⟩

theorem ChannelOps.append {ops more : List Operation} (hops : dir.ChannelOps s ops)
    (hmore : dir.ChannelOps s more) : dir.ChannelOps s (ops ++ more) := by
  intro op hop
  rcases List.mem_append.mp hop with hop | hop
  · exact hops op hop
  · exact hmore op hop

/-- Creating a channel writes a prepared channel. -/
theorem channelOps_createWrite (wf : dir.WellFormed b.store) {name : String} {c : Channel}
    {batch : Batched Channel} (h : (dir.createWrite name c).plan.Returns b batch) :
    dir.ChannelOps b.store batch.ops := by
  obtain ⟨-, prepared, hprepared, rfl⟩ := returns_createWrite_plan_iff.mp h
  exact channelOps_put (ready_of_returns_prepare wf hprepared)

theorem channelOps_createAllWrite (wf : dir.WellFormed b.store) {channels : List Channel}
    {batch : Batched (List Channel)} (h : (dir.createAllWrite channels).plan.Returns b batch) :
    dir.ChannelOps b.store batch.ops := by
  obtain ⟨prepared, hprepared, rfl⟩ := returns_createAllWrite_plan_iff.mp h
  exact channelOps_puts fun c hc => ready_of_returns_prepareAll wf hprepared hc

/-- Updating a channel deletes channels or writes a prepared one. -/
theorem channelOps_updateWrite (wf : dir.WellFormed b.store) {name : String} {request : Channel}
    {batch : Batched Channel} (h : (dir.updateWrite name request).plan.Returns b batch) :
    dir.ChannelOps b.store batch.ops := by
  obtain ⟨existing, prepared, -, hprepared, rfl⟩ := returns_updateWrite_plan_iff.mp h
  exact (channelOps_rename name _).append (channelOps_put (ready_of_returns_prepare wf hprepared))

/-- Updating channels writes prepared channels. -/
theorem channelOps_updateAllWrite (wf : dir.WellFormed b.store) {requests : List Channel}
    {batch : Batched (List Channel)} (h : (dir.updateAllWrite requests).plan.Returns b batch) :
    dir.ChannelOps b.store batch.ops := by
  obtain ⟨found, -, h⟩ := (returns_bind (dir.channels.readOnly_findAll _)).mp h
  exact channelOps_createAllWrite wf h

theorem channelOps_removeWrite {name : String} {batch : Batched Unit}
    (h : (dir.removeWrite name).plan.Returns b batch) : dir.ChannelOps b.store batch.ops := by
  obtain rfl := returns_done.mp h
  exact channelOps_delete name

end Directory

end ChannelDirectory

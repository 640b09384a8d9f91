import ChannelDirectory.Proofs.Directory.ChannelWrites
import ChannelDirectory.Proofs.Directory.Commands
import ChannelDirectory.Proofs.Directory.Syncing

/-!
# Every run of commands keeps the directory consistent

Channels repeat the owners of their tags and properties, and every write has to keep the copies
up to date. A `Turn` is a write of the directory with the state of the connection that it finds.
A command keeps the store well-formed and consistent however it ends
(`Directory.perform_preserves`), so every run does that starts from such a store, or from the
empty one (`Directory.turns_keep_consistency`).

For the proof a store is split into what is `Sound` for the tags and what is for the properties.
A write of the one kind restores the first and leaves the second alone (`editWrite_sound`).
-/

namespace ChannelDirectory

open Attribute Collection LawfulAttribute Program

/-- A command, and whether it finds the backend available. -/
structure Turn where
  command : Command
  available : Bool

namespace Directory

/-- The backend after a command, however it ends. -/
def perform (dir : Directory) (b : Backend) (command : Command) : Backend :=
  ((dir.program command).run b).2

/-- The backend after a turn. -/
def turn (dir : Directory) (b : Backend) (t : Turn) : Backend :=
  dir.perform { b with available := t.available } t.command

/-- The backend after some turns, one after another. -/
def turns (dir : Directory) (b : Backend) (ts : List Turn) : Backend :=
  ts.foldl dir.turn b

/-- For one kind of attributes the store is in shape, and its references are in sync. -/
structure Sound (dir : Directory) (α : Type) {ρ : Type} [Attribute α ρ] [Reference ρ] (s : Store) :
    Prop where
  shape : dir.InShape α s
  sync : dir.InSync α s

variable {dir : Directory} {s : Store} {b : Backend}

/-- A directory is well-formed and consistent if it is so for its tags and for its properties. -/
theorem sound_iff :
    dir.WellFormed s ∧ dir.Consistent s ↔ dir.Sound Tag s ∧ dir.Sound Property s := by
  constructor
  · rintro ⟨wf, consistent⟩
    exact ⟨⟨wf.tagShape, consistent.tags⟩, ⟨wf.propertyShape, consistent.properties⟩⟩
  · rintro ⟨tags, properties⟩
    exact ⟨⟨tags.shape.channels, tags.shape.records, properties.shape.records⟩,
      ⟨tags.sync, properties.sync⟩⟩

/-! ## Writes of tags and properties -/

section Attributes

variable {α ρ β σ : Type} [Attribute α ρ] [Reference ρ] [LawfulAttribute α] [Attribute β σ]
  [Reference σ] [LawfulAttribute β]

/-- Carrying out a plan that keeps its own kind in sync keeps the store sound for both. -/
theorem editWrite_sound {γ : Type} (independent : Independent α β)
    (indices : dir.config.DistinctIndices) (sound : dir.Sound α b.store)
    (other : dir.Sound β b.store) {plan : Program (EditPlan γ)} (hplan : plan.ReadOnly)
    (hkeeps : ∀ p, plan.Returns b p → dir.KeepsSync α b.store p) :
    dir.Sound α ((dir.editWrite plan hplan).program.run b).2.store ∧
      dir.Sound β ((dir.editWrite plan hplan).program.run b).2.store := by
  have hspec : ∀ p, plan.Returns b p → dir.RecordOps α p.ops ∧ ∃ names, p.edits.About α names := by
    intro p hp
    obtain ⟨hops, names, after, staged, -⟩ := hkeeps p hp
    exact ⟨hops, names, staged.about⟩
  rcases hrun : (dir.editWrite plan hplan).program.run b with ⟨outcome, b'⟩
  rcases editWrite_run_cases indices sound.shape hplan hspec hrun with rfl | ⟨p, hp, edited⟩
  · exact ⟨sound, other⟩
  · obtain ⟨-, names, after, staged, hafter⟩ := hkeeps p hp
    have hrecords := edited.documents_independent independent indices
    exact ⟨⟨edited.shape, edited.inSync staged hafter⟩,
      ⟨⟨edited.shape.channels, other.shape.records.congr hrecords⟩,
        edited.inSync_independent independent indices staged.about other.sync⟩⟩

variable [LawfulEntity α] [LawfulReference ρ] [DecidableEq ρ]

/-- A write of the one kind keeps the store sound for both, however it ends. -/
theorem attributeProgram_sound (independent : Independent α β)
    (indices : dir.config.DistinctIndices) (sound : dir.Sound α b.store)
    (other : dir.Sound β b.store) (command : AttributeCommand α) :
    dir.Sound α ((dir.attributeProgram command).run b).2.store ∧
      dir.Sound β ((dir.attributeProgram command).run b).2.store := by
  have ⟨shape, sync⟩ := sound
  cases command with
  | create name record =>
    rw [attributeProgram, run_discard_snd, createAttribute_eq]
    exact editWrite_sound independent indices sound other _ fun p => keepsSync_createPlan shape sync
  | createMany records =>
    rw [attributeProgram, run_discard_snd, createAttributes_eq]
    exact editWrite_sound independent indices sound other _ fun p =>
      keepsSync_createAllPlan shape sync
  | addToChannel name channel request =>
    rw [attributeProgram, run_discard_snd, addToChannel_eq]
    exact editWrite_sound independent indices sound other _ fun p => keepsSync_addPlan shape sync
  | update name request =>
    rw [attributeProgram, run_discard_snd, updateAttribute_eq]
    exact editWrite_sound independent indices sound other _ fun p => keepsSync_updatePlan shape sync
  | updateMany records =>
    rw [attributeProgram, run_discard_snd, updateAttributes_eq]
    exact editWrite_sound independent indices sound other _ fun p =>
      keepsSync_updateAllPlan shape sync
  | remove name =>
    rw [attributeProgram, removeAttribute_eq]
    exact editWrite_sound independent indices sound other _ fun p => keepsSync_removePlan shape sync
  | removeFromChannel name channel =>
    rw [attributeProgram, removeFromChannel_eq]
    exact editWrite_sound independent indices sound other _ fun p =>
      keepsSync_removeFromPlan shape sync

end Attributes

/-! ## Writes of channels -/

/-- A write to the channels keeps the directory well-formed and consistent if each batch that it
plans is of channels whose records are there. -/
theorem channelWrite_preserves {γ : Type} (indices : dir.config.DistinctIndices)
    (wf : dir.WellFormed b.store) (consistent : dir.Consistent b.store) (w : Write γ)
    (hops : ∀ batch, w.plan.Returns b batch → dir.ChannelOps b.store batch.ops) :
    dir.WellFormed (w.program.run b).2.store ∧ dir.Consistent (w.program.run b).2.store := by
  rcases hrun : w.program.run b with ⟨outcome, b'⟩
  rcases w.run_cases hrun with rfl | ⟨batch, hbatch, rfl⟩
  · exact ⟨wf, consistent⟩
  · exact (hops batch hbatch).preserves indices wf consistent

/-! ## Runs -/

/-- Whatever a command does, a store that is well-formed and consistent stays so. -/
theorem perform_preserves (indices : dir.config.DistinctIndices) (wf : dir.WellFormed b.store)
    (consistent : dir.Consistent b.store) (command : Command) :
    dir.WellFormed (dir.perform b command).store ∧
      dir.Consistent (dir.perform b command).store := by
  obtain ⟨tags, properties⟩ := sound_iff.mp ⟨wf, consistent⟩
  cases command with
  | createChannel name c =>
    rw [perform, program, run_discard_snd, createChannel_eq]
    exact channelWrite_preserves indices wf consistent _ fun batch => channelOps_createWrite wf
  | createChannels channels =>
    rw [perform, program, run_discard_snd, createChannels_eq]
    exact channelWrite_preserves indices wf consistent _ fun batch => channelOps_createAllWrite wf
  | updateChannel name request =>
    rw [perform, program, run_discard_snd, updateChannel_eq]
    exact channelWrite_preserves indices wf consistent _ fun batch => channelOps_updateWrite wf
  | updateChannels requests =>
    rw [perform, program, run_discard_snd, updateChannels_eq]
    exact channelWrite_preserves indices wf consistent _ fun batch => channelOps_updateAllWrite wf
  | removeChannel name =>
    rw [perform, program, removeChannel_eq]
    exact channelWrite_preserves indices wf consistent _ fun batch => channelOps_removeWrite
  | ofTags command =>
    exact sound_iff.mpr
      (attributeProgram_sound independent_tag_property indices tags properties command)
  | ofProperties command =>
    exact sound_iff.mpr
      (attributeProgram_sound independent_property_tag indices properties tags command).symm

/-- Turns that are taken one after the other keep the directory well-formed and consistent. -/
theorem turns_preserve (indices : dir.config.DistinctIndices) (wf : dir.WellFormed b.store)
    (consistent : dir.Consistent b.store) (ts : List Turn) :
    dir.WellFormed (dir.turns b ts).store ∧ dir.Consistent (dir.turns b ts).store := by
  induction ts generalizing b with
  | nil => exact ⟨wf, consistent⟩
  | cons t ts ih =>
    have step : dir.WellFormed (dir.turn b t).store ∧ dir.Consistent (dir.turn b t).store :=
      perform_preserves (b := { b with available := t.available }) indices wf consistent t.command
    exact ih step.1 step.2

/-- After any turns, each of which may succeed or fail, every tag and every property of a stored
channel exists and the channel has its owner. -/
theorem turns_keep_consistency (dir : Directory) (b : Backend) (ts : List Turn)
    (indices : dir.config.DistinctIndices)
    (start : b.store = Store.empty ∨ dir.WellFormed b.store ∧ dir.Consistent b.store) :
    dir.WellFormed (dir.turns b ts).store ∧ dir.Consistent (dir.turns b ts).store := by
  rcases start with hempty | ⟨wf, consistent⟩
  · exact turns_preserve indices (hempty ▸ wellFormed_empty dir) (hempty ▸ consistent_empty dir) ts
  · exact turns_preserve indices wf consistent ts

/-- Some turns that write a channel and a tag, two of which fail. -/
def someTurns : List Turn :=
  [⟨.createChannels [⟨"A", "o", [], []⟩, ⟨"B", "o", [], []⟩], true⟩,
    ⟨.ofTags (.create "t" ⟨"t", "x", [{ name := "A" }]⟩), true⟩,
    ⟨.ofTags (.addToChannel "t" "C" ⟨"t", "x", []⟩), true⟩,
    ⟨.ofTags (.remove "t"), false⟩,
    ⟨.ofTags (.update "t" ⟨"u", "y", []⟩), true⟩]

/-- The tag has moved to its new name and owner, in the channel and on its own. -/
theorem someTurns_rename_tag :
    (usual.channels.contents (usual.turns ⟨Store.empty, 10000, true, [], 0⟩ someTurns).store).get?
        "A" = some ⟨"A", "o", [⟨"u", "y"⟩], []⟩ ∧
      usual.WellFormed (usual.turns ⟨Store.empty, 10000, true, [], 0⟩ someTurns).store ∧
      usual.Consistent (usual.turns ⟨Store.empty, 10000, true, [], 0⟩ someTurns).store :=
  ⟨by cbv, turns_keep_consistency usual _ someTurns distinctIndices_usual (Or.inl rfl)⟩

end Directory

end ChannelDirectory

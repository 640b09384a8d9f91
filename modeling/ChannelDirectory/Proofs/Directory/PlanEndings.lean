import ChannelDirectory.Proofs.Directory.AttributePlans
import ChannelDirectory.Proofs.Directory.ChannelWrites
import ChannelDirectory.Proofs.Directory.Members

/-!
# How plans can end

The plan of a write only reads and checks. Without a plan to return it ends with an error that
is about the whole request, or, in the plans that read members, with its budget used up by the
pages of the channels (`endsIn_createPlan` and its likes). The same holds of the reading of the
channels that are edited (`ChannelEdits.endsIn_operations`).
-/

namespace ChannelDirectory

open Attribute Collection Program

namespace ChannelEdits

/-- If the writes of the edits cannot be made, nothing has been written. -/
theorem isWhole_of_writes {channels : Collection Channel} {current : KeyMap Channel}
    {entries : List (String × ChannelEdit)} {e : Error}
    (h : writes channels current entries = .error e) : e.IsWhole := by
  obtain ⟨name, rfl⟩ := notFound_of_writes h
  rintro ⟨⟩

/-- Reading the channels that are edited ends in an answer, or in an error that has changed
nothing. -/
theorem endsIn_operations {b : Backend} {short : Prop} (edits : ChannelEdits)
    (channels : Collection Channel) :
    (edits.operations channels).EndsIn b Error.IsWhole short :=
  (channels.endsIn_findAll edits.keys).bind (channels.readOnly_findAll edits.keys) fun _ _ =>
    endsIn_ofExcept fun _ => isWhole_of_writes

end ChannelEdits

namespace Directory

/-! ## Plans for tags and properties -/

section Attributes

variable {α ρ : Type} [Attribute α ρ] [Reference ρ] [DecidableEq ρ] {dir : Directory} {b : Backend}

theorem endsIn_stageReplace (wf : dir.channels.HoldsOnly Channel.Distinct b.store) (record : α)
    (edits : ChannelEdits) :
    (dir.stageReplace record edits).EndsIn b Error.IsWhole (¬dir.Ample b.store) :=
  (endsIn_check _).bind (readOnly_check _) fun _ _ =>
    (dir.endsIn_currentMembers wf _).bind (dir.readOnly_currentMembers _) fun _ _ => endsIn_done _

/-- Staging many replacements fails with nothing changed. -/
theorem endsIn_stageReplaceAll (wf : dir.channels.HoldsOnly Channel.Distinct b.store)
    (records : List α) (edits : ChannelEdits) :
    (dir.stageReplaceAll records edits).EndsIn b Error.IsWhole (¬dir.Ample b.store) := by
  induction records generalizing edits with
  | nil => exact endsIn_done edits
  | cons record records ih =>
    exact (dir.endsIn_stageReplace wf record edits).bind (dir.readOnly_stageReplace record edits)
      fun edits' _ => ih edits'

theorem endsIn_stageMerge (wf : dir.channels.HoldsOnly Channel.Distinct b.store) (name : String)
    (record : α) (staged : List Operation × ChannelEdits) :
    (dir.stageMerge name record staged).EndsIn b Error.IsWhole (¬dir.Ample b.store) := by
  refine ((dir.records α).endsIn_get name).bind ((dir.records α).readOnly_get name)
    fun existing _ => ?_
  cases existing <;>
    exact (dir.endsIn_checkRecord _).bind (dir.readOnly_checkRecord _) fun _ _ =>
      (endsIn_check _).bind (readOnly_check _) fun _ _ =>
        (dir.endsIn_currentMembers wf _).bind (dir.readOnly_currentMembers _) fun _ _ =>
          endsIn_done _

/-- Staging many merges fails with nothing changed. -/
theorem endsIn_stageMergeAll (wf : dir.channels.HoldsOnly Channel.Distinct b.store)
    (entries : List (String × α)) (staged : List Operation × ChannelEdits) :
    (dir.stageMergeAll entries staged).EndsIn b Error.IsWhole (¬dir.Ample b.store) := by
  induction entries generalizing staged with
  | nil => exact endsIn_done staged
  | cons e entries ih =>
    exact (dir.endsIn_stageMerge wf e.1 e.2 staged).bind (dir.readOnly_stageMerge e.1 e.2 staged)
      fun staged' _ => ih staged'

theorem endsIn_createPlan (wf : dir.channels.HoldsOnly Channel.Distinct b.store) (name : String)
    (record : α) :
    (dir.createPlan name record).EndsIn b Error.IsWhole (¬dir.Ample b.store) :=
  (endsIn_checkName record).bind (readOnly_checkName name record) fun _ _ =>
    (dir.endsIn_checkRecord record).bind (dir.readOnly_checkRecord record) fun _ _ =>
      (dir.endsIn_stageReplace wf record _).bind (dir.readOnly_stageReplace record _) fun _ _ =>
        endsIn_done _

theorem endsIn_createAllPlan (wf : dir.channels.HoldsOnly Channel.Distinct b.store)
    (records : List α) :
    (dir.createAllPlan records).EndsIn b Error.IsWhole (¬dir.Ample b.store) :=
  (endsIn_each dir.readOnly_checkRecord fun record _ => dir.endsIn_checkRecord record).bind
    (readOnly_each fun record _ => dir.readOnly_checkRecord record) fun _ _ =>
      (dir.endsIn_stageReplaceAll wf _ _).bind (dir.readOnly_stageReplaceAll _ _) fun _ _ =>
        endsIn_done _

omit [DecidableEq ρ] in
theorem endsIn_addPlan {short : Prop} (name channel : String) (request : α) :
    (dir.addPlan name channel request).EndsIn b Error.IsWhole short :=
  (endsIn_checkName request).bind (readOnly_checkName name request) fun _ _ =>
    ((dir.records α).endsIn_require name).bind ((dir.records α).readOnly_require name) fun _ _ =>
      (dir.endsIn_checkChannel channel).bind (dir.readOnly_checkChannel channel) fun _ _ =>
        (endsIn_check _).bind (readOnly_check _) fun _ _ => endsIn_done _

/-- An update is planned, or fails with nothing changed. -/
theorem endsIn_updatePlan (wf : dir.channels.HoldsOnly Channel.Distinct b.store) (name : String)
    (request : α) :
    (dir.updatePlan name request).EndsIn b Error.IsWhole (¬dir.Ample b.store) := by
  refine ((dir.records α).endsIn_require name).bind ((dir.records α).readOnly_require name)
    fun existing _ => ?_
  refine (dir.endsIn_checkRecord _).bind (dir.readOnly_checkRecord _) fun _ _ => ?_
  refine (endsIn_check _).bind (readOnly_check _) fun desired _ => ?_
  refine (dir.endsIn_currentMembers wf _).bind (dir.readOnly_currentMembers _) fun current _ => ?_
  split
  · have hstage : (dir.stageRename α name (updatedName name request)
        (updatedOwner existing request) current desired).EndsIn b Error.IsWhole
          (¬dir.Ample b.store) :=
      (dir.endsIn_currentMembers wf _).bind (dir.readOnly_currentMembers _) fun _ _ => endsIn_done _
    exact hstage.bind (dir.readOnly_stageRename _ _ _ _ _) fun _ _ => endsIn_done _
  · exact endsIn_done _

theorem endsIn_updateAllPlan (wf : dir.channels.HoldsOnly Channel.Distinct b.store)
    (records : List α) :
    (dir.updateAllPlan records).EndsIn b Error.IsWhole (¬dir.Ample b.store) :=
  (dir.endsIn_stageMergeAll wf _ _).bind (dir.readOnly_stageMergeAll _ _) fun _ _ => endsIn_done _

theorem endsIn_removePlan (wf : dir.channels.HoldsOnly Channel.Distinct b.store) (name : String) :
    (dir.removePlan α name).EndsIn b Error.IsWhole (¬dir.Ample b.store) :=
  ((dir.records α).endsIn_require name).bind ((dir.records α).readOnly_require name) fun _ _ =>
    (dir.endsIn_currentMembers wf name).bind (dir.readOnly_currentMembers name) fun _ _ =>
      endsIn_done _

omit [DecidableEq ρ] [Reference ρ] in
theorem endsIn_removeFromPlan {short : Prop} (name channel : String) :
    (dir.removeFromPlan α name channel).EndsIn b Error.IsWhole short :=
  ((dir.records α).endsIn_require name).bind ((dir.records α).readOnly_require name) fun _ _ =>
    (dir.endsIn_checkChannel channel).bind (dir.readOnly_checkChannel channel) fun _ _ =>
      endsIn_done _

end Attributes

/-! ## Plans for channels -/

variable {dir : Directory} {b : Backend} {short : Prop}

theorem endsIn_ownersOf (dir : Directory) (α : Type) {ρ : Type} [Attribute α ρ]
    (names : List String) : (dir.ownersOf α names).EndsIn b Error.IsWhole short :=
  ((dir.records α).endsIn_findAll names).bind ((dir.records α).readOnly_findAll names) fun _ _ =>
    endsIn_done _

/-- The owners for some channels are read, or the reading fails with nothing changed. -/
theorem endsIn_ownersFor (dir : Directory) (channels : List Channel) :
    (dir.ownersFor channels).EndsIn b Error.IsWhole short := by
  refine (dir.endsIn_ownersOf Tag _).bind (dir.readOnly_ownersOf Tag _) fun tags _ => ?_
  split
  · exact endsIn_fail (by rintro ⟨⟩)
  · refine (dir.endsIn_ownersOf Property _).bind (dir.readOnly_ownersOf Property _)
      fun properties _ => ?_
    split
    · exact endsIn_fail (by rintro ⟨⟩)
    · exact endsIn_done _

theorem endsIn_prepare (dir : Directory) (c : Channel) :
    (dir.prepare c).EndsIn b Error.IsWhole short :=
  (endsIn_check _).bind (readOnly_check _) fun _ _ =>
    (dir.endsIn_ownersFor _).bind (dir.readOnly_ownersFor _) fun _ _ => endsIn_done _

theorem endsIn_prepareAll (dir : Directory) (channels : List Channel) :
    (dir.prepareAll channels).EndsIn b Error.IsWhole short :=
  (endsIn_check _).bind (readOnly_check _) fun _ _ =>
    (dir.endsIn_ownersFor _).bind (dir.readOnly_ownersFor _) fun _ _ => endsIn_done _

theorem endsIn_createWrite (dir : Directory) (name : String) (c : Channel) :
    (dir.createWrite name c).plan.EndsIn b Error.IsWhole short := by
  unfold createWrite
  dsimp only
  split
  · exact endsIn_fail (by rintro ⟨⟩)
  · exact (dir.endsIn_prepare c).bind (dir.readOnly_prepare c) fun _ _ => endsIn_done _

theorem endsIn_createAllWrite (dir : Directory) (channels : List Channel) :
    (dir.createAllWrite channels).plan.EndsIn b Error.IsWhole short :=
  (dir.endsIn_prepareAll channels).bind (dir.readOnly_prepareAll channels) fun _ _ => endsIn_done _

theorem endsIn_updateWrite (dir : Directory) (name : String) (request : Channel) :
    (dir.updateWrite name request).plan.EndsIn b Error.IsWhole short :=
  (dir.channels.endsIn_require name).bind (dir.channels.readOnly_require name) fun _ _ =>
    (dir.endsIn_prepare _).bind (dir.readOnly_prepare _) fun _ _ => endsIn_done _

theorem endsIn_updateAllWrite (dir : Directory) (requests : List Channel) :
    (dir.updateAllWrite requests).plan.EndsIn b Error.IsWhole short :=
  (dir.channels.endsIn_findAll _).bind (dir.channels.readOnly_findAll _) fun _ _ =>
    dir.endsIn_createAllWrite _

end Directory

end ChannelDirectory

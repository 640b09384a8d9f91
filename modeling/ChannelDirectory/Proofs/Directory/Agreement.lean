import ChannelDirectory.Proofs.Directory.AttributePlans
import ChannelDirectory.Proofs.Directory.Members
import ChannelDirectory.Proofs.Program.Agreement

/-!
# What a command on one record depends on

A command on the record of a name sees of the store the document of the record, which channels
there are, and the members of the name. Where two stores show the same of these
(`Directory.SameMembers`), its plan is the same (`alike_createPlan` and its likes), and so is what
its answer says of the record (`Directory.alike_readAttribute`). The commands on a single channel do
not look at the members, so `Directory.SameRecord` is enough for them.
-/

namespace ChannelDirectory

open Attribute Collection LawfulAttribute Program

/-- Laws of the records of a kind : name, owner and channels are parts of their own, and so is the
owner of a channel. -/
class LawfulRecord (α : Type) {ρ : Type} [Attribute α ρ] [Reference ρ] [LawfulAttribute α] :
    Prop where
  withIdentity_self : ∀ record : α, withIdentity record (Entity.name record) (owner record) = record
  withChannels_withChannels : ∀ (record : α) (cs cs' : List Channel),
    withChannels (withChannels record cs) cs' = withChannels record cs'
  owner_setRefs : ∀ (c : Channel) (rs : List ρ), (setRefs α c rs).owner = c.owner

instance : LawfulRecord Tag where
  withIdentity_self _ := rfl
  withChannels_withChannels _ _ _ := rfl
  owner_setRefs _ _ := rfl

instance : LawfulRecord Property where
  withIdentity_self _ := rfl
  withChannels_withChannels _ _ _ := rfl
  owner_setRefs _ _ := rfl

namespace Directory

variable {α ρ : Type} [Attribute α ρ] {dir : Directory} {b b' : Backend} {name : String}

/-- The backends have the same record of a name, and the same channels are there. -/
structure SameRecord (dir : Directory) (α : Type) {ρ : Type} [Attribute α ρ] (name : String)
    (b b' : Backend) : Prop where
  available : b.available = b'.available
  record : b.store.get? (Attribute.index α dir.config) name =
    b'.store.get? (Attribute.index α dir.config) name
  channels : (dir.channels.contents b.store).keys = (dir.channels.contents b'.store).keys

/-- The backends also have the same members of the name. -/
structure SameMembers (dir : Directory) (α : Type) {ρ : Type} [Attribute α ρ] [Reference ρ]
    (name : String) (b b' : Backend) : Prop extends dir.SameRecord α name b b' where
  window : b.window = b'.window
  members : dir.membersOf α b.store name = dir.membersOf α b'.store name

/-- The answers are the same record with the same members. What else the members carry may
differ. -/
def SameAnswer [Reference ρ] (name : String) (answer answer' : α) : Prop :=
  withChannels answer [] = withChannels answer' [] ∧
    membership α (Attribute.channels answer) name = membership α (Attribute.channels answer') name

/-! ## Reads -/

/-- Backends that agree on a record have the same channels. -/
theorem SameRecord.isSome_channel (same : dir.SameRecord α name b b')
    (wf : dir.channels.HoldsOnly Channel.Distinct b.store)
    (wf' : dir.channels.HoldsOnly Channel.Distinct b'.store) (id : String) :
    (b.store.get? dir.channels.index id).isSome = (b'.store.get? dir.channels.index id).isSome := by
  rw [wf.isSome_get?, wf'.isSome_get?, Bool.eq_iff_iff, KeyMap.contains_iff, KeyMap.contains_iff,
    ← KeyMap.mem_keys_iff, ← KeyMap.mem_keys_iff, same.channels]

theorem alike_checkName (name : String) (record : α) :
    Alike Eq (checkName name record) b (checkName name record) b' := by
  unfold checkName
  split
  · exact alike_done rfl
  · exact alike_fail _

/-- The check of a record ends alike where the same channels are stored. -/
theorem alike_checkRecord (wf : dir.channels.HoldsOnly Channel.Distinct b.store)
    (wf' : dir.channels.HoldsOnly Channel.Distinct b'.store) (same : dir.SameRecord α name b b')
    (record : α) : Alike Eq (dir.checkRecord record) b (dir.checkRecord record) b' := by
  refine (alike_check _).bind_eq (readOnly_check _) fun _ _ => ?_
  refine (dir.channels.alike_missing same.available (same.isSome_channel wf wf')).bind_eq
    (dir.channels.readOnly_missing _) fun missing _ => ?_
  cases missing with
  | nil => exact alike_done rfl
  | cons channel rest => exact alike_fail _

/-- The check of a channel ends alike where the same channels are stored. -/
theorem alike_checkChannel (wf : dir.channels.HoldsOnly Channel.Distinct b.store)
    (wf' : dir.channels.HoldsOnly Channel.Distinct b'.store) (same : dir.SameRecord α name b b')
    (channel : String) : Alike Eq (dir.checkChannel channel) b (dir.checkChannel channel) b' := by
  refine (dir.channels.alike_contains same.available (same.isSome_channel wf wf')).bind_eq
    (dir.channels.readOnly_contains channel) fun found _ => ?_
  cases found with
  | true => exact alike_done rfl
  | false => exact alike_fail _

theorem alike_requireRecord (same : dir.SameRecord α name b b') :
    Alike Eq ((dir.records α).require name) b ((dir.records α).require name) b' :=
  (dir.records α).alike_require same.available same.record

section Members

variable [Reference ρ] [LawfulAttribute α]

/-- The members are read alike, up to what else they carry. -/
theorem alike_members (wf : dir.channels.HoldsOnly Channel.Distinct b.store)
    (wf' : dir.channels.HoldsOnly Channel.Distinct b'.store) (same : dir.SameMembers α name b b') :
    Alike (fun found found' => membership α found name = membership α found' name)
      (dir.members (memberPredicate α name)) b (dir.members (memberPredicate α name)) b' := by
  have hlength : (dir.channels.select (memberPredicate α name) b.store).length =
      (dir.channels.select (memberPredicate α name) b'.store).length := by
    rw [length_select_members wf, length_select_members wf', same.members]
  refine (alike_findMatching dir.channels wf wf' dir.pageSize_pos dir.pageBudget same.available
    same.window hlength).mono ?_
  rintro _ _ ⟨rfl, rfl⟩
  rw [membership_select wf, membership_select wf', same.members]

/-- The members of a name are read alike where they are the same. -/
theorem alike_currentMembers (wf : dir.channels.HoldsOnly Channel.Distinct b.store)
    (wf' : dir.channels.HoldsOnly Channel.Distinct b'.store) (same : dir.SameMembers α name b b') :
    Alike Eq (dir.currentMembers α name) b (dir.currentMembers α name) b' :=
  (alike_members wf wf' same).bind (dir.readOnly_members _) (dir.readOnly_members _)
    fun _ _ _ hsame => alike_done hsame

/-- The answer says the same of the record. -/
theorem alike_readAttribute [LawfulRecord α] (shape : dir.InShape α b.store)
    (shape' : dir.InShape α b'.store) (same : dir.SameMembers α name b b') :
    Alike (SameAnswer name) (dir.readAttribute α name true) b (dir.readAttribute α name true)
      b' := by
  refine (alike_requireRecord same.toSameRecord).bind_eq ((dir.records α).readOnly_require name)
    fun record _ => ?_
  refine (alike_members shape.channels shape'.channels same).bind (dir.readOnly_members _)
    (dir.readOnly_members _) fun found found' _ hsame => alike_done ?_
  rw [SameAnswer, LawfulRecord.withChannels_withChannels, LawfulRecord.withChannels_withChannels,
    channels_withChannels, channels_withChannels]
  exact ⟨rfl, hsame⟩

end Members

/-! ## Plans -/

theorem alike_removeFromPlan (shape : dir.InShape α b.store)
    (shape' : dir.InShape α b'.store) (same : dir.SameRecord α name b b') (channel : String) :
    Alike Eq (dir.removeFromPlan α name channel) b (dir.removeFromPlan α name channel) b' := by
  refine (alike_requireRecord same).bind_eq ((dir.records α).readOnly_require name)
    fun record _ => ?_
  exact (alike_checkChannel shape.channels shape'.channels same channel).bind_eq
    (dir.readOnly_checkChannel channel) fun _ _ => alike_done rfl

variable [Reference ρ]

/-- An assignment to one channel is planned alike where the record and the channels are the same. -/
theorem alike_addPlan (shape : dir.InShape α b.store) (shape' : dir.InShape α b'.store)
    (same : dir.SameRecord α name b b') (channel : String) (request : α) :
    Alike Eq (dir.addPlan name channel request) b (dir.addPlan name channel request) b' := by
  refine (alike_checkName name request).bind_eq (readOnly_checkName name request) fun _ _ => ?_
  refine (alike_requireRecord same).bind_eq ((dir.records α).readOnly_require name)
    fun record _ => ?_
  refine (alike_checkChannel shape.channels shape'.channels same channel).bind_eq
    (dir.readOnly_checkChannel channel) fun _ _ => ?_
  exact (alike_check _).bind_eq (readOnly_check _) fun _ _ => alike_done rfl

variable [DecidableEq ρ] [LawfulAttribute α]

/-- A creation is planned alike where the members of its name are the same. -/
theorem alike_createPlan (shape : dir.InShape α b.store) (shape' : dir.InShape α b'.store)
    (same : dir.SameMembers α name b b') (record : α) :
    Alike Eq (dir.createPlan name record) b (dir.createPlan name record) b' := by
  refine (alike_checkName name record).bind_eq (readOnly_checkName name record) fun _ hname => ?_
  -- The members that are read are those of the name.
  obtain rfl : Entity.name record = name := returns_checkName hname
  refine (alike_checkRecord shape.channels shape'.channels same.toSameRecord record).bind_eq
    (dir.readOnly_checkRecord record) fun _ _ => ?_
  refine Alike.bind_eq (dir.readOnly_stageReplace record _) ?_ fun edits _ => alike_done rfl
  refine (alike_check _).bind_eq (readOnly_check _) fun desired _ => ?_
  exact (alike_currentMembers shape.channels shape'.channels same).bind_eq
    (dir.readOnly_currentMembers _) fun current _ => alike_done rfl

/-- An update in place is planned alike where the record and its members are the same. -/
theorem alike_updatePlan (shape : dir.InShape α b.store) (shape' : dir.InShape α b'.store)
    (same : dir.SameMembers α name b b') {request : α} (hname : updatedName name request = name) :
    Alike Eq (dir.updatePlan name request) b (dir.updatePlan name request) b' := by
  refine (alike_requireRecord same.toSameRecord).bind_eq ((dir.records α).readOnly_require name)
    fun existing _ => ?_
  refine (alike_checkRecord shape.channels shape'.channels same.toSameRecord _).bind_eq
    (dir.readOnly_checkRecord _) fun _ _ => ?_
  refine (alike_check _).bind_eq (readOnly_check _) fun desired _ => ?_
  refine (alike_currentMembers shape.channels shape'.channels same).bind_eq
    (dir.readOnly_currentMembers name) fun current _ => ?_
  rw [if_neg (not_not.mpr hname)]
  exact alike_done rfl

/-- A deletion is planned alike where the record and its members are the same. -/
theorem alike_removePlan (shape : dir.InShape α b.store) (shape' : dir.InShape α b'.store)
    (same : dir.SameMembers α name b b') :
    Alike Eq (dir.removePlan α name) b (dir.removePlan α name) b' := by
  refine (alike_requireRecord same.toSameRecord).bind_eq ((dir.records α).readOnly_require name)
    fun record _ => ?_
  exact (alike_currentMembers shape.channels shape'.channels same).bind_eq
    (dir.readOnly_currentMembers name) fun current _ => alike_done rfl

end Directory

end ChannelDirectory

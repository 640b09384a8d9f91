import ChannelDirectory.Proofs.Directory.Batches
import ChannelDirectory.Proofs.Directory.Commands
import ChannelDirectory.Proofs.Program.Replacing

/-!
# No command on tags or properties makes or deletes a channel

The commands on tags and properties write channels with replacements only, and all their other
writes are puts and deletes in another index (`Directory.onlyReplaces_attributeProgram`). So with
any number of clients, and whatever these do between two calls of such a command, its batch leaves
those channels that are there when it is carried out. If a channel that it was planned for is gone
by then, the command ends with a partial failure that names it (`Directory.channels_stand`).

Where all clients run such commands, the same channels are there throughout
(`Directory.channels_stand_throughout`).
-/

namespace ChannelDirectory

open Attribute Collection LawfulAttribute Program

namespace Directory

/-- The ids of the channels that are there. -/
def channelIds (dir : Directory) (s : Store) : List String :=
  (s.documents dir.config.channelIndex).keys

/-- The write is about a channel that is not there. -/
def Strays (dir : Directory) (s : Store) (op : Operation) : Prop :=
  op.index = dir.config.channelIndex ∧ op.id ∉ dir.channelIds s

section Attributes

variable {α ρ : Type} [Attribute α ρ] [Reference ρ] [LawfulAttribute α] {dir : Directory}

/-! ## Batches -/

/-- Writes of records followed by replacements of channels only replace in the index of channels. -/
theorem PutsOrDeletes.replacing (indices : dir.config.DistinctIndices) {ops more : List Operation}
    (hops : dir.PutsOrDeletes α ops)
    (hmore : ∀ op ∈ more, op.action = .replace ∧ op.index = dir.config.channelIndex) :
    Replacing dir.config.channelIndex (ops ++ more) := by
  have hindex : Attribute.index α dir.config ≠ dir.config.channelIndex := index_ne indices
  intro op hop
  rcases List.mem_append.mp hop with hop | hop
  · obtain ⟨haction, hsame⟩ := hops op hop
    exact iff_of_false haction (hsame ▸ hindex)
  · exact iff_of_true (hmore op hop).1 (hmore op hop).2

/-- Edits become replacements of channels. -/
theorem onlyReplaces_operations (edits : ChannelEdits) (index : String) :
    (edits.operations dir.channels).OnlyReplaces index fun more =>
      ∀ op ∈ more, op.action = .replace ∧ op.index = dir.config.channelIndex := by
  refine (readOnly_findAll dir.channels edits.keys).onlyReplaces.bind fun found _ => ?_
  refine onlyReplaces_ofExcept fun more hmore op hop => ?_
  obtain ⟨e, -, c, -, rfl⟩ := ChannelEdits.mem_writes hmore hop
  exact ⟨rfl, rfl⟩

/-- A batch of records and edits only replaces in the index of channels. -/
theorem onlyReplaces_submitEdits (indices : dir.config.DistinctIndices) {ops : List Operation}
    (hops : dir.PutsOrDeletes α ops) (edits : ChannelEdits) :
    (dir.submitEdits ops edits).OnlyReplaces dir.config.channelIndex fun _ => True :=
  (onlyReplaces_operations edits _).bind fun _ hmore =>
    (onlyReplaces_execute (hops.replacing indices hmore)).discard

/-- A write that plans puts and deletes of records, and edits of channels. -/
theorem onlyReplaces_editWrite (indices : dir.config.DistinctIndices) {β : Type}
    {plan : Program (EditPlan β)} (hread : plan.ReadOnly)
    (hplan : plan.OnlyReplaces dir.config.channelIndex fun p => dir.PutsOrDeletes α p.ops) :
    (dir.editWrite plan hread).program.OnlyReplaces dir.config.channelIndex fun _ => True := by
  rw [editWrite_program]
  exact hplan.bind fun p hops => (onlyReplaces_submitEdits indices hops p.edits).bind fun _ _ =>
    p.readOnly_answer.onlyReplaces

end Attributes

/-! ## Plans -/

section Plans

variable {α ρ : Type} [Attribute α ρ] [Reference ρ] {dir : Directory} {index : String}

theorem onlyReplaces_addPlan (name channel : String) (request : α) :
    (dir.addPlan name channel request).OnlyReplaces index fun p => dir.PutsOrDeletes α p.ops :=
  (readOnly_checkName name request).onlyReplaces.bind fun _ _ =>
    ((dir.records α).readOnly_require name).onlyReplaces.bind fun _ _ =>
      (dir.readOnly_checkChannel channel).onlyReplaces.bind fun _ _ =>
        (readOnly_check _).onlyReplaces.bind fun _ _ => putsOrDeletes_puts []

omit [Reference ρ] in
theorem onlyReplaces_removeFromPlan (name channel : String) :
    (dir.removeFromPlan α name channel).OnlyReplaces index fun p => dir.PutsOrDeletes α p.ops :=
  ((dir.records α).readOnly_require name).onlyReplaces.bind fun _ _ =>
    (dir.readOnly_checkChannel channel).onlyReplaces.bind fun _ _ => putsOrDeletes_puts (α := α) []

variable [DecidableEq ρ]

theorem onlyReplaces_createPlan (name : String) (record : α) :
    (dir.createPlan name record).OnlyReplaces index fun p => dir.PutsOrDeletes α p.ops :=
  (readOnly_checkName name record).onlyReplaces.bind fun _ _ =>
    (dir.readOnly_checkRecord record).onlyReplaces.bind fun _ _ =>
      (dir.readOnly_stageReplace record _).onlyReplaces.bind fun _ _ => putsOrDeletes_puts [record]

theorem onlyReplaces_createAllPlan (records : List α) :
    (dir.createAllPlan records).OnlyReplaces index fun p => dir.PutsOrDeletes α p.ops :=
  (readOnly_each fun record _ => dir.readOnly_checkRecord record).onlyReplaces.bind fun _ _ =>
    (dir.readOnly_stageReplaceAll _ _).onlyReplaces.bind fun _ _ => putsOrDeletes_puts _

theorem onlyReplaces_removePlan (name : String) :
    (dir.removePlan α name).OnlyReplaces index fun p => dir.PutsOrDeletes α p.ops :=
  ((dir.records α).readOnly_require name).onlyReplaces.bind fun _ _ =>
    (dir.readOnly_currentMembers name).onlyReplaces.bind fun _ _ => putsOrDeletes_delete name

/-- An update plans puts and deletions of records. -/
theorem onlyReplaces_updatePlan (name : String) (request : α) :
    (dir.updatePlan name request).OnlyReplaces index fun p => dir.PutsOrDeletes α p.ops := by
  refine ((dir.records α).readOnly_require name).onlyReplaces.bind fun existing _ => ?_
  refine (dir.readOnly_checkRecord _).onlyReplaces.bind fun _ _ => ?_
  refine (readOnly_check _).onlyReplaces.bind fun desired _ => ?_
  refine (dir.readOnly_currentMembers name).onlyReplaces.bind fun current _ => ?_
  split
  · refine (dir.readOnly_stageRename _ _ _ _ _).onlyReplaces.bind fun edits _ => ?_
    exact (putsOrDeletes_delete name).append (putsOrDeletes_puts [_])
  · exact putsOrDeletes_puts [_]

/-- A record that is merged is put if it is new, and nothing else is written for it. -/
theorem onlyReplaces_stageMerge (name : String) (record : α)
    {staged : List Operation × ChannelEdits} (hops : dir.PutsOrDeletes α staged.1) :
    (dir.stageMerge name record staged).OnlyReplaces index fun staged =>
      dir.PutsOrDeletes α staged.1 := by
  obtain ⟨ops, edits⟩ := staged
  refine ((dir.records α).readOnly_get name).onlyReplaces.bind fun existing _ => ?_
  cases existing with
  | none =>
    refine (dir.readOnly_checkRecord _).onlyReplaces.bind fun _ _ => ?_
    refine (readOnly_check _).onlyReplaces.bind fun desired _ => ?_
    refine (dir.readOnly_currentMembers name).onlyReplaces.bind fun current _ => ?_
    exact hops.append (putsOrDeletes_puts [record])
  | some existing =>
    refine (dir.readOnly_checkRecord _).onlyReplaces.bind fun _ _ => ?_
    refine (readOnly_check _).onlyReplaces.bind fun desired _ => ?_
    exact (dir.readOnly_currentMembers name).onlyReplaces.bind fun current _ => hops

/-- Staging many merges adds puts of records only. -/
theorem onlyReplaces_stageMergeAll (records : List (String × α))
    {staged : List Operation × ChannelEdits} (hops : dir.PutsOrDeletes α staged.1) :
    (dir.stageMergeAll records staged).OnlyReplaces index fun staged =>
      dir.PutsOrDeletes α staged.1 := by
  induction records generalizing staged with
  | nil => exact hops
  | cons entry records ih =>
    exact (onlyReplaces_stageMerge entry.1 entry.2 hops).bind fun staged hstaged => ih hstaged

theorem onlyReplaces_updateAllPlan (records : List α) :
    (dir.updateAllPlan records).OnlyReplaces index fun p => dir.PutsOrDeletes α p.ops :=
  (onlyReplaces_stageMergeAll _ (putsOrDeletes_puts [])).bind fun _ hops => hops

end Plans

/-! ## Commands -/

section Commands

variable {α ρ : Type} [Attribute α ρ] [Reference ρ] [LawfulAttribute α] [DecidableEq ρ]
  {dir : Directory}

/-- A command on tags or properties only replaces channels, whoever else writes. -/
theorem onlyReplaces_attributeProgram (indices : dir.config.DistinctIndices)
    (command : AttributeCommand α) :
    (dir.attributeProgram command).OnlyReplaces dir.config.channelIndex fun _ => True := by
  cases command with
  | create name record =>
    rw [attributeProgram, createAttribute_eq]
    exact (onlyReplaces_editWrite indices _ (onlyReplaces_createPlan name record)).discard
  | createMany records =>
    rw [attributeProgram, createAttributes_eq]
    exact (onlyReplaces_editWrite indices _ (onlyReplaces_createAllPlan records)).discard
  | addToChannel name channel request =>
    rw [attributeProgram, addToChannel_eq]
    exact (onlyReplaces_editWrite indices _ (onlyReplaces_addPlan name channel request)).discard
  | update name request =>
    rw [attributeProgram, updateAttribute_eq]
    exact (onlyReplaces_editWrite indices _ (onlyReplaces_updatePlan name request)).discard
  | updateMany records =>
    rw [attributeProgram, updateAttributes_eq]
    exact (onlyReplaces_editWrite indices _ (onlyReplaces_updateAllPlan records)).discard
  | remove name =>
    rw [attributeProgram, removeAttribute_eq]
    exact onlyReplaces_editWrite indices _ (onlyReplaces_removePlan name)
  | removeFromChannel name channel =>
    rw [attributeProgram, removeFromChannel_eq]
    exact onlyReplaces_editWrite indices _ (onlyReplaces_removeFromPlan name channel)

/-! ## Among other clients -/

omit [Attribute α ρ] [Reference ρ] [LawfulAttribute α] [DecidableEq ρ] in
/-- Among replacements, the writes about channels that are not there are those that fail. -/
theorem lacks_iff_strays {ops : List Operation} (h : Replacing dir.config.channelIndex ops)
    {op : Operation} (hop : op ∈ ops) (s : Store) : s.lacks op = true ↔ dir.Strays s op := by
  have hthere : op.id ∉ dir.channelIds s ↔ s.get? dir.config.channelIndex op.id = none := by
    rw [channelIds, KeyMap.mem_keys_iff, ← Option.ne_none_iff_exists', not_not]
    rfl
  rw [Store.lacks, decide_eq_true_iff, h op hop, Strays, hthere]
  refine and_congr_right fun hindex => ?_
  rw [hindex]

omit [Attribute α ρ] [Reference ρ] [LawfulAttribute α] [DecidableEq ρ] in
/-- The failures of replacements are about the channels that are not there. -/
theorem mem_missing_iff_strays {ops : List Operation}
    (h : Replacing dir.config.channelIndex ops) (s : Store) {failure : Failure} :
    failure ∈ (ops.filter s.lacks).map Operation.missing ↔
      ∃ op ∈ ops, dir.Strays s op ∧ failure = op.missing := by
  rw [List.mem_map]
  constructor
  · rintro ⟨op, hop, rfl⟩
    obtain ⟨hop, hlacks⟩ := List.mem_filter.mp hop
    exact ⟨op, hop, (lacks_iff_strays h hop s).mp hlacks, rfl⟩
  · rintro ⟨op, hop, hstrays, rfl⟩
    exact ⟨op, List.mem_filter.mpr ⟨hop, (lacks_iff_strays h hop s).mpr hstrays⟩, rfl⟩

/-- A client starts a command on tags or properties. Whatever has happened before one of its turns,
and whatever the others have written, the turn leaves those channels that are there. If its batch is
about channels that are not there, the command ends with a partial failure that names exactly
these. -/
theorem channels_stand (indices : dir.config.DistinctIndices) (n : Network)
    (command : AttributeCommand α) (events later : List Event) :
    let client := n.clients.length
    let before := (n.after (.start (dir.attributeProgram command))).run events
    let after := before.after (.turn client)
    dir.channelIds after.backend.store = dir.channelIds before.backend.store ∧
      ∃ p, before.clients[client]? = some p ∧
        (before.backend.available = true →
          (∃ op ∈ p.pending, dir.Strays before.backend.store op) →
          ∃ applied failures, (after.run later).clients[client]? =
              some (.fail (.partialFailure applied failures)) ∧
            ∀ failure, failure ∈ failures ↔
              ∃ op ∈ p.pending, dir.Strays before.backend.store op ∧ failure = op.missing) := by
  intro client before after
  have hstarted : ∃ p, (n.after (.start (dir.attributeProgram command))).clients[client]? = some p ∧
      p.OnlyReplaces dir.config.channelIndex fun _ => True :=
    ⟨_, List.getElem?_concat_length, onlyReplaces_attributeProgram indices command⟩
  obtain ⟨p, hp, honly⟩ := Network.exists_client_run (fun p b h => h.step b) hstarted events
  have hafter : after =
      ⟨(p.step before.backend).2, before.clients.set client (p.step before.backend).1⟩ :=
    Network.after_turn hp
  refine ⟨?_, p, hp, ?_⟩
  · rw [hafter]
    exact honly.keys_step before.backend
  · rintro havail ⟨op, hop, hstrays⟩
    obtain ⟨applied, hend⟩ := honly.step_of_lacks havail hop
      ((lacks_iff_strays honly.pending hop _).mpr hstrays)
    have hfailed : after.clients[client]? = some (.fail (.partialFailure applied
        ((p.pending.filter before.backend.store.lacks).map Operation.missing))) := by
      rw [hafter, ← hend]
      exact List.getElem?_set_self (List.getElem?_eq_some_iff.mp hp).1
    exact ⟨applied, _, Network.client_run_of_fail hfailed later,
      fun failure => mem_missing_iff_strays honly.pending before.backend.store⟩

end Commands

/-- Two channels with a tag. -/
def tagOnBoth : Backend where
  store := usual.filled [⟨"A", "o", [⟨"t", "o"⟩], []⟩, ⟨"B", "o", [⟨"t", "o"⟩], []⟩]
    [⟨"t", "o", []⟩] []

/-- The tag is removed, and after its members have been read another client deletes one of them. -/
theorem tagOnBoth_names_deleted :
    let before := ((Network.mk tagOnBoth []).after (.start
        (usual.attributeProgram (AttributeCommand.remove "t" : AttributeCommand Tag)))).run
      [.turn 0, .turn 0, .turn 0, .start (usual.removeChannel "A"), .turn 1]
    let after := before.after (.turn 0)
    usual.channelIds after.backend.store = ["B"] ∧ ∃ applied failures,
      after.clients[0]? = some (.fail (.partialFailure applied failures)) ∧
        (⟨"channelfinder", "A", .replace, Store.missingReason "A"⟩ : Failure) ∈ failures := by
  intro before after
  obtain ⟨hids, p, hp, hnamed⟩ := channels_stand distinctIndices_usual ⟨tagOnBoth, []⟩
    (AttributeCommand.remove "t" : AttributeCommand Tag)
    [.turn 0, .turn 0, .turn 0, .start (usual.removeChannel "A"), .turn 1] []
  change before.clients[0]? = some p at hp
  have hbefore : usual.channelIds before.backend.store = ["B"] := by cbv
  have havail : before.backend.available = true := by cbv
  have hpending : (before.clients[0]?.map fun p => p.pending.map fun op => (op.index, op.id)) =
      some [("cf_tags", "t"), ("channelfinder", "A"), ("channelfinder", "B")] := by cbv
  rw [hp, Option.map_some, Option.some.injEq] at hpending
  have hA : ("channelfinder", "A") ∈ p.pending.map fun op => (op.index, op.id) := by
    rw [hpending]
    decide
  obtain ⟨op, hop, hkey⟩ := List.mem_map.mp hA
  obtain ⟨hindex, hid⟩ := Prod.mk.inj hkey
  have hstrays : usual.Strays before.backend.store op := by
    refine ⟨hindex, ?_⟩
    rw [hid, hbefore]
    decide
  obtain ⟨applied, failures, hended, hfailures⟩ := hnamed havail ⟨op, hop, hstrays⟩
  refine ⟨hids.trans hbefore, applied, failures, hended, (hfailures _).mpr ⟨op, hop, hstrays, ?_⟩⟩
  rw [Operation.missing, hindex, hid]

/-- If all clients run commands on tags or properties, the same channels are there throughout. -/
theorem channels_stand_throughout {dir : Directory} (indices : dir.config.DistinctIndices)
    (b : Backend) {events : List Event}
    (hstart : ∀ task, .start task ∈ events →
      (∃ command : AttributeCommand Tag, task = dir.attributeProgram command) ∨
        ∃ command : AttributeCommand Property, task = dir.attributeProgram command) :
    dir.channelIds ((Network.mk b []).run events).backend.store = dir.channelIds b.store := by
  refine Network.keys_run (List.forall_mem_nil _) fun task htask => ?_
  rcases hstart task htask with ⟨command, rfl⟩ | ⟨command, rfl⟩
  · exact onlyReplaces_attributeProgram indices command
  · exact onlyReplaces_attributeProgram indices command

end Directory

end ChannelDirectory

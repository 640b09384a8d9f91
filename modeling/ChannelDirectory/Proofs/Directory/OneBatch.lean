import ChannelDirectory.Proofs.Directory.Batches
import ChannelDirectory.Proofs.Directory.ChannelResubmission
import ChannelDirectory.Proofs.Directory.Commands
import ChannelDirectory.Proofs.Program.WritingOnce

/-!
# No command writes a document twice

Every command submits at most one batch, and no two writes of this batch address the same document
(`Directory.program_writesOnce`). Three things see to it. Of the records in a request only the last
one of each name is written. All edits of a channel are collected under its name, so each channel is
replaced once. And records and channels are in different indices. None of this depends on what is
stored, or on what others write in the meantime. So no write of a request is lost to another write
of the same request, and the order of its batch does not matter
(`Directory.each_document_written_once`).
-/

namespace ChannelDirectory

open Attribute Collection LawfulAttribute Program

/-- All writes are in one index, and each has another id. -/
def OncePerId (index : String) (ops : List Operation) : Prop :=
  (∀ op ∈ ops, op.index = index) ∧ (ops.map Operation.id).Nodup

theorem oncePerId_nil (index : String) : OncePerId index [] :=
  ⟨List.forall_mem_nil _, List.nodup_nil⟩

/-- Records of different names are put into different documents. -/
theorem oncePerId_puts {α : Type} [Entity α] (c : Collection α) {records : List α}
    (h : (records.map Entity.name).Nodup) : OncePerId c.index (records.map c.putOp) := by
  refine ⟨fun op hop => ?_, ?_⟩
  · obtain ⟨record, -, rfl⟩ := List.mem_map.mp hop
    rfl
  · rw [List.map_map]
    exact h

theorem oncePerId_put {α : Type} [Entity α] (c : Collection α) (record : α) :
    OncePerId c.index [c.putOp record] :=
  ⟨List.forall_mem_singleton.mpr rfl, List.nodup_singleton _⟩

theorem oncePerId_delete {α : Type} [Entity α] (c : Collection α) (id : String) :
    OncePerId c.index [c.deleteOp id] :=
  ⟨List.forall_mem_singleton.mpr rfl, List.nodup_singleton id⟩

/-- What takes another name is deleted under the old one and put under the new one. -/
theorem oncePerId_rename {α : Type} [Entity α] (c : Collection α) {id : String} {record : α}
    (h : Entity.name record ≠ id) : OncePerId c.index [c.deleteOp id, c.putOp record] := by
  refine ⟨fun op hop => ?_, ?_⟩
  · rcases List.mem_cons.mp hop with rfl | hop
    · rfl
    · rw [List.mem_singleton.mp hop]
      rfl
  · exact List.nodup_cons.mpr ⟨fun hmem => h (List.mem_singleton.mp hmem).symm,
      List.nodup_singleton _⟩

theorem Program.WritesOnce.discard {α : Type} {p : Program α} (h : p.WritesOnce) :
    p.discard.WritesOnce :=
  h.bind fun _ => trivial

/-- Writes in one index with different ids do not meet. -/
theorem OncePerId.separate {index : String} {ops : List Operation} (h : OncePerId index ops) :
    Separate ops :=
  separate_of_ids h.2

/-! ## Edits of channels -/

namespace ChannelEdits

/-- Whatever is read for them, edits replace each channel under its name. -/
theorem gives_operations (edits : ChannelEdits) (channels : Collection Channel) :
    (edits.operations channels).Gives (OncePerId channels.index) := by
  refine gives_bind fun found => gives_ofExcept fun ops hops => ?_
  obtain ⟨-, rfl⟩ := writes_eq_ok_iff.mp hops
  have hnamed : ∀ name c', (edits.filterMap (rewritten
      (KeyMap.ofList (found.map fun c => (c.name, c))))).get? name = some c' → c'.name = name := by
    intro name c' hget
    rw [KeyMap.get?_filterMap] at hget
    obtain ⟨edit, -, hget⟩ := Option.bind_eq_some_iff.mp hget
    obtain ⟨c, hc, hget⟩ := Option.bind_eq_some_iff.mp hget
    obtain ⟨_, -, hname, rfl⟩ := KeyMap.mem_of_get?_ofList_map hc
    split at hget
    · cases hget
    · rw [← Option.some.inj hget]
      exact hname
  have hnames := KeyMap.keys_nodup (edits.filterMap (rewritten
    (KeyMap.ofList (found.map fun c => (c.name, c)))))
  rw [KeyMap.keys_eq_map_values hnamed, KeyMap.values_filterMap] at hnames
  refine ⟨fun op hop => ?_, ?_⟩
  · obtain ⟨c, -, rfl⟩ := List.mem_map.mp hop
    rfl
  · rw [List.map_map]
    exact hnames

end ChannelEdits

namespace Directory

/-! ## Tags and properties -/

section Attributes

variable {α ρ : Type} [Attribute α ρ] [Reference ρ] {dir : Directory} {name channel : String}

/-- The plan writes records of one kind, no two under one name. -/
def PlansOnce {β : Type} (dir : Directory) (α : Type) {ρ : Type} [Attribute α ρ]
    (p : EditPlan β) : Prop :=
  OncePerId (dir.records α).index p.ops

/-- An edit that plans no two writes of one name writes each document at most once. -/
theorem writesOnce_editWrite [LawfulAttribute α] (indices : dir.config.DistinctIndices) {β : Type}
    {plan : Program (EditPlan β)} (hread : plan.ReadOnly) (h : plan.Gives (dir.PlansOnce α)) :
    (dir.editWrite plan hread).program.WritesOnce := by
  have hindex : Attribute.index α dir.config ≠ dir.config.channelIndex := index_ne indices
  refine Write.writesOnce _ (h.bind fun p hops => ?_)
  refine (ChannelEdits.gives_operations p.edits dir.channels).bind fun more hmore => ?_
  refine hops.separate.append hmore.separate fun op hop op' hop' => ?_
  rw [hops.1 op hop, hmore.1 op' hop']
  exact hindex

theorem gives_addPlan (request : α) :
    (dir.addPlan name channel request).Gives (dir.PlansOnce α) :=
  gives_bind fun _ => gives_bind fun _ => gives_bind fun _ => gives_bind fun _ => oncePerId_nil _

omit [Reference ρ] in
theorem gives_removeFromPlan : (dir.removeFromPlan α name channel).Gives (dir.PlansOnce α) :=
  gives_bind fun _ => gives_bind fun _ => oncePerId_nil _

variable [DecidableEq ρ]

theorem gives_createPlan (record : α) : (dir.createPlan name record).Gives (dir.PlansOnce α) :=
  gives_bind fun _ => gives_bind fun _ => gives_bind fun _ => oncePerId_put _ record

/-- A creation of many records writes each name once : of each name the last record counts. -/
theorem gives_createAllPlan (records : List α) :
    (dir.createAllPlan records).Gives (dir.PlansOnce α) := by
  refine gives_bind fun _ => gives_bind fun _ => oncePerId_puts _ ?_
  rw [names_values_lastByName]
  exact KeyMap.keys_nodup _

theorem gives_removePlan : (dir.removePlan α name).Gives (dir.PlansOnce α) :=
  gives_bind fun _ => gives_bind fun _ => oncePerId_delete _ name

/-- An update writes one record, or a record and the deletion of another. -/
theorem gives_updatePlan [LawfulAttribute α] (request : α) :
    (dir.updatePlan name request).Gives (dir.PlansOnce α) := by
  refine gives_bind fun existing => gives_bind fun _ => gives_bind fun _ => gives_bind fun _ => ?_
  have hname : Entity.name (updatedRecord name existing request) = updatedName name request :=
    name_withIdentity request _ _
  split
  · rename_i hne
    exact gives_bind fun _ => oncePerId_rename _ (hname ▸ hne)
  · exact oncePerId_put _ _

/-- A record that is merged adds at most a write under its own name. -/
theorem gives_stageMerge {record : α} (hname : Entity.name record = name)
    (staged : List Operation × ChannelEdits) :
    (dir.stageMerge name record staged).Gives fun staged' =>
      staged'.1 = staged.1 ∨ ∃ op : Operation, op.index = (dir.records α).index ∧ op.id = name ∧
        staged'.1 = staged.1 ++ [op] := by
  obtain ⟨ops, edits⟩ := staged
  refine gives_bind fun existing => ?_
  cases existing with
  | none =>
    refine gives_bind fun _ => gives_bind fun _ => gives_bind fun _ => Or.inr ?_
    exact ⟨(dir.records α).putOp record, rfl, hname, rfl⟩
  | some existing => exact gives_bind fun _ => gives_bind fun _ => gives_bind fun _ => Or.inl rfl

/-- Records in the order of their names add writes of different names. -/
theorem gives_stageMergeAll {entries : List (String × α)} (ascending : Ascending entries)
    (hnamed : ∀ e ∈ entries, Entity.name e.2 = e.1) {staged : List Operation × ChannelEdits}
    (hstaged : OncePerId (dir.records α).index staged.1)
    (hfresh : ∀ op ∈ staged.1, ∀ e ∈ entries, op.id ≠ e.1) :
    (dir.stageMergeAll entries staged).Gives fun staged' =>
      OncePerId (dir.records α).index staged'.1 := by
  induction entries generalizing staged with
  | nil => exact hstaged
  | cons e entries ih =>
    obtain ⟨first, tail⟩ := List.pairwise_cons.mp ascending
    obtain ⟨hname, hrest⟩ := List.forall_mem_cons.mp hnamed
    refine (gives_stageMerge hname staged).bind fun staged' hstep => ih tail hrest ?_ ?_
    · rcases hstep with heq | ⟨op, hindex, hid, heq⟩
      · rw [heq]
        exact hstaged
      · rw [heq]
        refine ⟨List.forall_mem_append.mpr ⟨hstaged.1, List.forall_mem_singleton.mpr hindex⟩, ?_⟩
        rw [List.map_append]
        refine hstaged.2.append (List.nodup_singleton _) fun id hid' hid'' => ?_
        obtain ⟨op', hop', rfl⟩ := List.mem_map.mp hid'
        exact hfresh op' hop' e List.mem_cons_self ((List.mem_singleton.mp hid'').trans hid)
    · intro op hop e' he'
      rcases hstep with heq | ⟨op', -, hid, heq⟩
      · rw [heq] at hop
        exact hfresh op hop e' (List.mem_cons_of_mem _ he')
      · rw [heq] at hop
        rcases List.mem_append.mp hop with hop | hop
        · exact hfresh op hop e' (List.mem_cons_of_mem _ he')
        · rw [List.mem_singleton.mp hop, hid]
          exact fun hsame => String.lt_irrefl e.1 (hsame ▸ first e' he')

/-- An update of many records writes each name once. -/
theorem gives_updateAllPlan (records : List α) :
    (dir.updateAllPlan records).Gives (dir.PlansOnce α) := by
  have hnamed : ∀ e ∈ (lastByName records).entries, Entity.name e.2 = e.1 := fun e he =>
    (get?_lastByName (KeyMap.get?_eq_some_iff_mem.mpr he)).2
  refine (gives_stageMergeAll (lastByName records).ascending hnamed (oncePerId_nil _)
    (List.forall_mem_nil _)).bind fun staged hstaged => hstaged

variable [LawfulAttribute α]

/-- A command on tags or properties writes each document at most once. -/
theorem attributeProgram_writesOnce (indices : dir.config.DistinctIndices)
    (command : AttributeCommand α) : (dir.attributeProgram command).WritesOnce := by
  cases command with
  | create name record =>
    rw [attributeProgram, createAttribute_eq]
    exact (writesOnce_editWrite indices _ (gives_createPlan record)).discard
  | createMany records =>
    rw [attributeProgram, createAttributes_eq]
    exact (writesOnce_editWrite indices _ (gives_createAllPlan records)).discard
  | addToChannel name channel request =>
    rw [attributeProgram, addToChannel_eq]
    exact (writesOnce_editWrite indices _ (gives_addPlan request)).discard
  | update name request =>
    rw [attributeProgram, updateAttribute_eq]
    exact (writesOnce_editWrite indices _ (gives_updatePlan request)).discard
  | updateMany records =>
    rw [attributeProgram, updateAttributes_eq]
    exact (writesOnce_editWrite indices _ (gives_updateAllPlan records)).discard
  | remove name =>
    rw [attributeProgram, removeAttribute_eq]
    exact writesOnce_editWrite indices _ gives_removePlan
  | removeFromChannel name channel =>
    rw [attributeProgram, removeFromChannel_eq]
    exact writesOnce_editWrite indices _ gives_removeFromPlan

end Attributes

/-! ## Channels -/

section Channels

variable {dir : Directory} {name : String}

/-- A prepared channel has its name. -/
theorem gives_prepare (c : Channel) :
    (dir.prepare c).Gives fun prepared => prepared.name = c.name := by
  refine (gives_check fun normal hnormal => hnormal).bind fun normal hnormal => ?_
  refine gives_bind fun owners => ?_
  change normal.name = c.name
  rw [(Channel.normalize_eq_ok_iff.mp hnormal).1]
  rfl

/-- Channels that are prepared together have different names. -/
theorem gives_prepareAll (channels : List Channel) :
    (dir.prepareAll channels).Gives fun prepared => (prepared.map Channel.name).Nodup := by
  refine gives_bind fun normals => gives_bind fun owners => ?_
  exact List.pairwise_map.mpr ((pairwise_names_stamp owners normals).imp Ne.symm)

/-- A creation of many channels writes each channel once. -/
theorem gives_createAllWrite (channels : List Channel) :
    (dir.createAllWrite channels).plan.Gives fun batch => Separate batch.ops :=
  (gives_prepareAll channels).bind fun _ hnames => (oncePerId_puts _ hnames).separate

/-- An update of a channel deletes its old document only under another name. -/
theorem gives_updateWrite (request : Channel) :
    (dir.updateWrite name request).plan.Gives fun batch => Separate batch.ops := by
  refine gives_bind fun existing => (gives_prepare _).bind fun prepared hprepared => ?_
  change prepared.name = (if request.name = "" then name else request.name) at hprepared
  change Separate ((if (if request.name = "" then name else request.name) ≠ name then
    [dir.channels.deleteOp name] else []) ++ [dir.channels.putOp prepared])
  rw [← hprepared]
  by_cases hrename : prepared.name ≠ name
  · rw [if_pos hrename]
    exact (oncePerId_rename dir.channels hrename).separate
  · rw [if_neg hrename]
    exact (oncePerId_put dir.channels prepared).separate

end Channels

/-! ## Commands -/

/-- Whatever its calls are answered, a command submits at most one batch, and no two writes of it
address the same document. -/
theorem program_writesOnce {dir : Directory} (indices : dir.config.DistinctIndices)
    (command : Command) : (dir.program command).WritesOnce := by
  cases command with
  | createChannel name c =>
    rw [program, createChannel_eq]
    refine (Write.writesOnce _ ?_).discard
    change (if c.name ≠ name then _ else _ : Program (Batched Channel)).Gives _
    split
    · trivial
    · exact gives_bind fun prepared => (oncePerId_put dir.channels prepared).separate
  | createChannels channels =>
    rw [program, createChannels_eq]
    exact (Write.writesOnce _ (gives_createAllWrite channels)).discard
  | updateChannel name request =>
    rw [program, updateChannel_eq]
    exact (Write.writesOnce _ (gives_updateWrite request)).discard
  | updateChannels requests =>
    rw [program, updateChannels_eq]
    exact (Write.writesOnce _ (gives_bind fun found => gives_createAllWrite _)).discard
  | removeChannel name =>
    rw [program, removeChannel_eq]
    exact Write.writesOnce _ (oncePerId_delete dir.channels name).separate
  | ofTags command => exact attributeProgram_writesOnce indices command
  | ofProperties command => exact attributeProgram_writesOnce indices command

/-- However the calls of a command are handled, it submits at most one batch. No two writes of this
batch address the same document, and in any order they lead to the same store and report the
same. -/
theorem each_document_written_once (dir : Directory) (indices : dir.config.DistinctIndices)
    (command : Command) {σ : Type}
    (handle : σ → (r : Request) → Except BackendError r.Answer × σ) (state : σ) :
    ((dir.program command).batches handle state).length ≤ 1 ∧
      ∀ ops ∈ (dir.program command).batches handle state,
        (ops.map fun op => (op.index, op.id)).Nodup ∧
          ∀ ops' : List Operation, ops'.Perm ops → ∀ s : Store,
            (s.applyAll ops').2 = (s.applyAll ops).2 ∧
              (s.applyAll ops').1.Perm (s.applyAll ops).1 := by
  rcases (program_writesOnce indices command).batches_cases state with hnone | ⟨ops, hone, hsep⟩
  · rw [hnone]
    exact ⟨Nat.zero_le 1, List.forall_mem_nil _⟩
  · rw [hone]
    refine ⟨Nat.le_refl 1, List.forall_mem_singleton.mpr ⟨hsep, ?_⟩⟩
    exact fun ops' hperm s => s.reordered hperm hsep

/-- A channel without tags. -/
def channelAlone : Backend where
  store := usual.filled [⟨"A", "o", [], []⟩] [] []

/-- Two tags for the channel, the first of them given twice. -/
def tagsForA : List Tag :=
  [⟨"s", "x", []⟩, ⟨"t", "o", [{ name := "A" }]⟩, ⟨"s", "o", [{ name := "A" }]⟩]

/-- Both tags and the channel are written once, and may as well be written in reverse. -/
theorem tagsForA_written_once : ∃ ops,
    (usual.program (.ofTags (.createMany tagsForA))).batches Backend.handle channelAlone = [ops] ∧
      ops.map (fun op => (op.index, op.id)) =
        [("cf_tags", "s"), ("cf_tags", "t"), ("channelfinder", "A")] ∧
      (channelAlone.store.applyAll ops.reverse).2 = (channelAlone.store.applyAll ops).2 := by
  have hbatches : ((usual.program (.ofTags (.createMany tagsForA))).batches Backend.handle
      channelAlone).map (fun ops => ops.map fun op => (op.index, op.id)) =
        [[("cf_tags", "s"), ("cf_tags", "t"), ("channelfinder", "A")]] := by
    cbv
  obtain ⟨ops, hone, haddresses⟩ := List.map_eq_singleton_iff.mp hbatches
  obtain ⟨-, honce⟩ := each_document_written_once usual distinctIndices_usual
    (.ofTags (.createMany tagsForA)) Backend.handle channelAlone
  rw [hone] at honce
  obtain ⟨-, hreorder⟩ := honce ops List.mem_cons_self
  exact ⟨ops, hone, haddresses, (hreorder _ ops.reverse_perm channelAlone.store).1⟩

end Directory

end ChannelDirectory

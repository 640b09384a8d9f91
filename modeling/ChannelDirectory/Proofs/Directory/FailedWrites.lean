import ChannelDirectory.Proofs.Directory.Batches
import ChannelDirectory.Proofs.Directory.Commands
import ChannelDirectory.Proofs.Directory.PlanEndings
import ChannelDirectory.Proofs.Directory.Plans

/-!
# A write that fails leaves the store as it was

Every write plans first, submits one batch, and reads its answer. With nobody else writing, the
batch of a plan is always carried out : the documents that it replaces are those that the plan
has read (`isSuccess_of_returns_operations`). The answer of such a batch is there to be read
(`answers_createPlan` and its likes), so a write fails in its plan or not at all. The deletion of
a channel is the exception, which fails after a batch without effect.

`Directory.failed_command_changes_nothing` says so of every command. A command can also end
because its budget of pages is used up, but not where the budget allows for all channels.
-/

namespace ChannelDirectory

open Attribute ChannelEdits Collection LawfulAttribute Program

namespace Directory

/-! ## Writes of records and edits -/

section Attributes

variable {α ρ : Type} [Attribute α ρ] {dir : Directory} {b : Backend}

variable [Reference ρ] [LawfulAttribute α]

omit [Reference ρ] [LawfulAttribute α] in
/-- An edit adds no channel, so the page budget that was enough before is enough after. -/
theorem Ample.edited {s' : Store} {ops : List Operation} {edits : ChannelEdits} {s : Store}
    (h : dir.Ample s) (edited : dir.Edited α ops edits s s') : dir.Ample s' := by
  rw [Ample] at h ⊢
  rw [edited.channels]
  simpa [KeyMap.size, KeyMap.mapValues] using h

/-- The answer to a plan can be read from the store in which it has been carried out. -/
def Answers (dir : Directory) (α : Type) {ρ β : Type} [Attribute α ρ] (b : Backend)
    (p : EditPlan β) : Prop :=
  ∀ s', dir.Edited α p.ops p.edits b.store s' →
    p.answer.EndsIn { b with store := s' } (fun _ => False) (¬dir.Ample s')

omit [Reference ρ] [LawfulAttribute α] in
/-- An answer that is ready needs no reading, so it cannot fail. -/
theorem answers_of_done {β : Type} {p : EditPlan β} {value : β} (h : p.answer = .done value) :
    dir.Answers α b p := by
  intro s' _
  rw [h]
  exact endsIn_done value

/-- A write fails in its plan or not at all. -/
theorem editWrite_harmless {β : Type} {plan : Program (EditPlan β)} (hread : plan.ReadOnly)
    (indices : dir.config.DistinctIndices) (shape : dir.InShape α b.store)
    (hends : plan.EndsIn b Error.IsWhole (¬dir.Ample b.store))
    (hspec : ∀ p, plan.Returns b p → dir.Confined α p ∧ dir.Answers α b p) :
    (dir.editWrite plan hread).program.Harmless b (¬dir.Ample b.store) := by
  refine Write.harmless ?_ ?_
  · exact hends.bind hread fun p _ =>
      (endsIn_operations p.edits dir.channels).bind (readOnly_operations _ _) fun _ _ =>
        endsIn_done _
  · intro batch hbatch
    obtain ⟨p, hp, hbatched⟩ := (returns_bind hread).mp hbatch
    obtain ⟨confined, hanswer⟩ := hspec p hp
    obtain ⟨names, habout⟩ := confined.about
    obtain ⟨edited, -⟩ := edited_of_returns_batched indices shape confined.records habout hbatched
    obtain ⟨more, hmore, hdone⟩ :=
      (returns_bind (readOnly_operations p.edits dir.channels)).mp hbatched
    obtain rfl := returns_done.mp hdone
    refine ⟨isSuccess_of_returns_operations indices shape.channels confined.ops hmore, ?_⟩
    exact (hanswer _ edited).mono (fun _ he => he.elim) (mt fun hample => hample.edited edited)

variable [DecidableEq ρ]

/-! ## Answers -/

variable [LawfulEntity α] {name : String}

omit [DecidableEq ρ] [Reference ρ] [LawfulAttribute α] in
/-- Records that are there are read, unless the page budget is too small. -/
theorem endsIn_readAttributes (shape : dir.InShape α b.store) {names : List String}
    (h : ∀ name ∈ names, b.available = true ∧ dir.channels.Fits b ∧
      ∃ record, ((dir.records α).contents b.store).get? name = some record)
    {errors : Error → Prop} :
    (dir.readAttributes α names).EndsIn b errors (¬dir.Ample b.store) :=
  endsIn_each (fun name => dir.readOnly_readAttribute name true) fun name hname =>
    have ⟨havail, hfits, hrecord⟩ := h name hname
    dir.endsIn_readAttribute shape havail hfits hrecord

/-- Whoever has written a planned creation gets its answer. -/
theorem answers_createPlan (shape : dir.InShape α b.store) {record : α} {p : EditPlan α}
    (h : (dir.createPlan name record).Returns b p) : dir.Answers α b p := by
  obtain ⟨rfl, hadmits, rfl⟩ := (returns_createPlan_iff shape.channels).mp h
  intro s' edited
  change (dir.readAttribute α (Entity.name record) true).EndsIn { b with store := s' } _ _
  refine dir.endsIn_readAttribute (b := { b with store := s' }) edited.shape
    hadmits.lists.available hadmits.lists.fits ⟨Entity.stored record, ?_⟩
  change ((dir.records α).contents s').get? _ = _
  rw [edited.records, Store.after_cons, Store.after_nil, contents_apply_putOp, KeyMap.get?_insert,
    if_pos rfl]

/-- Whoever has written a planned creation of many records gets its answer. -/
theorem answers_createAllPlan (shape : dir.InShape α b.store) {records : List α}
    {p : EditPlan (List α)} (h : (dir.createAllPlan records).Returns b p) :
    dir.Answers α b p := by
  obtain ⟨hadmits, rfl⟩ := (returns_createAllPlan_iff shape.channels).mp h
  intro s' edited
  refine dir.endsIn_readAttributes edited.shape fun name hname => ?_
  obtain ⟨record, hget⟩ := KeyMap.mem_keys_iff.mp hname
  have hlists := (hadmits record (KeyMap.mem_values_iff.mpr ⟨name, hget⟩)).lists
  refine ⟨hlists.available, hlists.fits, Entity.stored record, ?_⟩
  change ((dir.records α).contents s').get? _ = _
  rw [edited.records, get?_contents_after_puts_values _ _ fun name r => fun hr =>
    (get?_lastByName hr).2, hget]
  rfl

variable [LawfulReference ρ]

omit [LawfulReference ρ] in
/-- Whoever has written a planned update gets its answer : the record that is read back is there. -/
theorem answers_updatePlan (shape : dir.InShape α b.store) {request : α} {p : EditPlan α}
    (h : (dir.updatePlan name request).Returns b p) : dir.Answers α b p := by
  obtain ⟨existing, desired, -, -, -, hlists, -, rfl⟩ := (returns_updatePlan_iff shape).mp h
  intro s' edited
  change (dir.readAttribute α (updatedName name request) true).EndsIn { b with store := s' } _ _
  refine dir.endsIn_readAttribute (b := { b with store := s' }) edited.shape
    hlists.available hlists.fits ⟨Entity.stored (updatedRecord name existing request), ?_⟩
  change ((dir.records α).contents s').get? _ = _
  rw [edited.records, get?_contents_after_updateOps, if_pos rfl]

omit [LawfulReference ρ] in
/-- An update of many leaves a record for each of its names. -/
theorem exists_contents_after_updateAllPlan (shape : dir.InShape α b.store) {records : List α}
    {p : EditPlan (List α)} (h : (dir.updateAllPlan records).Returns b p)
    (hname : name ∈ (lastByName records).keys) :
    ∃ record, ((dir.records α).contents (b.store.after p.ops)).get? name = some record := by
  obtain ⟨record, hget⟩ := KeyMap.mem_keys_iff.mp hname
  obtain ⟨-, hops, -, -⟩ := returns_updateAllPlan shape h
  rw [hops, get?_contents_after_updateAll, hget]
  cases ((dir.records α).contents b.store).get? name with
  | some existing => exact ⟨existing, rfl⟩
  | none => exact ⟨_, rfl⟩

omit [LawfulReference ρ] in
/-- Whoever has written a planned update of many records gets its answer : all that are read back
are there. -/
theorem answers_updateAllPlan (shape : dir.InShape α b.store) {records : List α}
    {p : EditPlan (List α)} (h : (dir.updateAllPlan records).Returns b p) :
    dir.Answers α b p := by
  obtain ⟨hadmits, hp⟩ := (returns_updateAllPlan_iff shape).mp h
  intro s' edited
  rw [show p.answer = dir.readAttributes α (lastByName records).keys from
    congrArg EditPlan.answer hp]
  refine endsIn_readAttributes (b := { b with store := s' }) edited.shape
    fun name hname => ?_
  obtain ⟨record, hget⟩ := KeyMap.mem_keys_iff.mp hname
  have hlists := (hadmits (name, record) (KeyMap.get?_eq_some_iff_mem.mp hget)).lists
  refine ⟨hlists.available, hlists.fits, ?_⟩
  change ∃ record, ((dir.records α).contents s').get? name = some record
  rw [edited.records]
  exact exists_contents_after_updateAllPlan shape h hname

/-! ## Commands -/

/-- A write of tags or properties that fails changes nothing. -/
theorem attributeProgram_harmless (indices : dir.config.DistinctIndices)
    (shape : dir.InShape α b.store) (command : AttributeCommand α) :
    (dir.attributeProgram command).Harmless b (¬dir.Ample b.store) := by
  cases command with
  | create name record =>
    rw [attributeProgram, createAttribute_eq]
    refine (editWrite_harmless _ indices shape (dir.endsIn_createPlan shape.channels name record)
      fun p hp => ?_).discard
    exact ⟨confined_createPlan shape hp, answers_createPlan shape hp⟩
  | createMany records =>
    rw [attributeProgram, createAttributes_eq]
    refine (editWrite_harmless _ indices shape (dir.endsIn_createAllPlan shape.channels records)
      fun p hp => ?_).discard
    exact ⟨confined_createAllPlan shape hp, answers_createAllPlan shape hp⟩
  | addToChannel name channel request =>
    rw [attributeProgram, addToChannel_eq]
    refine (editWrite_harmless _ indices shape (dir.endsIn_addPlan name channel request)
      fun p hp => ?_).discard
    obtain ⟨_, _, -, -, -, -, -, -, hanswer, -⟩ := returns_addPlan shape hp
    exact ⟨confined_addPlan shape hp, answers_of_done hanswer⟩
  | update name request =>
    rw [attributeProgram, updateAttribute_eq]
    refine (editWrite_harmless _ indices shape (dir.endsIn_updatePlan shape.channels name request)
      fun p hp => ?_).discard
    exact ⟨confined_updatePlan shape hp, answers_updatePlan shape hp⟩
  | updateMany records =>
    rw [attributeProgram, updateAttributes_eq]
    refine (editWrite_harmless _ indices shape (dir.endsIn_updateAllPlan shape.channels records)
      fun p hp => ?_).discard
    exact ⟨confined_updateAllPlan shape hp, answers_updateAllPlan shape hp⟩
  | remove name =>
    rw [attributeProgram, removeAttribute_eq]
    refine editWrite_harmless _ indices shape (dir.endsIn_removePlan shape.channels name)
      fun p hp => ?_
    obtain ⟨-, -, hanswer, -⟩ := returns_removePlan shape hp
    exact ⟨confined_removePlan shape hp, answers_of_done hanswer⟩
  | removeFromChannel name channel =>
    rw [attributeProgram, removeFromChannel_eq]
    refine editWrite_harmless _ indices shape (dir.endsIn_removeFromPlan name channel)
      fun p hp => ?_
    obtain ⟨-, -, -, hanswer, -⟩ := returns_removeFromPlan shape hp
    exact ⟨confined_removeFromPlan shape hp, answers_of_done hanswer⟩

end Attributes

section Channels

variable {dir : Directory} {b : Backend} {short : Prop}

/-- Puts and deletes of channels are always carried out. -/
theorem channelWrite_harmless {β : Type} {w : Write β} (hplan : w.plan.EndsIn b Error.IsWhole short)
    (hbatch : ∀ batch, w.plan.Returns b batch → dir.ChannelOps b.store batch.ops ∧
      ∃ value, batch.answer = fun _ => .done value) :
    w.program.Harmless b short := by
  refine Write.harmless hplan fun batch hreturns => ?_
  obtain ⟨hops, value, hanswer⟩ := hbatch batch hreturns
  refine ⟨Store.isSuccess_summary_of_no_replace _ fun op => hops.action_ne, ?_⟩
  rw [hanswer]
  exact endsIn_done value

theorem answer_createWrite {name : String} {c : Channel} {batch : Batched Channel}
    (h : (dir.createWrite name c).plan.Returns b batch) :
    ∃ value, batch.answer = fun _ => .done value := by
  obtain ⟨-, _, -, rfl⟩ := returns_createWrite_plan_iff.mp h
  exact ⟨_, rfl⟩

theorem answer_createAllWrite {channels : List Channel} {batch : Batched (List Channel)}
    (h : (dir.createAllWrite channels).plan.Returns b batch) :
    ∃ value, batch.answer = fun _ => .done value := by
  obtain ⟨_, -, rfl⟩ := returns_createAllWrite_plan_iff.mp h
  exact ⟨_, rfl⟩

theorem answer_updateWrite {name : String} {request : Channel} {batch : Batched Channel}
    (h : (dir.updateWrite name request).plan.Returns b batch) :
    ∃ value, batch.answer = fun _ => .done value := by
  obtain ⟨_, _, -, -, rfl⟩ := returns_updateWrite_plan_iff.mp h
  exact ⟨_, rfl⟩

theorem answer_updateAllWrite {requests : List Channel} {batch : Batched (List Channel)}
    (h : (dir.updateAllWrite requests).plan.Returns b batch) :
    ∃ value, batch.answer = fun _ => .done value := by
  obtain ⟨found, -, h⟩ := (returns_bind (dir.channels.readOnly_findAll _)).mp h
  exact answer_createAllWrite h

/-- A deletion that is not counted as one had nothing to delete. -/
theorem after_deleteOp_of_not_deleted {s : Store} {name : String}
    (h : ¬0 < (s.summary [dir.channels.deleteOp name]).deleted) :
    s.after [dir.channels.deleteOp name] = s := by
  cases hthere : (s.get? dir.channels.index name).isSome with
  | false => simp [Store.after, Store.applyAll, Store.apply, deleteOp, hthere]
  | true =>
    refine absurd ?_ h
    simp [Store.summary, Store.applyAll, Store.apply, deleteOp, hthere, Summary.ofResults,
      Summary.add]

/-- The deletion of a channel that is not there fails after its batch, which had no effect. -/
theorem removeChannel_harmless (dir : Directory) (b : Backend) (name : String) :
    (dir.removeChannel name).Harmless b short := by
  rw [removeChannel_eq]
  refine Write.harmless (endsIn_done _) fun batch hbatch => ?_
  obtain rfl := returns_done.mp hbatch
  refine ⟨Store.isSuccess_summary_of_no_replace _ fun op hop => ?_, ?_⟩
  · rw [List.mem_singleton.mp hop]
    rintro ⟨⟩
  · dsimp only
    split
    · exact endsIn_done ()
    · rename_i hdeleted
      have hafter := after_deleteOp_of_not_deleted hdeleted
      exact endsIn_fail ⟨by rintro ⟨⟩, by rw [Backend.after, hafter]⟩

/-- No command changes anything if it fails. -/
theorem program_harmless (indices : dir.config.DistinctIndices) (wf : dir.WellFormed b.store)
    (command : Command) : (dir.program command).Harmless b (¬dir.Ample b.store) := by
  cases command with
  | createChannel name c =>
    rw [program, createChannel_eq]
    exact (channelWrite_harmless (dir.endsIn_createWrite name c) fun batch h =>
      ⟨channelOps_createWrite wf h, answer_createWrite h⟩).discard
  | createChannels channels =>
    rw [program, createChannels_eq]
    exact (channelWrite_harmless (dir.endsIn_createAllWrite channels) fun batch h =>
      ⟨channelOps_createAllWrite wf h, answer_createAllWrite h⟩).discard
  | updateChannel name request =>
    rw [program, updateChannel_eq]
    exact (channelWrite_harmless (dir.endsIn_updateWrite name request) fun batch h =>
      ⟨channelOps_updateWrite wf h, answer_updateWrite h⟩).discard
  | updateChannels requests =>
    rw [program, updateChannels_eq]
    exact (channelWrite_harmless (dir.endsIn_updateAllWrite requests) fun batch h =>
      ⟨channelOps_updateAllWrite wf h, answer_updateAllWrite h⟩).discard
  | removeChannel name => exact dir.removeChannel_harmless b name
  | ofTags command => exact attributeProgram_harmless indices wf.tagShape command
  | ofProperties command => exact attributeProgram_harmless indices wf.propertyShape command

/-- A command that ends with an error leaves the backend as it was, and with nobody else writing
the error is not about a batch that was carried out in part. A command always ends with a value
or an error if the budget allows for the pages of all channels. -/
theorem failed_command_changes_nothing (dir : Directory) (b : Backend) (command : Command)
    (indices : dir.config.DistinctIndices) (wf : dir.WellFormed b.store) :
    (∀ e b', (dir.program command).run b = (.failed e, b') →
      b' = b ∧ e.kind ≠ .partialFailure) ∧
    (dir.Ample b.store → ((dir.program command).run b).1 ≠ .exhausted) := by
  have hharmless := program_harmless (b := b) indices wf command
  refine ⟨fun e b' hrun => (hharmless _ _ hrun).1 e rfl, fun hample hrun => ?_⟩
  exact (hharmless _ _ (Prod.ext hrun rfl)).2 rfl hample

/-- A request for two tags, the second one with a channel that does not exist. -/
def halfRefused : Command :=
  .ofTags (.createMany [⟨"t", "x", [{ name := "A" }]⟩, ⟨"u", "x", [{ name := "B" }]⟩])

/-- Of two tags neither is created if one is refused. -/
theorem halfRefused_changes_nothing :
    ∃ e b', (usual.program halfRefused).run
        ⟨usual.filled [⟨"A", "o", [], []⟩] [] [], 10000, true, [], 0⟩ = (.failed e, b') ∧
      b'.store = usual.filled [⟨"A", "o", [], []⟩] [] [] ∧ e.kind ≠ .partialFailure := by
  have wf : usual.WellFormed (usual.filled [⟨"A", "o", [], []⟩] [] []) :=
    wellFormed_filled distinctIndices_usual (by decide) [] []
  obtain ⟨hfailed, -⟩ := failed_command_changes_nothing usual
    ⟨usual.filled [⟨"A", "o", [], []⟩] [] [], 10000, true, [], 0⟩ halfRefused
    distinctIndices_usual wf
  have hrun : (usual.program halfRefused).run
      ⟨usual.filled [⟨"A", "o", [], []⟩] [] [], 10000, true, [], 0⟩ =
        (.failed (.notFound .channel "B"),
          ⟨usual.filled [⟨"A", "o", [], []⟩] [] [], 10000, true, [], 0⟩) := by cbv
  obtain ⟨hsame, hkind⟩ := hfailed _ _ hrun
  exact ⟨_, _, hrun, congrArg Backend.store hsame, hkind⟩

end Channels

end Directory

end ChannelDirectory

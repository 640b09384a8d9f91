import ChannelDirectory.Proofs.Directory.Membership
import ChannelDirectory.Proofs.Membership.EditWrites
import ChannelDirectory.Proofs.Membership.Staging
import ChannelDirectory.Proofs.Program.Writes

/-!
# Writing records together with edits of channels

Every write of tags or properties plans writes of records of its kind and edits of channels
of its kind, and submits both in one batch. `EditPlan` is such a plan, and
`Directory.editWrite` the write that carries it out. On a store in shape it does what
`Directory.Edited` says, and nothing else.

`Directory.Stages` follows the references through the staging : for the channels that are
stored, the edits so far lead to the references of a given function. Each way of staging
changes this function under its name, and in the end it says what is stored
(`Edited.refAt?_eq`).
-/

namespace ChannelDirectory

open Attribute ChannelEdits Collection LawfulAttribute Program

/-- Writes of records and edits of channels, with the read that gives the answer. -/
structure EditPlan (β : Type) where
  ops : List Operation
  edits : ChannelEdits
  answer : Program β
  readOnly_answer : answer.ReadOnly

namespace Directory

section Plans

variable {β : Type} {dir : Directory} {plan : Program (EditPlan β)}

/-- The batch that carries out a plan. -/
def batched (dir : Directory) (p : EditPlan β) : Program (Batched β) := do
  let more ← p.edits.operations dir.channels
  return ⟨p.ops ++ more, fun _ => p.answer, fun _ => p.readOnly_answer⟩

theorem readOnly_batched (dir : Directory) (p : EditPlan β) : (dir.batched p).ReadOnly :=
  (readOnly_operations p.edits dir.channels).bind fun _ => trivial

/-- The write that carries out what is planned. -/
def editWrite (dir : Directory) (plan : Program (EditPlan β)) (h : plan.ReadOnly) : Write β where
  plan := plan >>= dir.batched
  readOnly_plan := h.bind dir.readOnly_batched

/-- Planning the edits as one batch and submitting it is the program that reads the plan, submits
the records and the edits together and then answers. -/
theorem editWrite_program (h : plan.ReadOnly) :
    (dir.editWrite plan h).program =
      plan >>= fun p => dir.submitEdits p.ops p.edits >>= fun _ => p.answer := by
  simp only [Write.program, editWrite, batched, submitEdits, bind_assoc, pure_eq, bind_done,
    Batched.program]

end Plans

variable {α ρ : Type} [Attribute α ρ] {dir : Directory} {s s' : Store}

/-- Writes of records of one kind. -/
def RecordOps (dir : Directory) (α : Type) {ρ : Type} [Attribute α ρ] (ops : List Operation) :
    Prop :=
  ∀ op ∈ ops, op.index = Attribute.index α dir.config ∧
    (dir.records α).WritesOnly (fun _ => True) op

/-- The store has the records of one kind that some writes make, the channels have been
edited, and nothing else has changed. -/
structure Edited (dir : Directory) (α : Type) {ρ : Type} [Attribute α ρ] (ops : List Operation)
    (edits : ChannelEdits) (s s' : Store) : Prop where
  shape : dir.InShape α s'
  channels : dir.channels.contents s' =
    (dir.channels.contents s).mapValues fun _ c => edits.applyTo c
  records : (dir.records α).contents s' = (dir.records α).contents (s.after ops)
  others : ∀ index, index ≠ dir.config.channelIndex → index ≠ Attribute.index α dir.config →
    s'.documents index = s.documents index

theorem recordOps_nil : dir.RecordOps α [] := by
  intro op hop
  cases hop

theorem recordOps_append {ops more : List Operation} (hops : dir.RecordOps α ops)
    (hmore : dir.RecordOps α more) : dir.RecordOps α (ops ++ more) := by
  intro op hop
  rcases List.mem_append.mp hop with hop | hop
  · exact hops op hop
  · exact hmore op hop

theorem recordOps_delete (name : String) : dir.RecordOps α [(dir.records α).deleteOp name] := by
  intro op hop
  rw [List.mem_singleton.mp hop]
  exact ⟨rfl, writesOnly_deleteOp name⟩

/-- Putting records is an admissible way to write them. -/
theorem recordOps_puts [LawfulEntity α] (records : List α) :
    dir.RecordOps α (records.map (dir.records α).putOp) := by
  intro op hop
  obtain ⟨record, -, rfl⟩ := List.mem_map.mp hop
  exact ⟨rfl, writesOnly_putOp trivial⟩

/-- Channels that are stored stay so. -/
theorem Edited.exists_channel {ops : List Operation} {edits : ChannelEdits}
    (edited : dir.Edited α ops edits s s')
    {channel : String} (h : ∃ c, (dir.channels.contents s).get? channel = some c) :
    ∃ c, (dir.channels.contents s').get? channel = some c := by
  obtain ⟨c, hc⟩ := h
  exact ⟨_, by rw [edited.channels, KeyMap.get?_mapValues, hc, Option.map_some]⟩

variable [Reference ρ] [LawfulAttribute α]

/-- Carrying out a plan edits the channels and writes the records, and nothing else. -/
theorem edited_of_returns_batched {β : Type} {b : Backend} {p : EditPlan β} {batch : Batched β}
    {names : String → Prop} (indices : dir.config.DistinctIndices)
    (shape : dir.InShape α b.store) (hops : dir.RecordOps α p.ops) (hedits : p.edits.About α names)
    (h : (dir.batched p).Returns b batch) :
    dir.Edited α p.ops p.edits b.store (b.store.after batch.ops) ∧
      batch.answer = fun _ => p.answer := by
  obtain ⟨more, hmore, hbatch⟩ := (returns_bind (readOnly_operations p.edits dir.channels)).mp h
  obtain rfl := returns_done.mp hbatch
  have hindex : Attribute.index α dir.config ≠ dir.config.channelIndex := index_ne indices
  have hkeep : p.edits.Keep Channel.Distinct := fun c hc => hedits.distinct_applyTo hc
  have hwrites : ∀ op ∈ more, op.index = dir.channels.index ∧
      dir.channels.WritesOnly Channel.Distinct op := fun op hop =>
    writesOnly_operations shape.channels hkeep hmore hop
  -- The writes of records leave the channels alone, and those of channels the records.
  have hbefore : (b.store.after p.ops).documents dir.channels.index =
      b.store.documents dir.channels.index :=
    Store.documents_after_of_index_ne _ fun op hop => (hops op hop).1 ▸ hindex
  have hafter : ∀ s : Store, (s.after more).documents (Attribute.index α dir.config) =
      s.documents (Attribute.index α dir.config) := fun s =>
    Store.documents_after_of_index_ne s fun op hop => (hwrites op hop).1 ▸ Ne.symm hindex
  refine ⟨⟨⟨?_, ?_⟩, ?_, ?_, ?_⟩, rfl⟩
  · rw [Store.after_append]
    exact (shape.channels.congr hbefore).after fun op hop => (hwrites op hop).2
  · rw [Store.after_append]
    exact (shape.records.after fun op hop => (hops op hop).2).congr (hafter _)
  · rw [Store.after_append]
    exact contents_after_operations shape.channels hkeep hmore hbefore
  · rw [Store.after_append]
    exact contents_congr (hafter _)
  · intro index hchannel hrecord
    refine Store.documents_after_of_index_ne _ fun op hop => ?_
    rcases List.mem_append.mp hop with hop | hop
    · exact (hops op hop).1 ▸ Ne.symm hrecord
    · exact (hwrites op hop).1 ▸ Ne.symm hchannel

/-! ## References through the staging -/

/-- The edits are about references of one kind and of some names, and lead each stored
channel to the references of a function. -/
structure Stages (dir : Directory) (α : Type) {ρ : Type} [Attribute α ρ] [Reference ρ]
    [LawfulAttribute α] (s : Store) (names : String → Prop) (edits : ChannelEdits)
    (after : String → String → Option ρ) : Prop where
  about : edits.About α names
  gives : ∀ channel c, (dir.channels.contents s).get? channel = some c →
    ∀ name, currentRef? α (edits.applyTo c) name = after channel name

variable {names : String → Prop} {edits : ChannelEdits} {after : String → String → Option ρ}

/-- Without edits the channels have the references that they have. -/
theorem stages_empty (names : String → Prop) :
    dir.Stages α s names KeyMap.empty (dir.refAt? α s) where
  about := about_empty names
  gives channel c hc name := by
    rw [refAt?, hc]
    rfl

/-- What the edits lead to may be written in any equal form. -/
theorem Stages.congr (h : dir.Stages α s names edits after) {after' : String → String → Option ρ}
    (heq : ∀ channel name, after' channel name = after channel name) :
    dir.Stages α s names edits after' where
  about := h.about
  gives channel c hc name := by rw [h.gives channel c hc name, heq]

/-- Staging a delta of one name overwrites what the channels carry of this name by its result. -/
theorem Stages.stage (h : dir.Stages α s names edits after)
    (wf : dir.channels.HoldsOnly Channel.Distinct s) {d : Delta ρ} {name' : String}
    (hd : d.Names name') (hname : names name') :
    dir.Stages α s names (Attribute.stage α edits name' d) fun channel name =>
      if name = name' then d.result channel (after channel name) else after channel name where
  about := h.about.stage hd hname
  gives channel c hc name := by
    have hcname : c.name = channel := wf.name_eq hc
    rw [h.about.currentRef?_stage hd hname, h.gives channel c hc, hcname]

/-- A reference to put replaces what its channel carried of that name. -/
theorem Stages.putEdit (h : dir.Stages α s names edits after)
    (wf : dir.channels.HoldsOnly Channel.Distinct s) (channel' : String) {ref : ρ}
    (href : names (Reference.name ref)) :
    dir.Stages α s names (Attribute.putEdit α edits channel' ref) fun channel name =>
      if channel = channel' ∧ name = Reference.name ref then some ref else after channel name where
  about := h.about.putEdit channel' href
  gives channel c hc name := by
    have hcname : c.name = channel := wf.name_eq hc
    rw [h.about.currentRef?_putEdit, h.gives channel c hc, hcname]

/-- Removing a name from some channels leaves nothing of it on these. -/
theorem Stages.foldl_removeEdit (h : dir.Stages α s names edits after)
    (wf : dir.channels.HoldsOnly Channel.Distinct s) (channels : List String) {name' : String}
    (hname : names name') :
    dir.Stages α s names
      (channels.foldl (fun edits channel => Attribute.removeEdit α edits channel name') edits)
      fun channel name =>
        if channel ∈ channels ∧ name = name' then none else after channel name where
  about := h.about.foldl_removeEdit hname channels
  gives channel c hc name := by
    have hcname : c.name = channel := wf.name_eq hc
    rw [h.about.currentRef?_foldl_removeEdit hname, h.gives channel c hc, hcname]

/-- The references that the staging leads to are stored. -/
theorem Edited.refAt?_eq {ops : List Operation} (edited : dir.Edited α ops edits s s')
    (h : dir.Stages α s names edits after) {channel : String}
    (hnone : (dir.channels.contents s).get? channel = none → ∀ name, after channel name = none)
    (name : String) : dir.refAt? α s' channel name = after channel name := by
  rw [refAt?, edited.channels, KeyMap.get?_mapValues]
  cases hc : (dir.channels.contents s).get? channel with
  | none => rw [hnone hc name, Option.map_none, Option.bind_none]
  | some c => rw [Option.map_some, Option.bind_some, h.gives channel c hc]

/-! ## What is left alone -/

/-- Nothing has changed but the records of some names and the references to them. -/
structure OnlyTouches (dir : Directory) (α : Type) {ρ : Type} [Attribute α ρ] [Reference ρ]
    [LawfulAttribute α] (names : List String) (s s' : Store) : Prop where
  shape : dir.InShape α s'
  same_channels : (dir.channels.contents s').keys = (dir.channels.contents s).keys
  channel : ∀ id c c', (dir.channels.contents s).get? id = some c →
    (dir.channels.contents s').get? id = some c' →
      c' = setRefs α c (refs α c') ∧
        (refs α c').filter (fun r => Reference.name r ∉ names) =
          (refs α c).filter fun r => Reference.name r ∉ names
  others : ∀ index id, index ≠ dir.config.channelIndex →
    ¬(index = Attribute.index α dir.config ∧ id ∈ names) → s'.get? index id = s.get? index id

omit [Reference ρ] [LawfulAttribute α] in
/-- A record that the writes leave as it was is the same document as before. -/
theorem Edited.get?_record [LawfulEntity α] {ops : List Operation}
    (edited : dir.Edited α ops edits s s') (shape : dir.InShape α s) {id : String}
    (hrecord : ((dir.records α).contents (s.after ops)).get? id =
      ((dir.records α).contents s).get? id) :
    s'.get? (Attribute.index α dir.config) id = s.get? (Attribute.index α dir.config) id := by
  have hafter := edited.shape.records.get?_store id
  rw [edited.records, hrecord, ← shape.records.get?_store id] at hafter
  exact hafter

/-- If the records and the edits are about some names, nothing else in the directory changes. -/
theorem Edited.onlyTouches [LawfulEntity α] {ops : List Operation} {touched : List String}
    (edited : dir.Edited α ops edits s s') (shape : dir.InShape α s) (hedits : edits.About α names)
    (hnames : ∀ name, names name → name ∈ touched)
    (hops : ∀ id, id ∉ touched →
      ((dir.records α).contents (s.after ops)).get? id = ((dir.records α).contents s).get? id) :
    dir.OnlyTouches α touched s s' where
  shape := edited.shape
  same_channels := by rw [edited.channels, KeyMap.keys_mapValues]
  channel id c c' hc hc' := by
    rw [edited.channels, KeyMap.get?_mapValues, hc, Option.map_some] at hc'
    obtain rfl := Option.some.inj hc'
    refine ⟨hedits.applyTo_eq c, ?_⟩
    have hkeep : ∀ name, names name → decide (name ∉ touched) = false := fun name hn =>
      decide_eq_false (not_not.mpr (hnames name hn))
    exact hedits.filter_applyTo hkeep c
  others index id hchannel hid := by
    by_cases hindex : index = Attribute.index α dir.config
    · rw [hindex]
      exact edited.get?_record shape (hops id fun hmem => hid ⟨hindex, hmem⟩)
    · exact Store.get?_congr (edited.others index hchannel hindex) id

/-! ## Runs -/

/-- A run that succeeds has read a plan and carried it out : the records of its batch are written,
the channels are edited, and nothing has failed. -/
theorem editWrite_run_ok {β : Type} {b b' : Backend} {value : β} {plan : Program (EditPlan β)}
    (indices : dir.config.DistinctIndices) (shape : dir.InShape α b.store) (hplan : plan.ReadOnly)
    (hspec : ∀ p, plan.Returns b p →
      dir.RecordOps α p.ops ∧ ∃ names, p.edits.About α names)
    (h : (dir.editWrite plan hplan).program.run b = (.ok value, b')) :
    ∃ p, plan.Returns b p ∧ dir.Edited α p.ops p.edits b.store b'.store ∧
      p.answer.Returns b' value := by
  obtain ⟨batch, hbatch, rfl, -, hanswer⟩ := Write.run_ok _ h
  obtain ⟨p, hp, hbatched⟩ := (returns_bind hplan).mp hbatch
  obtain ⟨hops, names, hedits⟩ := hspec p hp
  obtain ⟨edited, hanswer_eq⟩ := edited_of_returns_batched indices shape hops hedits hbatched
  rw [hanswer_eq] at hanswer
  exact ⟨p, hp, edited, hanswer⟩

/-- However the write ends, either nothing has changed or its plan has been carried out. -/
theorem editWrite_run_cases {β : Type} {b b' : Backend} {outcome : Outcome β}
    {plan : Program (EditPlan β)} (indices : dir.config.DistinctIndices)
    (shape : dir.InShape α b.store) (hplan : plan.ReadOnly)
    (hspec : ∀ p, plan.Returns b p →
      dir.RecordOps α p.ops ∧ ∃ names, p.edits.About α names)
    (h : (dir.editWrite plan hplan).program.run b = (outcome, b')) :
    b' = b ∨ ∃ p, plan.Returns b p ∧ dir.Edited α p.ops p.edits b.store b'.store := by
  rcases Write.run_cases _ h with rfl | ⟨batch, hbatch, rfl⟩
  · exact Or.inl rfl
  · obtain ⟨p, hp, hbatched⟩ := (returns_bind hplan).mp hbatch
    obtain ⟨hops, names, hedits⟩ := hspec p hp
    exact Or.inr ⟨p, hp, (edited_of_returns_batched indices shape hops hedits hbatched).1⟩

end Directory

end ChannelDirectory

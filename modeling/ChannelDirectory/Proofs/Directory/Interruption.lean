import ChannelDirectory.Proofs.Directory.Batches
import ChannelDirectory.Proofs.Directory.Commands
import ChannelDirectory.Proofs.Directory.Restriction
import ChannelDirectory.Proofs.Program.Interference

/-!
# Writes that come too late for some channels

Another writer may delete channels after a write has read what it needs and before its batch is
carried out. The replacements of these channels then fail, each on its own, and the other writes
of the batch are carried out. What is left is as if the channels had been deleted first and the
write had been asked for without them (`Directory.EndsAsRestricted`).

Two runs are compared that read different stores. The plan of the one is the plan of the other
without the edits of the deleted channels (`Directory.createPlan_without` and its likes), and the
replacements that fail are those of the deleted channels (`Without.lacks_eq`).
-/

namespace ChannelDirectory

open Attribute ChannelEdits Collection LawfulAttribute Program

namespace Directory

/-- The channels of a set whose documents differ between two stores, in the order of their
names. -/
def touched (dir : Directory) (gone : KeySet) (s s₁ : Store) : List String :=
  (gone.filter fun channel _ =>
    s₁.get? dir.config.channelIndex channel ≠ s.get? dir.config.channelIndex channel).keys

/-- The failure of the replacement of a channel that is not there. -/
def missingChannel (dir : Directory) (channel : String) : Failure :=
  ⟨dir.config.channelIndex, channel, .replace, Store.missingReason channel⟩

/-- A program that leads from one backend to another without disturbance ends as a restricted one
if the channels of a set are deleted just before its batch. The restricted one is run after the
deletions and succeeds, and what is left is the same. The outcome is a partial failure exactly if
a deleted channel had to change, and its failures are the replacements of these channels. -/
structure EndsAsRestricted {β : Type} (dir : Directory) (gone : KeySet) (b b₁ : Backend)
    (p restricted : Program β) : Prop where
  store : ∃ value, restricted.run (b.after (dir.deletions gone)) =
    (.ok value, (p.runMonitored (b.awaiting (dir.deletions gone))).2.settled)
  success : dir.touched gone b.store b₁.store = [] →
    ∃ value, (p.runMonitored (b.awaiting (dir.deletions gone))).1 = .ok value
  failure : dir.touched gone b.store b₁.store ≠ [] →
    ∃ ops applied, (p.runMonitored (b.awaiting (dir.deletions gone))).2.batches = [ops] ∧
      applied + (dir.touched gone b.store b₁.store).length = ops.length ∧
      (p.runMonitored (b.awaiting (dir.deletions gone))).1 = .failed (.partialFailure applied
        ((dir.touched gone b.store b₁.store).map dir.missingChannel))

/-! ## Which replacements fail -/

section Writes

variable {α ρ : Type} [Attribute α ρ] {dir : Directory} {gone : KeySet} {b b₁ : Backend}
  {s s' s₁ : Store} {ops more : List Operation} {edits : ChannelEdits}

/-- Of the channels that are there, those are not any more that have been lost. -/
theorem Without.lacks_eq (lost : dir.Without α gone s s') (shape : dir.InShape α s)
    {op : Operation} (haction : op.action = .replace) (hindex : op.index = dir.channels.index)
    (hthere : s.lacks op = false) : s'.lacks op = gone.contains op.id := by
  obtain ⟨doc, hdoc⟩ := Store.lacks_eq_false_iff.mp hthere haction
  have hafter := lost.shape.channels.get?_store op.id
  rw [lost.channels, ← hindex] at hafter
  cases hgone : gone.contains op.id with
  | true =>
    rw [KeyMap.get?_without_of_contains hgone] at hafter
    exact decide_eq_true ⟨haction, hafter⟩
  | false =>
    rw [KeyMap.get?_without_of_not hgone, hindex, ← shape.channels.get?_store, ← hindex,
      hdoc] at hafter
    exact Store.lacks_eq_false_iff.mpr fun _ => ⟨doc, hafter⟩

/-- The documents of channels that differ after the writes are those of the channels that the edits
change. -/
theorem Edited.get?_ne_iff (edited : dir.Edited α ops edits s s₁) (shape : dir.InShape α s)
    (channel : String) :
    s₁.get? dir.config.channelIndex channel ≠ s.get? dir.config.channelIndex channel ↔
      channel ∈ (edits.changed (dir.channels.contents s)).keys := by
  have hbefore := shape.channels.get?_store channel
  have hafter := edited.shape.channels.get?_store channel
  rw [edited.channels, KeyMap.get?_mapValues] at hafter
  change s.get? dir.config.channelIndex channel = _ at hbefore
  change s₁.get? dir.config.channelIndex channel = _ at hafter
  rw [hafter, hbefore, KeyMap.mem_keys_iff]
  simp only [get?_changed_eq_some_iff]
  cases (dir.channels.contents s).get? channel with
  | none => simp
  | some c =>
    have hsame : Entity.encode Json.ofMembers (edits.applyTo c) = Entity.encode Json.ofMembers c ↔
        edits.applyTo c = c := ⟨encode_inj, congrArg _⟩
    simp [hsame]

/-- The deleted channels that an edit had touched are those among the channels that it would
change. -/
theorem Edited.touched_eq (edited : dir.Edited α ops edits s s₁) (shape : dir.InShape α s) :
    dir.touched gone s s₁ = ((edits.changed (dir.channels.contents s)).filter
      fun channel _ => gone.contains channel).keys := by
  refine KeyMap.keys_eq_of_mem_iff fun channel => ?_
  have hdiffer := edited.get?_ne_iff shape channel
  rw [KeyMap.mem_keys_iff] at hdiffer
  simp only [KeyMap.mem_keys_iff, KeyMap.get?_filter, Option.filter_eq_some_iff, exists_and_right]
  simp only [decide_eq_true_eq, hdiffer, KeyMap.contains_iff]
  exact and_comm

variable [Reference ρ] [LawfulAttribute α]

omit [Reference ρ] [LawfulAttribute α] in
/-- The writes of records do not fail, and of the replacements those of lost channels do. -/
theorem Without.lacks_of_mem (lost : dir.Without α gone b.store s') (shape : dir.InShape α b.store)
    (hops : dir.PutsOrDeletes α ops) (hmore : (edits.operations dir.channels).Returns b more) :
    (∀ op ∈ ops, s'.lacks op = false) ∧ ∀ op ∈ more, s'.lacks op = gone.contains op.id := by
  refine ⟨fun op hop => ?_, fun op hop => ?_⟩
  · exact Store.lacks_eq_false_iff.mpr fun haction => absurd haction (hops op hop).1
  · obtain ⟨haction, hindex, hthere⟩ := mem_operations shape.channels hmore hop
    exact lost.lacks_eq shape haction hindex hthere

/-- The batch of a plan fails for the lost channels that it had to change. -/
theorem failures_of_lost (indices : dir.config.DistinctIndices) (shape : dir.InShape α b.store)
    (lost : dir.Without α gone b.store s') (hops : dir.PutsOrDeletes α ops)
    (hmore : (edits.operations dir.channels).Returns b more)
    (edited : dir.Edited α ops edits b.store s₁) :
    (s'.summary (ops ++ more)).failures =
      (dir.touched gone b.store s₁).map dir.missingChannel := by
  obtain ⟨hrecords, hchannels⟩ := lost.lacks_of_mem shape hops hmore
  have happart := hops.replacesApart indices fun op hop =>
    ⟨(mem_operations shape.channels hmore hop).1, (mem_operations shape.channels hmore hop).2.1⟩
  have named : ∀ name c, (dir.channels.contents b.store).get? name = some c → c.name = name :=
    fun _ _ => shape.channels.name_eq
  have keyed : ∀ name c, (edits.changed (dir.channels.contents b.store)).get? name = some c →
      c.name = name := fun _ _ => name_of_get?_changed named
  have hfails : (ops ++ more).filter s'.lacks = more.filter fun op => gone.contains op.id := by
    have hnone : ops.filter s'.lacks = [] :=
      List.filter_eq_nil_iff.mpr fun op hop => by simp [hrecords op hop]
    rw [List.filter_append, hnone, List.nil_append, List.filter_congr hchannels]
  obtain ⟨-, -, rfl⟩ := (returns_operations_iff shape.channels).mp hmore
  have hvalues := KeyMap.values_filter_key keyed fun name => gone.contains name
  have hkeys : dir.touched gone b.store s₁ =
      ((edits.changed (dir.channels.contents b.store)).values.filter
        fun c => gone.contains c.name).map Channel.name := by
    have keyed' : ∀ name c, ((edits.changed (dir.channels.contents b.store)).filter
        fun name _ => gone.contains name).get? name = some c → c.name = name := by
      intro name c hc
      rw [KeyMap.get?_filter] at hc
      exact keyed name c (Option.filter_eq_some_iff.mp hc).1
    rw [edited.touched_eq shape, KeyMap.keys_eq_map_values keyed', hvalues]
  rw [Store.failures_summary s' happart, hfails, hkeys, List.filter_map, List.map_map, List.map_map]
  rfl

/-- Without the lost channels the batch does the same. -/
theorem after_without_lost (indices : dir.config.DistinctIndices) (shape : dir.InShape α b.store)
    (lost : dir.Without α gone b.store s') (hops : dir.PutsOrDeletes α ops)
    (hmore : (edits.operations dir.channels).Returns b more) :
    s'.after (ops ++ more.filter fun op => !gone.contains op.id) = s'.after (ops ++ more) := by
  obtain ⟨hrecords, hchannels⟩ := lost.lacks_of_mem shape hops hmore
  have happart := hops.replacesApart indices fun op hop =>
    ⟨(mem_operations shape.channels hmore hop).1, (mem_operations shape.channels hmore hop).2.1⟩
  have hcarried : (ops ++ more).filter (fun op => !s'.lacks op) =
      ops ++ more.filter fun op => !gone.contains op.id := by
    have hall : ops.filter (fun op => !s'.lacks op) = ops :=
      List.filter_eq_self.mpr fun op hop => by simp [hrecords op hop]
    rw [List.filter_append, hall]
    exact congrArg _ (List.filter_congr fun op hop => by rw [hchannels op hop])
  rw [← hcarried, Store.after_filter s' happart]

end Writes

/-! ## Two runs -/

section Runs

variable {α ρ β : Type} [Attribute α ρ] [Reference ρ] [LawfulAttribute α] [LawfulEntity α]
  {dir : Directory} {gone : KeySet} {b b₁ : Backend} {value : β}

/-- The plan can be carried out, and its answer read, on the store without the channels of a
set. -/
structure Restricts (dir : Directory) (α : Type) {ρ : Type} [Attribute α ρ] [Reference ρ]
    [LawfulAttribute α] (gone : KeySet) (b : Backend) (plan' : Program (EditPlan β))
    (p : EditPlan β) : Prop where
  confined : dir.Confined α p
  left : plan'.Returns (b.after (dir.deletions gone)) (p.without gone)
  answers : dir.AnswersWithout α gone b p.answer

/-- After the deletions the restricted write does what the whole batch does after them. -/
theorem run_restricted {plan' : Program (EditPlan β)} (hread' : plan'.ReadOnly) {p : EditPlan β}
    {more : List Operation} (indices : dir.config.DistinctIndices) (shape : dir.InShape α b.store)
    (hp : dir.Restricts α gone b plan' p)
    (hmore : (p.edits.operations dir.channels).Returns b more)
    (hreach : p.ops ++ more = [] ∨ b.available = true)
    (hanswer : p.answer.Returns (b.after (p.ops ++ more)) value) :
    ∃ value', p.answer.Returns ((b.after (dir.deletions gone)).after (p.ops ++ more)) value' ∧
      (dir.editWrite plan' hread').program.run (b.after (dir.deletions gone)) =
        (.ok value', (b.after (dir.deletions gone)).after (p.ops ++ more)) := by
  obtain ⟨names, habout⟩ := hp.confined.about
  have lost : dir.Without α gone b.store (b.store.after (dir.deletions gone)) :=
    without_after_deletions indices shape
  have edited := edited_of_returns_operations indices shape hp.confined.records habout hmore
  -- Less is left of the batch, which does the same.
  have hmore' := returns_operations_without shape.channels lost.shape.channels lost.channels hmore
  have hsame := after_without_lost indices shape lost hp.confined.ops hmore
  have edited' : dir.Edited α p.ops (p.edits.without gone) (b.store.after (dir.deletions gone))
      ((b.store.after (dir.deletions gone)).after (p.ops ++ more)) := by
    rw [← hsame]
    exact edited_of_returns_operations (b := b.after (dir.deletions gone)) (p := p.without gone)
      indices lost.shape hp.confined.records habout.without hmore'
  obtain ⟨value', hvalue'⟩ := hp.answers _ _ value edited.shape
    (edited.without shape lost edited') hanswer
  refine ⟨value', hvalue', (editWrite_run_eq_ok_iff hread').mpr ⟨p.without gone, _, hp.left, hmore',
    hreach.imp (fun hempty => ?_) id,
    isSuccess_of_returns_operations indices lost.shape.channels hp.confined.ops hmore', ?_,
    hvalue'⟩⟩
  · obtain ⟨hnil, rfl⟩ := List.append_eq_nil_iff.mp hempty
    exact List.append_eq_nil_iff.mpr ⟨hnil, rfl⟩
  · exact congrArg (fun s => { b with store := s }) hsame.symm

/-- A write ends as the one whose plan is its plan without the deleted channels. -/
theorem editWrite_endsAsRestricted {plan plan' : Program (EditPlan β)} (hread : plan.ReadOnly)
    (hread' : plan'.ReadOnly) (indices : dir.config.DistinctIndices)
    (shape : dir.InShape α b.store)
    (hspec : ∀ p, plan.Returns b p → dir.Restricts α gone b plan' p)
    (h : (dir.editWrite plan hread).program.run b = (.ok value, b₁)) :
    dir.EndsAsRestricted gone b b₁ (dir.editWrite plan hread).program
      (dir.editWrite plan' hread').program := by
  obtain ⟨p, more, hp, hmore, hreach, -, rfl, hanswer⟩ := (editWrite_run_eq_ok_iff hread).mp h
  have restricts := hspec p hp
  obtain ⟨names, habout⟩ := restricts.confined.about
  have hbatch : (dir.editWrite plan hread).plan.Returns b
      ⟨p.ops ++ more, fun _ => p.answer, fun _ => p.readOnly_answer⟩ :=
    (returns_bind hread).mpr ⟨p, hp, (returns_bind (readOnly_operations _ _)).mpr
      ⟨more, hmore, returns_done.mpr rfl⟩⟩
  obtain ⟨value', hvalue', hrun⟩ :=
    run_restricted hread' indices shape restricts hmore hreach hanswer
  have lost : dir.Without α gone b.store (b.store.after (dir.deletions gone)) :=
    without_after_deletions indices shape
  have hfailures := failures_of_lost indices shape lost restricts.confined.ops hmore
    (edited_of_returns_operations indices shape restricts.confined.records habout hmore)
  have hsuccess : ((b.store.after (dir.deletions gone)).summary (p.ops ++ more)).isSuccess = true ↔
      dir.touched gone b.store (b.store.after (p.ops ++ more)) = [] := by
    rw [Summary.isSuccess, hfailures, List.isEmpty_iff, List.map_eq_nil_iff]
  refine ⟨⟨value', ?_⟩, fun hnone => ?_, fun hsome => ?_⟩
  · rw [Write.settled_awaiting hbatch hreach]
    exact hrun
  · rw [Write.runMonitored_awaiting hbatch hreach]
    by_cases hempty : p.ops ++ more = []
    · rw [hempty] at hanswer
      rw [if_pos hempty]
      exact ⟨value, hanswer⟩
    · rw [if_neg hempty]
      exact ⟨value', (if_pos (hsuccess.mpr hnone)).trans hvalue'⟩
  · have hnonempty : p.ops ++ more ≠ [] := by
      intro hempty
      rw [hempty] at hsome hsuccess
      exact hsome (hsuccess.mp rfl)
    have htotal := Store.total_summary (b.store.after (dir.deletions gone)) (p.ops ++ more)
    rw [Summary.total, hfailures, List.length_map] at htotal
    rw [Write.runMonitored_awaiting hbatch hreach, if_neg hnonempty]
    exact ⟨p.ops ++ more, _, rfl, htotal, (if_neg (mt hsuccess.mp hsome)).trans
      (congrArg (fun failures => Outcome.failed (.partialFailure _ failures)) hfailures)⟩

omit [Reference ρ] [LawfulAttribute α] [LawfulEntity α] in
/-- Without their values the runs end the same way. -/
theorem EndsAsRestricted.discard {p restricted : Program β}
    (h : dir.EndsAsRestricted gone b b₁ p restricted) :
    dir.EndsAsRestricted gone b b₁ p.discard restricted.discard := by
  have hoff : ∀ m : Monitor, (p.discard.runMonitored m).2 = (p.runMonitored m).2 := fun m => by
    rw [Program.discard, runMonitored_bind]
    rcases p.runMonitored m with ⟨value | e | _, after⟩ <;> rfl
  refine ⟨?_, fun hnone => ?_, fun hsome => ?_⟩
  · obtain ⟨value, hrun⟩ := h.store
    exact ⟨(), by rw [hoff]; exact run_discard_ok_iff.mpr ⟨value, hrun⟩⟩
  · obtain ⟨value, hvalue⟩ := h.success hnone
    refine ⟨(), ?_⟩
    rw [Program.discard, runMonitored_bind, ← Prod.eta (p.runMonitored _), hvalue]
    rfl
  · obtain ⟨ops, applied, hbatches, htotal, hfailed⟩ := h.failure hsome
    refine ⟨ops, applied, by rw [hoff, hbatches], htotal, ?_⟩
    rw [Program.discard, runMonitored_bind, ← Prod.eta (p.runMonitored _), hfailed]

/-- An edit whose plan is restricted to what is left ends as the restricted plan does. -/
theorem editWrite_discard_endsAsRestricted {plan plan' : Program (EditPlan β)}
    (hread : plan.ReadOnly) (hread' : plan'.ReadOnly) (indices : dir.config.DistinctIndices)
    (shape : dir.InShape α b.store)
    (hspec : ∀ p, plan.Returns b p → dir.Restricts α gone b plan' p)
    (h : (dir.editWrite plan hread).program.discard.run b = (.ok (), b₁)) :
    dir.EndsAsRestricted gone b b₁ (dir.editWrite plan hread).program.discard
      (dir.editWrite plan' hread').program.discard := by
  obtain ⟨value, hrun⟩ := run_discard_ok_iff.mp h
  exact (editWrite_endsAsRestricted hread hread' indices shape hspec hrun).discard

end Runs

end Directory

/-! ## Commands -/

namespace AttributeCommand

variable {α ρ : Type} [Attribute α ρ]

/-- The command without the channels of a set in its request. -/
def without (command : AttributeCommand α) (gone : KeySet) : AttributeCommand α :=
  match command with
  | create name record => create name (dropChannels gone record)
  | createMany records => createMany (records.map (dropChannels gone))
  | update name request => update name (dropChannels gone request)
  | updateMany records => updateMany (records.map (dropChannels gone))
  | addToChannel .. | remove _ | removeFromChannel .. => command

/-- The command can be asked for without some channels : it is not about a single channel, and
does not move a record to another name. -/
def Restrictable : AttributeCommand α → Prop
  | update name request => Directory.updatedName name request = name
  | create .. | createMany _ | updateMany _ | remove _ => True
  | addToChannel .. | removeFromChannel .. => False

end AttributeCommand

namespace Directory

variable {α ρ : Type} [Attribute α ρ] [Reference ρ] [DecidableEq ρ] [LawfulReference ρ]
  [LawfulAttribute α] [LawfulEntity α] [ChannelwiseAttribute α] {dir : Directory} {gone : KeySet}
  {b b₁ : Backend}

/-- A write of tags or properties ends as it would without the deleted channels. -/
theorem attributeProgram_endsAsRestricted (indices : dir.config.DistinctIndices)
    (shape : dir.InShape α b.store) {command : AttributeCommand α} (hcommand : command.Restrictable)
    (h : (dir.attributeProgram command).run b = (.ok (), b₁)) :
    dir.EndsAsRestricted gone b b₁ (dir.attributeProgram command)
      (dir.attributeProgram (command.without gone)) := by
  have lost : dir.Without α gone b.store (b.store.after (dir.deletions gone)) :=
    without_after_deletions indices shape
  cases command with
  | create name record =>
    simp only [AttributeCommand.without, attributeProgram, createAttribute_eq] at h ⊢
    refine editWrite_discard_endsAsRestricted _ _ indices shape (fun p hp => ?_) h
    obtain ⟨_, -, -, -, -, hanswer, -⟩ := returns_createPlan shape hp
    exact ⟨confined_createPlan shape hp, createPlan_without shape.channels lost hp,
      hanswer ▸ answersWithout_readAttribute name⟩
  | createMany records =>
    simp only [AttributeCommand.without, attributeProgram, createAttributes_eq] at h ⊢
    refine editWrite_discard_endsAsRestricted _ _ indices shape (fun p hp => ?_) h
    obtain ⟨-, -, hanswer, -⟩ := returns_createAllPlan shape hp
    exact ⟨confined_createAllPlan shape hp, createAllPlan_without shape.channels lost hp,
      hanswer ▸ answersWithout_readAttributes _⟩
  | update name request =>
    simp only [AttributeCommand.without, attributeProgram, updateAttribute_eq] at h ⊢
    refine editWrite_discard_endsAsRestricted _ _ indices shape (fun p hp => ?_) h
    obtain ⟨_, _, -, -, -, -, hanswer, -⟩ := returns_updatePlan shape hp
    exact ⟨confined_updatePlan shape hp, updatePlan_without shape lost hcommand hp,
      hanswer ▸ answersWithout_readAttribute _⟩
  | updateMany records =>
    simp only [AttributeCommand.without, attributeProgram, updateAttributes_eq] at h ⊢
    refine editWrite_discard_endsAsRestricted _ _ indices shape (fun p hp => ?_) h
    obtain ⟨-, -, hanswer, -⟩ := returns_updateAllPlan shape hp
    exact ⟨confined_updateAllPlan shape hp, updateAllPlan_without shape lost hp,
      hanswer ▸ answersWithout_readAttributes _⟩
  | remove name =>
    simp only [AttributeCommand.without, attributeProgram, removeAttribute_eq] at h ⊢
    refine editWrite_endsAsRestricted _ _ indices shape (fun p hp => ?_) h
    obtain ⟨-, -, hanswer, -⟩ := returns_removePlan shape hp
    exact ⟨confined_removePlan shape hp, removePlan_without shape lost hp,
      hanswer ▸ answersWithout_done ()⟩
  | addToChannel name channel request => exact hcommand.elim
  | removeFromChannel name channel => exact hcommand.elim

/-- A write of tags or properties that would succeed may find that channels have been deleted just
before its batch. What is left is what the same write leaves after the deletions, asked for
without these channels. It fails in part exactly if one of them had to change, and for exactly
these. -/
theorem interrupted_ends_as_restricted (indices : dir.config.DistinctIndices)
    (wf : dir.WellFormed b.store) :
    (∀ (command : AttributeCommand Tag) (b₁ : Backend), command.Restrictable →
      (dir.attributeProgram command).run b = (.ok (), b₁) →
        dir.EndsAsRestricted gone b b₁ (dir.attributeProgram command)
          (dir.attributeProgram (command.without gone))) ∧
      ∀ (command : AttributeCommand Property) (b₁ : Backend), command.Restrictable →
        (dir.attributeProgram command).run b = (.ok (), b₁) →
          dir.EndsAsRestricted gone b b₁ (dir.attributeProgram command)
            (dir.attributeProgram (command.without gone)) :=
  ⟨fun _ _ hcommand h => attributeProgram_endsAsRestricted indices wf.tagShape hcommand h,
    fun _ _ hcommand h => attributeProgram_endsAsRestricted indices wf.propertyShape hcommand h⟩

/-- Three channels, two of which have a tag. -/
def tagOnFirstTwo : Backend where
  store := usual.filled [⟨"A", "o", [⟨"t", "x"⟩], []⟩, ⟨"B", "o", [⟨"t", "x"⟩], []⟩,
    ⟨"C", "o", [], []⟩] [⟨"t", "x", []⟩] []

/-- A request for another owner of the tag, with another channel. -/
def ownerRequest : AttributeCommand Tag :=
  .update "t" ⟨"t", "y", [{ name := "C" }]⟩

/-- The channels that another writer deletes. -/
def firstAndLast : KeySet :=
  KeySet.ofList ["A", "C"]

/-- Both of them had to change, so the request fails for both. -/
theorem ownerRequest_interrupted : ∃ b₁,
    (usual.attributeProgram ownerRequest).run tagOnFirstTwo = (.ok (), b₁) ∧
      usual.EndsAsRestricted firstAndLast tagOnFirstTwo b₁ (usual.attributeProgram ownerRequest)
        (usual.attributeProgram (ownerRequest.without firstAndLast)) ∧
      usual.touched firstAndLast tagOnFirstTwo.store b₁.store = ["A", "C"] := by
  have wf : usual.WellFormed tagOnFirstTwo.store :=
    wellFormed_filled distinctIndices_usual (by decide) _ _
  have hok : ((usual.attributeProgram ownerRequest).run tagOnFirstTwo).1 = .ok () := by cbv
  have htouched : usual.touched firstAndLast tagOnFirstTwo.store
      ((usual.attributeProgram ownerRequest).run tagOnFirstTwo).2.store = ["A", "C"] := by cbv
  exact ⟨_, Prod.ext hok rfl, (interrupted_ends_as_restricted distinctIndices_usual wf).1
    ownerRequest _ rfl (Prod.ext hok rfl), htouched⟩

end Directory

end ChannelDirectory

import ChannelDirectory.Proofs.Directory.OneRecord
import ChannelDirectory.Proofs.Program.Resubmission

/-!
# Tags and properties that are submitted again

A write of tags or properties repeats if on what it has left its plan is made once more, and
nothing is left of it to do (`Directory.editWrite_repeats`, `Directory.AlreadyDone`).

Two commands edit a single channel and plan the same edit again, which the channel has had
(`repeats_addToChannel`, `repeats_removeFromChannel`). The others plan from the members that they
find. These are the ones that the first submission has made, so that there is no difference
left to edit, and the order of the references in channels is not touched (`stagedReplace_of_eq`,
`stagedMerge_of_le`). That the members can be read again is known from the first answer, which
listed them.
-/

namespace ChannelDirectory

open Attribute ChannelEdits Collection LawfulAttribute Program

/-- Steps that each change nothing change nothing together. -/
theorem foldl_eq_self {σ ι : Type} {f : σ → ι → σ} {start : σ} {items : List ι}
    (h : ∀ item ∈ items, f start item = start) : items.foldl f start = start := by
  induction items with
  | nil => rfl
  | cons item items ih =>
    obtain ⟨hitem, hrest⟩ := List.forall_mem_cons.mp h
    rw [List.foldl_cons, hitem, ih hrest]

/-- Edits that change no stored channel write nothing. -/
theorem ChannelEdits.changed_eq_empty {edits : ChannelEdits} {stored : KeyMap Channel}
    (h : ∀ id c, stored.get? id = some c → edits.applyTo c = c) :
    edits.changed stored = KeyMap.empty := by
  refine KeyMap.ext_get? fun id => Option.eq_none_iff_forall_not_mem.mpr fun c' hc' => ?_
  obtain ⟨c, hc, hdiff, -⟩ := get?_changed_eq_some_iff.mp hc'
  exact hdiff (h id c hc)

namespace Directory

variable {dir : Directory} {b : Backend} {s s' : Store}

/-- Nothing is left of the plan to do : its writes put what is stored, and its edits lead each
stored channel to what it is. -/
structure AlreadyDone {β : Type} (dir : Directory) (s : Store) (p : EditPlan β) : Prop where
  ops : ∀ op ∈ p.ops, s.Settled op
  applicable : p.edits.Applicable (dir.channels.contents s)
  edits : ∀ id c, (dir.channels.contents s).get? id = some c → p.edits.applyTo c = c

variable {α ρ β : Type} [Attribute α ρ]

/-- A plan without edits is done if its records are stored. -/
theorem alreadyDone_of_stored [LawfulEntity α] (shape : dir.InShape α s) {p : EditPlan β}
    (records : List α) (hops : p.ops = records.map (dir.records α).putOp)
    (hedits : p.edits = KeyMap.empty)
    (hstored : ∀ r ∈ records,
      ((dir.records α).contents s).get? (Entity.name r) = some (Entity.stored r)) :
    dir.AlreadyDone s p where
  ops op hop := by
    rw [hops] at hop
    obtain ⟨r, hr, rfl⟩ := List.mem_map.mp hop
    exact ⟨_, _, _, rfl, shape.records.get?_contents_iff.mp (hstored r hr)⟩
  applicable := by
    rw [hedits]
    exact applicable_of_stored fun _ hnone => absurd hnone List.not_mem_nil
  edits _ _ _ := by
    rw [hedits]
    rfl

variable [Reference ρ] [LawfulAttribute α]

/-- A write repeats if on what its plan leaves, a plan of it is already done, and the answer to
this plan is the same. -/
theorem editWrite_repeats (indices : dir.config.DistinctIndices) (shape : dir.InShape α b.store)
    {plan : Program (EditPlan β)} (hread : plan.ReadOnly)
    (hconfined : ∀ p, plan.Returns b p → dir.Confined α p)
    (h : ∀ p s' value, plan.Returns b p → b.available = true →
      dir.Edited α p.ops p.edits b.store s' → p.answer.Returns { b with store := s' } value →
      ∃ again : EditPlan β, plan.Returns { b with store := s' } again ∧ dir.AlreadyDone s' again ∧
        again.answer.Returns { b with store := s' } value) :
    (dir.editWrite plan hread).program.Repeats b := by
  refine Write.repeats _ fun batch value hbatch havail hanswer => ?_
  obtain ⟨p, more, hplan, hmore, rfl⟩ := (returns_editWrite_plan_iff hread).mp hbatch
  obtain ⟨hops, -, names, habout⟩ := hconfined p hplan
  have edited := edited_of_returns_operations indices shape hops habout hmore
  obtain ⟨again, hagain, done, hsame⟩ := h p _ value hplan havail edited hanswer
  have hnothing : (again.edits.operations dir.channels).Returns (b.after (p.ops ++ more)) [] := by
    refine (returns_operations_iff edited.shape.channels).mpr ⟨.inr havail, done.applicable, ?_⟩
    rw [Backend.after, changed_eq_empty done.edits]
    rfl
  refine ⟨_, (returns_editWrite_plan_iff hread).mpr ⟨again, [], hagain, hnothing, rfl⟩, ?_,
    fun _ => hsame⟩
  rw [List.append_nil]
  exact done.ops

/-! ## Members that are there -/

variable [DecidableEq ρ]

omit [LawfulAttribute α] in
/-- If the members are as the record wants them, nothing is staged. -/
theorem stagedReplace_of_eq {record : α}
    (h : dir.membersOf α s (Entity.name record) = wanted record) (edits : ChannelEdits) :
    dir.stagedReplace s edits record = edits := by
  rw [stagedReplace, h, Delta.replace_self]
  rfl

omit [LawfulAttribute α] in
/-- If the members carry already what the record wants, nothing is staged. -/
theorem stagedMerge_of_le {record : α} (h : ∀ channel ref,
    (wanted record).get? channel = some ref →
      (dir.membersOf α s (Entity.name record)).get? channel = some ref) (edits : ChannelEdits) :
    dir.stagedMerge s edits record = edits := by
  rw [stagedMerge, Delta.merge_eq_nothing h]
  rfl

/-! ## Creating -/

variable [LawfulEntity α] {name : String}

/-- A creation can be submitted again. -/
theorem repeats_createAttribute (indices : dir.config.DistinctIndices)
    (shape : dir.InShape α b.store) (record : α) :
    (dir.createAttribute name record).Repeats b := by
  rw [createAttribute_eq]
  refine editWrite_repeats indices shape _ (fun p => confined_createPlan shape) ?_
  rintro p s' value hplan - edited hanswer
  obtain ⟨rfl, hadmits, rfl⟩ := (returns_createPlan_iff shape.channels).mp hplan
  have hlists := ((returns_readAttribute_iff (b := { b with store := s' }) edited.shape).mp
    hanswer).1
  have hmembers : dir.membersOf α s' (Entity.name record) = wanted record := by
    rw [membersOf_after_create shape.channels hadmits.valid
      (fun _ _ => hadmits.stored shape.channels) edited, if_pos rfl]
  refine ⟨_, (returns_createPlan_iff (b := { b with store := s' }) edited.shape.channels).mpr
    ⟨rfl, hadmits.again shape.channels edited hlists, rfl⟩, ?_, hanswer⟩
  refine alreadyDone_of_stored edited.shape [record] rfl
    (stagedReplace_of_eq hmembers _) fun r hr => ?_
  rw [List.mem_singleton.mp hr, edited.records, Store.after_cons, Store.after_nil,
    contents_apply_putOp, KeyMap.get?_insert, if_pos rfl]

/-- A creation of many records can be submitted again. -/
theorem repeats_createAttributes (indices : dir.config.DistinctIndices)
    (shape : dir.InShape α b.store) (records : List α) :
    (dir.createAttributes records).Repeats b := by
  rw [createAttributes_eq]
  refine editWrite_repeats indices shape _ (fun p => confined_createAllPlan shape) ?_
  rintro p s' value hplan - edited hanswer
  have hmembers : ∀ r ∈ (lastByName records).values,
      dir.membersOf α s' (Entity.name r) = wanted r := fun r hr =>
    membersOf_after_createAll shape hplan edited hr
  obtain ⟨hadmits, rfl⟩ := (returns_createAllPlan_iff shape.channels).mp hplan
  have hlists : ∀ r ∈ (lastByName records).values,
      dir.Lists α { b with store := s' } (Entity.name r) := by
    intro r hr
    refine lists_of_returns_readAttributes (b := { b with store := s' }) edited.shape hanswer ?_
    rw [← names_values_lastByName]
    exact List.mem_map_of_mem hr
  refine ⟨_, (returns_createAllPlan_iff (b := { b with store := s' }) edited.shape.channels).mpr
    ⟨fun r hr => (hadmits r hr).again shape.channels edited (hlists r hr), rfl⟩, ?_, hanswer⟩
  refine alreadyDone_of_stored edited.shape _ rfl ?_ fun r hr => ?_
  · exact foldl_eq_self fun r hr => stagedReplace_of_eq (hmembers r hr) KeyMap.empty
  · obtain ⟨name, hget⟩ := KeyMap.mem_values_iff.mp hr
    obtain ⟨-, rfl⟩ := get?_lastByName hget
    rw [edited.records, get?_contents_after_puts_values _ _ fun _ _ h => (get?_lastByName h).2,
      hget, Option.map_some, Option.some_or]

/-! ## One channel -/

omit [DecidableEq ρ] [Reference ρ] [LawfulAttribute α] in
/-- Where a plan writes no records, they stay, and the same channels are there. -/
theorem Edited.sameRecord {edits : ChannelEdits} (shape : dir.InShape α b.store)
    (edited : dir.Edited α [] edits b.store s') :
    dir.SameRecord α name b { b with store := s' } where
  available := rfl
  record := by
    have hrecords : (dir.records α).contents s' = (dir.records α).contents b.store := edited.records
    have hread := edited.shape.records.get?_store name
    rw [hrecords, ← shape.records.get?_store] at hread
    exact hread.symm
  channels := by
    change _ = (dir.channels.contents s').keys
    rw [edited.channels, KeyMap.keys_mapValues]

omit [DecidableEq ρ] [Reference ρ] [LawfulAttribute α] [LawfulEntity α] in
/-- An edit of a stored channel is done once it has been carried out, if to carry it out again
changes nothing. -/
theorem Edited.alreadyDone {p : EditPlan β} (edited : dir.Edited α [] p.edits s s')
    (hops : p.ops = []) (happlicable : p.edits.Applicable (dir.channels.contents s'))
    (hagain : ∀ c, p.edits.applyTo (p.edits.applyTo c) = p.edits.applyTo c) :
    dir.AlreadyDone s' p where
  ops op hop := by
    rw [hops] at hop
    exact absurd hop List.not_mem_nil
  applicable := happlicable
  edits id c' hc' := by
    rw [edited.channels, KeyMap.get?_mapValues] at hc'
    obtain ⟨c, -, rfl⟩ := Option.map_eq_some_iff.mp hc'
    exact hagain c

omit [DecidableEq ρ] in
/-- An assignment to one channel can be submitted again. -/
theorem repeats_addToChannel (indices : dir.config.DistinctIndices)
    (shape : dir.InShape α b.store) (channel : String) (request : α) :
    (dir.addToChannel name channel request).Repeats b := by
  rw [addToChannel_eq]
  refine editWrite_repeats indices shape _ (fun p => confined_addPlan shape) ?_
  rintro p s' value hplan - edited hanswer
  obtain ⟨-, -, hchannel, record, ref, -, -, rfl⟩ := (returns_addPlan_iff shape).mp hplan
  have hagain : (dir.addPlan name channel request).Returns { b with store := s' } _ :=
    (alike_addPlan shape edited.shape (edited.sameRecord shape) channel request).returns hplan
  obtain ⟨c, hc⟩ := edited.exists_channel hchannel
  refine ⟨_, hagain, edited.alreadyDone rfl (applicable_modify hc _) fun c => ?_, hanswer⟩
  have happly : ∀ c, (putEdit α KeyMap.empty channel ref).applyTo c = putAt α c (channel, ref) :=
    (about_empty _).applyTo_putEdit channel
  rw [happly, happly, putAt_putAt]

omit [DecidableEq ρ] in
/-- Taking a record off one channel can be submitted again. -/
theorem repeats_removeFromChannel (indices : dir.config.DistinctIndices)
    (shape : dir.InShape α b.store) (channel : String) :
    (dir.removeFromChannel α name channel).Repeats b := by
  rw [removeFromChannel_eq]
  refine editWrite_repeats indices shape _ (fun p => confined_removeFromPlan shape) ?_
  rintro p s' value hplan - edited hanswer
  obtain ⟨-, -, hchannel, rfl⟩ := (returns_removeFromPlan_iff shape).mp hplan
  have hagain : (dir.removeFromPlan α name channel).Returns { b with store := s' } _ :=
    (alike_removeFromPlan shape edited.shape (edited.sameRecord shape) channel).returns hplan
  obtain ⟨c, hc⟩ := edited.exists_channel hchannel
  refine ⟨_, hagain, edited.alreadyDone rfl (applicable_modify hc _) fun c => ?_, hanswer⟩
  have happly : ∀ c, (removeEdit α KeyMap.empty channel name).applyTo c =
      eraseAt α name c channel :=
    (about_empty (· = name)).applyTo_removeEdit channel name
  rw [happly, happly, eraseAt_eraseAt]

/-! ## Updating -/

section Updating

variable [LawfulReference ρ] {request existing : α} {desired : KeyMap ρ}

omit [DecidableEq ρ] [LawfulReference ρ] [LawfulEntity α] in
/-- The owner that an update leads to stays the same when the update is made again. -/
theorem updatedOwner_stored (name : String) (existing request : α) :
    updatedOwner (Entity.stored (updatedRecord name existing request)) request =
      updatedOwner existing request := by
  have howner : owner (Entity.stored (updatedRecord name existing request)) =
      updatedOwner existing request :=
    (owner_stored _).trans (owner_withIdentity request _ _)
  rw [updatedOwner, howner, updatedOwner]
  split <;> rfl

omit [DecidableEq ρ] [LawfulReference ρ] [LawfulEntity α] in
/-- The record that an update has written is what it writes again. -/
theorem updatedRecord_stored (name : String) (existing request : α) :
    updatedRecord name (Entity.stored (updatedRecord name existing request)) request =
      updatedRecord name existing request := by
  rw [updatedRecord, updatedOwner_stored, updatedRecord]

omit [LawfulEntity α] in
/-- Members that an update under the same name has led to need no edits. -/
theorem updateEdits_eq_empty (hname : updatedName name request = name)
    (hdesired : requestedMembers (updatedRecord name existing request) = .ok desired)
    (hmembers : ∀ channel, dir.refAt? α s' channel name =
      dir.updatedMember s name existing request desired channel) :
    dir.updateEdits s' name (Entity.stored (updatedRecord name existing request)) request desired =
      KeyMap.empty := by
  have hmerge : Delta.merge (dir.membersOf α s' name) desired = Delta.nothing := by
    refine Delta.merge_eq_nothing fun channel ref href => ?_
    rw [get?_membersOf, hmembers, updatedMember, if_pos hname, href, Option.some_or]
  have hfixed : ∀ channel ref, (dir.membersOf α s' name).get? channel = some ref →
      Reference.rebind ref name (updatedOwner existing request) = ref := by
    intro channel ref href
    rw [get?_membersOf] at href
    obtain ⟨c, -, hfound⟩ := Option.bind_eq_some_iff.mp href
    rw [hmembers] at href
    rw [← owner_of_updatedMember hdesired href]
    obtain rfl := name_of_findRef? hfound
    exact LawfulReference.rebind_self ref
  rw [updateEdits, if_pos hname, updatedOwner_stored, hname, hmerge,
    Delta.refreshOthers_nothing hfixed]
  rfl

/-- An update in place can be submitted again. -/
theorem repeats_updateAttribute (indices : dir.config.DistinctIndices)
    (shape : dir.InShape α b.store) (hname : updatedName name request = name) :
    (dir.updateAttribute name request).Repeats b := by
  rw [updateAttribute_eq]
  refine editWrite_repeats indices shape _ (fun p => confined_updatePlan shape) ?_
  rintro p s' value hplan - edited hanswer
  obtain ⟨existing, desired, hget, hdesired, hstored, hops, hread, staged⟩ :=
    returns_updatePlan shape hplan
  obtain ⟨existing', desired', hget', hcheck, hdesired', -⟩ :=
    (returns_updatePlan_iff shape).mp hplan
  obtain rfl := Option.some.inj (hget.symm.trans hget')
  obtain rfl := Except.ok.inj (hdesired.symm.trans hdesired')
  have hrecord := (get?_records_of_update hops edited name).trans (if_pos hname.symm)
  have hmembers := fun channel =>
    (refAt?_of_update edited hstored staged channel name).trans (if_pos hname.symm)
  rw [hread] at hanswer
  have hlists := ((returns_readAttribute_iff (b := { b with store := s' }) edited.shape).mp
    hanswer).1
  refine ⟨_, (returns_updatePlan_iff (b := { b with store := s' }) edited.shape).mpr
    ⟨_, desired, hrecord, ?_, ?_, hname ▸ hlists, fun _ => hlists, rfl⟩, ?_, hanswer⟩
  · rw [updatedRecord_stored]
    exact edited.checkRecord shape.channels hcheck
  · rw [updatedRecord_stored]
    exact hdesired
  · refine alreadyDone_of_stored edited.shape [updatedRecord name existing request] ?_
      (updateEdits_eq_empty hname hdesired hmembers) fun r hr => ?_
    · change dir.updateOps name _ request = _
      rw [updateOps, if_pos hname, updatedRecord_stored]
      rfl
    · rw [List.mem_singleton.mp hr, ← hrecord]
      exact congrArg _ ((name_withIdentity request _ _).trans hname)

variable [LawfulRecord α]

omit [DecidableEq ρ] [LawfulReference ρ] [LawfulEntity α] in
/-- What an update of many writes about a record stays the same once the record is stored. -/
theorem mergedIn_eq {record : α} (hrecord : ((dir.records α).contents s').get?
      (Entity.name record) = (((dir.records α).contents s).get? (Entity.name record)).or
        (some (Entity.stored record))) :
    dir.mergedIn s' record = dir.mergedIn s record := by
  rw [mergedIn, merged, hrecord, mergedIn, merged]
  cases ((dir.records α).contents s).get? (Entity.name record) with
  | some existing => rfl
  | none =>
    change withIdentity record (Entity.name record) (owner (Entity.stored record)) = record
    rw [owner_stored, LawfulRecord.withIdentity_self]

section Many

variable {records : List α} {p : EditPlan (List α)} {e : String × α}

omit [LawfulReference ρ] [LawfulRecord α] in
/-- After an update of many each of its records is stored, or one that was there before. -/
theorem get?_record_of_updateAllPlan (shape : dir.InShape α b.store)
    (hplan : (dir.updateAllPlan records).Returns b p)
    (edited : dir.Edited α p.ops p.edits b.store s') (he : e ∈ (lastByName records).entries) :
    ((dir.records α).contents s').get? (Entity.name e.2) =
      (((dir.records α).contents b.store).get? (Entity.name e.2)).or
        (some (Entity.stored e.2)) := by
  rw [get?_records_of_updateAllPlan shape hplan edited, get?_lastByName_of_mem he, Option.map_some]

omit [LawfulReference ρ] in
theorem mergedIn_of_updateAllPlan (shape : dir.InShape α b.store)
    (hplan : (dir.updateAllPlan records).Returns b p)
    (edited : dir.Edited α p.ops p.edits b.store s') (he : e ∈ (lastByName records).entries) :
    dir.mergedIn s' e.2 = dir.mergedIn b.store e.2 :=
  mergedIn_eq (get?_record_of_updateAllPlan shape hplan edited he)

omit [LawfulReference ρ] [LawfulRecord α] in
/-- After an update of many each of its records has the members that are asked for. -/
theorem get?_membersOf_of_updateAllPlan (shape : dir.InShape α b.store)
    (hplan : (dir.updateAllPlan records).Returns b p)
    (edited : dir.Edited α p.ops p.edits b.store s') (he : e ∈ (lastByName records).entries)
    {channel : String} {ref : ρ}
    (href : (wanted (dir.mergedIn b.store e.2)).get? channel = some ref) :
    (dir.membersOf α s' (Entity.name (dir.mergedIn b.store e.2))).get? channel = some ref := by
  rw [mergedIn, name_merged _ rfl, get?_membersOf,
    refAt?_of_updateAllPlan shape hplan edited (get?_lastByName_of_mem he), href, Option.some_or]

omit [LawfulReference ρ] in
/-- The same update of many plans nothing once it is carried out : its records are there, and each
of them has the members of its request, which its answer has listed. -/
theorem repeats_updateAttributes (indices : dir.config.DistinctIndices)
    (shape : dir.InShape α b.store) (records : List α) :
    (dir.updateAttributes records).Repeats b := by
  rw [updateAttributes_eq]
  refine editWrite_repeats indices shape _ (fun p => confined_updateAllPlan shape) ?_
  rintro p s' value hplan - edited hanswer
  obtain ⟨-, -, hread, -⟩ := returns_updateAllPlan shape hplan
  have hadmits := ((returns_updateAllPlan_iff shape).mp hplan).1
  have hmerged := fun e => mergedIn_of_updateAllPlan shape hplan edited (e := e)
  rw [hread] at hanswer
  refine ⟨_, (returns_updateAllPlan_iff (b := { b with store := s' }) edited.shape).mpr
    ⟨fun e he => ?_, rfl⟩, ?_, hanswer⟩
  · change dir.Admits _ (dir.mergedIn s' e.2)
    rw [hmerged e he]
    refine (hadmits e he).again shape.channels edited
      (lists_of_returns_readAttributes (b := { b with store := s' }) edited.shape hanswer ?_)
    rw [mergedIn, name_merged _ rfl]
    exact KeyMap.mem_keys_iff.mpr ⟨e.2, get?_lastByName_of_mem he⟩
  · refine alreadyDone_of_stored edited.shape [] ?_ ?_
      fun r hr => absurd hr List.not_mem_nil
    · refine foldl_eq_self fun e he => if_pos (KeyMap.contains_iff.mpr ?_)
      rw [get?_record_of_updateAllPlan shape hplan edited he]
      cases ((dir.records α).contents b.store).get? (Entity.name e.2) with
      | some existing => exact ⟨existing, rfl⟩
      | none => exact ⟨_, rfl⟩
    · refine foldl_eq_self fun e he => ?_
      change dir.stagedMerge s' KeyMap.empty (dir.mergedIn s' e.2) = KeyMap.empty
      rw [hmerged e he]
      exact stagedMerge_of_le
        (fun channel ref => get?_membersOf_of_updateAllPlan shape hplan edited he) KeyMap.empty

end Many

end Updating

/-! ## All of them -/

/-- The writes of one kind that can be submitted again : all but those that delete a record or give
it another name. -/
structure AttributesRepeat (dir : Directory) (α : Type) {ρ : Type} [Attribute α ρ] [Reference ρ]
    [DecidableEq ρ] (b : Backend) : Prop where
  create : ∀ (name : String) (record : α), (dir.createAttribute name record).Repeats b
  createMany : ∀ records : List α, (dir.createAttributes records).Repeats b
  addToChannel : ∀ (name channel : String) (request : α),
    (dir.addToChannel name channel request).Repeats b
  update : ∀ (name : String) (request : α), updatedName name request = name →
    (dir.updateAttribute name request).Repeats b
  updateMany : ∀ records : List α, (dir.updateAttributes records).Repeats b
  removeFromChannel : ∀ name channel : String, (dir.removeFromChannel α name channel).Repeats b

/-- The writes of one kind can be submitted again. -/
theorem attributesRepeat [LawfulReference ρ] [LawfulRecord α] (indices : dir.config.DistinctIndices)
    (shape : dir.InShape α b.store) : dir.AttributesRepeat α b where
  create _ := repeats_createAttribute indices shape
  createMany := repeats_createAttributes indices shape
  addToChannel _ := repeats_addToChannel indices shape
  update _ _ := repeats_updateAttribute indices shape
  updateMany := repeats_updateAttributes indices shape
  removeFromChannel _ := repeats_removeFromChannel indices shape

end Directory

end ChannelDirectory

import ChannelDirectory.Proofs.Directory.FailedWrites
import ChannelDirectory.Proofs.Membership.Composition

/-!
# One batch for many records

Creating many records in one batch does what creating them one after another does, in the order
of their names and the last of each name only (`Directory.createAttributes_eq_each`). Both ways
start from the same memberships, since the creation of a record leaves those of other names alone
(`membersOf_after_create`). So each record is admitted with the others before it exactly if it is
on its own, and stages the same changes of each channel. The batch collects these changes in one
edit, which carries them out in the order of the names (`applyTo_foldl_stagedReplace`).
-/

namespace ChannelDirectory

open Attribute ChannelEdits Collection LawfulAttribute Program

theorem le_of_text_lt {name name' : String} (h : name < name') : name ≤ name' :=
  String.not_lt.mp fun h' => String.lt_irrefl name (String.lt_trans h h')

namespace Directory

variable {α ρ : Type} [Attribute α ρ] {dir : Directory} {b : Backend} {s s' : Store}
  {ops : List Operation} {edits : ChannelEdits}

/-- A store is determined by the writes of records and the edits that lead to it, and by its
indices. -/
theorem Edited.unique [LawfulEntity α] (h : dir.Edited α ops edits s s') {s'' : Store}
    (h' : dir.Edited α ops edits s s'')
    (hindices : ∀ index, s'.indices.contains index = s''.indices.contains index) : s' = s'' := by
  refine Store.ext_documents (fun index => ?_) hindices
  by_cases hchannel : index = dir.config.channelIndex
  · have hdocuments : s'.documents dir.channels.index = s''.documents dir.channels.index := by
      rw [h.shape.channels.documents_eq, h'.shape.channels.documents_eq, h.channels, h'.channels]
    rw [hchannel]
    exact hdocuments
  · by_cases hrecord : index = Attribute.index α dir.config
    · have hdocuments :
          s'.documents (dir.records α).index = s''.documents (dir.records α).index := by
        rw [h.shape.records.documents_eq, h'.shape.records.documents_eq, h.records, h'.records]
      rw [hrecord]
      exact hdocuments
    · rw [h.others index hchannel hrecord, h'.others index hchannel hrecord]

/-- The empty batch edits nothing. -/
theorem edited_nil (shape : dir.InShape α s) : dir.Edited α [] KeyMap.empty s s where
  shape := shape
  channels := KeyMap.ext_get? fun name => by
    rw [KeyMap.get?_mapValues]
    exact Option.map_id'.symm
  records := rfl
  others _ _ _ := rfl

/-- A record that is valid and whose channels exist passes its check again. -/
theorem Edited.checkRecord (wf : dir.channels.HoldsOnly Channel.Distinct b.store)
    (edited : dir.Edited α ops edits b.store s') {record : α}
    (h : (dir.checkRecord record).Returns b ()) :
    (dir.checkRecord record).Returns { b with store := s' } () := by
  obtain ⟨hvalid, havail, hstored⟩ := (returns_checkRecord_iff wf).mp h
  exact (returns_checkRecord_iff edited.shape.channels).mpr
    ⟨hvalid, havail, fun c hc => edited.exists_channel (hstored c hc)⟩

variable [Reference ρ]

/-- A record stays admitted while its members can be read. -/
theorem Admits.again (wf : dir.channels.HoldsOnly Channel.Distinct b.store)
    (edited : dir.Edited α ops edits b.store s') {record : α} (h : dir.Admits b record)
    (lists : dir.Lists α { b with store := s' } (Entity.name record)) :
    dir.Admits { b with store := s' } record :=
  ⟨edited.checkRecord wf h.check, h.valid, lists⟩

variable [LawfulAttribute α] [DecidableEq ρ]

/-! ## One record -/

omit [DecidableEq ρ] in
/-- The channels that an admitted record wants are stored. -/
theorem Admits.stored (wf : dir.channels.HoldsOnly Channel.Distinct b.store) {record : α}
    (h : dir.Admits b record) {channel : String} {ref : ρ}
    (href : (wanted record).get? channel = some ref) :
    ∃ c, (dir.channels.contents b.store).get? channel = some c :=
  exists_stored_of_requested (returns_checkRecord wf h.check).2 h.valid href

/-- The delta of a valid record is about its own name. -/
theorem names_replace_wanted {record : α} (hvalid : requestedMembers record = .ok (wanted record))
    (members : KeyMap ρ) : (Delta.replace members (wanted record)).Names (Entity.name record) :=
  Delta.names_replace fun _ _ href => (requestedMembers_ok hvalid href).2.1

/-- Staging a valid record adds edits about its name only. -/
theorem about_stagedReplace (names : String → Prop) {record : α}
    (hvalid : requestedMembers record = .ok (wanted record)) (hname : names (Entity.name record))
    (h : edits.About α names) : (dir.stagedReplace s edits record).About α names :=
  h.stage (names_replace_wanted hvalid _) hname

/-- All channels that are edited for an admitted record are stored. -/
theorem applicable_stagedReplace (wf : dir.channels.HoldsOnly Channel.Distinct b.store)
    {record : α} (h : dir.Admits b record) :
    (dir.stagedReplace b.store KeyMap.empty record).Applicable
      (dir.channels.contents b.store) := by
  refine applicable_of_stored fun channel hchannel => ?_
  rcases mem_keys_stage_replace hchannel with ⟨ref, href⟩ | ⟨ref, href⟩
  · exact exists_of_get?_membersOf href
  · exact h.stored wf href

/-- The record has its members, and those of other names are as they were. -/
theorem membersOf_after_create (wf : dir.channels.HoldsOnly Channel.Distinct s) {record : α}
    (hvalid : requestedMembers record = .ok (wanted record))
    (hstored : ∀ channel ref, (wanted record).get? channel = some ref →
      ∃ c, (dir.channels.contents s).get? channel = some c)
    (edited : dir.Edited α ops (dir.stagedReplace s KeyMap.empty record) s s') (name : String) :
    dir.membersOf α s' name =
      if name = Entity.name record then wanted record else dir.membersOf α s name := by
  have unstaged : dir.Stages α s (· = Entity.name record) KeyMap.empty (dir.refAt? α s) :=
    stages_empty _
  have staged := unstaged.stage wf
    (names_replace_wanted hvalid (dir.membersOf α s (Entity.name record))) rfl
  refine KeyMap.ext_get? fun channel => ?_
  rw [get?_membersOf, edited.refAt?_eq staged]
  · by_cases hname : name = Entity.name record
    · rw [if_pos hname, if_pos hname, hname, ← get?_membersOf, Delta.result_replace]
    · rw [if_neg hname, if_neg hname, get?_membersOf]
  · intro hnone name'
    rw [refAt?_eq_none hnone]
    have habsent : (wanted record).get? channel = none := get?_eq_none_of_stored hstored hnone
    have hmember : (dir.membersOf α s (Entity.name record)).get? channel = none := by
      rw [get?_membersOf, refAt?_eq_none hnone]
    have hresult := Delta.result_replace (dir.membersOf α s (Entity.name record)) (wanted record)
      channel
    rw [hmember, habsent] at hresult
    rw [hresult, ite_self]

variable [LawfulEntity α]

/-- The creation of an admitted record writes the record and its references. -/
theorem Admits.writesFor (wf : dir.channels.HoldsOnly Channel.Distinct b.store) {record : α}
    (h : dir.Admits b record) :
    dir.WritesFor α (Entity.name record) b
      ⟨[(dir.records α).putOp record], dir.stagedReplace b.store KeyMap.empty record,
        dir.readAttribute α (Entity.name record) true,
        dir.readOnly_readAttribute (Entity.name record) true⟩ where
  available := h.lists.available
  ops := putsOrDeletes_puts [record]
  records := recordOps_puts [record]
  ids := List.forall_mem_singleton.mpr rfl
  about := about_stagedReplace (· = Entity.name record) h.valid rfl (about_empty _)
  applicable := applicable_stagedReplace wf h

/-- What the creation of an admitted record does, up to its answer. -/
theorem run_createAttribute_of_admits (indices : dir.config.DistinctIndices)
    (shape : dir.InShape α b.store) {record : α} (h : dir.Admits b record) :
    ∃ ops, (dir.createAttribute (Entity.name record) record).run b =
        (dir.readAttribute α (Entity.name record) true).run (b.after ops) ∧
      dir.Edited α [(dir.records α).putOp record] (dir.stagedReplace b.store KeyMap.empty record)
        b.store (b.store.after ops) ∧
      ∀ index, (b.store.after ops).indices.contains index =
        (b.store.after [(dir.records α).putOp record]).indices.contains index := by
  have hplan : (dir.createPlan (Entity.name record) record).Returns b _ :=
    (returns_createPlan_iff shape.channels).mpr ⟨rfl, h, rfl⟩
  rw [createAttribute_eq]
  exact (h.writesFor shape.channels).exists_run indices shape _ hplan

/-! ## One record after another -/

omit [LawfulEntity α] in
/-- The edits of many records, in the order of their names, do what the edits of each record on
its own do in turn. -/
theorem applyTo_foldl_stagedReplace {records : List α}
    (ascending : records.Pairwise fun r r' => Entity.name r < Entity.name r')
    (hvalid : ∀ r ∈ records, requestedMembers r = .ok (wanted r))
    (habout : ∀ r ∈ records, edits.About α (· ≤ Entity.name r)) (c : Channel) :
    (records.foldl (dir.stagedReplace s) edits).applyTo c =
      (records.foldl (dir.stagedReplace s) KeyMap.empty).applyTo (edits.applyTo c) := by
  induction records generalizing edits c with
  | nil => rfl
  | cons record records ih =>
    obtain ⟨first, tail⟩ := List.pairwise_cons.mp ascending
    obtain ⟨hrecord, hrest⟩ := List.forall_mem_cons.mp hvalid
    -- What is staged for this record is about names that come no later than the others.
    have hstaged : ∀ {edits : ChannelEdits}, edits.About α (· ≤ Entity.name record) →
        ∀ r ∈ records, (dir.stagedReplace s edits record).About α (· ≤ Entity.name r) := by
      intro edits h r hr
      have hle : (dir.stagedReplace s edits record).About α (· ≤ Entity.name record) :=
        about_stagedReplace _ hrecord (String.le_refl _) h
      exact hle.mono fun name hname => String.le_trans hname (le_of_text_lt (first r hr))
    have hedits := habout record List.mem_cons_self
    rw [List.foldl_cons, ih tail hrest (hstaged hedits), List.foldl_cons,
      ih tail hrest (hstaged (about_empty _))]
    exact congrArg _ (hedits.applyTo_stage_eq (names_replace_wanted hrecord _) c)

omit [Reference ρ] [LawfulAttribute α] [DecidableEq ρ] in
/-- Writes and edits one after another are carried out as writes and edits in one. -/
theorem Edited.puts_trans {records more : List α} {edits' edits'' : ChannelEdits} {s'' : Store}
    (h : dir.Edited α (records.map (dir.records α).putOp) edits s s')
    (h' : dir.Edited α (more.map (dir.records α).putOp) edits' s' s'')
    (happly : ∀ c, edits''.applyTo c = edits'.applyTo (edits.applyTo c)) :
    dir.Edited α ((records ++ more).map (dir.records α).putOp) edits'' s s'' where
  shape := h'.shape
  channels := by
    rw [h'.channels, h.channels]
    refine KeyMap.ext_get? fun name => ?_
    simp only [KeyMap.get?_mapValues, Option.map_map, Function.comp_def, happly]
  records := by
    rw [h'.records, contents_after_puts, h.records, contents_after_puts, contents_after_puts,
      List.foldl_append]
  others index hchannel hrecord := by
    rw [h'.others index hchannel hrecord, h.others index hchannel hrecord]

/-- The answer to the creation of a record can be read if there are pages enough for its
channels. -/
theorem Admits.returns_answer (wf : dir.channels.HoldsOnly Channel.Distinct b.store) {record : α}
    (h : dir.Admits b record)
    (edited : dir.Edited α [(dir.records α).putOp record]
      (dir.stagedReplace b.store KeyMap.empty record) b.store (b.store.after ops))
    (hbudget : (wanted record).size / dir.channels.pageSize < dir.pageBudget) :
    ∃ answer, (dir.readAttribute α (Entity.name record) true).Returns (b.after ops) answer := by
  refine ⟨_, (returns_readAttribute_iff (b := b.after ops) edited.shape).mpr
    ⟨⟨h.lists.available, h.lists.fits, ?_⟩, Entity.stored record, ?_, rfl⟩⟩
  · change (dir.membersOf α (b.store.after ops) (Entity.name record)).size / _ < _
    rw [membersOf_after_create wf h.valid (fun _ _ => h.stored wf) edited, if_pos rfl]
    exact hbudget
  · change ((dir.records α).contents (b.store.after ops)).get? _ = _
    rw [edited.records, Store.after_cons, Store.after_nil, contents_apply_putOp,
      KeyMap.get?_insert, if_pos rfl]

/-- A record that is admitted can be created if its new members fit into the budget too. -/
theorem Admits.run_createAttribute (indices : dir.config.DistinctIndices)
    (shape : dir.InShape α b.store) {record : α} (h : dir.Admits b record)
    (hbudget : (wanted record).size / dir.channels.pageSize < dir.pageBudget) :
    ∃ answer ops,
      (dir.createAttribute (Entity.name record) record).run b = (.ok answer, b.after ops) ∧
      dir.Edited α [(dir.records α).putOp record] (dir.stagedReplace b.store KeyMap.empty record)
        b.store (b.store.after ops) ∧
      ∀ index, (b.store.after ops).indices.contains index =
        (b.store.after [(dir.records α).putOp record]).indices.contains index := by
  obtain ⟨ops, hrun, edited, hindices⟩ := run_createAttribute_of_admits indices shape h
  obtain ⟨answer, hanswer⟩ := h.returns_answer shape.channels edited hbudget
  refine ⟨answer, ops, ?_, edited, hindices⟩
  rw [hrun, hanswer.run_eq, (dir.readOnly_readAttribute _ true).run_snd]

omit [LawfulAttribute α] [LawfulEntity α] in
/-- What is staged for records only depends on the members that they have. -/
theorem foldl_stagedReplace_congr {records : List α}
    (h : ∀ r ∈ records, dir.membersOf α s' (Entity.name r) = dir.membersOf α s (Entity.name r)) :
    records.foldl (dir.stagedReplace s') edits = records.foldl (dir.stagedReplace s) edits := by
  refine List.foldl_ext _ _ _ fun edits r hr => ?_
  rw [stagedReplace, h r hr, stagedReplace]

omit [LawfulAttribute α] [DecidableEq ρ] [LawfulEntity α] in
/-- A record stays admitted while its members stay the same. -/
theorem Admits.of_edited (wf : dir.channels.HoldsOnly Channel.Distinct b.store) {record : α}
    (h : dir.Admits b record) {writes : List Operation}
    (edited : dir.Edited α writes edits b.store (b.store.after ops))
    (hmembers : dir.membersOf α (b.store.after ops) (Entity.name record) =
      dir.membersOf α b.store (Entity.name record)) : dir.Admits (b.after ops) record := by
  refine h.again wf edited ⟨h.lists.available, h.lists.fits, ?_⟩
  change (dir.membersOf α (b.store.after ops) (Entity.name record)).size / _ < _
  rw [hmembers]
  exact h.lists.budget

/-- Records that are admitted can be created one after another. -/
theorem run_each_createAttribute (indices : dir.config.DistinctIndices) {records : List α}
    (ascending : records.Pairwise fun r r' => Entity.name r < Entity.name r')
    (shape : dir.InShape α b.store) (hadmits : ∀ r ∈ records, dir.Admits b r)
    (hbudget : ∀ r ∈ records, (wanted r).size / dir.channels.pageSize < dir.pageBudget) :
    ∃ answers ops,
      (Program.each records fun r => dir.createAttribute (Entity.name r) r).run b =
        (.ok answers, b.after ops) ∧
      dir.Edited α (records.map (dir.records α).putOp)
        (records.foldl (dir.stagedReplace b.store) KeyMap.empty) b.store (b.store.after ops) ∧
      ∀ index, (b.store.after ops).indices.contains index =
        (b.store.after (records.map (dir.records α).putOp)).indices.contains index := by
  induction records generalizing b with
  | nil => exact ⟨[], [], rfl, edited_nil shape, fun _ => rfl⟩
  | cons record records ih =>
    obtain ⟨first, tail⟩ := List.pairwise_cons.mp ascending
    obtain ⟨hrecord, hrest⟩ := List.forall_mem_cons.mp hadmits
    obtain ⟨hsize, hsizes⟩ := List.forall_mem_cons.mp hbudget
    obtain ⟨answer, ops, hrun, edited, hindices⟩ := hrecord.run_createAttribute indices shape hsize
    -- The other records have the members that they had, so they are admitted as before.
    have hothers : ∀ r ∈ records, dir.membersOf α (b.store.after ops) (Entity.name r) =
        dir.membersOf α b.store (Entity.name r) := by
      intro r hr
      rw [membersOf_after_create shape.channels hrecord.valid
        (fun _ _ => hrecord.stored shape.channels) edited,
        if_neg fun heq => String.lt_irrefl _ (heq ▸ first r hr)]
    obtain ⟨answers, ops', hrun', edited', hindices'⟩ := ih (b := b.after ops) tail edited.shape
      (fun r hr => (hrest r hr).of_edited shape.channels edited (hothers r hr)) hsizes
    refine ⟨answer :: answers, ops ++ ops', ?_, ?_, fun index => ?_⟩
    · rw [Program.each, Program.run_bind, hrun]
      change Program.run (_ >>= _) (b.after ops) = _
      rw [Program.run_bind, hrun']
      change (_, (b.after ops).after ops') = _
      rw [Backend.after, Backend.after, Backend.after, Store.after_append]
    · rw [Store.after_append]
      have first' : dir.Edited α ([record].map (dir.records α).putOp) _ _ _ := edited
      refine first'.puts_trans edited' fun c => ?_
      change ChannelEdits.applyTo (records.foldl (dir.stagedReplace b.store) _) c =
        ChannelEdits.applyTo (records.foldl (dir.stagedReplace (b.store.after ops)) _) _
      rw [foldl_stagedReplace_congr hothers]
      exact applyTo_foldl_stagedReplace tail (fun r hr => (hrest r hr).valid)
        (fun r hr => about_stagedReplace (· ≤ Entity.name r) hrecord.valid
          (le_of_text_lt (first r hr)) (about_empty _)) c
    · rw [Store.after_append]
      refine (hindices' index).trans ?_
      change ((b.store.after ops).after _).indices.contains index = _
      rw [Store.contains_after, hindices index, Store.contains_after, Store.contains_after,
        List.map_cons, List.any_cons, List.any_cons, List.any_nil, Bool.or_false, Bool.or_assoc]

/-! ## In one batch -/

omit [Reference ρ] [LawfulAttribute α] [DecidableEq ρ] [LawfulEntity α] in
/-- The records that count are in the order of their names. -/
theorem ascending_values_lastByName (records : List α) :
    (lastByName records).values.Pairwise fun r r' => Entity.name r < Entity.name r' := by
  have hkeys := (lastByName records).keys_ascending
  rwa [← names_values_lastByName, List.pairwise_map] at hkeys

omit [LawfulEntity α] in
/-- After a batch each of its records has the members of its request. -/
theorem membersOf_after_createAll (shape : dir.InShape α b.store) {records : List α}
    {p : EditPlan (List α)} (hplan : (dir.createAllPlan records).Returns b p)
    (edited : dir.Edited α p.ops p.edits b.store s') {record : α}
    (hrecord : record ∈ (lastByName records).values) :
    dir.membersOf α s' (Entity.name record) = wanted record := by
  obtain ⟨hwanted, -, -, staged⟩ := returns_createAllPlan shape hplan
  obtain ⟨name, hget⟩ := KeyMap.mem_values_iff.mp hrecord
  obtain ⟨-, rfl⟩ := get?_lastByName hget
  refine KeyMap.ext_get? fun channel => ?_
  rw [get?_membersOf, edited.refAt?_eq staged, hget]
  intro hnone name
  cases hother : (lastByName records).get? name with
  | none => exact refAt?_eq_none hnone name
  | some other => exact get?_eq_none_of_stored (hwanted name other hother).2 hnone

/-- If the batch is created, creating its records one by one in the order of their names succeeds
and ends in the same store. -/
theorem run_each_of_createAttributes (indices : dir.config.DistinctIndices)
    (shape : dir.InShape α b.store) {records answers : List α} {b' : Backend}
    (h : (dir.createAttributes records).run b = (.ok answers, b')) :
    ∃ answers', (Program.each (lastByName records).values fun r =>
      dir.createAttribute (Entity.name r) r).run b = (.ok answers', b') := by
  rw [createAttributes_eq, editWrite_run_eq_ok_iff] at h
  obtain ⟨p, more, hplan, hmore, -, -, rfl, hanswer⟩ := h
  obtain ⟨hadmits, hp⟩ := (returns_createAllPlan_iff shape.channels).mp hplan
  obtain ⟨-, hops, hread, staged⟩ := returns_createAllPlan shape hplan
  have hedits : p.edits =
      (lastByName records).values.foldl (dir.stagedReplace b.store) KeyMap.empty :=
    congrArg EditPlan.edits hp
  have edited := edited_of_returns_operations indices shape (hops ▸ recordOps_puts _) staged.about
    hmore
  -- The answer has listed the members of every record, so there is budget for each of them.
  have hbudget : ∀ r ∈ (lastByName records).values,
      (wanted r).size / dir.channels.pageSize < dir.pageBudget := by
    intro r hr
    have hname : Entity.name r ∈ (lastByName records).keys := by
      rw [← names_values_lastByName]
      exact List.mem_map_of_mem hr
    rw [hread] at hanswer
    have hlists := lists_of_returns_readAttributes (b := b.after (p.ops ++ more)) edited.shape
      hanswer hname
    rw [← membersOf_after_createAll shape hplan edited hr]
    exact hlists.budget
  obtain ⟨answers', ops, hrun, edited', hindices⟩ := run_each_createAttribute indices
    (ascending_values_lastByName records) shape hadmits hbudget
  refine ⟨answers', ?_⟩
  rw [hops, hedits] at edited
  have hsame : b.store.after ops = b.store.after (p.ops ++ more) := by
    rw [hops]
    refine edited'.unique edited fun index => ?_
    rw [hindices index, Store.contains_after_append_replaces fun op hop =>
      (mem_operations shape.channels hmore hop).1]
  rw [hrun, Backend.after, hsame, Backend.after]

variable [LawfulReference ρ]

/-- A batch with a record that could not be created on its own is refused. -/
theorem createAttributes_refused (indices : dir.config.DistinctIndices)
    (shape : dir.InShape α b.store) {records : List α} {record : α}
    (hrecord : record ∈ (lastByName records).values) {e : Error} {b' : Backend}
    (h : (dir.createAttribute (Entity.name record) record).run b = (.failed e, b')) :
    ∃ outcome, (dir.createAttributes records).run b = (outcome, b) ∧
      (∀ answers, outcome ≠ .ok answers) ∧
      (dir.Ample b.store → ∃ e', outcome = .failed e') := by
  have hnone : ∀ p, ¬(dir.createAllPlan records).Returns b p := by
    intro p hplan
    have hadmits := ((returns_createAllPlan_iff shape.channels).mp hplan).1 record hrecord
    obtain ⟨ops, hrun, edited, -⟩ := run_createAttribute_of_admits indices shape hadmits
    have hthere : ∃ r, ((dir.records α).contents (b.after ops).store).get? (Entity.name record) =
        some r := by
      refine ⟨Entity.stored record, ?_⟩
      change ((dir.records α).contents (b.store.after ops)).get? _ = _
      rw [edited.records, Store.after_cons, Store.after_nil, contents_apply_putOp,
        KeyMap.get?_insert, if_pos rfl]
    have hends : (dir.readAttribute α (Entity.name record) true).EndsIn (b.after ops)
        (fun _ => False) _ :=
      dir.endsIn_readAttribute (b := b.after ops) edited.shape hadmits.lists.available
        hadmits.lists.fits hthere
    rw [hrun] at h
    exact hends.of_failed (congrArg Prod.fst h)
  rcases hrun : (dir.createAttributes records).run b with ⟨outcome, after⟩
  have hsame : after = b := by
    rw [createAttributes_eq] at hrun
    rcases Write.run_cases _ hrun with hsame | ⟨batch, hbatch, -⟩
    · exact hsame
    · obtain ⟨p, hplan, -⟩ := (returns_bind (readOnly_createAllPlan records)).mp hbatch
      exact absurd hplan (hnone p)
  have hne : ∀ answers, outcome ≠ .ok answers := by
    rintro answers rfl
    rw [createAttributes_eq, editWrite_run_eq_ok_iff] at hrun
    obtain ⟨p, -, hplan, -⟩ := hrun
    exact hnone p hplan
  refine ⟨outcome, by rw [hsame], hne, fun hample => ?_⟩
  cases outcome with
  | ok answers => exact absurd rfl (hne answers)
  | failed e' => exact ⟨e', rfl⟩
  | exhausted =>
    have hharmless := attributeProgram_harmless indices shape (.createMany records)
    exact absurd hample ((hharmless _ _ (run_discard_exhausted_iff.mpr hrun)).2 rfl)

/-- Creating records in one batch is creating them one after another : in the order of their
names, the last one of each name. -/
structure GroupsAsEach (dir : Directory) (b : Backend) (records : List α) : Prop where
  same : ∀ answers b', (dir.createAttributes records).run b = (.ok answers, b') →
    ∃ answers', (Program.each (lastByName records).values fun r =>
      dir.createAttribute (Entity.name r) r).run b = (.ok answers', b')
  /-- If one of them would be refused, nothing is done. -/
  refused : ∀ record ∈ (lastByName records).values, ∀ e b',
    (dir.createAttribute (Entity.name record) record).run b = (.failed e, b') →
      ∃ outcome, (dir.createAttributes records).run b = (outcome, b) ∧
        (∀ answers, outcome ≠ .ok answers) ∧
        (dir.Ample b.store → ∃ e', outcome = .failed e')

theorem groupsAsEach (indices : dir.config.DistinctIndices) (shape : dir.InShape α b.store)
    (records : List α) : dir.GroupsAsEach b records where
  same _ _ h := run_each_of_createAttributes indices shape h
  refused _ hrecord _ _ h := createAttributes_refused indices shape hrecord h

/-- Many tags or properties in one batch are created as if one after another, in the order of
their names, and not at all if one of them would be refused on its own. -/
theorem createAttributes_eq_each (dir : Directory) (b : Backend)
    (indices : dir.config.DistinctIndices) (wf : dir.WellFormed b.store) :
    (∀ tags : List Tag, dir.GroupsAsEach b tags) ∧
      ∀ properties : List Property, dir.GroupsAsEach b properties :=
  ⟨groupsAsEach indices wf.tagShape, groupsAsEach indices wf.propertyShape⟩

/-- Two tags of two channels that each have one of them, and one tag twice. -/
def crossedTags : List Tag :=
  [⟨"u", "z", []⟩, ⟨"u", "x", [{ name := "A" }, { name := "B" }]⟩, ⟨"t", "y", [{ name := "A" }]⟩]

/-- Two channels with their tags. -/
def tagOnEach : Backend where
  store := usual.filled [⟨"A", "o", [⟨"u", "w"⟩], []⟩, ⟨"B", "o", [⟨"t", "x"⟩], []⟩]
    [⟨"t", "x", []⟩, ⟨"u", "w", []⟩] []

/-- The two ways to create the tags agree, and a tag that is refused refuses the others. -/
theorem crossedTags_grouped : ∃ answers answers' b',
    (usual.createAttributes crossedTags).run tagOnEach = (.ok answers, b') ∧
      (Program.each (lastByName crossedTags).values fun t =>
        usual.createAttribute t.name t).run tagOnEach = (.ok answers', b') ∧
      ∃ outcome, (usual.createAttributes (⟨"s", "x", [{ name := "C" }]⟩ :: crossedTags)).run
        tagOnEach = (outcome, tagOnEach) ∧ ∃ e, outcome = .failed e := by
  have wf : usual.WellFormed tagOnEach.store :=
    wellFormed_filled distinctIndices_usual (by decide) _ _
  have hok : (usual.createAttributes crossedTags).Returns tagOnEach
      [⟨"t", "y", [⟨"A", "o", [⟨"t", "y"⟩, ⟨"u", "x"⟩], []⟩]⟩,
        ⟨"u", "x", [⟨"A", "o", [⟨"t", "y"⟩, ⟨"u", "x"⟩], []⟩, ⟨"B", "o", [⟨"u", "x"⟩], []⟩]⟩] := by
    unfold Returns
    cbv
  have hrefused : (usual.createAttribute "s" (⟨"s", "x", [{ name := "C" }]⟩ : Tag)).run
      tagOnEach = (.failed (.notFound .channel "C"), tagOnEach) := by cbv
  obtain ⟨answers', hsame⟩ := ((createAttributes_eq_each usual tagOnEach distinctIndices_usual
    wf).1 crossedTags).same _ _ hok.run_eq
  obtain ⟨outcome, hrun, -, hfailed⟩ := ((createAttributes_eq_each usual tagOnEach
    distinctIndices_usual wf).1 (⟨"s", "x", [{ name := "C" }]⟩ :: crossedTags)).refused
      ⟨"s", "x", [{ name := "C" }]⟩ (by decide) _ _ hrefused
  exact ⟨_, answers', _, hok.run_eq, hsame, outcome, hrun, hfailed (by decide)⟩

end Directory

end ChannelDirectory

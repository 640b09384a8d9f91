import ChannelDirectory.Proofs.Directory.BatchEffects
import ChannelDirectory.Proofs.Directory.Members

/-!
# The plans of tags and properties, exactly

A plan reads, checks and stages. On a store in shape it returns exactly if its checks hold and
the memberships that it needs can be read, and what it returns is then determined by the store :
`returns_createPlan_iff` and its likes. The edits are staged record by record, each from the
memberships as they are stored (`Directory.stagedReplace`, `Directory.stagedMerge`).
-/

namespace ChannelDirectory

open Attribute Collection LawfulAttribute Program

namespace Directory

variable {α ρ : Type} [Attribute α ρ] [Reference ρ] [DecidableEq ρ] {dir : Directory} {s : Store}
  {b : Backend} {name : String} {edits edits' : ChannelEdits}

/-- The edits with what makes the channels of a record its only members. -/
def stagedReplace (dir : Directory) (s : Store) (edits : ChannelEdits) (record : α) :
    ChannelEdits :=
  stage α edits (Entity.name record)
    (Delta.replace (dir.membersOf α s (Entity.name record)) (wanted record))

/-- The edits with what adds the channels of a record to its members. -/
def stagedMerge (dir : Directory) (s : Store) (edits : ChannelEdits) (record : α) : ChannelEdits :=
  stage α edits (Entity.name record)
    (Delta.merge (dir.membersOf α s (Entity.name record)) (wanted record))

/-- The edits of an update. -/
def updateEdits (dir : Directory) (s : Store) (name : String) (existing request : α)
    (desired : KeyMap ρ) : ChannelEdits :=
  if updatedName name request = name then
    stage α KeyMap.empty name
      ((Delta.merge (dir.membersOf α s name) desired).refreshOthers (dir.membersOf α s name)
        fun ref => Reference.rebind ref (updatedName name request) (updatedOwner existing request))
  else
    stage α
      ((dir.membersOf α s name).keys.foldl (fun edits channel => removeEdit α edits channel name)
        KeyMap.empty)
      (updatedName name request)
      (Delta.replace (dir.membersOf α s (updatedName name request))
        (renameTarget (updatedName name request) (updatedOwner existing request)
          (dir.membersOf α s name) desired))

/-- A record whose channels exist and whose members are valid and can be read. -/
structure Admits (dir : Directory) (b : Backend) (record : α) : Prop where
  check : (dir.checkRecord record).Returns b ()
  valid : requestedMembers record = .ok (wanted record)
  lists : dir.Lists α b (Entity.name record)

variable [LawfulAttribute α]

/-! ## Creating -/

/-- A replacement is staged exactly if the record is valid and its members can be read ; then the
edits are those that lead to what it wants. -/
theorem returns_stageReplace_iff (wf : dir.channels.HoldsOnly Channel.Distinct b.store)
    {record : α} :
    (dir.stageReplace record edits).Returns b edits' ↔
      requestedMembers record = .ok (wanted record) ∧ dir.Lists α b (Entity.name record) ∧
        edits' = dir.stagedReplace b.store edits record := by
  rw [stageReplace, returns_bind (readOnly_check _)]
  simp only [returns_bind (dir.readOnly_currentMembers _), returns_currentMembers_iff wf, pure_eq,
    returns_done, returns_check]
  constructor
  · rintro ⟨desired, hdesired, _, ⟨hlists, rfl⟩, rfl⟩
    rw [stagedReplace, wanted_eq hdesired]
    exact ⟨hdesired, hlists, rfl⟩
  · rintro ⟨hvalid, hlists, rfl⟩
    exact ⟨_, hvalid, _, ⟨hlists, rfl⟩, rfl⟩

/-- A creation is planned exactly if the record has the name and is admitted. -/
theorem returns_createPlan_iff (wf : dir.channels.HoldsOnly Channel.Distinct b.store) {record : α}
    {p : EditPlan α} :
    (dir.createPlan name record).Returns b p ↔
      Entity.name record = name ∧ dir.Admits b record ∧
        p = ⟨[(dir.records α).putOp record], dir.stagedReplace b.store KeyMap.empty record,
          dir.readAttribute α name true, dir.readOnly_readAttribute name true⟩ := by
  rw [createPlan, returns_bind (readOnly_checkName name record)]
  simp only [returns_bind (dir.readOnly_checkRecord record),
    returns_bind (dir.readOnly_stageReplace record _), returns_stageReplace_iff wf, pure_eq,
    returns_done]
  constructor
  · rintro ⟨_, hname, _, hcheck, _, ⟨hvalid, hlists, rfl⟩, rfl⟩
    exact ⟨returns_checkName_iff.mp hname, ⟨hcheck, hvalid, hlists⟩, rfl⟩
  · rintro ⟨hname, ⟨hcheck, hvalid, hlists⟩, rfl⟩
    exact ⟨(), returns_checkName_iff.mpr hname, (), hcheck, _, ⟨hvalid, hlists, rfl⟩, rfl⟩

/-- Replacements of many records are staged exactly if each of them can be, one after the other. -/
theorem returns_stageReplaceAll_iff (wf : dir.channels.HoldsOnly Channel.Distinct b.store)
    {records : List α} :
    (dir.stageReplaceAll records edits).Returns b edits' ↔
      (∀ r ∈ records, requestedMembers r = .ok (wanted r) ∧ dir.Lists α b (Entity.name r)) ∧
        edits' = records.foldl (dir.stagedReplace b.store) edits := by
  induction records generalizing edits with
  | nil => simp [stageReplaceAll]
  | cons record records ih =>
    rw [stageReplaceAll, returns_bind (dir.readOnly_stageReplace record edits)]
    simp only [returns_stageReplace_iff wf, ih, List.forall_mem_cons, List.foldl_cons]
    constructor
    · rintro ⟨_, ⟨hvalid, hlists, rfl⟩, hrest, rfl⟩
      exact ⟨⟨⟨hvalid, hlists⟩, hrest⟩, rfl⟩
    · rintro ⟨⟨⟨hvalid, hlists⟩, hrest⟩, rfl⟩
      exact ⟨_, ⟨hvalid, hlists, rfl⟩, hrest, rfl⟩

omit [DecidableEq ρ] [LawfulAttribute α] [Reference ρ] in
/-- Records are checked one by one. -/
theorem returns_each_checkRecord_iff {records : List α} :
    (∃ units, (Program.each records dir.checkRecord).Returns b units) ↔
      ∀ r ∈ records, (dir.checkRecord r).Returns b () := by
  constructor
  · rintro ⟨units, hunits⟩ r hr
    obtain ⟨_, hcheck⟩ := exists_of_returns_each dir.readOnly_checkRecord hunits hr
    exact hcheck
  · intro h
    refine ⟨records.map fun _ => (), (returns_each dir.readOnly_checkRecord).mpr ?_⟩
    rw [List.forall₂_map_right_iff]
    exact List.forall₂_same.mpr h

/-- A creation of many records is planned exactly if the last record of each name is admitted. -/
theorem returns_createAllPlan_iff (wf : dir.channels.HoldsOnly Channel.Distinct b.store)
    {records : List α} {p : EditPlan (List α)} :
    (dir.createAllPlan records).Returns b p ↔
      (∀ r ∈ (lastByName records).values, dir.Admits b r) ∧
        p = ⟨(lastByName records).values.map (dir.records α).putOp,
          (lastByName records).values.foldl (dir.stagedReplace b.store) KeyMap.empty,
          dir.readAttributes α (lastByName records).keys,
          dir.readOnly_readAttributes (lastByName records).keys⟩ := by
  rw [createAllPlan, returns_bind (readOnly_each fun r _ => dir.readOnly_checkRecord r)]
  simp only [returns_bind (dir.readOnly_stageReplaceAll _ _), returns_stageReplaceAll_iff wf,
    pure_eq, returns_done]
  constructor
  · rintro ⟨units, hunits, _, ⟨hstaged, rfl⟩, rfl⟩
    have hchecks := returns_each_checkRecord_iff.mp ⟨units, hunits⟩
    exact ⟨fun r hr => ⟨hchecks r hr, (hstaged r hr).1, (hstaged r hr).2⟩, rfl⟩
  · rintro ⟨hadmits, rfl⟩
    obtain ⟨units, hunits⟩ := returns_each_checkRecord_iff.mpr fun r hr => (hadmits r hr).check
    exact ⟨units, hunits, _, ⟨fun r hr => ⟨(hadmits r hr).valid, (hadmits r hr).lists⟩, rfl⟩, rfl⟩

/-! ## Updating -/

/-- A change of name is staged exactly if the members of the new name can be read : the old name is
taken off its members, and the new one leads to what is wanted. -/
theorem returns_stageRename_iff (wf : dir.channels.HoldsOnly Channel.Distinct b.store)
    {newName owner : String} {current desired : KeyMap ρ} :
    (dir.stageRename α name newName owner current desired).Returns b edits ↔
      dir.Lists α b newName ∧
        edits = stage α
          (current.keys.foldl (fun edits channel => removeEdit α edits channel name) KeyMap.empty)
          newName (Delta.replace (dir.membersOf α b.store newName)
            (renameTarget newName owner current desired)) := by
  rw [stageRename, returns_bind (dir.readOnly_currentMembers newName)]
  simp only [returns_currentMembers_iff wf, pure_eq, returns_done]
  constructor
  · rintro ⟨_, ⟨hlists, rfl⟩, rfl⟩
    exact ⟨hlists, rfl⟩
  · rintro ⟨hlists, rfl⟩
    exact ⟨_, ⟨hlists, rfl⟩, rfl⟩

variable [LawfulEntity α]

/-- An update is planned exactly if the record is there and what the request makes of it is
valid. -/
theorem returns_updatePlan_iff (shape : dir.InShape α b.store) {request : α} {p : EditPlan α} :
    (dir.updatePlan name request).Returns b p ↔
      ∃ existing desired, ((dir.records α).contents b.store).get? name = some existing ∧
        (dir.checkRecord (updatedRecord name existing request)).Returns b () ∧
        requestedMembers (updatedRecord name existing request) = .ok desired ∧
        dir.Lists α b name ∧
        (updatedName name request ≠ name → dir.Lists α b (updatedName name request)) ∧
        p = ⟨dir.updateOps name existing request,
          dir.updateEdits b.store name existing request desired,
          dir.readAttribute α (updatedName name request) true,
          dir.readOnly_readAttribute (updatedName name request) true⟩ := by
  rw [updatePlan, returns_bind ((dir.records α).readOnly_require name)]
  simp only [returns_require shape.records, returns_bind (dir.readOnly_checkRecord _),
    returns_bind (readOnly_check _), returns_check, returns_bind (dir.readOnly_currentMembers _),
    returns_currentMembers_iff shape.channels]
  by_cases hrename : updatedName name request ≠ name
  · simp only [if_pos hrename, returns_bind (dir.readOnly_stageRename _ _ _ _ _),
      returns_stageRename_iff shape.channels, pure_eq, returns_done, updateOps, updateEdits,
      if_neg hrename]
    constructor
    · rintro ⟨existing, ⟨-, hget⟩, _, hcheck, desired, hdesired, _, ⟨hlists, rfl⟩, _,
        ⟨hnew, rfl⟩, rfl⟩
      exact ⟨existing, desired, hget, hcheck, hdesired, hlists, fun _ => hnew, rfl⟩
    · rintro ⟨existing, desired, hget, hcheck, hdesired, hlists, hnew, rfl⟩
      exact ⟨existing, ⟨hlists.available, hget⟩, (), hcheck, desired, hdesired, _, ⟨hlists, rfl⟩, _,
        ⟨hnew hrename, rfl⟩, rfl⟩
  · have hsame : updatedName name request = name := not_not.mp hrename
    simp only [if_neg hrename, pure_eq, returns_done, updateOps, updateEdits, if_pos hsame]
    constructor
    · rintro ⟨existing, ⟨-, hget⟩, _, hcheck, desired, hdesired, _, ⟨hlists, rfl⟩, rfl⟩
      exact ⟨existing, desired, hget, hcheck, hdesired, hlists, fun hne => absurd hne hrename, rfl⟩
    · rintro ⟨existing, desired, hget, hcheck, hdesired, hlists, -, rfl⟩
      exact ⟨existing, ⟨hlists.available, hget⟩, (), hcheck, desired, hdesired, _, ⟨hlists, rfl⟩,
        rfl⟩

/-- The writes of records with the one of a record that does not exist yet. -/
def mergeOps (dir : Directory) (s : Store) (ops : List Operation) (record : α) : List Operation :=
  if ((dir.records α).contents s).contains (Entity.name record) then ops
  else ops ++ [(dir.records α).putOp record]

omit [LawfulEntity α] in
/-- A merge is staged exactly if the record is admitted. -/
theorem returns_stageMergeOf_iff (wf : dir.channels.HoldsOnly Channel.Distinct b.store) {record : α}
    {ops : List Operation} {staged : List Operation × ChannelEdits} :
    (dir.stageMergeOf record ops edits).Returns b staged ↔
      dir.Admits b record ∧ staged = (ops, dir.stagedMerge b.store edits record) := by
  rw [stageMergeOf, returns_bind (dir.readOnly_checkRecord record)]
  simp only [returns_bind (readOnly_check _), returns_check,
    returns_bind (dir.readOnly_currentMembers _), returns_currentMembers_iff wf, pure_eq,
    returns_done]
  constructor
  · rintro ⟨_, hcheck, desired, hdesired, _, ⟨hlists, rfl⟩, rfl⟩
    rw [stagedMerge, wanted_eq hdesired]
    exact ⟨⟨hcheck, by rw [wanted_eq hdesired, hdesired], hlists⟩, rfl⟩
  · rintro ⟨⟨hcheck, hvalid, hlists⟩, rfl⟩
    exact ⟨(), hcheck, _, hvalid, _, ⟨hlists, rfl⟩, rfl⟩

/-- The record that an update of many writes about, given what is stored. -/
def mergedIn (dir : Directory) (s : Store) (record : α) : α :=
  merged ((dir.records α).contents s) (Entity.name record) record

/-- A merge is staged exactly if the record is admitted under the identity that it takes from the
stored one. -/
theorem returns_stageMerge_iff (shape : dir.InShape α b.store) {record : α}
    {ops : List Operation} {staged : List Operation × ChannelEdits} :
    (dir.stageMerge (Entity.name record) record (ops, edits)).Returns b staged ↔
      dir.Admits b (dir.mergedIn b.store record) ∧
        staged = (dir.mergeOps b.store ops record,
          dir.stagedMerge b.store edits (dir.mergedIn b.store record)) := by
  rw [← returns_stageMergeOf_iff shape.channels, stageMerge,
    returns_bind ((dir.records α).readOnly_get _)]
  simp only [returns_get shape.records]
  -- What follows the reading of the record is the same program, found or not.
  cases hget : ((dir.records α).contents b.store).get? (Entity.name record) with
  | none =>
    have hmerged : dir.mergedIn b.store record = record := by rw [mergedIn, merged, hget]
    have hops : dir.mergeOps b.store ops record = ops ++ [(dir.records α).putOp record] := by
      rw [mergeOps, KeyMap.contains, hget]
      rfl
    rw [hmerged, hops]
    constructor
    · rintro ⟨_, ⟨-, rfl⟩, h⟩
      exact h
    · intro h
      have hadmits := ((returns_stageMergeOf_iff shape.channels).mp h).1
      exact ⟨none, ⟨hadmits.lists.available, rfl⟩, h⟩
  | some existing =>
    have hmerged : dir.mergedIn b.store record =
        withIdentity record (Entity.name record) (Attribute.owner existing) := by
      rw [mergedIn, merged, hget]
    have hops : dir.mergeOps b.store ops record = ops := by
      rw [mergeOps, KeyMap.contains, hget]
      rfl
    rw [hmerged, hops]
    constructor
    · rintro ⟨_, ⟨-, rfl⟩, h⟩
      rw [stageMergeOf, name_withIdentity]
      exact h
    · intro h
      have hadmits := ((returns_stageMergeOf_iff shape.channels).mp h).1
      rw [stageMergeOf, name_withIdentity] at h
      exact ⟨some existing, ⟨hadmits.lists.available, rfl⟩, h⟩

/-- Merges of many records are staged exactly if each of them can be, one after the other. -/
theorem returns_stageMergeAll_iff (shape : dir.InShape α b.store) {entries : List (String × α)}
    (hnamed : ∀ e ∈ entries, Entity.name e.2 = e.1) {ops : List Operation}
    {staged : List Operation × ChannelEdits} :
    (dir.stageMergeAll entries (ops, edits)).Returns b staged ↔
      (∀ e ∈ entries, dir.Admits b (dir.mergedIn b.store e.2)) ∧
        staged = (entries.foldl (fun ops e => dir.mergeOps b.store ops e.2) ops,
          entries.foldl (fun edits e => dir.stagedMerge b.store edits (dir.mergedIn b.store e.2))
            edits) := by
  induction entries generalizing ops edits with
  | nil => simp [stageMergeAll]
  | cons e entries ih =>
    obtain ⟨name, record⟩ := e
    obtain ⟨hname, hrest⟩ := List.forall_mem_cons.mp hnamed
    obtain rfl : Entity.name record = name := hname
    rw [stageMergeAll, returns_bind (dir.readOnly_stageMerge _ record (ops, edits))]
    simp only [returns_stageMerge_iff shape, List.forall_mem_cons, List.foldl_cons]
    constructor
    · rintro ⟨_, ⟨hadmits, rfl⟩, h⟩
      obtain ⟨hmore, rfl⟩ := (ih hrest).mp h
      exact ⟨⟨hadmits, hmore⟩, rfl⟩
    · rintro ⟨⟨hadmits, hmore⟩, rfl⟩
      exact ⟨_, ⟨hadmits, rfl⟩, (ih hrest).mpr ⟨hmore, rfl⟩⟩

/-- An update of many records is planned exactly if the last record of each name is admitted under
the identity that is stored. -/
theorem returns_updateAllPlan_iff (shape : dir.InShape α b.store) {records : List α}
    {p : EditPlan (List α)} :
    (dir.updateAllPlan records).Returns b p ↔
      (∀ e ∈ (lastByName records).entries, dir.Admits b (dir.mergedIn b.store e.2)) ∧
        p = ⟨(lastByName records).entries.foldl (fun ops e => dir.mergeOps b.store ops e.2) [],
          (lastByName records).entries.foldl
            (fun edits e => dir.stagedMerge b.store edits (dir.mergedIn b.store e.2)) KeyMap.empty,
          dir.readAttributes α (lastByName records).keys,
          dir.readOnly_readAttributes (lastByName records).keys⟩ := by
  have hnamed : ∀ e ∈ (lastByName records).entries, Entity.name e.2 = e.1 := fun e he =>
    (get?_lastByName (KeyMap.get?_eq_some_iff_mem.mpr he)).2
  rw [updateAllPlan, returns_bind (dir.readOnly_stageMergeAll _ _)]
  simp only [returns_stageMergeAll_iff shape hnamed, pure_eq, returns_done]
  constructor
  · rintro ⟨_, ⟨hadmits, rfl⟩, rfl⟩
    exact ⟨hadmits, rfl⟩
  · rintro ⟨hadmits, rfl⟩
    exact ⟨_, ⟨hadmits, rfl⟩, rfl⟩

section Left

variable {s' : Store} {records : List α} {p : EditPlan (List α)}

/-- A record that exists stays, and for each other name the last record of the request is
stored. -/
theorem get?_records_of_updateAllPlan (shape : dir.InShape α b.store)
    (hplan : (dir.updateAllPlan records).Returns b p)
    (edited : dir.Edited α p.ops p.edits b.store s') (name : String) :
    ((dir.records α).contents s').get? name =
      (((dir.records α).contents b.store).get? name).or
        (((lastByName records).get? name).map Entity.stored) := by
  obtain ⟨-, hops, -⟩ := returns_updateAllPlan shape hplan
  rw [edited.records, hops, get?_contents_after_updateAll]

/-- A channel has the reference that the request means for it, or else the one that it had. -/
theorem refAt?_of_updateAllPlan (shape : dir.InShape α b.store)
    (hplan : (dir.updateAllPlan records).Returns b p)
    (edited : dir.Edited α p.ops p.edits b.store s') {name : String} {record : α}
    (hlast : (lastByName records).get? name = some record) (id : String) :
    dir.refAt? α s' id name =
      ((wanted (dir.mergedIn b.store record)).get? id).or (dir.refAt? α b.store id name) := by
  obtain ⟨hok, -, -, staged⟩ := returns_updateAllPlan shape hplan
  obtain ⟨-, rfl⟩ := get?_lastByName hlast
  refine (edited.refAt?_eq staged (fun hnone name' => ?_) _).trans (by rw [hlast]; rfl)
  cases hother : (lastByName records).get? name' with
  | none => exact refAt?_eq_none hnone name'
  | some other =>
    change Option.or _ _ = none
    rw [refAt?_eq_none hnone, get?_eq_none_of_stored (hok name' other hother).2 hnone,
      Option.or_none]

end Left

/-! ## Deleting -/

/-- A deletion is planned exactly if the record is there and its members can be read. -/
theorem returns_removePlan_iff (shape : dir.InShape α b.store) {p : EditPlan Unit} :
    (dir.removePlan α name).Returns b p ↔
      (∃ record, ((dir.records α).contents b.store).get? name = some record) ∧
        dir.Lists α b name ∧
        p = ⟨[(dir.records α).deleteOp name],
          stage α KeyMap.empty name (Delta.strip (dir.membersOf α b.store name)), .done (),
          readOnly_done ()⟩ := by
  rw [removePlan, returns_bind ((dir.records α).readOnly_require name)]
  simp only [returns_require shape.records, returns_bind (dir.readOnly_currentMembers name),
    returns_currentMembers_iff shape.channels, pure_eq, returns_done]
  constructor
  · rintro ⟨record, ⟨-, hget⟩, _, ⟨hlists, rfl⟩, rfl⟩
    exact ⟨⟨record, hget⟩, hlists, rfl⟩
  · rintro ⟨⟨record, hget⟩, hlists, rfl⟩
    exact ⟨record, ⟨hlists.available, hget⟩, _, ⟨hlists, rfl⟩, rfl⟩

/-! ## One channel -/

omit [DecidableEq ρ] [LawfulAttribute α] in
/-- An assignment to one channel is planned exactly if the channel and the record are there and the
request gives one valid reference. -/
theorem returns_addPlan_iff (shape : dir.InShape α b.store) {channel : String} {request : α}
    {p : EditPlan α} :
    (dir.addPlan name channel request).Returns b p ↔
      Entity.name request = name ∧ b.available = true ∧
        (∃ c, (dir.channels.contents b.store).get? channel = some c) ∧
        ∃ record ref, ((dir.records α).contents b.store).get? name = some record ∧
          singleRef record request channel = .ok ref ∧
          p = ⟨[], putEdit α KeyMap.empty channel ref, .done record, readOnly_done record⟩ := by
  rw [addPlan, returns_bind (readOnly_checkName name request)]
  simp only [returns_bind ((dir.records α).readOnly_require name), returns_require shape.records,
    returns_bind (dir.readOnly_checkChannel channel), returns_bind (readOnly_check _), pure_eq,
    returns_done, returns_check]
  constructor
  · rintro ⟨_, hname, record, ⟨havail, hget⟩, _, hchannel, ref, href, rfl⟩
    exact ⟨returns_checkName_iff.mp hname, havail,
      ((returns_checkChannel_iff shape.channels).mp hchannel).2, record, ref, hget, href, rfl⟩
  · rintro ⟨hname, havail, hchannel, record, ref, hget, href, rfl⟩
    exact ⟨(), returns_checkName_iff.mpr hname, record, ⟨havail, hget⟩, (),
      (returns_checkChannel_iff shape.channels).mpr ⟨havail, hchannel⟩, ref, href, rfl⟩

omit [DecidableEq ρ] [LawfulAttribute α] [Reference ρ] in
/-- A record is taken off a channel exactly if both are there. -/
theorem returns_removeFromPlan_iff (shape : dir.InShape α b.store) {channel : String}
    {p : EditPlan Unit} :
    (dir.removeFromPlan α name channel).Returns b p ↔
      b.available = true ∧ (∃ record, ((dir.records α).contents b.store).get? name = some record) ∧
        (∃ c, (dir.channels.contents b.store).get? channel = some c) ∧
        p = ⟨[], removeEdit α KeyMap.empty channel name, .done (), readOnly_done ()⟩ := by
  rw [removeFromPlan, returns_bind ((dir.records α).readOnly_require name)]
  simp only [returns_require shape.records, returns_bind (dir.readOnly_checkChannel channel),
    pure_eq, returns_done]
  constructor
  · rintro ⟨record, ⟨havail, hget⟩, _, hchannel, rfl⟩
    exact ⟨havail, ⟨record, hget⟩, ((returns_checkChannel_iff shape.channels).mp hchannel).2, rfl⟩
  · rintro ⟨havail, ⟨record, hget⟩, hchannel, rfl⟩
    exact ⟨record, ⟨havail, hget⟩, (),
      (returns_checkChannel_iff shape.channels).mpr ⟨havail, hchannel⟩, rfl⟩

end Directory

end ChannelDirectory

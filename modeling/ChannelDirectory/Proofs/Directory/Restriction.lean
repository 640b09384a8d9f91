import ChannelDirectory.Proofs.Directory.Plans
import ChannelDirectory.Proofs.Membership.Restriction

/-!
# Plans without some channels

A store may lose channels, and a request may leave the same channels out. What is planned for the
request on the smaller store is then the plan for the whole request on the whole store, with the
edits of these channels left out (`Directory.createPlan_without` and its likes). The plan of an
update is one of them as long as the record keeps its name.

The smaller store has fewer members to list, so an answer that can be read from the whole store
can be read from it too (`Directory.AnswersWithout`).
-/

namespace ChannelDirectory

open Attribute Collection LawfulAttribute Program

/-! ## Requests -/

/-- What a request means for one of its channels does not depend on the others, and its name and
owner not on any of them. -/
class ChannelwiseAttribute (α : Type) {ρ : outParam Type} [Attribute α ρ] : Prop where
  name_withChannels : ∀ (record : α) (cs : List Channel),
    Entity.name (withChannels record cs) = Entity.name record
  owner_withChannels : ∀ (record : α) (cs : List Channel),
    owner (withChannels record cs) = owner record
  memberRef_withChannels : ∀ (record : α) (cs : List Channel) (c : Channel),
    memberRef (withChannels record cs) c = memberRef record c
  channels_withIdentity : ∀ (record : α) (name owner : String),
    channels (withIdentity record name owner) = channels record
  withIdentity_withChannels : ∀ (record : α) (cs : List Channel) (name owner : String),
    withIdentity (withChannels record cs) name owner =
      withChannels (withIdentity record name owner) cs

instance : ChannelwiseAttribute Tag where
  name_withChannels _ _ := rfl
  owner_withChannels _ _ := rfl
  memberRef_withChannels _ _ _ := rfl
  channels_withIdentity _ _ _ := rfl
  withIdentity_withChannels _ _ _ _ := rfl

instance : ChannelwiseAttribute Property where
  name_withChannels _ _ := rfl
  owner_withChannels _ _ := rfl
  memberRef_withChannels _ _ _ := rfl
  channels_withIdentity _ _ _ := rfl
  withIdentity_withChannels _ _ _ _ := rfl

open ChannelwiseAttribute

/-- Checking a part of some items gives the values of this part. -/
theorem mapM_filter_eq_ok {α β ε : Type} {f : α → Except ε β} {keep : α → Bool} {keep' : β → Bool}
    (hkeep : ∀ item value, f item = .ok value → keep' value = keep item) {items : List α}
    {values : List β} (h : items.mapM f = .ok values) :
    (items.filter keep).mapM f = .ok (values.filter keep') := by
  have hall := mapM_eq_ok_iff.mp h
  clear h
  refine mapM_eq_ok_iff.mpr ?_
  induction hall with
  | nil => exact .nil
  | cons hitem _ ih =>
    rw [List.filter_cons, List.filter_cons, hkeep _ _ hitem]
    split
    · exact .cons hitem ih
    · exact ih

section Requests

variable {α ρ : Type} [Attribute α ρ] [Reference ρ] [LawfulAttribute α] [ChannelwiseAttribute α]
  {gone : KeySet}

/-- The request without the channels of a set. -/
def Attribute.dropChannels {α ρ : Type} [Attribute α ρ] (gone : KeySet) (record : α) : α :=
  withChannels record ((channels record).filter fun c => !gone.contains c.name)

omit [Reference ρ] [LawfulAttribute α] in
@[simp]
theorem name_dropChannels (record : α) :
    Entity.name (dropChannels gone record) = Entity.name record :=
  name_withChannels record _

omit [Reference ρ] [LawfulAttribute α] in
@[simp]
theorem owner_dropChannels (record : α) : owner (dropChannels gone record) = owner record :=
  owner_withChannels record _

omit [ChannelwiseAttribute α] in
/-- A restricted record lists the channels that are left. -/
theorem channels_dropChannels (record : α) :
    channels (dropChannels gone record) =
      (channels record).filter fun c => !gone.contains c.name :=
  channels_withChannels record _

omit [Reference ρ] [LawfulAttribute α] in
theorem withIdentity_dropChannels (record : α) (name owner : String) :
    withIdentity (dropChannels gone record) name owner =
      dropChannels gone (withIdentity record name owner) := by
  rw [dropChannels, withIdentity_withChannels, dropChannels, channels_withIdentity]

omit [Reference ρ] [LawfulAttribute α] in
theorem validate_dropChannels (record : α) :
    Attribute.validate (dropChannels gone record) = Attribute.validate record := by
  rw [Attribute.validate, name_dropChannels, owner_dropChannels, Attribute.validate]

theorem putOp_dropChannels (c : Collection α) (record : α) :
    c.putOp (dropChannels gone record) = c.putOp record := by
  rw [putOp, putOp, name_dropChannels, toDocument_eq, toDocument_eq, name_dropChannels,
    owner_dropChannels]

/-- The members that are asked for are those of the channels that are left. -/
theorem requestedMembers_dropChannels {record : α} {desired : KeyMap ρ}
    (h : requestedMembers record = .ok desired) :
    requestedMembers (dropChannels gone record) = .ok (desired.without gone) := by
  unfold requestedMembers at h ⊢
  cases hmembers : (channels record).mapM fun c =>
      (fun ref => (c.name, ref)) <$> memberRef record c with
  | error e =>
    rw [hmembers] at h
    cases h
  | ok members =>
    rw [hmembers] at h
    obtain rfl : KeyMap.ofList members = desired := Except.ok.inj h
    have hkeep : ∀ (c : Channel) (e : String × ρ),
        (fun ref => (c.name, ref)) <$> memberRef record c = .ok e →
          (!gone.contains e.1) = !gone.contains c.name := by
      intro c e he
      cases href : memberRef record c with
      | error e' =>
        rw [href] at he
        cases he
      | ok ref =>
        rw [href] at he
        rw [← Except.ok.inj he]
    have hleft : ((channels record).filter fun c => !gone.contains c.name).mapM
          (fun c => (fun ref => (c.name, ref)) <$> memberRef record c) =
        .ok (members.filter fun e => !gone.contains e.1) :=
      mapM_filter_eq_ok hkeep hmembers
    have hrefs : ∀ c, memberRef (dropChannels gone record) c = memberRef record c :=
      memberRef_withChannels record _
    simp only [hrefs]
    rw [channels_dropChannels, hleft, KeyMap.without_ofList]
    rfl

/-- A restricted record wants what it wanted of the channels that are left. -/
theorem wanted_dropChannels {record : α}
    (h : requestedMembers record = .ok (Directory.wanted record)) :
    Directory.wanted (dropChannels gone record) = (Directory.wanted record).without gone :=
  Directory.wanted_eq (requestedMembers_dropChannels h)

omit [Reference ρ] [LawfulAttribute α] in
/-- Restricting records does not change which of them count. -/
theorem lastByName_dropChannels (records : List α) :
    lastByName (records.map (dropChannels gone)) =
      (lastByName records).mapValues fun _ record => dropChannels gone record := by
  refine KeyMap.ext_get? fun name => ?_
  rw [KeyMap.get?_mapValues, lastByName, lastByName, List.map_map]
  induction records with
  | nil => rfl
  | cons record records ih =>
    rw [List.map_cons, List.map_cons, KeyMap.get?_ofList_cons, KeyMap.get?_ofList_cons, ih,
      Option.map_or]
    congr 1
    change (if name = Entity.name (dropChannels gone record) then _ else _) = Option.map _ _
    rw [name_dropChannels]
    split <;> rfl

end Requests

/-! ## Stores -/

namespace Collection

variable {α : Type} [Entity α] (c : Collection α)

/-- After some deletions the documents of these names are gone and the others are as they were. -/
theorem get?_contents_after_deletes (s : Store) (names : List String) (id : String) :
    (c.contents (s.after (names.map c.deleteOp))).get? id =
      if id ∈ names then none else (c.contents s).get? id := by
  induction names generalizing s with
  | nil => simp
  | cons name names ih =>
    rw [List.map_cons, Store.after_cons, ih, contents_apply_deleteOp, KeyMap.get?_erase]
    by_cases h : id = name <;> simp [h]

/-- Deleting names takes them out of the contents. -/
theorem contents_after_deletes (s : Store) (gone : KeySet) :
    c.contents (s.after (gone.keys.map c.deleteOp)) = (c.contents s).without gone := by
  refine KeyMap.ext_get? fun id => ?_
  rw [c.get?_contents_after_deletes, KeyMap.get?_without]
  exact if_congr (KeyMap.mem_keys_iff.trans KeyMap.contains_iff.symm) rfl rfl

end Collection

namespace Directory

variable {α ρ : Type} [Attribute α ρ] {dir : Directory} {gone : KeySet} {b : Backend}
  {s s' : Store} {name : String}

/-- The store has lost the channels of a set, and no records. -/
structure Without (dir : Directory) (α : Type) {ρ : Type} [Attribute α ρ] (gone : KeySet)
    (s s' : Store) : Prop where
  shape : dir.InShape α s'
  channels : dir.channels.contents s' = (dir.channels.contents s).without gone
  records : (dir.records α).contents s' = (dir.records α).contents s

/-- The deletions of the channels of a set. -/
def deletions (dir : Directory) (gone : KeySet) : List Operation :=
  gone.keys.map dir.channels.deleteOp

theorem mem_deletions {op : Operation} (h : op ∈ dir.deletions gone) :
    ∃ id, op = dir.channels.deleteOp id := by
  obtain ⟨id, -, rfl⟩ := List.mem_map.mp h
  exact ⟨id, rfl⟩

/-- Deleting channels leaves the other indices as they are. -/
theorem documents_after_deletions {index : String} (h : index ≠ dir.config.channelIndex) :
    (s.after (dir.deletions gone)).documents index = s.documents index := by
  refine Store.documents_after_of_index_ne s fun op hop => ?_
  obtain ⟨id, rfl⟩ := mem_deletions hop
  exact Ne.symm h

variable [Reference ρ] [LawfulAttribute α]

/-- After the deletions the directory is the old one without these channels. -/
theorem without_after_deletions (indices : dir.config.DistinctIndices) (shape : dir.InShape α s) :
    dir.Without α gone s (s.after (dir.deletions gone)) := by
  have hrecords : (s.after (dir.deletions gone)).documents (dir.records α).index =
      s.documents (dir.records α).index := documents_after_deletions (index_ne indices)
  refine ⟨⟨shape.channels.after fun op hop => ?_, shape.records.congr hrecords⟩,
    dir.channels.contents_after_deletes s gone, contents_congr hrecords⟩
  obtain ⟨id, rfl⟩ := mem_deletions hop
  exact writesOnly_deleteOp id

/-! ## Reads -/

omit [LawfulAttribute α] in
/-- The members of a name are those that are left. -/
theorem Without.membersOf_eq (h : dir.Without α gone s s') (name : String) :
    dir.membersOf α s' name = (dir.membersOf α s name).without gone := by
  rw [membersOf, h.channels, membersOf, KeyMap.without_filterMap]

omit [LawfulAttribute α] in
/-- Members that can be listed can be listed without some channels : the pages become fewer. -/
theorem Lists.without (h : dir.Lists α b name) (lost : dir.Without α gone b.store s') :
    dir.Lists α { b with store := s' } name where
  available := h.available
  fits := h.fits
  budget := by
    change (dir.membersOf α s' name).size / _ < _
    rw [lost.membersOf_eq]
    exact (Nat.div_le_div_right (KeyMap.size_without_le _)).trans_lt h.budget

variable [ChannelwiseAttribute α]

/-- A record that passes passes when it is restricted to what is left. -/
theorem returns_checkRecord_without (wf : dir.channels.HoldsOnly Channel.Distinct b.store)
    (lost : dir.Without α gone b.store s') {record : α}
    (h : (dir.checkRecord record).Returns b ()) :
    (dir.checkRecord (dropChannels gone record)).Returns { b with store := s' } () := by
  obtain ⟨hvalid, havail, hstored⟩ := (returns_checkRecord_iff wf).mp h
  refine (returns_checkRecord_iff (b := { b with store := s' }) lost.shape.channels).mpr
    ⟨by rwa [validate_dropChannels], ?_, ?_⟩
  · rw [channels_dropChannels]
    exact havail.imp (fun hnil => by rw [hnil]; rfl) id
  · intro c hc
    rw [channels_dropChannels, List.mem_filter] at hc
    obtain ⟨stored, hget⟩ := hstored c hc.1
    have hleft : gone.contains c.name = false := by simpa using hc.2
    refine ⟨stored, ?_⟩
    change (dir.channels.contents s').get? c.name = some stored
    rw [lost.channels, KeyMap.get?_without_of_not hleft, hget]

/-- A record that is admitted is admitted when it is restricted to what is left. -/
theorem Admits.without (wf : dir.channels.HoldsOnly Channel.Distinct b.store) {record : α}
    (h : dir.Admits b record) (lost : dir.Without α gone b.store s') :
    dir.Admits { b with store := s' } (dropChannels gone record) where
  check := returns_checkRecord_without wf lost h.check
  valid := by
    rw [requestedMembers_dropChannels h.valid, wanted_dropChannels h.valid]
  lists := by
    rw [name_dropChannels]
    exact h.lists.without lost

/-! ## Staging -/

variable [DecidableEq ρ]

/-- The edits of a restricted replacement are those of the replacement on the channels that are
left. -/
theorem stagedReplace_without (edits : ChannelEdits) {record : α}
    (hvalid : requestedMembers record = .ok (wanted record)) (lost : dir.Without α gone s s') :
    dir.stagedReplace s' (edits.without gone) (dropChannels gone record) =
      (dir.stagedReplace s edits record).without gone := by
  rw [stagedReplace, name_dropChannels, lost.membersOf_eq, wanted_dropChannels hvalid,
    ← Delta.without_replace, ← ChannelEdits.without_stage, stagedReplace]

/-- The edits of a restricted merge are those of the merge on the channels that are left. -/
theorem stagedMerge_without (edits : ChannelEdits) {record : α}
    (hvalid : requestedMembers record = .ok (wanted record)) (lost : dir.Without α gone s s') :
    dir.stagedMerge s' (edits.without gone) (dropChannels gone record) =
      (dir.stagedMerge s edits record).without gone := by
  rw [stagedMerge, name_dropChannels, lost.membersOf_eq, wanted_dropChannels hvalid,
    ← Delta.without_merge, ← ChannelEdits.without_stage, stagedMerge]

/-- The edits of many restricted replacements are those of the replacements on the channels that are
left. -/
theorem foldl_stagedReplace_without (edits : ChannelEdits) {records : List α}
    (hvalid : ∀ r ∈ records, requestedMembers r = .ok (wanted r))
    (lost : dir.Without α gone s s') :
    (records.map (dropChannels gone)).foldl (dir.stagedReplace s') (edits.without gone) =
      (records.foldl (dir.stagedReplace s) edits).without gone := by
  induction records generalizing edits with
  | nil => rfl
  | cons record records ih =>
    obtain ⟨hrecord, hrest⟩ := List.forall_mem_cons.mp hvalid
    rw [List.map_cons, List.foldl_cons, stagedReplace_without edits hrecord lost, ih _ hrest,
      List.foldl_cons]

end Directory

/-! ## Plans -/

/-- The plan without the edits of the channels of a set. -/
def EditPlan.without {β : Type} (p : EditPlan β) (gone : KeySet) : EditPlan β :=
  { p with edits := p.edits.without gone }

namespace Directory

variable {α ρ : Type} [Attribute α ρ] [Reference ρ] [LawfulAttribute α] [ChannelwiseAttribute α]
  [DecidableEq ρ] {dir : Directory} {gone : KeySet} {b : Backend} {s' : Store} {name : String}

/-- The plan of a restricted creation is the restricted plan. -/
theorem createPlan_without (wf : dir.channels.HoldsOnly Channel.Distinct b.store)
    (lost : dir.Without α gone b.store s') {record : α} {p : EditPlan α}
    (h : (dir.createPlan name record).Returns b p) :
    (dir.createPlan name (dropChannels gone record)).Returns { b with store := s' }
      (p.without gone) := by
  obtain ⟨hname, hadmits, rfl⟩ := (returns_createPlan_iff wf).mp h
  refine (returns_createPlan_iff (b := { b with store := s' }) lost.shape.channels).mpr
    ⟨by rwa [name_dropChannels], hadmits.without wf lost, ?_⟩
  have hstaged := stagedReplace_without KeyMap.empty hadmits.valid lost
  rw [KeyMap.without_empty] at hstaged
  rw [EditPlan.without, putOp_dropChannels, hstaged]

/-- The plan of a restricted creation of many records is the restricted plan. -/
theorem createAllPlan_without (wf : dir.channels.HoldsOnly Channel.Distinct b.store)
    (lost : dir.Without α gone b.store s') {records : List α} {p : EditPlan (List α)}
    (h : (dir.createAllPlan records).Returns b p) :
    (dir.createAllPlan (records.map (dropChannels gone))).Returns { b with store := s' }
      (p.without gone) := by
  obtain ⟨hadmits, rfl⟩ := (returns_createAllPlan_iff wf).mp h
  have hvalues : (lastByName (records.map (dropChannels gone))).values =
      (lastByName records).values.map (dropChannels gone) := by
    rw [lastByName_dropChannels, KeyMap.values, KeyMap.mapValues, List.map_map, KeyMap.values,
      List.map_map]
    rfl
  have hkeys : (lastByName (records.map (dropChannels gone))).keys = (lastByName records).keys := by
    rw [lastByName_dropChannels, KeyMap.keys_mapValues]
  refine (returns_createAllPlan_iff (b := { b with store := s' }) lost.shape.channels).mpr ⟨?_, ?_⟩
  · intro r hr
    rw [hvalues] at hr
    obtain ⟨record, hrecord, rfl⟩ := List.mem_map.mp hr
    exact (hadmits record hrecord).without wf lost
  · have hvalid : ∀ r ∈ (lastByName records).values, requestedMembers r = .ok (wanted r) :=
      fun r hr => (hadmits r hr).valid
    have hops : (lastByName (records.map (dropChannels gone))).values.map (dir.records α).putOp =
        (lastByName records).values.map (dir.records α).putOp := by
      rw [hvalues, List.map_map]
      exact List.map_congr_left fun record _ => putOp_dropChannels (dir.records α) record
    have hedits := foldl_stagedReplace_without KeyMap.empty hvalid lost
    rw [KeyMap.without_empty, ← hvalues] at hedits
    simp only [EditPlan.without, hops, hkeys]
    rw [hedits]

section Updates

omit [Reference ρ] [LawfulAttribute α] [DecidableEq ρ] in
theorem updatedName_dropChannels (name : String) (request : α) :
    updatedName name (dropChannels gone request) = updatedName name request := by
  rw [updatedName, name_dropChannels, updatedName]

omit [Reference ρ] [LawfulAttribute α] [DecidableEq ρ] in
theorem updatedOwner_dropChannels (existing request : α) :
    updatedOwner existing (dropChannels gone request) = updatedOwner existing request := by
  rw [updatedOwner, owner_dropChannels, updatedOwner]

omit [Reference ρ] [LawfulAttribute α] [DecidableEq ρ] in
theorem updatedRecord_dropChannels (name : String) (existing request : α) :
    updatedRecord name existing (dropChannels gone request) =
      dropChannels gone (updatedRecord name existing request) := by
  rw [updatedRecord, updatedName_dropChannels, updatedOwner_dropChannels, withIdentity_dropChannels,
    updatedRecord]

omit [DecidableEq ρ] in
theorem updateOps_dropChannels (name : String) (existing request : α) :
    dir.updateOps name existing (dropChannels gone request) =
      dir.updateOps name existing request := by
  rw [updateOps, updatedName_dropChannels, updatedRecord_dropChannels, putOp_dropChannels,
    updateOps]

omit [LawfulAttribute α] in
/-- Under its name a record keeps its members, and those that are left are brought up to date. -/
theorem updateEdits_without (lost : dir.Without α gone b.store s') {existing request : α}
    (hname : updatedName name request = name) (desired : KeyMap ρ) :
    dir.updateEdits s' name existing (dropChannels gone request) (desired.without gone) =
      (dir.updateEdits b.store name existing request desired).without gone := by
  rw [updateEdits, updatedName_dropChannels, updatedOwner_dropChannels, if_pos hname,
    lost.membersOf_eq, ← Delta.without_merge, ← Delta.without_refreshOthers, updateEdits,
    if_pos hname, ChannelEdits.without_stage, KeyMap.without_empty]

variable [LawfulEntity α]

/-- The plan of a restricted update in place is the restricted plan. -/
theorem updatePlan_without (shape : dir.InShape α b.store) (lost : dir.Without α gone b.store s')
    {request : α} (hname : updatedName name request = name) {p : EditPlan α}
    (h : (dir.updatePlan name request).Returns b p) :
    (dir.updatePlan name (dropChannels gone request)).Returns { b with store := s' }
      (p.without gone) := by
  obtain ⟨existing, desired, hget, hcheck, hdesired, hlists, -, rfl⟩ :=
    (returns_updatePlan_iff shape).mp h
  refine (returns_updatePlan_iff (b := { b with store := s' }) lost.shape).mpr
    ⟨existing, desired.without gone, ?_, ?_, ?_, hlists.without lost, fun hne => ?_, ?_⟩
  · change ((dir.records α).contents s').get? name = some existing
    rw [lost.records, hget]
  · rw [updatedRecord_dropChannels]
    exact returns_checkRecord_without shape.channels lost hcheck
  · rw [updatedRecord_dropChannels]
    exact requestedMembers_dropChannels hdesired
  · rw [updatedName_dropChannels] at hne
    exact absurd hname hne
  · simp only [EditPlan.without, updateOps_dropChannels, updateEdits_without lost hname,
      updatedName_dropChannels]

omit [Reference ρ] [DecidableEq ρ] [LawfulEntity α] [LawfulAttribute α] in
theorem mergedIn_dropChannels (lost : dir.Without α gone b.store s') (record : α) :
    dir.mergedIn s' (dropChannels gone record) =
      dropChannels gone (dir.mergedIn b.store record) := by
  rw [mergedIn, merged, lost.records, name_dropChannels, mergedIn, merged]
  cases ((dir.records α).contents b.store).get? (Entity.name record) with
  | none => rfl
  | some existing => exact withIdentity_dropChannels record _ _

omit [DecidableEq ρ] [LawfulEntity α] in
theorem mergeOps_dropChannels (lost : dir.Without α gone b.store s') (ops : List Operation)
    (record : α) :
    dir.mergeOps s' ops (dropChannels gone record) = dir.mergeOps b.store ops record := by
  rw [mergeOps, lost.records, name_dropChannels, putOp_dropChannels, mergeOps]

omit [LawfulEntity α] in
/-- The edits of many restricted merges are those of the merges on the channels that are left. -/
theorem foldl_stagedMerge_without (edits : ChannelEdits) {entries : List (String × α)}
    (hvalid : ∀ e ∈ entries,
      requestedMembers (dir.mergedIn b.store e.2) = .ok (wanted (dir.mergedIn b.store e.2)))
    (lost : dir.Without α gone b.store s') :
    entries.foldl (fun edits e =>
        dir.stagedMerge s' edits (dropChannels gone (dir.mergedIn b.store e.2)))
        (edits.without gone) =
      (entries.foldl (fun edits e => dir.stagedMerge b.store edits (dir.mergedIn b.store e.2))
        edits).without gone := by
  induction entries generalizing edits with
  | nil => rfl
  | cons e entries ih =>
    obtain ⟨hfirst, hrest⟩ := List.forall_mem_cons.mp hvalid
    rw [List.foldl_cons, stagedMerge_without edits hfirst lost, ih _ hrest, List.foldl_cons]

/-- The plan of a restricted update of many records is the restricted plan. -/
theorem updateAllPlan_without (shape : dir.InShape α b.store)
    (lost : dir.Without α gone b.store s') {records : List α} {p : EditPlan (List α)}
    (h : (dir.updateAllPlan records).Returns b p) :
    (dir.updateAllPlan (records.map (dropChannels gone))).Returns { b with store := s' }
      (p.without gone) := by
  obtain ⟨hadmits, rfl⟩ := (returns_updateAllPlan_iff shape).mp h
  have hentries : (lastByName (records.map (dropChannels gone))).entries =
      (lastByName records).entries.map fun e => (e.1, dropChannels gone e.2) := by
    rw [lastByName_dropChannels]
    rfl
  have hkeys : (lastByName (records.map (dropChannels gone))).keys = (lastByName records).keys := by
    rw [lastByName_dropChannels, KeyMap.keys_mapValues]
  refine (returns_updateAllPlan_iff (b := { b with store := s' }) lost.shape).mpr ⟨?_, ?_⟩
  · intro e he
    rw [hentries] at he
    obtain ⟨entry, hentry, rfl⟩ := List.mem_map.mp he
    change dir.Admits _ (dir.mergedIn s' (dropChannels gone entry.2))
    rw [mergedIn_dropChannels lost]
    exact (hadmits entry hentry).without shape.channels lost
  · have hstaged := foldl_stagedMerge_without KeyMap.empty
      (fun e he => (hadmits e he).valid) lost
    rw [KeyMap.without_empty] at hstaged
    simp only [EditPlan.without, hkeys, hentries, List.foldl_map, mergedIn_dropChannels lost,
      mergeOps_dropChannels lost, hstaged]

omit [ChannelwiseAttribute α] in
/-- The plan of a deletion is restricted with the store. -/
theorem removePlan_without (shape : dir.InShape α b.store) (lost : dir.Without α gone b.store s')
    {p : EditPlan Unit} (h : (dir.removePlan α name).Returns b p) :
    (dir.removePlan α name).Returns { b with store := s' } (p.without gone) := by
  obtain ⟨⟨record, hget⟩, hlists, rfl⟩ := (returns_removePlan_iff shape).mp h
  refine (returns_removePlan_iff (b := { b with store := s' }) lost.shape).mpr
    ⟨⟨record, ?_⟩, hlists.without lost, ?_⟩
  · change ((dir.records α).contents s').get? name = some record
    rw [lost.records, hget]
  · rw [EditPlan.without]
    simp only [ChannelEdits.without_stage, KeyMap.without_empty, Delta.without_strip,
      lost.membersOf_eq]

end Updates

/-! ## Stores after a plan -/

omit [Reference ρ] [LawfulAttribute α] [ChannelwiseAttribute α] [DecidableEq ρ] in
/-- A plan does to a store without some channels what it does to the store, as far as it is
about the channels that are left. -/
theorem Edited.without [LawfulEntity α] {ops : List Operation} {edits : ChannelEdits}
    {s s₁ s₁' : Store} (edited : dir.Edited α ops edits s s₁) (shape : dir.InShape α s)
    (lost : dir.Without α gone s s') (edited' : dir.Edited α ops (edits.without gone) s' s₁') :
    dir.Without α gone s₁ s₁' where
  shape := edited'.shape
  channels := by
    rw [edited'.channels, lost.channels, ChannelEdits.mapValues_applyTo_without
      fun _ _ => shape.channels.name_eq, edited.channels]
  records := by
    have hbefore : s'.documents (dir.records α).index = s.documents (dir.records α).index := by
      rw [lost.shape.records.documents_eq, lost.records, shape.records.documents_eq]
    rw [edited'.records, edited.records]
    exact contents_congr (Store.documents_after_congr hbefore ops)

/-! ## Answers -/

section Answers

/-- An answer that can be read from a store can be read without the channels of a set. -/
def AnswersWithout {β : Type} (dir : Directory) (α : Type) {ρ : Type} [Attribute α ρ]
    (gone : KeySet) (b : Backend) (answer : Program β) : Prop :=
  ∀ s s' value, dir.InShape α s → dir.Without α gone s s' →
    answer.Returns { b with store := s } value →
      ∃ value', answer.Returns { b with store := s' } value'

omit [Reference ρ] [LawfulAttribute α] [ChannelwiseAttribute α] [DecidableEq ρ] in
theorem answersWithout_done {β : Type} (value : β) :
    dir.AnswersWithout α gone b (.done value) :=
  fun _ _ _ _ _ _ => ⟨value, returns_done.mpr rfl⟩

variable [LawfulEntity α]

omit [ChannelwiseAttribute α] [DecidableEq ρ] in
/-- A record that is read with its members is read without some of them. -/
theorem answersWithout_readAttribute (name : String) :
    dir.AnswersWithout α gone b (dir.readAttribute α name true) := by
  intro s s' value shape lost h
  obtain ⟨hlists, record, hget, -⟩ :=
    (returns_readAttribute_iff (b := { b with store := s }) shape).mp h
  refine ⟨_, (returns_readAttribute_iff (b := { b with store := s' }) lost.shape).mpr
    ⟨hlists.without lost, record, ?_, rfl⟩⟩
  change ((dir.records α).contents s').get? name = some record
  rw [lost.records]
  exact hget

omit [ChannelwiseAttribute α] [DecidableEq ρ] in
/-- Records that are read with their members are read without some of them. -/
theorem answersWithout_readAttributes (names : List String) :
    dir.AnswersWithout α gone b (dir.readAttributes α names) := by
  intro s s' values shape lost h
  have hread := fun name => dir.readOnly_readAttribute (α := α) name true
  have hall := (returns_each hread).mp h
  clear h
  have hleft : ∃ values', List.Forall₂
      (fun name value => (dir.readAttribute α name true).Returns { b with store := s' } value)
      names values' := by
    induction hall with
    | nil => exact ⟨[], .nil⟩
    | cons hfirst _ ih =>
      obtain ⟨value', hvalue⟩ := answersWithout_readAttribute _ s s' _ shape lost hfirst
      obtain ⟨values', hvalues⟩ := ih
      exact ⟨value' :: values', .cons hvalue hvalues⟩
  obtain ⟨values', hvalues⟩ := hleft
  exact ⟨values', (returns_each hread).mpr hvalues⟩

end Answers

end Directory

end ChannelDirectory

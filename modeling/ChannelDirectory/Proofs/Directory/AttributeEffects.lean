import ChannelDirectory.Proofs.Directory.AttributePlans

/-!
# What the writes of one tag or property plan

On a store in shape each plan is described by what it has checked, by its writes of records,
and by the references that its edits lead to : `returns_createPlan` for the plan of
`createAttribute`, and so on.
-/

namespace ChannelDirectory

open Attribute Collection LawfulAttribute Program

namespace Directory

variable {α ρ : Type} [Attribute α ρ] [Reference ρ] {dir : Directory} {b : Backend}
  {names : String → Prop} {edits edits' : ChannelEdits} {after : String → String → Option ρ}

/-- The members under the new name of a record : those asked for, else those it had. -/
def renamed (newName owner : String) (old : Option ρ) (desired : KeyMap ρ) (channel : String) :
    Option ρ :=
  if desired.isEmpty then old.map fun ref => Reference.rebind ref newName owner
  else desired.get? channel

/-- The members that a rename writes. -/
def renameTarget (newName owner : String) (current desired : KeyMap ρ) : KeyMap ρ :=
  if desired.isEmpty then current.mapValues fun _ ref => Reference.rebind ref newName owner
  else desired

/-- What a rename writes for a channel. -/
theorem get?_renameTarget (newName owner : String) (current desired : KeyMap ρ)
    (channel : String) :
    (renameTarget newName owner current desired).get? channel =
      renamed newName owner (current.get? channel) desired channel := by
  unfold renameTarget renamed
  split
  · exact KeyMap.get?_mapValues current _ channel
  · rfl

/-- Every member of a renamed record carries the new name. -/
theorem name_of_renamed [LawfulReference ρ] {newName owner : String} {old : Option ρ}
    {desired : KeyMap ρ}
    (hdesired : ∀ channel ref, desired.get? channel = some ref → Reference.name ref = newName)
    {channel : String} {ref : ρ} (h : renamed newName owner old desired channel = some ref) :
    Reference.name ref = newName := by
  unfold renamed at h
  split at h
  · obtain ⟨ref', -, rfl⟩ := Option.map_eq_some_iff.mp h
    exact LawfulReference.name_rebind ref' newName owner
  · exact hdesired channel ref h

/-- Every member of a renamed record carries the new owner. -/
theorem owner_of_renamed [LawfulReference ρ] {newName owner : String} {old : Option ρ}
    {desired : KeyMap ρ}
    (hdesired : ∀ channel ref, desired.get? channel = some ref → Reference.owner ref = owner)
    {channel : String} {ref : ρ} (h : renamed newName owner old desired channel = some ref) :
    Reference.owner ref = owner := by
  unfold renamed at h
  split at h
  · obtain ⟨ref', -, rfl⟩ := Option.map_eq_some_iff.mp h
    exact LawfulReference.owner_rebind ref' newName owner
  · exact hdesired channel ref h

variable [LawfulAttribute α]

/-- Channels that a checked record asks for are stored. -/
theorem exists_stored_of_requested {s : Store} {record : α} {desired : KeyMap ρ}
    (hchannels : ∀ c ∈ Attribute.channels record,
      ∃ stored, (dir.channels.contents s).get? c.name = some stored)
    (h : requestedMembers record = .ok desired) {channel : String} {ref : ρ}
    (href : desired.get? channel = some ref) :
    ∃ c, (dir.channels.contents s).get? channel = some c := by
  obtain ⟨⟨c, hc, rfl⟩, -⟩ := requestedMembers_ok h href
  exact hchannels c hc

/-- What an update asks for has the new name and the new owner of the record. -/
theorem identity_of_requested {name : String} {existing request : α} {desired : KeyMap ρ}
    (h : requestedMembers (updatedRecord name existing request) = .ok desired) {channel : String}
    {ref : ρ} (href : desired.get? channel = some ref) :
    Reference.name ref = updatedName name request ∧
      Reference.owner ref = updatedOwner existing request := by
  obtain ⟨-, hname, howner⟩ := requestedMembers_ok h href
  rw [updatedRecord, name_withIdentity] at hname
  rw [updatedRecord, owner_withIdentity] at howner
  exact ⟨hname, howner⟩

/-! ## What an update writes -/

/-- The writes of records that an update makes. -/
def updateOps (dir : Directory) (name : String) (existing request : α) : List Operation :=
  (if updatedName name request = name then [] else [(dir.records α).deleteOp name]) ++
    [(dir.records α).putOp (updatedRecord name existing request)]

/-- The reference that a channel has to an updated record : under the same name it is the one
asked for, or the one that it had with the new owner. -/
def updatedMember (dir : Directory) (s : Store) (name : String) (existing request : α)
    (desired : KeyMap ρ) (channel : String) : Option ρ :=
  if updatedName name request = name then
    (desired.get? channel).or ((dir.refAt? α s channel name).map fun ref =>
      Reference.rebind ref name (updatedOwner existing request))
  else renamed (updatedName name request) (updatedOwner existing request)
    (dir.refAt? α s channel name) desired channel

/-- The references that an update leads to have the new owner of the record. -/
theorem owner_of_updatedMember [LawfulReference ρ] {s : Store} {name : String}
    {existing request : α} {desired : KeyMap ρ}
    (hdesired : requestedMembers (updatedRecord name existing request) = .ok desired)
    {channel : String} {ref : ρ}
    (h : dir.updatedMember s name existing request desired channel = some ref) :
    Reference.owner ref = updatedOwner existing request := by
  have hasked : ∀ channel ref, desired.get? channel = some ref →
      Reference.owner ref = updatedOwner existing request :=
    fun _ _ href => (identity_of_requested hdesired href).2
  unfold updatedMember at h
  split at h
  · rcases Option.or_eq_some_iff.mp h with h | ⟨-, h⟩
    · exact hasked channel ref h
    · obtain ⟨old, -, rfl⟩ := Option.map_eq_some_iff.mp h
      exact LawfulReference.owner_rebind old _ _
  · exact owner_of_renamed hasked h

omit [Reference ρ] [LawfulAttribute α] in
theorem recordOps_updateOps [LawfulEntity α] (name : String) (existing request : α) :
    dir.RecordOps α (dir.updateOps name existing request) := by
  refine recordOps_append ?_ (recordOps_puts [_])
  split
  · exact recordOps_nil
  · exact recordOps_delete name

/-- The record is stored under its new name, and none is under the old one. -/
theorem get?_contents_after_updateOps [LawfulEntity α] (s : Store) (name : String)
    (existing request : α) (id : String) :
    ((dir.records α).contents (s.after (dir.updateOps name existing request))).get? id =
      if id = updatedName name request then
        some (Entity.stored (updatedRecord name existing request))
      else if id = name then none
      else ((dir.records α).contents s).get? id := by
  have hname : Entity.name (updatedRecord name existing request) = updatedName name request :=
    name_withIdentity request _ _
  rw [updateOps, Store.after_append, Store.after_cons, Store.after_nil, contents_apply_putOp,
    KeyMap.get?_insert, hname]
  split
  · rfl
  · rename_i hid
    by_cases hsame : updatedName name request = name
    · rw [if_pos hsame, if_neg (hsame ▸ hid), Store.after_nil]
    · rw [if_neg hsame, Store.after_cons, Store.after_nil, contents_apply_deleteOp,
        KeyMap.get?_erase]

/-! ## One channel -/

/-- The plan of an assignment edits one channel and writes no record. -/
theorem returns_addPlan [LawfulEntity α] (shape : dir.InShape α b.store) {name channel : String}
    {request : α} {p : EditPlan α} (h : (dir.addPlan name channel request).Returns b p) :
    ∃ record ref, ((dir.records α).contents b.store).get? name = some record ∧
      (∃ c, (dir.channels.contents b.store).get? channel = some c) ∧
      singleRef record request channel = .ok ref ∧ Reference.name ref = name ∧
      Reference.owner ref = owner record ∧ p.ops = [] ∧ p.answer = .done record ∧
      dir.Stages α b.store (· = name) p.edits fun channel' name' =>
        if channel' = channel ∧ name' = name then some ref
        else dir.refAt? α b.store channel' name' := by
  obtain ⟨_, hname, h⟩ := (returns_bind (readOnly_checkName name request)).mp h
  obtain ⟨record, hrecord, h⟩ := (returns_bind ((dir.records α).readOnly_require name)).mp h
  obtain ⟨_, hchannel, h⟩ := (returns_bind (dir.readOnly_checkChannel channel)).mp h
  obtain ⟨ref, href, h⟩ := (returns_bind (readOnly_check _)).mp h
  obtain rfl := returns_done.mp h
  rw [returns_check] at href
  have hget := ((returns_require shape.records).mp hrecord).2
  obtain ⟨hrefname, howner⟩ := singleRef_ok href
  rw [shape.records.name_eq hget] at hrefname
  have staged := (stages_empty (α := α) (· = name)).putEdit shape.channels channel hrefname
  refine ⟨record, ref, hget, returns_checkChannel shape.channels hchannel, href, hrefname, howner,
    rfl, rfl, staged.congr fun channel' name' => ?_⟩
  rw [hrefname]

/-- The plan of taking a record off a channel edits this channel and writes no record. -/
theorem returns_removeFromPlan [LawfulEntity α] (shape : dir.InShape α b.store)
    {name channel : String} {p : EditPlan Unit}
    (h : (dir.removeFromPlan α name channel).Returns b p) :
    (∃ record, ((dir.records α).contents b.store).get? name = some record) ∧
      (∃ c, (dir.channels.contents b.store).get? channel = some c) ∧ p.ops = [] ∧
      p.answer = .done () ∧
      dir.Stages α b.store (· = name) p.edits fun channel' name' =>
        if channel' = channel ∧ name' = name then none
        else dir.refAt? α b.store channel' name' := by
  obtain ⟨record, hrecord, h⟩ := (returns_bind ((dir.records α).readOnly_require name)).mp h
  obtain ⟨_, hchannel, h⟩ := (returns_bind (dir.readOnly_checkChannel channel)).mp h
  obtain rfl := returns_done.mp h
  have staged := (stages_empty (α := α) (· = name)).foldl_removeEdit shape.channels [channel] rfl
  refine ⟨⟨record, ((returns_require shape.records).mp hrecord).2⟩,
    returns_checkChannel shape.channels hchannel, rfl, rfl,
    staged.congr fun channel' name' => ?_⟩
  simp only [List.mem_singleton]

/-! ## Replacing members -/

variable [DecidableEq ρ]

/-- Staging a replacement leads to the members that are asked for, and leaves other names alone. -/
theorem returns_stageReplace (wf : dir.channels.HoldsOnly Channel.Distinct b.store) {record : α}
    (h : (dir.stageReplace record edits).Returns b edits')
    (staged : dir.Stages α b.store names edits after) (hname : names (Entity.name record))
    (hfresh : ∀ channel, after channel (Entity.name record) =
      dir.refAt? α b.store channel (Entity.name record)) :
    ∃ desired, requestedMembers record = .ok desired ∧
      dir.Stages α b.store names edits' fun channel name =>
        if name = Entity.name record then desired.get? channel else after channel name := by
  obtain ⟨desired, hdesired, h⟩ := (returns_bind (readOnly_check _)).mp h
  obtain ⟨current, hcurrent, h⟩ := (returns_bind (dir.readOnly_currentMembers _)).mp h
  obtain rfl := returns_done.mp h
  rw [returns_check] at hdesired
  have hnames : (Delta.replace current desired).Names (Entity.name record) :=
    Delta.names_replace fun channel ref href => (requestedMembers_ok hdesired href).2.1
  refine ⟨desired, hdesired, (staged.stage wf hnames hname).congr fun channel name => ?_⟩
  split
  · rename_i heq
    rw [heq, hfresh, ← returns_currentMembers wf hcurrent, Delta.result_replace]
  · rfl

/-- The plan of a creation : the record is put, and its members are those that are asked for. -/
theorem returns_createPlan (shape : dir.InShape α b.store) {name : String} {record : α}
    {p : EditPlan α} (h : (dir.createPlan name record).Returns b p) :
    ∃ desired, Entity.name record = name ∧ requestedMembers record = .ok desired ∧
      (∀ channel ref, desired.get? channel = some ref →
        ∃ c, (dir.channels.contents b.store).get? channel = some c) ∧
      p.ops = [(dir.records α).putOp record] ∧ p.answer = dir.readAttribute α name true ∧
      dir.Stages α b.store (· = name) p.edits fun channel name' =>
        if name' = name then desired.get? channel else dir.refAt? α b.store channel name' := by
  obtain ⟨_, hname, h⟩ := (returns_bind (readOnly_checkName name record)).mp h
  obtain ⟨_, hcheck, h⟩ := (returns_bind (dir.readOnly_checkRecord record)).mp h
  obtain ⟨edits, hedits, h⟩ := (returns_bind (dir.readOnly_stageReplace record _)).mp h
  obtain rfl := returns_done.mp h
  obtain rfl := returns_checkName hname
  obtain ⟨-, hchannels⟩ := returns_checkRecord shape.channels hcheck
  obtain ⟨desired, hdesired, staged⟩ := returns_stageReplace shape.channels hedits
    (stages_empty (· = Entity.name record)) rfl fun channel => rfl
  exact ⟨desired, rfl, hdesired, fun channel ref => exists_stored_of_requested hchannels hdesired,
    rfl, rfl, staged⟩

/-! ## Deleting -/

/-- The plan of a deletion : the record goes, and no channel keeps a reference to it. -/
theorem returns_removePlan [LawfulEntity α] (shape : dir.InShape α b.store) {name : String}
    {p : EditPlan Unit} (h : (dir.removePlan α name).Returns b p) :
    (∃ record, ((dir.records α).contents b.store).get? name = some record) ∧
      p.ops = [(dir.records α).deleteOp name] ∧ p.answer = .done () ∧
      dir.Stages α b.store (· = name) p.edits fun channel name' =>
        if name' = name then none else dir.refAt? α b.store channel name' := by
  obtain ⟨record, hrecord, h⟩ := (returns_bind ((dir.records α).readOnly_require name)).mp h
  obtain ⟨current, hcurrent, h⟩ := (returns_bind (dir.readOnly_currentMembers name)).mp h
  obtain rfl := returns_done.mp h
  have staged := (stages_empty (α := α) (· = name)).stage shape.channels
    (Delta.names_strip current) rfl
  refine ⟨⟨record, ((returns_require shape.records).mp hrecord).2⟩, rfl, rfl,
    staged.congr fun channel name' => ?_⟩
  split
  · rename_i heq
    rw [heq, ← returns_currentMembers shape.channels hcurrent, Delta.result_strip]
  · rfl

/-! ## Updating -/

variable [LawfulReference ρ]

/-- Staging a rename takes the old name off all channels, and gives the new one the members that it
is to have in place of its own. -/
theorem returns_stageRename (wf : dir.channels.HoldsOnly Channel.Distinct b.store)
    {name newName owner : String} (hne : newName ≠ name) {current desired : KeyMap ρ}
    (hcurrent : ∀ channel, current.get? channel = dir.refAt? α b.store channel name)
    (hdesired : ∀ channel ref, desired.get? channel = some ref → Reference.name ref = newName)
    (h : (dir.stageRename α name newName owner current desired).Returns b edits) :
    dir.Stages α b.store (fun n => n = name ∨ n = newName) edits fun channel name' =>
      if name' = newName then renamed newName owner (dir.refAt? α b.store channel name) desired
        channel
      else if name' = name then none
      else dir.refAt? α b.store channel name' := by
  obtain ⟨taken, htaken, h⟩ := (returns_bind (dir.readOnly_currentMembers newName)).mp h
  have hedits := returns_done.mp h
  change edits = stage α _ newName
    (Delta.replace taken (renameTarget newName owner current desired)) at hedits
  subst hedits
  have hnames : (Delta.replace taken (renameTarget newName owner current desired)).Names newName :=
    Delta.names_replace fun channel ref href =>
      name_of_renamed hdesired (by rwa [get?_renameTarget] at href)
  have removed := (stages_empty (α := α) (fun n => n = name ∨ n = newName)).foldl_removeEdit wf
    current.keys (Or.inl rfl)
  refine (removed.stage wf hnames (Or.inr rfl)).congr fun channel name' => ?_
  by_cases hnew : name' = newName
  · have hkept : ¬(channel ∈ current.keys ∧ newName = name) := fun h => hne h.2
    rw [if_pos hnew, if_pos hnew, hnew, if_neg hkept, ← returns_currentMembers wf htaken,
      Delta.result_replace, get?_renameTarget, hcurrent]
  · rw [if_neg hnew, if_neg hnew]
    by_cases hold : name' = name
    · rw [if_pos hold, hold]
      split
      · rfl
      · rename_i habsent
        -- A channel that is no current member carries no reference to lose.
        rw [← hcurrent]
        cases hmember : current.get? channel with
        | none => rfl
        | some ref => exact absurd ⟨KeyMap.mem_keys_iff.mpr ⟨ref, hmember⟩, rfl⟩ habsent
    · have hother : ¬(channel ∈ current.keys ∧ name' = name) := fun h => hold h.2
      rw [if_neg hold, if_neg hother]

/-- Under its own name a record gets the members that are asked for, and those that it had keep
their references with the new owner. -/
theorem stages_refreshOthers (wf : dir.channels.HoldsOnly Channel.Distinct b.store)
    {name owner : String} {current desired : KeyMap ρ} (hname : names name)
    (hcurrent : ∀ channel, current.get? channel = dir.refAt? α b.store channel name)
    (hdesired : ∀ channel ref, desired.get? channel = some ref →
      Reference.name ref = name ∧ Reference.owner ref = owner) :
    dir.Stages α b.store names
      (stage α KeyMap.empty name ((Delta.merge current desired).refreshOthers current fun ref =>
        Reference.rebind ref name owner))
      fun channel name' =>
        if name' = name then (desired.get? channel).or
          ((dir.refAt? α b.store channel name).map fun ref => Reference.rebind ref name owner)
        else dir.refAt? α b.store channel name' := by
  have hnames : ((Delta.merge current desired).refreshOthers current fun ref =>
      Reference.rebind ref name owner).Names name :=
    Delta.names_refreshOthers
      (Delta.names_merge fun channel ref href => (hdesired channel ref href).1) current
      fun ref => LawfulReference.name_rebind ref name owner
  have hfixed : ∀ channel ref, desired.get? channel = some ref →
      Reference.rebind ref name owner = ref := by
    intro channel ref href
    obtain ⟨rfl, rfl⟩ := hdesired channel ref href
    exact LawfulReference.rebind_self ref
  refine ((stages_empty (α := α) names).stage wf hnames hname).congr fun channel name' => ?_
  split
  · rename_i heq
    rw [heq, ← hcurrent, Delta.result_refreshOthers hfixed]
  · rfl

/-- The plan of an update : what it has checked, the writes of the record, and the references that
its edits lead to. Under a new name they are those of a rename, else of a merge. -/
theorem returns_updatePlan [LawfulEntity α] (shape : dir.InShape α b.store) {name : String}
    {request : α} {p : EditPlan α} (h : (dir.updatePlan name request).Returns b p) :
    ∃ existing desired, ((dir.records α).contents b.store).get? name = some existing ∧
      requestedMembers (updatedRecord name existing request) = .ok desired ∧
      (∀ channel ref, desired.get? channel = some ref →
        ∃ c, (dir.channels.contents b.store).get? channel = some c) ∧
      p.ops = dir.updateOps name existing request ∧
      p.answer = dir.readAttribute α (updatedName name request) true ∧
      dir.Stages α b.store (fun n => n = name ∨ n = updatedName name request) p.edits
        fun channel name' =>
          if name' = updatedName name request then
            dir.updatedMember b.store name existing request desired channel
          else if name' = name then none
          else dir.refAt? α b.store channel name' := by
  obtain ⟨existing, hexisting, h⟩ := (returns_bind ((dir.records α).readOnly_require name)).mp h
  obtain ⟨_, hcheck, h⟩ := (returns_bind (dir.readOnly_checkRecord _)).mp h
  obtain ⟨desired, hdesired, h⟩ := (returns_bind (readOnly_check _)).mp h
  obtain ⟨current, hcurrent, h⟩ := (returns_bind (dir.readOnly_currentMembers name)).mp h
  rw [returns_check] at hdesired
  have hread := returns_currentMembers shape.channels hcurrent
  obtain ⟨-, hchannels⟩ := returns_checkRecord shape.channels hcheck
  refine ⟨existing, desired, ((returns_require shape.records).mp hexisting).2, hdesired,
    fun channel ref => exists_stored_of_requested hchannels hdesired, ?_⟩
  by_cases hsame : updatedName name request = name
  · rw [if_neg (not_not.mpr hsame)] at h
    obtain rfl := returns_done.mp h
    refine ⟨by rw [updateOps, if_pos hsame]; rfl, rfl, ?_⟩
    have hrefs : ∀ channel ref, desired.get? channel = some ref →
        Reference.name ref = name ∧ Reference.owner ref = updatedOwner existing request := by
      intro channel ref href
      rw [← hsame]
      exact identity_of_requested hdesired href
    simp only [updatedMember, hsame, if_true]
    refine (stages_refreshOthers shape.channels (Or.inl rfl) hread hrefs).congr
      fun channel name' => ?_
    by_cases hname : name' = name
    · rw [if_pos hname, if_pos hname]
    · rw [if_neg hname, if_neg hname, if_neg hname]
  · rw [if_pos hsame] at h
    obtain ⟨edits, hedits, h⟩ := (returns_bind (dir.readOnly_stageRename _ _ _ _ _)).mp h
    obtain rfl := returns_done.mp h
    refine ⟨by rw [updateOps, if_neg hsame]; rfl, rfl, ?_⟩
    simp only [updatedMember, if_neg hsame]
    exact returns_stageRename shape.channels hsame hread
      (fun channel ref href => (identity_of_requested hdesired href).1) hedits

/-! ## What an update leaves -/

section Left

variable {s s' : Store} {name : String} {existing request : α} {desired : KeyMap ρ}
  {ops : List Operation}

omit [DecidableEq ρ] [LawfulReference ρ] in
/-- What a channel carries of a name after an update. -/
theorem refAt?_of_update (edited : dir.Edited α ops edits s s')
    (hstored : ∀ channel ref, desired.get? channel = some ref →
      ∃ c, (dir.channels.contents s).get? channel = some c)
    (staged : dir.Stages α s (fun n => n = name ∨ n = updatedName name request) edits
      fun channel name' =>
        if name' = updatedName name request then
          dir.updatedMember s name existing request desired channel
        else if name' = name then none
        else dir.refAt? α s channel name')
    (channel name' : String) :
    dir.refAt? α s' channel name' =
      if name' = updatedName name request then
        dir.updatedMember s name existing request desired channel
      else if name' = name then none
      else dir.refAt? α s channel name' := by
  refine edited.refAt?_eq staged (fun hc name' => ?_) name'
  simp [updatedMember, renamed, get?_eq_none_of_stored hstored hc, refAt?_eq_none hc]

omit [DecidableEq ρ] [LawfulReference ρ] in
/-- The record is stored under its new name only. -/
theorem get?_records_of_update [LawfulEntity α]
    (hops : ops = dir.updateOps name existing request)
    (edited : dir.Edited α ops edits s s') (id : String) :
    ((dir.records α).contents s').get? id =
      if id = updatedName name request then
        some (Entity.stored (updatedRecord name existing request))
      else if id = name then none
      else ((dir.records α).contents s).get? id := by
  rw [edited.records, hops, get?_contents_after_updateOps]

end Left

end Directory

end ChannelDirectory

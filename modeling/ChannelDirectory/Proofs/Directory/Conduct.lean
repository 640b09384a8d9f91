import ChannelDirectory.Proofs.Directory.Commands
import ChannelDirectory.Proofs.Directory.Syncing
import ChannelDirectory.Proofs.Program.Regime

/-!
# Commands under a rule

A command reads, plans and writes, and other clients may write in between, so its plan may rest on
channels that are no longer there. `Directory.ChannelRules` and `Directory.AttributeRules` say what
a rule must grant for all commands to keep to it : what is known of the channels that are read and
of the references in them, and which writes are allowed for such channels. Nothing is asked of a
single command.

Edits `Put` only references of which something is known, so they keep it known of the channels
that they change. From there each command is followed through its reads and checks to its batch
(`Directory.upholds_program`).
-/

namespace ChannelDirectory

open Attribute Collection LawfulAttribute Program

/-- The channel has passed its checks, and has owners stamped on its references. -/
def Channel.Prepared (c : Channel) : Prop :=
  ∃ (request normal : Channel) (owners : Owners),
    request.normalize = .ok normal ∧ c = owners.stamp normal

namespace Directory

/-- What a rule grants for the channels : those that are read are `good`, and those that are
prepared or good are written. -/
structure ChannelRules (dir : Directory) (R : Regime) (good : Channel → Prop) : Prop where
  yields : dir.channels.Yields R good
  put : ∀ c : Channel, c.Prepared → R.allows (dir.channels.putOp c)
  replace : ∀ c, good c → R.allows (dir.channels.replaceOp c)
  delete : ∀ id, R.allows (dir.channels.deleteOp id)

/-- What a rule grants for tags or for properties : the references of good channels and those that
a request means are `sound`, a good channel may have its references exchanged for sound ones, and
valid records are written. -/
structure AttributeRules (dir : Directory) (R : Regime) (good : Channel → Prop) (α : Type)
    {ρ : Type} [Attribute α ρ] [Reference ρ] [LawfulAttribute α] (sound : ρ → Prop) : Prop
    extends dir.ChannelRules R good where
  refs : ∀ c, good c → ∀ ref ∈ refs α c, sound ref
  setRefs : ∀ c rs, good c → (∀ ref ∈ rs, sound ref) →
    (DistinctRefs (Attribute.refs α c) → DistinctRefs rs) → good (setRefs α c rs)
  memberRef : ∀ (record : α) c ref, memberRef record c = .ok ref → sound ref
  singleRef : ∀ (record request : α) channel ref,
    singleRef record request channel = .ok ref → sound ref
  rebind : ∀ ref name owner, sound ref → sound (Reference.rebind ref name owner)
  putRecord : ∀ record : α, validate record = .ok () → R.allows ((dir.records α).putOp record)
  deleteRecord : ∀ name, R.allows ((dir.records α).deleteOp name)

end Directory

/-! ## Edits -/

section Edits

variable {α ρ : Type} [Attribute α ρ] [Reference ρ] [LawfulAttribute α] {sound : ρ → Prop}
  {edits : ChannelEdits}

theorem mem_foldl_eraseRef {names : List String} {rs : List ρ} {ref : ρ}
    (h : ref ∈ names.foldl eraseRef rs) : ref ∈ rs := by
  induction names generalizing rs with
  | nil => exact h
  | cons name names ih => exact (mem_eraseRef.mp (ih h)).1

/-- References that are put are among the old ones and the new ones. -/
theorem mem_putRefs {rs more : List ρ} {ref : ρ} (h : ref ∈ putRefs rs more) :
    ref ∈ rs ∨ ref ∈ more := by
  induction more generalizing rs with
  | nil => exact .inl h
  | cons other more ih =>
    rcases ih h with hput | hmore
    · rcases List.mem_append.mp hput with hold | hnew
      · exact .inl (mem_eraseRef.mp hold).1
      · exact .inr (List.mem_singleton.mp hnew ▸ List.mem_cons_self)
    · exact .inr (List.mem_cons_of_mem _ hmore)

/-- The references after an edit were there or are put. -/
theorem RefEdit.mem_apply {e : RefEdit ρ} {rs : List ρ} {ref : ρ} (h : ref ∈ e.apply rs) :
    ref ∈ rs ∨ ∃ name, e.put.get? name = some ref :=
  (mem_putRefs h).imp mem_foldl_eraseRef KeyMap.mem_values_iff.mp

namespace ChannelEdits

variable (α) in
/-- The edits are about one kind of references, and put only sound ones. -/
structure Put (sound : ρ → Prop) (edits : ChannelEdits) : Prop where
  about : About α (fun _ => True) edits
  put : ∀ channel name ref, (partOf α edits channel).put.get? name = some ref → sound ref

theorem put_empty : Put α sound KeyMap.empty where
  about := about_empty _
  put channel name ref h := by
    rw [partOf, KeyMap.get?_empty, Option.getD_none, part_empty] at h
    cases h

/-- Edits put sound references only if one more of them is put. -/
theorem Put.putEdit (h : Put α sound edits) (channel : String) {ref : ρ} (href : sound ref) :
    Put α sound (putEdit α edits channel ref) where
  about := h.about.putEdit channel trivial
  put channel' name ref' hget := by
    rw [Attribute.putEdit, partOf_modify] at hget
    split at hget
    · rw [RefEdit.putRef, KeyMap.get?_insert] at hget
      split at hget
      · rwa [← Option.some.inj hget]
      · exact h.put channel name ref' hget
    · exact h.put channel' name ref' hget

theorem Put.removeEdit (h : Put α sound edits) (channel name : String) :
    Put α sound (removeEdit α edits channel name) where
  about := h.about.removeEdit channel trivial
  put channel' name' ref hget := by
    rw [Attribute.removeEdit, partOf_modify] at hget
    split at hget
    · rw [RefEdit.removeRef, KeyMap.get?_erase] at hget
      split at hget
      · cases hget
      · exact h.put channel name' ref hget
    · exact h.put channel' name' ref hget

theorem Put.foldl_removeEdit (h : Put α sound edits) (channels : List String) (name : String) :
    Put α sound (channels.foldl (fun edits channel => Attribute.removeEdit α edits channel name)
      edits) := by
  induction channels generalizing edits with
  | nil => exact h
  | cons channel channels ih => exact ih (h.removeEdit channel name)

theorem Put.foldl_putEdit (h : Put α sound edits) {upserts : List (String × ρ)}
    (hupserts : ∀ e ∈ upserts, sound e.2) :
    Put α sound (upserts.foldl (fun edits e => Attribute.putEdit α edits e.1 e.2) edits) := by
  induction upserts generalizing edits with
  | nil => exact h
  | cons e upserts ih =>
    obtain ⟨he, hupserts⟩ := List.forall_mem_cons.mp hupserts
    exact ih (h.putEdit e.1 he) hupserts

/-- Staging a delta with sound references keeps the edits sound. -/
theorem Put.stage (h : Put α sound edits) (name : String) {d : Delta ρ}
    (hd : ∀ e ∈ d.upserts, sound e.2) : Put α sound (stage α edits name d) := by
  have hremoved := h.foldl_removeEdit d.removed.keys name
  exact hremoved.foldl_putEdit hd

end ChannelEdits

end Edits

namespace Directory

variable {dir : Directory} {R : Regime} {good : Channel → Prop}

/-! ## Checks -/

section Checks

variable {α ρ : Type} [Attribute α ρ]

theorem upholds_checkName (name : String) (record : α) :
    (checkName name record).Upholds R fun _ => True := by
  rw [checkName]
  split
  · trivial
  · exact upholds_fail not_false

/-- A record that has been checked is valid. -/
theorem upholds_checkRecord (dir : Directory) (record : α) :
    (dir.checkRecord record).Upholds R fun _ => validate record = .ok () := by
  refine (upholds_check fun value hvalid => hvalid).bind fun value hvalid => ?_
  refine (upholds_missing dir.channels _).bind fun missing _ => ?_
  cases missing with
  | nil => exact hvalid
  | cons name rest => exact upholds_fail not_false

theorem upholds_checkChannel (dir : Directory) (channel : String) :
    (dir.checkChannel channel).Upholds R fun _ => True := by
  refine (upholds_contains dir.channels channel).bind fun found _ => ?_
  cases found with
  | true => trivial
  | false => exact upholds_fail not_false

/-- Any record may be read. -/
theorem upholds_requireRecord (dir : Directory) (name : String) :
    ((dir.records α).require name).Upholds R fun _ => True :=
  upholds_require yields_true name

end Checks

/-! ## Tags and properties -/

section Attributes

variable {α ρ : Type} [Attribute α ρ] [Reference ρ] [LawfulAttribute α] {sound : ρ → Prop}

namespace AttributeRules

variable (rules : dir.AttributeRules R good α sound)

include rules

/-- Edits that put sound references keep channels good. -/
theorem good_applyTo {edits : ChannelEdits} (h : edits.Put α sound) {c : Channel} (hc : good c) :
    good (edits.applyTo c) := by
  rw [h.about.applyTo_eq c]
  refine rules.setRefs c _ hc (fun ref href => ?_) fun hdistinct => ?_
  · rw [ChannelEdits.refs_applyTo] at href
    rcases RefEdit.mem_apply href with hold | ⟨name, hput⟩
    · exact rules.refs c hc ref hold
    · exact h.put c.name name ref hput
  · rw [ChannelEdits.refs_applyTo]
    exact RefEdit.distinctRefs_apply hdistinct

/-- The writes that edits lead to are allowed if the edits put sound references. -/
theorem upholds_operations {edits : ChannelEdits} (h : edits.Put α sound) :
    (edits.operations dir.channels).Upholds R fun ops => ∀ op ∈ ops, R.allows op := by
  refine (upholds_findAll rules.yields edits.keys).bind fun found hfound => ?_
  refine upholds_ofExcept (fun ops hops op hop => ?_) fun error herror => ?_
  · obtain ⟨e, he, c, hget, rfl⟩ := ChannelEdits.mem_writes hops hop
    obtain ⟨c', hmem, hname, rfl⟩ := KeyMap.mem_of_get?_ofList_map hget
    have hedit : edits.get? e.1 = some e.2 := KeyMap.get?_eq_some_iff_mem.mpr he
    rw [← ChannelEdits.applyTo_of_get? hedit hname]
    exact rules.replace _ (rules.good_applyTo h (hfound c' hmem))
  · obtain ⟨name, rfl⟩ := ChannelEdits.notFound_of_writes herror
    exact not_false

/-- A batch of allowed writes with sound edits makes allowed calls only. -/
theorem upholds_submitEdits {ops : List Operation} (hops : ∀ op ∈ ops, R.allows op)
    {edits : ChannelEdits} (h : edits.Put α sound) :
    (dir.submitEdits ops edits).Upholds R fun _ => True := by
  refine (rules.upholds_operations h).bind fun more hmore => ?_
  exact (upholds_execute (List.forall_mem_append.mpr ⟨hops, hmore⟩)).bind fun _ _ => trivial

/-- The members that a request asks for are sound. -/
theorem upholds_requestedMembers (record : α) :
    (check (requestedMembers record)).Upholds R fun desired =>
      ∀ channel ref, desired.get? channel = some ref → sound ref := by
  refine upholds_check fun desired hdesired channel ref hget => ?_
  obtain ⟨c, -, -, hmade⟩ := exists_memberRef_of_requested hdesired hget
  exact rules.memberRef record c ref hmade

theorem upholds_addToChannel (name channel : String) (request : α) :
    (dir.addToChannel name channel request).Upholds R fun _ => True := by
  refine (upholds_checkName name request).bind fun _ _ => ?_
  refine (upholds_requireRecord dir name).bind fun record _ => ?_
  refine (upholds_checkChannel dir channel).bind fun _ _ => ?_
  refine (upholds_check (rules.singleRef record request channel)).bind fun ref href => ?_
  exact (rules.upholds_submitEdits (List.forall_mem_nil _)
    (ChannelEdits.put_empty.putEdit channel href)).bind fun _ _ => trivial

theorem upholds_removeFromChannel (name channel : String) :
    (dir.removeFromChannel α name channel).Upholds R fun _ => True := by
  refine (upholds_requireRecord dir name).bind fun (_ : α) _ => ?_
  refine (upholds_checkChannel dir channel).bind fun _ _ => ?_
  exact rules.upholds_submitEdits (List.forall_mem_nil _)
    (ChannelEdits.put_empty.removeEdit channel name)

/-! Reading members takes pages of channels. -/

variable (paged : dir.channels.Paged R)

include paged

/-- The members that are read are sound, since they stand in stored channels. -/
theorem upholds_currentMembers (name : String) :
    (dir.currentMembers α name).Upholds R fun current =>
      ∀ channel ref, current.get? channel = some ref → sound ref := by
  refine (upholds_findMatching rules.yields paged dir.pageBudget _).bind fun found hfound => ?_
  intro channel ref hget
  obtain ⟨c, hc, hmember⟩ := List.mem_filterMap.mp (KeyMap.mem_of_get?_ofList hget)
  obtain ⟨ref', href, he⟩ := Option.map_eq_some_iff.mp hmember
  rw [← (Prod.mk.inj he).2]
  exact rules.refs c (hfound c hc) ref' (mem_of_findRef? href)

theorem upholds_readAttribute (name : String) (withMembers : Bool) :
    (dir.readAttribute α name withMembers).Upholds R fun _ => True := by
  refine (upholds_requireRecord dir name).bind fun record _ => ?_
  split
  · exact (upholds_findMatching rules.yields paged dir.pageBudget _).bind fun _ _ => trivial
  · trivial

theorem upholds_readAttributes (names : List String) :
    (dir.readAttributes α names).Upholds R fun _ => True :=
  (upholds_each fun name _ => rules.upholds_readAttribute paged name true).mono fun _ _ => trivial

variable [DecidableEq ρ]

theorem upholds_stageReplace (record : α) {edits : ChannelEdits} (h : edits.Put α sound) :
    (dir.stageReplace record edits).Upholds R (ChannelEdits.Put α sound) := by
  refine (rules.upholds_requestedMembers record).bind fun desired hdesired => ?_
  refine (rules.upholds_currentMembers paged (Entity.name record)).bind fun current _ => ?_
  exact h.stage _ (Delta.forall_upserts_merge current hdesired)

theorem upholds_stageReplaceAll (records : List α) {edits : ChannelEdits}
    (h : edits.Put α sound) :
    (dir.stageReplaceAll records edits).Upholds R (ChannelEdits.Put α sound) := by
  induction records generalizing edits with
  | nil => exact h
  | cons record records ih => exact (rules.upholds_stageReplace paged record h).bind fun edits => ih

theorem upholds_createAttribute (name : String) (record : α) :
    (dir.createAttribute name record).Upholds R fun _ => True := by
  refine (upholds_checkName name record).bind fun _ _ => ?_
  refine (upholds_checkRecord dir record).bind fun _ hvalid => ?_
  refine (rules.upholds_stageReplace paged record ChannelEdits.put_empty).bind
    fun edits hedits => ?_
  have hops := List.forall_mem_singleton.mpr (rules.putRecord record hvalid)
  exact (rules.upholds_submitEdits hops hedits).bind fun _ _ =>
    rules.upholds_readAttribute paged name true

theorem upholds_createAttributes (records : List α) :
    (dir.createAttributes records).Upholds R fun _ => True := by
  refine (upholds_each fun record _ => upholds_checkRecord dir record).bind fun _ hvalid => ?_
  refine (rules.upholds_stageReplaceAll paged _ ChannelEdits.put_empty).bind fun edits hedits => ?_
  have hops : ∀ op ∈ (lastByName records).values.map (dir.records α).putOp, R.allows op := by
    rw [List.forall_mem_map]
    intro record hrecord
    obtain ⟨-, -, hrecord⟩ := hvalid record hrecord
    exact rules.putRecord record hrecord
  exact (rules.upholds_submitEdits hops hedits).bind fun _ _ => rules.upholds_readAttributes paged _

/-- A rename stages sound references if those that it takes over and those that are asked for are
sound. -/
theorem upholds_stageRename (name newName owner : String) {current desired : KeyMap ρ}
    (hcurrent : ∀ channel ref, current.get? channel = some ref → sound ref)
    (hdesired : ∀ channel ref, desired.get? channel = some ref → sound ref) :
    (dir.stageRename α name newName owner current desired).Upholds R
      (ChannelEdits.Put α sound) := by
  refine (rules.upholds_currentMembers paged newName).bind fun taken _ => ?_
  refine (ChannelEdits.put_empty.foldl_removeEdit _ name).stage newName
    (Delta.forall_upserts_merge taken fun channel ref href => ?_)
  split at href
  · rw [KeyMap.get?_mapValues] at href
    obtain ⟨old, hold, rfl⟩ := Option.map_eq_some_iff.mp href
    exact rules.rebind old newName owner (hcurrent channel old hold)
  · exact hdesired channel ref href

/-- An update of a record makes allowed calls only, in place and under a new name. -/
theorem upholds_updateAttribute (name : String) (request : α) :
    (dir.updateAttribute name request).Upholds R fun _ => True := by
  refine (upholds_requireRecord dir name).bind fun existing _ => ?_
  extract_lets newName owner' record
  refine (upholds_checkRecord dir record).bind fun _ hvalid => ?_
  refine (rules.upholds_requestedMembers record).bind fun desired hdesired => ?_
  refine (rules.upholds_currentMembers paged name).bind fun current hcurrent => ?_
  have hput := rules.putRecord record hvalid
  by_cases hname : newName ≠ name
  · rw [if_pos hname]
    refine (rules.upholds_stageRename paged name newName owner' hcurrent hdesired).bind
      fun edits hedits => ?_
    have hops := List.forall_mem_cons.mpr
      ⟨rules.deleteRecord name, List.forall_mem_singleton.mpr hput⟩
    exact (rules.upholds_submitEdits hops hedits).bind fun _ _ =>
      rules.upholds_readAttribute paged newName true
  · rw [if_neg hname]
    have hdelta := Delta.forall_upserts_refreshOthers
      (Delta.forall_upserts_merge current hdesired)
      fun channel ref href => rules.rebind ref newName owner' (hcurrent channel ref href)
    exact (rules.upholds_submitEdits (List.forall_mem_singleton.mpr hput)
      (ChannelEdits.put_empty.stage name hdelta)).bind fun _ _ =>
        rules.upholds_readAttribute paged newName true

/-- What is staged for a batch may be written. -/
theorem upholds_stageMerge (name : String) (record : α) {staged : List Operation × ChannelEdits}
    (hops : ∀ op ∈ staged.1, R.allows op) (hedits : staged.2.Put α sound) :
    (dir.stageMerge name record staged).Upholds R fun staged =>
      (∀ op ∈ staged.1, R.allows op) ∧ staged.2.Put α sound := by
  obtain ⟨ops, edits⟩ := staged
  refine (upholds_get yields_true name).bind fun existing _ => ?_
  -- A new record is put among the writes before it is checked.
  have hrest : ∀ (record : α) (ops : List Operation),
      (validate record = .ok () → ∀ op ∈ ops, R.allows op) →
      (do
        dir.checkRecord record
        let desired ← check (requestedMembers record)
        let current ← dir.currentMembers α name
        return (ops, stage α edits name (Delta.merge current desired)) :
          Program (List Operation × ChannelEdits)).Upholds R fun staged =>
        (∀ op ∈ staged.1, R.allows op) ∧ staged.2.Put α sound := by
    intro record ops hops
    refine (upholds_checkRecord dir record).bind fun _ hvalid => ?_
    refine (rules.upholds_requestedMembers record).bind fun desired hdesired => ?_
    refine (rules.upholds_currentMembers paged name).bind fun current _ => ?_
    exact ⟨hops hvalid, hedits.stage name (Delta.forall_upserts_merge _ hdesired)⟩
  cases existing with
  | none =>
    refine hrest record (ops ++ [(dir.records α).putOp record]) fun hvalid => ?_
    exact List.forall_mem_append.mpr
      ⟨hops, List.forall_mem_singleton.mpr (rules.putRecord record hvalid)⟩
  | some existing => exact hrest (withIdentity record name (owner existing)) ops fun _ => hops

/-- Staging many additions keeps the writes allowed and the edits sound. -/
theorem upholds_stageMergeAll (records : List (String × α))
    {staged : List Operation × ChannelEdits} (hops : ∀ op ∈ staged.1, R.allows op)
    (hedits : staged.2.Put α sound) :
    (dir.stageMergeAll records staged).Upholds R fun staged =>
      (∀ op ∈ staged.1, R.allows op) ∧ staged.2.Put α sound := by
  induction records generalizing staged with
  | nil => exact ⟨hops, hedits⟩
  | cons entry records ih =>
    exact (rules.upholds_stageMerge paged entry.1 entry.2 hops hedits).bind fun staged hstaged =>
      ih hstaged.1 hstaged.2

theorem upholds_updateAttributes (records : List α) :
    (dir.updateAttributes records).Upholds R fun _ => True := by
  refine (rules.upholds_stageMergeAll paged _ (List.forall_mem_nil _) ChannelEdits.put_empty).bind
    fun staged hstaged => ?_
  exact (rules.upholds_submitEdits hstaged.1 hstaged.2).bind fun _ _ =>
    rules.upholds_readAttributes paged _

theorem upholds_removeAttribute (name : String) :
    (dir.removeAttribute α name).Upholds R fun _ => True := by
  refine (upholds_requireRecord dir name).bind fun (_ : α) _ => ?_
  refine (rules.upholds_currentMembers paged name).bind fun current _ => ?_
  exact rules.upholds_submitEdits (List.forall_mem_singleton.mpr (rules.deleteRecord name))
    (ChannelEdits.put_empty.stage name (List.forall_mem_nil _))

/-- Every write of tags or properties makes allowed calls only. -/
theorem upholds_attributeProgram (command : AttributeCommand α) :
    (dir.attributeProgram command).Upholds R fun _ => True := by
  cases command with
  | create name record =>
    exact (rules.upholds_createAttribute paged name record).bind fun _ _ => trivial
  | createMany records =>
    exact (rules.upholds_createAttributes paged records).bind fun _ _ => trivial
  | addToChannel name channel request =>
    exact (rules.upholds_addToChannel name channel request).bind fun _ _ => trivial
  | update name request =>
    exact (rules.upholds_updateAttribute paged name request).bind fun _ _ => trivial
  | updateMany records =>
    exact (rules.upholds_updateAttributes paged records).bind fun _ _ => trivial
  | remove name => exact rules.upholds_removeAttribute paged name
  | removeFromChannel name channel => exact rules.upholds_removeFromChannel name channel

end AttributeRules

end Attributes

/-! ## Channels -/

theorem upholds_ownersOf (dir : Directory) (α : Type) {ρ : Type} [Attribute α ρ]
    (names : List String) : (dir.ownersOf α names).Upholds R fun _ => True :=
  (upholds_findAll yields_true names).bind fun _ _ => trivial

theorem upholds_ownersFor (dir : Directory) (channels : List Channel) :
    (dir.ownersFor channels).Upholds R fun _ => True := by
  refine (dir.upholds_ownersOf Tag _).bind fun tags _ => ?_
  split
  · exact upholds_fail not_false
  · refine (dir.upholds_ownersOf Property _).bind fun properties _ => ?_
    split
    · exact upholds_fail not_false
    · trivial

/-- A channel that is prepared has been checked. -/
theorem upholds_prepare (dir : Directory) (c : Channel) :
    (dir.prepare c).Upholds R Channel.Prepared := by
  refine (upholds_check fun normal hnormal => hnormal).bind fun normal hnormal => ?_
  refine (dir.upholds_ownersFor [normal]).bind fun owners _ => ?_
  exact ⟨c, normal, owners, hnormal, rfl⟩

/-- All channels that are prepared have been checked. -/
theorem upholds_prepareAll (dir : Directory) (channels : List Channel) :
    (dir.prepareAll channels).Upholds R fun prepared => ∀ c ∈ prepared, c.Prepared := by
  refine (upholds_check fun normals hnormals => hnormals).bind fun normals hnormals => ?_
  refine (dir.upholds_ownersFor _).bind fun owners _ => ?_
  refine List.forall_mem_map.mpr fun normal hnormal => ?_
  obtain ⟨key, hkey⟩ := KeyMap.mem_values_iff.mp hnormal
  obtain ⟨normal', hmem, -, rfl⟩ := KeyMap.mem_of_get?_ofList_map hkey
  obtain ⟨request, -, hrequest⟩ := exists_of_mapM_eq_ok hnormals hmem
  exact ⟨request, normal', owners, hrequest, rfl⟩

namespace ChannelRules

variable (rules : dir.ChannelRules R good)

include rules

theorem upholds_createChannel (name : String) (c : Channel) :
    (dir.createChannel name c).Upholds R fun _ => True := by
  rw [createChannel]
  split
  · exact upholds_fail not_false
  · refine (dir.upholds_prepare c).bind fun prepared hprepared => ?_
    exact (upholds_execute (List.forall_mem_singleton.mpr (rules.put prepared hprepared))).bind
      fun _ _ => trivial

theorem upholds_createChannels (channels : List Channel) :
    (dir.createChannels channels).Upholds R fun _ => True := by
  refine (dir.upholds_prepareAll channels).bind fun prepared hprepared => ?_
  refine (upholds_execute (List.forall_mem_map.mpr fun c hc => ?_)).bind fun _ _ => trivial
  exact rules.put c (hprepared c hc)

/-- An update of a channel makes allowed calls only, whatever is stored of it. -/
theorem upholds_updateChannel (name : String) (request : Channel) :
    (dir.updateChannel name request).Upholds R fun _ => True := by
  refine (upholds_require rules.yields name).bind fun existing _ => ?_
  extract_lets newName merged rename
  have hrename : ∀ op ∈ rename, R.allows op := by
    unfold rename
    split
    · exact List.forall_mem_singleton.mpr (rules.delete name)
    · exact List.forall_mem_nil _
  refine (dir.upholds_prepare _).bind fun prepared hprepared => ?_
  have hput := List.forall_mem_singleton.mpr (rules.put prepared hprepared)
  exact (upholds_execute (List.forall_mem_append.mpr ⟨hrename, hput⟩)).bind fun _ _ => trivial

theorem upholds_updateChannels (requests : List Channel) :
    (dir.updateChannels requests).Upholds R fun _ => True :=
  (upholds_findAll rules.yields _).bind fun _ _ => rules.upholds_createChannels _

theorem upholds_removeChannel (name : String) :
    (dir.removeChannel name).Upholds R fun _ => True := by
  have hdelete : (dir.channels.delete name).Upholds R fun _ => True :=
    (upholds_execute (List.forall_mem_singleton.mpr (rules.delete name))).bind fun _ _ => trivial
  refine hdelete.bind fun deleted _ => ?_
  split
  · trivial
  · exact upholds_fail not_false

end ChannelRules

/-! ## Commands -/

/-- Every command keeps to a rule that grants what tags and properties need, and pages. -/
theorem upholds_program {soundTag : TagRef → Prop} {soundProperty : PropertyRef → Prop}
    (tags : dir.AttributeRules R good Tag soundTag)
    (properties : dir.AttributeRules R good Property soundProperty)
    (paged : dir.channels.Paged R) (command : Command) :
    (dir.program command).Upholds R fun _ => True := by
  have channels := tags.toChannelRules
  cases command with
  | createChannel name c =>
    exact (channels.upholds_createChannel name c).bind fun _ _ => trivial
  | createChannels cs => exact (channels.upholds_createChannels cs).bind fun _ _ => trivial
  | updateChannel name request =>
    exact (channels.upholds_updateChannel name request).bind fun _ _ => trivial
  | updateChannels requests =>
    exact (channels.upholds_updateChannels requests).bind fun _ _ => trivial
  | removeChannel name => exact channels.upholds_removeChannel name
  | ofTags command => exact tags.upholds_attributeProgram paged command
  | ofProperties command => exact properties.upholds_attributeProgram paged command

end Directory

end ChannelDirectory

import ChannelDirectory.Proofs.Directory.BatchEffects

/-!
# Plans that keep references in sync

A reference is vouched for by a record of its name with its owner. Every plan to write tags or
properties stages references that the records it leaves vouch for (`Directory.KeepsSync`), if
that was so before : what it adds carries the owner of the record that it writes, and what it
leaves alone has a record that it leaves alone.

Such a plan, carried out, keeps the references of its own kind in sync (`Edited.inSync`), and it
does not touch those of the other kind (`Edited.inSync_independent`).
-/

namespace ChannelDirectory

open Attribute ChannelEdits Collection LawfulAttribute Program

namespace Directory

variable {α ρ : Type} [Attribute α ρ] [Reference ρ] {dir : Directory} {s s' : Store} {b : Backend}
  {name : String} {ref : ρ}

/-- There is a record of the name, and it has the owner of the reference. -/
def Vouches (dir : Directory) (α : Type) {ρ : Type} [Attribute α ρ] [Reference ρ] (s : Store)
    (name : String) (ref : ρ) : Prop :=
  ∃ record, ((dir.records α).contents s).get? name = some record ∧
    owner record = Reference.owner ref

/-! ## Records that are written -/

/-- Deleting another record leaves what vouches for a name. -/
theorem vouches_delete {name' : String} (hne : name ≠ name') (h : dir.Vouches α s name ref) :
    dir.Vouches α (s.after [(dir.records α).deleteOp name']) name ref := by
  obtain ⟨record, hget, howner⟩ := h
  refine ⟨record, ?_, howner⟩
  rw [Store.after_cons, Store.after_nil, contents_apply_deleteOp, KeyMap.get?_erase, if_neg hne,
    hget]

variable [LawfulAttribute α]

/-- After a put a record vouches for the references with its owner. -/
theorem vouches_put [LawfulEntity α] {record : α}
    (hnew : name = Entity.name record → owner record = Reference.owner ref)
    (hold : name ≠ Entity.name record → dir.Vouches α s name ref) :
    dir.Vouches α (s.after [(dir.records α).putOp record]) name ref := by
  unfold Vouches
  rw [Store.after_cons, Store.after_nil, contents_apply_putOp, KeyMap.get?_insert]
  by_cases heq : name = Entity.name record
  · rw [if_pos heq]
    exact ⟨_, rfl, (owner_stored record).trans (hnew heq)⟩
  · rw [if_neg heq]
    exact hold heq

/-- After some puts the last record of a name vouches for it, or the stored one if there is none. -/
theorem vouches_puts [LawfulEntity α] {records : KeyMap α}
    (named : ∀ name record, records.get? name = some record → Entity.name record = name)
    (hnew : ∀ record, records.get? name = some record → owner record = Reference.owner ref)
    (hold : records.get? name = none → dir.Vouches α s name ref) :
    dir.Vouches α (s.after (records.values.map (dir.records α).putOp)) name ref := by
  unfold Vouches
  rw [get?_contents_after_puts_values _ _ named]
  cases hget : records.get? name with
  | some record => exact ⟨_, rfl, (owner_stored record).trans (hnew record hget)⟩
  | none => exact hold hget

/-- What is stored is vouched for, if it is in sync. -/
theorem InSync.vouches (sync : dir.InSync α s) (shape : dir.InShape α s) {channel : String}
    (h : dir.refAt? α s channel name = some ref) : dir.Vouches α s name ref :=
  (inSync_iff shape.channels).mp sync channel name ref h

/-- The plan writes records of its kind only, and the records that it leaves vouch for the
references that it leads to. -/
structure KeepsSync {γ : Type} (dir : Directory) (α : Type) {ρ : Type} [Attribute α ρ]
    [Reference ρ] [LawfulAttribute α] (s : Store) (p : EditPlan γ) : Prop where
  records : dir.RecordOps α p.ops
  staged : ∃ names after, dir.Stages α s names p.edits after ∧
    ∀ channel name ref, after channel name = some ref → dir.Vouches α (s.after p.ops) name ref

/-! ## Plans that are carried out -/

section Edited

variable {ops : List Operation} {edits : ChannelEdits} {names : String → Prop}
  {after : String → String → Option ρ}

/-- If the records that are left vouch for all references, the directory is in step after the
edit. -/
theorem Edited.inSync (edited : dir.Edited α ops edits s s')
    (staged : dir.Stages α s names edits after)
    (hafter : ∀ channel name ref, after channel name = some ref →
      dir.Vouches α (s.after ops) name ref) : dir.InSync α s' := by
  rw [inSync_iff edited.shape.channels]
  intro channel name ref href
  rw [edited.records]
  refine hafter channel name ref ?_
  obtain ⟨c', hc', hcurrent⟩ := Option.bind_eq_some_iff.mp href
  rw [edited.channels, KeyMap.get?_mapValues] at hc'
  obtain ⟨c, hc, rfl⟩ := Option.map_eq_some_iff.mp hc'
  rw [← staged.gives channel c hc, hcurrent]

variable {β σ : Type} [Attribute β σ] [Reference σ] [LawfulAttribute β]

/-- The documents of the other kind stay as they are. -/
theorem Edited.documents_independent (edited : dir.Edited α ops edits s s')
    (independent : Independent α β) (indices : dir.config.DistinctIndices) :
    s'.documents (Attribute.index β dir.config) = s.documents (Attribute.index β dir.config) :=
  edited.others _ (LawfulAttribute.index_ne indices) (Ne.symm (independent.index_ne indices))

/-- An edit of one kind keeps the other kind in step. -/
theorem Edited.inSync_independent (edited : dir.Edited α ops edits s s')
    (independent : Independent α β) (indices : dir.config.DistinctIndices)
    (hedits : edits.About α names) (sync : dir.InSync β s) : dir.InSync β s' := by
  intro channel c' hc' ref href
  rw [edited.channels, KeyMap.get?_mapValues] at hc'
  obtain ⟨c, hc, rfl⟩ := Option.map_eq_some_iff.mp hc'
  rw [hedits.refs_applyTo_independent independent] at href
  rw [contents_congr (c := dir.records β) (edited.documents_independent independent indices)]
  exact sync channel c hc ref href

end Edited

/-! ## The plans -/

/-- What an update of many writes about a record that exists has its owner. -/
theorem owner_merged {records : KeyMap α} {record existing : α}
    (h : records.get? name = some existing) :
    owner (merged records name record) = owner existing := by
  rw [merged, h]
  exact owner_withIdentity record name _

section Plans

variable [LawfulEntity α]

/-- An assignment to one channel takes the owner of its record. -/
theorem keepsSync_addPlan (shape : dir.InShape α b.store) (sync : dir.InSync α b.store)
    {channel : String} {request : α} {p : EditPlan α}
    (h : (dir.addPlan name channel request).Returns b p) : dir.KeepsSync α b.store p := by
  obtain ⟨record, added, hrecord, -, -, -, howner, hops, -, staged⟩ := returns_addPlan shape h
  refine ⟨hops ▸ recordOps_nil, _, _, staged, fun channel' name' ref href => ?_⟩
  rw [hops]
  split at href
  · rename_i heq
    obtain rfl := Option.some.inj href
    rw [heq.2]
    exact ⟨record, hrecord, howner.symm⟩
  · exact sync.vouches shape href

/-- Taking a record off one channel leaves the owners as they are. -/
theorem keepsSync_removeFromPlan (shape : dir.InShape α b.store) (sync : dir.InSync α b.store)
    {channel : String} {p : EditPlan Unit}
    (h : (dir.removeFromPlan α name channel).Returns b p) : dir.KeepsSync α b.store p := by
  obtain ⟨-, -, hops, -, staged⟩ := returns_removeFromPlan shape h
  refine ⟨hops ▸ recordOps_nil, _, _, staged, fun channel' name' ref href => ?_⟩
  rw [hops]
  split at href
  · cases href
  · exact sync.vouches shape href

variable [DecidableEq ρ]

/-- A creation gives its owner to every member. -/
theorem keepsSync_createPlan (shape : dir.InShape α b.store) (sync : dir.InSync α b.store)
    {record : α} {p : EditPlan α} (h : (dir.createPlan name record).Returns b p) :
    dir.KeepsSync α b.store p := by
  obtain ⟨desired, rfl, hdesired, -, hops, -, staged⟩ := returns_createPlan shape h
  refine ⟨hops ▸ recordOps_puts [record], _, _, staged, fun channel name' ref href => ?_⟩
  rw [hops]
  refine vouches_put (fun heq => ?_) (fun hne => ?_)
  · rw [if_pos heq] at href
    exact (requestedMembers_ok hdesired href).2.2.symm
  · rw [if_neg hne] at href
    exact sync.vouches shape href

/-- A creation of many records gives each member the owner of its record. -/
theorem keepsSync_createAllPlan (shape : dir.InShape α b.store) (sync : dir.InSync α b.store)
    {records : List α} {p : EditPlan (List α)} (h : (dir.createAllPlan records).Returns b p) :
    dir.KeepsSync α b.store p := by
  obtain ⟨hwanted, hops, -, staged⟩ := returns_createAllPlan shape h
  refine ⟨hops ▸ recordOps_puts _, _, _, staged, fun channel name ref href => ?_⟩
  rw [hops]
  refine vouches_puts (fun name record hget => (get?_lastByName hget).2) (fun r hget => ?_)
    (fun hget => ?_)
  · rw [hget] at href
    exact (requestedMembers_ok (hwanted name r hget).1 href).2.2.symm
  · rw [hget] at href
    exact sync.vouches shape href

/-- A deletion takes the record off all its members. -/
theorem keepsSync_removePlan (shape : dir.InShape α b.store) (sync : dir.InSync α b.store)
    {p : EditPlan Unit} (h : (dir.removePlan α name).Returns b p) : dir.KeepsSync α b.store p := by
  obtain ⟨-, hops, -, staged⟩ := returns_removePlan shape h
  refine ⟨hops ▸ recordOps_delete name, _, _, staged, fun channel name' ref href => ?_⟩
  rw [hops]
  split at href
  · cases href
  · rename_i hne
    exact vouches_delete hne (sync.vouches shape href)

/-- An update of many records gives each member the owner of its record. -/
theorem keepsSync_updateAllPlan (shape : dir.InShape α b.store) (sync : dir.InSync α b.store)
    {records : List α} {p : EditPlan (List α)} (h : (dir.updateAllPlan records).Returns b p) :
    dir.KeepsSync α b.store p := by
  obtain ⟨hwanted, hops, -, staged⟩ := returns_updateAllPlan shape h
  refine ⟨hops ▸ recordOps_puts _, _, _, staged, fun channel name ref href => ?_⟩
  rw [hops, Vouches, get?_contents_after_updateAll]
  cases hlast : (lastByName records).get? name with
  | none =>
    rw [hlast] at href
    rw [Option.map_none, Option.or_none]
    exact sync.vouches shape href
  | some r =>
    rw [hlast] at href
    have howner : ∀ {ref}, (wanted (merged ((dir.records α).contents b.store) name r)).get?
        channel = some ref → Reference.owner ref =
          owner (merged ((dir.records α).contents b.store) name r) := fun href =>
      (requestedMembers_ok (hwanted name r hlast).1 href).2.2
    cases hold : ((dir.records α).contents b.store).get? name with
    | some existing =>
      rcases Option.or_eq_some_iff.mp href with href | ⟨-, href⟩
      · exact ⟨existing, rfl, ((howner href).trans (owner_merged hold)).symm⟩
      · obtain ⟨record, hrecord, hsame⟩ := sync.vouches shape href
        exact ⟨record, hold.symm.trans hrecord, hsame⟩
    | none =>
      rcases Option.or_eq_some_iff.mp href with href | ⟨-, href⟩
      · have hnew := howner href
        rw [merged, hold] at hnew
        exact ⟨Entity.stored r, rfl, (owner_stored r).trans hnew.symm⟩
      · obtain ⟨record, hrecord, -⟩ := sync.vouches shape href
        rw [hold] at hrecord
        cases hrecord

variable [LawfulReference ρ]

/-- An update refreshes the owner at every member, and leaves nothing under an old name. -/
theorem keepsSync_updatePlan (shape : dir.InShape α b.store) (sync : dir.InSync α b.store)
    {request : α} {p : EditPlan α} (h : (dir.updatePlan name request).Returns b p) :
    dir.KeepsSync α b.store p := by
  obtain ⟨existing, desired, -, hdesired, -, hops, -, staged⟩ := returns_updatePlan shape h
  refine ⟨hops ▸ recordOps_updateOps name existing request, _, _, staged,
    fun channel name' ref href => ?_⟩
  rw [hops, Vouches, get?_contents_after_updateOps]
  by_cases hnew : name' = updatedName name request
  · rw [if_pos hnew] at href ⊢
    refine ⟨_, rfl, ?_⟩
    rw [owner_stored, updatedRecord, owner_withIdentity, owner_of_updatedMember hdesired href]
  · rw [if_neg hnew] at href ⊢
    by_cases hold : name' = name
    · rw [if_pos hold] at href
      cases href
    · rw [if_neg hold] at href ⊢
      exact sync.vouches shape href

end Plans

end Directory

end ChannelDirectory

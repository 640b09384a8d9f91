import ChannelDirectory.Proofs.Directory.Agreement
import ChannelDirectory.Proofs.Directory.Grouping

/-!
# Commands on one record

The commands that create, update or remove one record, or put it on one channel or take it off, plan
writes of this record and edits of the references to it (`Directory.WritesFor`). Such a plan is
carried out as soon as it is made (`WritesFor.exists_run`). So the command touches nothing else
(`PlansFor.touches`), and where two stores show the same to it, it ends alike on both, and they show
the same to it afterwards (`PlansFor.alike`).
-/

namespace ChannelDirectory

open Attribute ChannelEdits Collection LawfulAttribute Program

namespace Directory

variable {α ρ : Type} [Attribute α ρ] [Reference ρ] [LawfulAttribute α] {dir : Directory}
  {b b' : Backend} {s s' : Store} {name : String} {β : Type} {p : EditPlan β}
  {plan : Program (EditPlan β)} {same : β → β → Prop}

/-- A program that plans for the record of a name, and depends on what concerns it only. -/
structure PlansFor (dir : Directory) (α : Type) {ρ : Type} [Attribute α ρ] [Reference ρ]
    [LawfulAttribute α] (name : String) (same : β → β → Prop) (plan : Program (EditPlan β)) :
    Prop where
  alike : ∀ {b b' : Backend}, dir.InShape α b.store → dir.InShape α b'.store →
    dir.SameMembers α name b b' → Alike Eq plan b plan b'
  writes : ∀ {b : Backend} {p}, dir.InShape α b.store → plan.Returns b p → dir.WritesFor α name b p
  answers : ∀ {b : Backend} {p}, dir.InShape α b.store → plan.Returns b p → ∀ {c c' : Backend},
    dir.InShape α c.store → dir.InShape α c'.store → dir.SameMembers α name c c' →
      Alike same p.answer c p.answer c'

/-! ## What is left alone -/

omit [Attribute α ρ] [Reference ρ] [LawfulAttribute α] in
/-- Without a plan nothing is written. -/
theorem editWrite_run_of_not_returns (hread : plan.ReadOnly) (h : ∀ p, ¬plan.Returns b p) :
    ((dir.editWrite plan hread).program.run b).2 = b := by
  rcases hrun : (dir.editWrite plan hread).program.run b with ⟨outcome, after⟩
  rcases Write.run_cases _ hrun with hsame | ⟨batch, hbatch, -⟩
  · exact hsame
  · obtain ⟨p, -, hplan, -⟩ := (returns_editWrite_plan_iff hread).mp hbatch
    exact absurd hplan (h p)

/-- Where nothing is done, nothing is touched. -/
theorem onlyTouches_refl (shape : dir.InShape α s) (names : List String) :
    dir.OnlyTouches α names s s where
  shape := shape
  same_channels := rfl
  channel id c c' hc hc' := by
    obtain rfl := Option.some.inj (hc.symm.trans hc')
    exact ⟨(setRefs_refs c).symm, rfl⟩
  others _ _ _ _ := rfl

/-- Carrying out a plan for one record touches this record only. -/
theorem WritesFor.onlyTouches [LawfulEntity α] (shape : dir.InShape α b.store)
    (h : dir.WritesFor α name b p) (edited : dir.Edited α p.ops p.edits b.store s') :
    dir.OnlyTouches α [name] b.store s' := by
  refine edited.onlyTouches shape h.about (fun _ hname => List.mem_singleton.mpr hname) ?_
  intro id hid
  have hdoc : (b.store.after p.ops).get? (dir.records α).index id =
      b.store.get? (dir.records α).index id :=
    Store.get?_after_of_ne _ fun op hop hsame =>
      hid (List.mem_singleton.mpr (hsame.2.symm.trans (h.ids op hop)))
  rw [get?_contents, get?_contents, hdoc]

/-- A command that plans for one record touches this one only. -/
theorem PlansFor.touches [LawfulEntity α] (indices : dir.config.DistinctIndices)
    (shape : dir.InShape α b.store) (hread : plan.ReadOnly) (h : dir.PlansFor α name same plan) :
    ∃ s', ((dir.editWrite plan hread).program.run b).2 = { b with store := s' } ∧
      dir.OnlyTouches α [name] b.store s' := by
  by_cases hplan : ∃ p, plan.Returns b p
  · obtain ⟨p, hplan⟩ := hplan
    obtain ⟨ops, hrun, edited, -⟩ := (h.writes shape hplan).exists_run indices shape hread hplan
    refine ⟨b.store.after ops, ?_, (h.writes shape hplan).onlyTouches shape edited⟩
    rw [hrun, p.readOnly_answer.run_snd]
    rfl
  · exact ⟨b.store, editWrite_run_of_not_returns hread fun p hp => hplan ⟨p, hp⟩,
      onlyTouches_refl shape _⟩

/-! ## The same plan in two stores -/

/-- The same edits on stores with the same channels and the same members lead to the same
members. -/
theorem Edited.membersOf_congr {ops : List Operation} {edits : ChannelEdits}
    {names : String → Prop} {t t' : Store} (wf : dir.channels.HoldsOnly Channel.Distinct s)
    (wf' : dir.channels.HoldsOnly Channel.Distinct s') (hedits : edits.About α names)
    (edited : dir.Edited α ops edits s t) (edited' : dir.Edited α ops edits s' t')
    (hkeys : (dir.channels.contents s).keys = (dir.channels.contents s').keys)
    (hmembers : dir.membersOf α s name = dir.membersOf α s' name) :
    dir.membersOf α t name = dir.membersOf α t' name := by
  refine KeyMap.ext_get? fun channel => ?_
  have href : dir.refAt? α s channel name = dir.refAt? α s' channel name := by
    rw [← get?_membersOf, ← get?_membersOf, hmembers]
  rw [get?_membersOf, get?_membersOf, refAt?, refAt?, edited.channels, edited'.channels,
    KeyMap.get?_mapValues, KeyMap.get?_mapValues]
  rcases KeyMap.get?_cases_of_keys hkeys channel with ⟨hc, hc'⟩ | ⟨c, c', hc, hc'⟩
  · rw [hc, hc']
  · rw [refAt?, refAt?, hc, hc'] at href
    rw [hc, hc']
    exact hedits.currentRef?_applyTo_congr ((wf.name_eq hc).trans (wf'.name_eq hc').symm) href

/-- What concerns a record stays the same if the same plan for it is carried out. -/
theorem SameMembers.edited [LawfulEntity α] (shape : dir.InShape α b.store)
    (shape' : dir.InShape α b'.store) (h : dir.SameMembers α name b b')
    (hedits : p.edits.About α (· = name)) (edited : dir.Edited α p.ops p.edits b.store s)
    (edited' : dir.Edited α p.ops p.edits b'.store s') :
    dir.SameMembers α name { b with store := s } { b' with store := s' } where
  available := h.available
  window := h.window
  channels := by
    change (dir.channels.contents s).keys = (dir.channels.contents s').keys
    rw [edited.channels, edited'.channels, KeyMap.keys_mapValues, KeyMap.keys_mapValues, h.channels]
  record := by
    have hdoc : (b.store.after p.ops).get? (dir.records α).index name =
        (b'.store.after p.ops).get? (dir.records α).index name :=
      Store.get?_after_congr h.record p.ops
    have hread := edited.shape.records.get?_store name
    have hread' := edited'.shape.records.get?_store name
    rw [edited.records, get?_contents, hdoc, ← get?_contents, ← edited'.records, ← hread'] at hread
    exact hread
  members := Edited.membersOf_congr shape.channels shape'.channels hedits edited edited' h.channels
    h.members

/-- The indices that a program makes. -/
def Makes (made : String → Bool) (b after : Backend) : Prop :=
  ∀ index, after.store.indices.contains index = (b.store.indices.contains index || made index)

/-- Where two stores show the same to a command on one record, it ends alike, they show the same to
it afterwards, and it has made the same indices. -/
theorem PlansFor.run_alike [LawfulEntity α] (indices : dir.config.DistinctIndices)
    (shape : dir.InShape α b.store) (shape' : dir.InShape α b'.store) (hread : plan.ReadOnly)
    (h : dir.PlansFor α name same plan) (hsame : dir.SameMembers α name b b') :
    Alike same (dir.editWrite plan hread).program b (dir.editWrite plan hread).program b' ∧
      dir.SameMembers α name ((dir.editWrite plan hread).program.run b).2
        ((dir.editWrite plan hread).program.run b').2 ∧
      ∃ made, Makes made b ((dir.editWrite plan hread).program.run b).2 ∧
        Makes made b' ((dir.editWrite plan hread).program.run b').2 := by
  have hplans := h.alike shape shape' hsame
  by_cases hplan : ∃ p, plan.Returns b p
  · obtain ⟨p, hplan⟩ := hplan
    have hplan' := hplans.returns hplan
    have hwrites := h.writes shape hplan
    obtain ⟨ops, hrun, edited, hindices⟩ := hwrites.exists_run indices shape hread hplan
    obtain ⟨ops', hrun', edited', hindices'⟩ :=
      (h.writes shape' hplan').exists_run indices shape' hread hplan'
    have hafter : dir.SameMembers α name (b.after ops) (b'.after ops') :=
      hsame.edited shape shape' hwrites.about edited edited'
    rw [Alike, hrun, hrun', p.readOnly_answer.run_snd, p.readOnly_answer.run_snd]
    refine ⟨h.answers shape hplan edited.shape edited'.shape hafter, hafter,
      fun index => p.ops.any fun op => op.action = .put ∧ op.index = index, fun index => ?_,
      fun index => ?_⟩
    · exact (hindices index).trans (Store.contains_after _ _ index)
    · exact (hindices' index).trans (Store.contains_after _ _ index)
  · have hplan' : ¬∃ p, plan.Returns b' p := by
      rintro ⟨p, hp⟩
      exact hplan ⟨p, (Outcome.alike_eq_iff.mp hplans).trans hp⟩
    rw [editWrite_run_of_not_returns hread fun p hp => hplan ⟨p, hp⟩,
      editWrite_run_of_not_returns hread fun p hp => hplan' ⟨p, hp⟩]
    refine ⟨?_, hsame, fun _ => false, fun index => (Bool.or_false _).symm,
      fun index => (Bool.or_false _).symm⟩
    rw [editWrite_program]
    exact hplans.bind_eq hread fun p hp => absurd ⟨p, hp⟩ hplan

/-! ## The plans of the commands -/

omit [Attribute α ρ] [Reference ρ] [LawfulAttribute α] in
/-- The only channel that is edited is stored. -/
theorem applicable_modify {stored : KeyMap Channel} {channel : String} {c : Channel}
    (hc : stored.get? channel = some c) (f : ChannelEdit → ChannelEdit) :
    (ChannelEdits.modify KeyMap.empty channel f).Applicable stored := by
  refine applicable_of_stored fun name hname => ?_
  rcases KeyMap.mem_keys_insert.mp hname with rfl | hnone
  · exact ⟨c, hc⟩
  · exact absurd hnone List.not_mem_nil

omit [LawfulAttribute α] in
/-- An update under the same name edits members and desired members only. -/
theorem applicable_refreshOthers [DecidableEq ρ] {desired : KeyMap ρ} {refresh : ρ → ρ}
    (hdesired : ∀ channel ref, desired.get? channel = some ref →
      ∃ c, (dir.channels.contents s).get? channel = some c) :
    (stage α KeyMap.empty name ((Delta.merge (dir.membersOf α s name) desired).refreshOthers
      (dir.membersOf α s name) refresh)).Applicable (dir.channels.contents s) := by
  refine applicable_of_stored fun channel hchannel => ?_
  rcases mem_keys_of_mem_keys_stage hchannel with hnone | hremoved | ⟨⟨channel, ref⟩, he, rfl⟩
  · exact absurd hnone List.not_mem_nil
  · rw [Delta.removed_refreshOthers] at hremoved
    exact absurd hremoved List.not_mem_nil
  · -- A channel without a reference to write is neither a member nor desired.
    change ∃ c, (dir.channels.contents s).get? channel = some c
    by_contra habsent
    have hmember : (dir.membersOf α s name).get? channel = none := by
      by_contra hne
      obtain ⟨ref, href⟩ := Option.ne_none_iff_exists'.mp hne
      exact habsent (exists_of_get?_membersOf href)
    have hwanted : desired.get? channel = none := by
      by_contra hne
      obtain ⟨ref, href⟩ := Option.ne_none_iff_exists'.mp hne
      exact habsent (hdesired channel ref href)
    have hput := Delta.put?_refreshOthers (Delta.merge (dir.membersOf α s name) desired)
      (dir.membersOf α s name) refresh channel
    rw [Delta.put?_merge, hmember, hwanted, Option.bind_none, Option.filter_none, ite_self,
      Option.or_none, Delta.put?, Option.or_eq_none_iff] at hput
    rcases Delta.mem_upserts.mp he with hadded | hrefreshed
    · exact Option.some_ne_none ref (hadded.symm.trans hput.2)
    · exact Option.some_ne_none ref (hrefreshed.symm.trans hput.1)

section Plans

variable [LawfulEntity α]

/-- An assignment to one channel is planned from its record only. -/
theorem plansFor_addPlan (channel : String) (request : α) :
    dir.PlansFor α name Eq (dir.addPlan name channel request) where
  alike shape shape' hsame := alike_addPlan shape shape' hsame.toSameRecord channel request
  writes shape hplan := by
    obtain ⟨-, havail, ⟨c, hc⟩, record, ref, hget, href, rfl⟩ :=
      (returns_addPlan_iff shape).mp hplan
    have hname : Reference.name ref = name := by
      rw [(singleRef_ok href).1, shape.records.name_eq hget]
    exact ⟨havail, putsOrDeletes_puts [], recordOps_nil, List.forall_mem_nil _,
      (about_empty _).putEdit channel hname, applicable_modify hc _⟩
  answers shape hplan := by
    obtain ⟨-, -, -, record, ref, -, -, rfl⟩ := (returns_addPlan_iff shape).mp hplan
    exact fun _ _ _ => alike_done rfl

/-- Taking a record off one channel is planned from this record only. -/
theorem plansFor_removeFromPlan (channel : String) :
    dir.PlansFor α name Eq (dir.removeFromPlan α name channel) where
  alike shape shape' hsame := alike_removeFromPlan shape shape' hsame.toSameRecord channel
  writes shape hplan := by
    obtain ⟨havail, -, ⟨c, hc⟩, rfl⟩ := (returns_removeFromPlan_iff shape).mp hplan
    exact ⟨havail, putsOrDeletes_puts (α := α) [], recordOps_nil, List.forall_mem_nil _,
      (about_empty _).removeEdit channel rfl, applicable_modify hc _⟩
  answers shape hplan := by
    obtain ⟨-, -, -, rfl⟩ := (returns_removeFromPlan_iff shape).mp hplan
    exact fun _ _ _ => alike_done rfl

variable [DecidableEq ρ]

/-- A deletion is planned from its record only. -/
theorem plansFor_removePlan : dir.PlansFor α name Eq (dir.removePlan α name) where
  alike := alike_removePlan
  writes {b p} shape hplan := by
    obtain ⟨-, hlists, rfl⟩ := (returns_removePlan_iff shape).mp hplan
    refine ⟨hlists.available, putsOrDeletes_delete name, recordOps_delete name,
      List.forall_mem_singleton.mpr rfl, (about_empty _).stage (Delta.names_strip _) rfl,
      applicable_of_stored fun channel hchannel => ?_⟩
    rcases mem_keys_of_mem_keys_stage hchannel with hnone | hremoved | ⟨e, he, -⟩
    · exact absurd hnone List.not_mem_nil
    · rw [Delta.strip, KeyMap.keys_mapValues] at hremoved
      obtain ⟨ref, href⟩ := KeyMap.mem_keys_iff.mp hremoved
      exact exists_of_get?_membersOf href
    · exact absurd he List.not_mem_nil
  answers shape hplan := by
    obtain ⟨-, -, rfl⟩ := (returns_removePlan_iff shape).mp hplan
    exact fun _ _ _ => alike_done rfl

variable [LawfulRecord α]

/-- A creation is planned from its record only ; its answer may list its members in another
order. -/
theorem plansFor_createPlan (record : α) :
    dir.PlansFor α name (SameAnswer name) (dir.createPlan name record) where
  alike shape shape' hsame := alike_createPlan shape shape' hsame record
  writes shape hplan := by
    obtain ⟨rfl, hadmits, rfl⟩ := (returns_createPlan_iff shape.channels).mp hplan
    exact hadmits.writesFor shape.channels
  answers shape hplan := by
    obtain ⟨-, -, rfl⟩ := (returns_createPlan_iff shape.channels).mp hplan
    exact alike_readAttribute

variable [LawfulReference ρ]

/-- An update in place is planned from its record only. -/
theorem plansFor_updatePlan {request : α} (hname : updatedName name request = name) :
    dir.PlansFor α name (SameAnswer name) (dir.updatePlan name request) where
  alike shape shape' hsame := alike_updatePlan shape shape' hsame hname
  writes shape hplan := by
    obtain ⟨_, _, -, -, -, -, -, staged⟩ := returns_updatePlan shape hplan
    have habout := staged.about.mono fun n (h : n = name ∨ n = updatedName name request) =>
      h.elim id fun hnew => hnew.trans hname
    obtain ⟨existing, desired, -, hcheck, hdesired, hlists, -, rfl⟩ :=
      (returns_updatePlan_iff shape).mp hplan
    refine ⟨hlists.available, putsOrDeletes_updateOps name existing request,
      recordOps_updateOps name existing request, ?_, habout, ?_⟩
    · change ∀ op ∈ dir.updateOps name existing request, op.id = name
      rw [updateOps, if_pos hname]
      exact List.forall_mem_singleton.mpr ((name_withIdentity request _ _).trans hname)
    · change (dir.updateEdits _ name existing request desired).Applicable _
      rw [updateEdits, if_pos hname]
      exact applicable_refreshOthers fun channel ref =>
        exists_stored_of_requested (returns_checkRecord shape.channels hcheck).2 hdesired
  answers shape hplan := by
    obtain ⟨existing, desired, -, -, -, -, -, rfl⟩ := (returns_updatePlan_iff shape).mp hplan
    change ∀ {c c' : Backend}, _ → _ → _ →
      Alike _ (dir.readAttribute α (updatedName name request) true) c
        (dir.readAttribute α (updatedName name request) true) c'
    rw [hname]
    exact alike_readAttribute

end Plans

end Directory

end ChannelDirectory

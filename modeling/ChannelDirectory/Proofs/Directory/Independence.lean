import ChannelDirectory.Proofs.Directory.Commands
import ChannelDirectory.Proofs.Directory.OneRecord

/-!
# Commands on different records

Two commands, each on one tag or one property, do not depend on their order if they are about
different ones : each of them ends the same way before the other and after it, and both orders lead
to the same documents, up to the order of the references in channels (`Directory.commands_commute`).

A command leaves alone what concerns the records outside of its scope (`LeavesOutside`), and what it
comes to is determined by what concerns those in it (`ActsOn.alike`). So with scopes that are apart,
neither of two commands sees what the other one does (`ActsOn.commute`). That both write the same
channels does not matter : a channel is read, edited and replaced as a whole, but the edits of one
command only change references of the names in its scope.
-/

namespace ChannelDirectory

open Attribute Collection LawfulAttribute Program

/-- Two lists with one reference of each name are the same up to their order if the same references
are found in them. -/
theorem perm_of_findRef? {ρ : Type} [Reference ρ] {refs refs' : List ρ} (h : DistinctRefs refs)
    (h' : DistinctRefs refs') (hsame : ∀ name, findRef? refs name = findRef? refs' name) :
    refs.Perm refs' := by
  refine (List.perm_ext_iff_of_nodup (List.Nodup.of_map _ h) (List.Nodup.of_map _ h')).mpr
    fun ref => ?_
  have hmem : ∀ {refs : List ρ}, DistinctRefs refs →
      (ref ∈ refs ↔ findRef? refs (Reference.name ref) = some ref) := by
    intro refs h
    rw [findRef?_eq_some_iff h, and_iff_left rfl]
  rw [hmem h, hmem h', hsame]

/-- The reference of a name is among those that are kept with the name. -/
theorem findRef?_filter {ρ : Type} [Reference ρ] (keep : String → Bool) {name : String}
    (h : keep name = true) (refs : List ρ) :
    findRef? (refs.filter fun r => keep (Reference.name r)) name = findRef? refs name := by
  rw [findRef?, List.find?_filter]
  congr 1
  funext ref
  by_cases href : Reference.name ref = name <;> simp [href, h]

namespace Directory

variable {dir : Directory} {b b' : Backend} {s s' : Store}

/-! ## Stores up to the order of references -/

/-- The channels are the same up to the order of their references. -/
structure SameChannel (c c' : Channel) : Prop where
  name : c.name = c'.name
  owner : c.owner = c'.owner
  tags : c.tags.Perm c'.tags
  properties : c.properties.Perm c'.properties

/-- The stores have the same indices and the same documents, up to the order of the references in
channels. -/
structure SameUpToOrder (dir : Directory) (s s' : Store) : Prop where
  indices : ∀ index, s.indices.contains index = s'.indices.contains index
  channels : ∀ id, Option.Rel (fun doc doc' => ∃ c c' : Channel, doc = toDocument c ∧
    doc' = toDocument c' ∧ SameChannel c c') (s.get? dir.config.channelIndex id)
      (s'.get? dir.config.channelIndex id)
  others : ∀ index, index ≠ dir.config.channelIndex → s.documents index = s'.documents index

/-! ## Scopes -/

/-- Names of tags and names of properties. -/
structure Scope where
  tags : String → Prop
  properties : String → Prop

/-- One tag. -/
def Scope.tag (name : String) : Scope := ⟨(· = name), fun _ => False⟩

/-- One property. -/
def Scope.property (name : String) : Scope := ⟨fun _ => False, (· = name)⟩

/-- The scopes have nothing in common. -/
structure Scope.Apart (scope scope' : Scope) : Prop where
  tags : ∀ name, scope.tags name → ¬scope'.tags name
  properties : ∀ name, scope.properties name → ¬scope'.properties name

/-- Two tags of different names do not meet. -/
theorem Scope.apart_tag {name name' : String} (h : name ≠ name') :
    (Scope.tag name).Apart (.tag name') where
  tags _ hname hname' := h (hname.symm.trans hname')
  properties _ hnone := hnone.elim

/-- Two properties of different names do not meet. -/
theorem Scope.apart_property {name name' : String} (h : name ≠ name') :
    (Scope.property name).Apart (.property name') where
  tags _ hnone := hnone.elim
  properties _ hname hname' := h (hname.symm.trans hname')

/-- A tag and a property do not meet, not even under one name. -/
theorem Scope.apart_tag_property {name name' : String} :
    (Scope.tag name).Apart (.property name') where
  tags _ _ hnone := hnone
  properties _ hnone := hnone.elim

/-- The backends show the same of all records in a scope. -/
structure SameOn (dir : Directory) (scope : Scope) (b b' : Backend) : Prop where
  tags : ∀ name, scope.tags name → dir.SameMembers Tag name b b'
  properties : ∀ name, scope.properties name → dir.SameMembers Property name b b'

/-- Nothing has changed but records in a scope and references to them. -/
structure LeavesOutside (dir : Directory) (scope : Scope) (b b' : Backend) : Prop where
  wf : dir.WellFormed b'.store
  tags : ∀ name, ¬scope.tags name → dir.SameMembers Tag name b b'
  properties : ∀ name, ¬scope.properties name → dir.SameMembers Property name b b'
  owners : ∀ id, ((dir.channels.contents b'.store).get? id).map Channel.owner =
    ((dir.channels.contents b.store).get? id).map Channel.owner
  others : ∀ index, index ≠ dir.config.channelIndex → index ≠ dir.config.tagIndex →
    index ≠ dir.config.propertyIndex → b'.store.documents index = b.store.documents index

section Attributes

variable {α ρ : Type} [Attribute α ρ] {name name' : String}

theorem SameRecord.trans {b₁ b₂ b₃ : Backend} (h : dir.SameRecord α name b₁ b₂)
    (h' : dir.SameRecord α name b₂ b₃) : dir.SameRecord α name b₁ b₃ :=
  ⟨h.available.trans h'.available, h.record.trans h'.record, h.channels.trans h'.channels⟩

variable [Reference ρ]

theorem SameMembers.symm (h : dir.SameMembers α name b b') : dir.SameMembers α name b' b :=
  ⟨⟨h.available.symm, h.record.symm, h.channels.symm⟩, h.window.symm, h.members.symm⟩

theorem SameMembers.trans {b₁ b₂ b₃ : Backend} (h : dir.SameMembers α name b₁ b₂)
    (h' : dir.SameMembers α name b₂ b₃) : dir.SameMembers α name b₁ b₃ :=
  ⟨h.toSameRecord.trans h'.toSameRecord, h.window.trans h'.window, h.members.trans h'.members⟩

variable [LawfulAttribute α]

/-- References that channels keep are members that stay. -/
theorem OnlyTouches.membersOf_eq {names : List String} (h : dir.OnlyTouches α names s s')
    {γ σ : Type} [Attribute γ σ] [Reference σ]
    (hkept : ∀ id c c', (dir.channels.contents s).get? id = some c →
      (dir.channels.contents s').get? id = some c' →
        currentRef? γ c' name = currentRef? γ c name) :
    dir.membersOf γ s' name = dir.membersOf γ s name := by
  refine KeyMap.ext_get? fun id => ?_
  rw [get?_membersOf, get?_membersOf, refAt?, refAt?]
  rcases KeyMap.get?_cases_of_keys h.same_channels id with ⟨hc', hc⟩ | ⟨c', c, hc', hc⟩
  · rw [hc', hc]
  · rw [hc', hc]
    exact hkept id c c' hc hc'

/-- What concerns another record of the kind is left alone. -/
theorem OnlyTouches.sameMembers (indices : dir.config.DistinctIndices)
    (h : dir.OnlyTouches α [name] b.store s') (hne : name' ≠ name) :
    dir.SameMembers α name' b { b with store := s' } where
  available := rfl
  window := rfl
  channels := h.same_channels.symm
  record := Eq.symm (h.others _ _ (index_ne indices) fun hsame =>
    hne (List.mem_singleton.mp hsame.2))
  members := by
    refine Eq.symm (h.membersOf_eq fun id c c' hc hc' => ?_)
    have hfilter := congrArg (findRef? · name') (h.channel id c c' hc hc').2
    have hkeep : decide (name' ∉ [name]) = true :=
      decide_eq_true fun hmem => hne (List.mem_singleton.mp hmem)
    have hfound : ∀ refs : List ρ, findRef? (refs.filter fun r => Reference.name r ∉ [name]) name' =
        findRef? refs name' := findRef?_filter (fun n => decide (n ∉ [name])) hkeep
    rw [currentRef?, currentRef?, ← hfound, ← hfound (refs α c)]
    exact hfilter

/-- What concerns a record of another kind is left alone. -/
theorem OnlyTouches.sameMembers_of_independent {γ σ : Type} [Attribute γ σ] [Reference σ]
    [LawfulAttribute γ] (indices : dir.config.DistinctIndices) (independent : Independent α γ)
    (h : dir.OnlyTouches α [name] b.store s') :
    dir.SameMembers γ name' b { b with store := s' } where
  available := rfl
  window := rfl
  channels := h.same_channels.symm
  record := Eq.symm (h.others _ _ (index_ne indices) fun hsame =>
    independent.index_ne indices hsame.1.symm)
  members := by
    refine Eq.symm (h.membersOf_eq fun id c c' hc hc' => ?_)
    rw [(h.channel id c c' hc hc').1, currentRef?, independent.refs_setRefs, currentRef?]

/-- Whatever is done to records, no channel changes its owner. -/
theorem OnlyTouches.owners [LawfulRecord α] {names : List String}
    (h : dir.OnlyTouches α names s s') (id : String) :
    ((dir.channels.contents s').get? id).map Channel.owner =
      ((dir.channels.contents s).get? id).map Channel.owner := by
  rcases KeyMap.get?_cases_of_keys h.same_channels id with ⟨hc', hc⟩ | ⟨c', c, hc', hc⟩
  · rw [hc', hc]
  · rw [hc', hc, (h.channel id c c' hc hc').1]
    exact congrArg some (LawfulRecord.owner_setRefs c _)

end Attributes

/-- A change to one tag leaves everything outside the scope of that tag. -/
theorem OnlyTouches.leavesOutside_tag {name : String} (indices : dir.config.DistinctIndices)
    (wf : dir.WellFormed b.store) (h : dir.OnlyTouches Tag [name] b.store s') :
    dir.LeavesOutside (.tag name) b { b with store := s' } where
  wf := ⟨h.shape.channels, h.shape.records, wf.properties.congr (KeyMap.ext_get? fun id =>
    h.others _ id (Ne.symm indices.2.1) fun hsame => indices.2.2 hsame.1.symm)⟩
  tags _ hne := h.sameMembers indices hne
  properties _ _ := h.sameMembers_of_independent indices independent_tag_property
  owners := h.owners
  others index hchannel htag _ := KeyMap.ext_get? fun id =>
    h.others index id hchannel fun hsame => htag hsame.1

/-- A change to one property leaves everything outside the scope of that property. -/
theorem OnlyTouches.leavesOutside_property {name : String} (indices : dir.config.DistinctIndices)
    (wf : dir.WellFormed b.store) (h : dir.OnlyTouches Property [name] b.store s') :
    dir.LeavesOutside (.property name) b { b with store := s' } where
  wf := ⟨h.shape.channels, wf.tags.congr (KeyMap.ext_get? fun id =>
    h.others _ id (Ne.symm indices.1) fun hsame => indices.2.2 hsame.1), h.shape.records⟩
  tags _ _ := h.sameMembers_of_independent indices independent_property_tag
  properties _ hne := h.sameMembers indices hne
  owners := h.owners
  others index hchannel _ hproperty := KeyMap.ext_get? fun id =>
    h.others index id hchannel fun hsame => hproperty hsame.1

/-! ## Programs that act on a scope -/

/-- The program leaves alone what is outside of a scope, and what it does in the scope and how it
ends are determined by what is in it. -/
structure ActsOn (dir : Directory) (scope : Scope) {β : Type} (same : β → β → Prop)
    (p : Program β) : Prop where
  leaves : ∀ {b : Backend}, dir.WellFormed b.store → dir.LeavesOutside scope b (p.run b).2
  alike : ∀ {b b' : Backend}, dir.WellFormed b.store → dir.WellFormed b'.store →
    dir.SameOn scope b b' → Alike same p b p b' ∧ dir.SameOn scope (p.run b).2 (p.run b').2 ∧
      ∃ made, Makes made b (p.run b).2 ∧ Makes made b' (p.run b').2

variable {β γ : Type} {same : β → β → Prop} {same' : γ → γ → Prop} {p : Program β} {q : Program γ}
  {scope scope' : Scope} {name : String}

/-- Rewriting the answer of a program does not change where it acts. -/
theorem ActsOn.map (h : dir.ActsOn scope same p) {f : β → γ}
    (hf : ∀ value value', same value value' → same' (f value) (f value')) :
    dir.ActsOn scope same' (p >>= fun value => done (f value)) where
  leaves wf := by
    rw [run_map_snd]
    exact h.leaves wf
  alike wf wf' hsame := by
    obtain ⟨halike, hafter⟩ := h.alike wf wf' hsame
    rw [run_map_snd, run_map_snd]
    exact ⟨halike.map hf, hafter⟩

/-- The scope holds the record of one name of a kind, and nothing else. -/
structure Scope.IsOnly (dir : Directory) (α : Type) {ρ : Type} [Attribute α ρ] [Reference ρ]
    [LawfulAttribute α] (name : String) (scope : Scope) : Prop where
  shape : ∀ {s : Store}, dir.WellFormed s → dir.InShape α s
  leaves : ∀ {b : Backend} {s' : Store}, dir.WellFormed b.store →
    dir.OnlyTouches α [name] b.store s' → dir.LeavesOutside scope b { b with store := s' }
  same : ∀ {b b' : Backend}, dir.SameOn scope b b' ↔ dir.SameMembers α name b b'

theorem Scope.isOnly_tag (indices : dir.config.DistinctIndices) (name : String) :
    (Scope.tag name).IsOnly dir Tag name where
  shape wf := wf.tagShape
  leaves wf touches := touches.leavesOutside_tag indices wf
  same := ⟨fun h => h.tags name rfl,
    fun h => ⟨fun _ hname => hname ▸ h, fun _ hnone => hnone.elim⟩⟩

theorem Scope.isOnly_property (indices : dir.config.DistinctIndices) (name : String) :
    (Scope.property name).IsOnly dir Property name where
  shape wf := wf.propertyShape
  leaves wf touches := touches.leavesOutside_property indices wf
  same := ⟨fun h => h.properties name rfl,
    fun h => ⟨fun _ hnone => hnone.elim, fun _ hname => hname ▸ h⟩⟩

/-- An edit that is planned from one record only acts on the scope of this record. -/
theorem PlansFor.actsOn {α ρ : Type} [Attribute α ρ] [Reference ρ] [LawfulAttribute α]
    [LawfulEntity α] (indices : dir.config.DistinctIndices) (only : scope.IsOnly dir α name)
    {plan : Program (EditPlan β)} (hread : plan.ReadOnly) (h : dir.PlansFor α name same plan) :
    dir.ActsOn scope same (dir.editWrite plan hread).program where
  leaves {b} wf := by
    obtain ⟨s', hrun, touches⟩ := h.touches indices (b := b) (only.shape wf) hread
    rw [hrun]
    exact only.leaves wf touches
  alike wf wf' hsame := by
    obtain ⟨halike, hafter, hmade⟩ :=
      h.run_alike indices (only.shape wf) (only.shape wf') hread (only.same.mp hsame)
    exact ⟨halike, only.same.mpr hafter, hmade⟩

/-! ## Two programs -/

/-- Stores that show the same of all tags and properties are the same up to the order of
references. -/
theorem sameUpToOrder (wf : dir.WellFormed b.store) (wf' : dir.WellFormed b'.store)
    (tags : ∀ name, dir.SameMembers Tag name b b')
    (properties : ∀ name, dir.SameMembers Property name b b')
    (owners : ∀ id, ((dir.channels.contents b.store).get? id).map Channel.owner =
      ((dir.channels.contents b'.store).get? id).map Channel.owner)
    (others : ∀ index, index ≠ dir.config.channelIndex → index ≠ dir.config.tagIndex →
      index ≠ dir.config.propertyIndex → b.store.documents index = b'.store.documents index)
    (hindices : ∀ index, b.store.indices.contains index = b'.store.indices.contains index) :
    dir.SameUpToOrder b.store b'.store where
  indices := hindices
  channels id := by
    have hdoc := wf.channels.get?_store id
    have hdoc' := wf'.channels.get?_store id
    change b.store.get? dir.config.channelIndex id = _ at hdoc
    change b'.store.get? dir.config.channelIndex id = _ at hdoc'
    rw [hdoc, hdoc']
    have howner := owners id
    rcases KeyMap.get?_cases_of_keys (tags id).channels id with ⟨hc, hc'⟩ | ⟨c, c', hc, hc'⟩
    · rw [hc, hc']
      exact .none
    · have hrefs : ∀ {α ρ : Type} [Attribute α ρ] [Reference ρ],
          (∀ name, dir.SameMembers α name b b') → ∀ name,
            currentRef? α c name = currentRef? α c' name := by
        intro α ρ _ _ hmembers name
        have hmember : dir.refAt? α b.store id name = dir.refAt? α b'.store id name := by
          rw [← get?_membersOf, ← get?_membersOf, (hmembers name).members]
        rw [refAt?, refAt?, hc, hc'] at hmember
        exact hmember
      have hdistinct := (wf.channels.of_get?_contents hc).2
      have hdistinct' := (wf'.channels.of_get?_contents hc').2
      rw [hc, hc'] at howner ⊢
      exact .some ⟨c, c', rfl, rfl, (wf.channels.name_eq hc).trans (wf'.channels.name_eq hc').symm,
        Option.some.inj howner, perm_of_findRef? hdistinct.1 hdistinct'.1 (hrefs tags),
        perm_of_findRef? hdistinct.2 hdistinct'.2 (hrefs properties)⟩
  others index hchannel := by
    by_cases htag : index = dir.config.tagIndex
    · rw [htag]
      exact KeyMap.ext_get? fun id => (tags id).record
    · by_cases hproperty : index = dir.config.propertyIndex
      · rw [hproperty]
        exact KeyMap.ext_get? fun id => (properties id).record
      · exact others index hchannel htag hproperty

/-- Each of two programs ends the same way before the other and after it, and both orders lead to
the same documents, up to the order of references. -/
structure Commute (dir : Directory) (b : Backend) {β γ : Type} (same : β → β → Prop)
    (p : Program β) (same' : γ → γ → Prop) (q : Program γ) : Prop where
  first : Alike same p b p (q.run b).2
  second : Alike same' q b q (p.run b).2
  stores : dir.SameUpToOrder (q.run (p.run b).2).2.store (p.run (q.run b).2).2.store

theorem Scope.Apart.symm (h : scope.Apart scope') : scope'.Apart scope where
  tags name hname' hname := h.tags name hname hname'
  properties name hname' hname := h.properties name hname hname'

/-- What another program leaves alone includes a scope that is apart. -/
theorem LeavesOutside.sameOn (apart : scope.Apart scope') (h : dir.LeavesOutside scope' b b') :
    dir.SameOn scope b b' where
  tags name hname := h.tags name (apart.tags name hname)
  properties name hname := h.properties name (apart.properties name hname)

/-- After both orders the same members are seen : in each scope the program of the other one has
left them alone, and outside of both nothing has changed. -/
theorem sameMembers_of_orders {α ρ : Type} [Attribute α ρ] [Reference ρ] {b₁ b₂ b₁₂ b₂₁ : Backend}
    {names names' : String → Prop} (apart : ∀ name, names name → ¬names' name)
    (h₁ : ∀ name, ¬names name → dir.SameMembers α name b b₁)
    (h₂₁ : ∀ name, ¬names name → dir.SameMembers α name b₂ b₂₁)
    (h₂ : ∀ name, ¬names' name → dir.SameMembers α name b b₂)
    (h₁₂ : ∀ name, ¬names' name → dir.SameMembers α name b₁ b₁₂)
    (hin : ∀ name, names name → dir.SameMembers α name b₁ b₂₁)
    (hin' : ∀ name, names' name → dir.SameMembers α name b₂ b₁₂) (name : String) :
    dir.SameMembers α name b₁₂ b₂₁ := by
  by_cases hname : names name
  · exact (h₁₂ name (apart name hname)).symm.trans (hin name hname)
  · by_cases hname' : names' name
    · exact (hin' name hname').symm.trans (h₂₁ name hname)
    · have hfirst := (h₁ name hname).trans (h₁₂ name hname')
      have hsecond := (h₂ name hname').trans (h₂₁ name hname)
      exact hfirst.symm.trans hsecond

/-- Programs with scopes that are apart do not depend on their order. -/
theorem ActsOn.commute (wf : dir.WellFormed b.store) (apart : scope.Apart scope')
    (hp : dir.ActsOn scope same p) (hq : dir.ActsOn scope' same' q) :
    dir.Commute b same p same' q := by
  have h₁ := hp.leaves wf
  have h₂ := hq.leaves wf
  have h₁₂ := hq.leaves h₁.wf
  have h₂₁ := hp.leaves h₂.wf
  obtain ⟨hfirst, hin, made, hmade₁, hmade₂₁⟩ := hp.alike wf h₂.wf (h₂.sameOn apart)
  obtain ⟨hsecond, hin', made', hmade₂, hmade₁₂⟩ := hq.alike wf h₁.wf (h₁.sameOn apart.symm)
  refine ⟨hfirst, hsecond, sameUpToOrder h₁₂.wf h₂₁.wf ?_ ?_ (fun id => ?_)
    (fun index hchannel htag hproperty => ?_) fun index => ?_⟩
  · exact sameMembers_of_orders apart.tags h₁.tags h₂₁.tags h₂.tags h₁₂.tags hin.tags hin'.tags
  · exact sameMembers_of_orders apart.properties h₁.properties h₂₁.properties h₂.properties
      h₁₂.properties hin.properties hin'.properties
  · rw [h₁₂.owners, h₁.owners, h₂₁.owners, h₂.owners]
  · rw [h₁₂.others index hchannel htag hproperty, h₁.others index hchannel htag hproperty,
      h₂₁.others index hchannel htag hproperty, h₂.others index hchannel htag hproperty]
  · rw [hmade₁₂, hmade₁, hmade₂₁, hmade₂, Bool.or_assoc, Bool.or_comm (made index), Bool.or_assoc]

end Directory

/-! ## Commands -/

section Commands

variable {α ρ : Type} [Attribute α ρ]

/-- The command is about the record of a name, and about no other. -/
def AttributeCommand.IsAbout (name : String) : AttributeCommand α → Prop
  | .create name' _ | .addToChannel name' _ _ | .remove name' | .removeFromChannel name' _ =>
    name' = name
  | .update name' request => name' = name ∧ Directory.updatedName name' request = name'
  | .createMany _ | .updateMany _ => False

namespace Directory

variable [Reference ρ] [DecidableEq ρ]

/-- A write of tags or properties, with the records that it answers. -/
def answering (dir : Directory) : AttributeCommand α → Program (List α)
  | .create name record => dir.createAttribute name record >>= fun answer => done [answer]
  | .createMany records => dir.createAttributes records
  | .addToChannel name channel request =>
    dir.addToChannel name channel request >>= fun answer => done [answer]
  | .update name request => dir.updateAttribute name request >>= fun answer => done [answer]
  | .updateMany records => dir.updateAttributes records
  | .remove name => dir.removeAttribute α name >>= fun _ => done []
  | .removeFromChannel name channel => dir.removeFromChannel α name channel >>= fun _ => done []

variable [LawfulAttribute α] [LawfulEntity α] [LawfulReference ρ] [LawfulRecord α]
  {dir : Directory} {scope : Scope} {name : String}

/-- A command about one record acts on the scope of this record. -/
theorem actsOn_answering (indices : dir.config.DistinctIndices) (only : scope.IsOnly dir α name)
    {command : AttributeCommand α} (h : command.IsAbout name) :
    dir.ActsOn scope (List.Forall₂ (SameAnswer name)) (dir.answering command) := by
  have hanswer : ∀ answer answer' : α, SameAnswer name answer answer' →
      List.Forall₂ (SameAnswer name) [answer] [answer'] := fun _ _ hsame => .cons hsame .nil
  have hequal : ∀ answer answer' : α, answer = answer' →
      List.Forall₂ (SameAnswer name) [answer] [answer'] :=
    fun _ _ hsame => hanswer _ _ (hsame ▸ ⟨rfl, rfl⟩)
  cases command with
  | createMany records => exact h.elim
  | updateMany records => exact h.elim
  | create name' record =>
    obtain rfl : name' = name := h
    rw [answering, createAttribute_eq]
    exact ((plansFor_createPlan record).actsOn indices only _).map hanswer
  | addToChannel name' channel request =>
    obtain rfl : name' = name := h
    rw [answering, addToChannel_eq]
    exact ((plansFor_addPlan channel request).actsOn indices only _).map hequal
  | update name' request =>
    obtain ⟨rfl, hname⟩ : name' = name ∧ updatedName name' request = name' := h
    rw [answering, updateAttribute_eq]
    exact ((plansFor_updatePlan hname).actsOn indices only _).map hanswer
  | remove name' =>
    obtain rfl : name' = name := h
    rw [answering, removeAttribute_eq]
    exact (plansFor_removePlan.actsOn indices only _).map fun _ _ _ => .nil
  | removeFromChannel name' channel =>
    obtain rfl : name' = name := h
    rw [answering, removeFromChannel_eq]
    exact ((plansFor_removeFromPlan channel).actsOn indices only _).map fun _ _ _ => .nil

/-- Two commands on single records can be exchanged. -/
def Exchangeable {γ σ : Type} [Attribute γ σ] [Reference σ] [DecidableEq σ] (dir : Directory)
    (b : Backend) (name name' : String) (first : AttributeCommand α)
    (second : AttributeCommand γ) : Prop :=
  first.IsAbout name → second.IsAbout name' →
    dir.Commute b (List.Forall₂ (SameAnswer name)) (dir.answering first)
      (List.Forall₂ (SameAnswer name')) (dir.answering second)

end Directory

end Commands

namespace Directory

/-- Two commands on different records, each of which creates, updates or deletes one tag or property
under its name, or puts it on one channel or takes it off, do not depend on their order. -/
theorem commands_commute (dir : Directory) (b : Backend) (indices : dir.config.DistinctIndices)
    (wf : dir.WellFormed b.store) (name name' : String) :
    (name ≠ name' → ∀ first second : AttributeCommand Tag,
      dir.Exchangeable b name name' first second) ∧
    (name ≠ name' → ∀ first second : AttributeCommand Property,
      dir.Exchangeable b name name' first second) ∧
    ∀ (first : AttributeCommand Tag) (second : AttributeCommand Property),
      dir.Exchangeable b name name' first second := by
  have tag : ∀ {name : String} {command : AttributeCommand Tag}, command.IsAbout name →
      dir.ActsOn (.tag name) (List.Forall₂ (SameAnswer name)) (dir.answering command) :=
    fun h => actsOn_answering indices (Scope.isOnly_tag indices _) h
  have property : ∀ {name : String} {command : AttributeCommand Property}, command.IsAbout name →
      dir.ActsOn (.property name) (List.Forall₂ (SameAnswer name)) (dir.answering command) :=
    fun h => actsOn_answering indices (Scope.isOnly_property indices _) h
  refine ⟨fun hne first second h h' => ?_, fun hne first second h h' => ?_,
    fun first second h h' => ?_⟩
  · exact (tag h).commute wf (Scope.apart_tag hne) (tag h')
  · exact (property h).commute wf (Scope.apart_property hne) (property h')
  · exact (tag h).commute wf Scope.apart_tag_property (property h')

/-- Two channels that have a tag, and another tag. -/
def tagOnTwo : Backend where
  store := usual.filled [⟨"A", "o", [⟨"t", "x"⟩], []⟩, ⟨"B", "o", [⟨"t", "x"⟩], []⟩]
    [⟨"t", "x", []⟩, ⟨"u", "w", []⟩] []

/-- Gives the one tag another owner. -/
def reownTag : AttributeCommand Tag := .update "t" ⟨"t", "y", []⟩

/-- Puts the other tag on one of the channels. -/
def spreadTag : AttributeCommand Tag := .create "u" ⟨"u", "x", [{ name := "A" }]⟩

/-- The channel with both tags has them in the order in which they are written. -/
theorem reownTag_spreadTag_commute :
    usual.Commute tagOnTwo (List.Forall₂ (SameAnswer "t")) (usual.answering reownTag)
        (List.Forall₂ (SameAnswer "u")) (usual.answering spreadTag) ∧
      (usual.channels.contents ((usual.answering spreadTag).run
        ((usual.answering reownTag).run tagOnTwo).2).2.store).get? "A" =
          some ⟨"A", "o", [⟨"t", "y"⟩, ⟨"u", "x"⟩], []⟩ ∧
      (usual.channels.contents ((usual.answering reownTag).run
        ((usual.answering spreadTag).run tagOnTwo).2).2.store).get? "A" =
          some ⟨"A", "o", [⟨"u", "x"⟩, ⟨"t", "y"⟩], []⟩ := by
  have wf : usual.WellFormed tagOnTwo.store :=
    wellFormed_filled distinctIndices_usual (by decide) _ _
  refine ⟨(commands_commute usual tagOnTwo distinctIndices_usual wf "t" "u").1 (by decide)
    reownTag spreadTag ⟨rfl, by decide⟩ rfl, by cbv, by cbv⟩

end Directory

end ChannelDirectory

import ChannelDirectory.Proofs.Membership.Delta
import ChannelDirectory.Proofs.Membership.LawfulAttribute

/-!
# What staged edits do

A request collects its changes of references in `ChannelEdits`, one edit for each channel.
As long as they are `About` one kind of attributes, the edits leave everything else of a
channel alone : its name, its owner, the references of the other kind, and the references
of names that were never staged, order included.

`currentRef?_putEdit`, `currentRef?_removeEdit` and `currentRef?_stage` say what each way of
staging does to one reference of one channel. Staging a delta carries out `Delta.result` on
it.
-/

namespace ChannelDirectory

open Attribute LawfulAttribute

variable {α ρ : Type} [Attribute α ρ] [Reference ρ] [LawfulAttribute α]

namespace ChannelEdits

variable {edits : ChannelEdits} {names : String → Prop}

variable (α) in
/-- What the edits do to the references of one kind in a channel. -/
def partOf (edits : ChannelEdits) (channel : String) : RefEdit ρ :=
  part α ((edits.get? channel).getD ChannelEdit.empty)

variable (α) in
/-- The edits change references of one kind only, and of some names only, and put each
reference under its own name. -/
structure About (names : String → Prop) (edits : ChannelEdits) : Prop where
  applyTo_eq : ∀ c, edits.applyTo c = setRefs α c (refs α (edits.applyTo c))
  named : ∀ channel, (partOf α edits channel).Named
  mentions : ∀ channel name, (partOf α edits channel).Mentions name → names name

theorem applyTo_eq_apply (edits : ChannelEdits) (c : Channel) :
    edits.applyTo c = ((edits.get? c.name).getD ChannelEdit.empty).apply c := by
  rw [applyTo]
  cases edits.get? c.name <;> rfl

omit [Attribute α ρ] [Reference ρ] [LawfulAttribute α] in
@[simp]
theorem name_applyTo (edits : ChannelEdits) (c : Channel) : (edits.applyTo c).name = c.name := by
  rw [applyTo]
  split <;> rfl

/-- The references of one kind change by the part of the edit that is of this kind. -/
theorem refs_applyTo (edits : ChannelEdits) (c : Channel) :
    refs α (edits.applyTo c) = (partOf α edits c.name).apply (refs α c) := by
  rw [applyTo_eq_apply, refs_apply, partOf]

/-- Modifying one part of the edit of one channel leaves all others. -/
theorem partOf_modify (edits : ChannelEdits) (channel channel' : String)
    (f : RefEdit ρ → RefEdit ρ) :
    partOf α (edits.modify channel (modifyEdit α f)) channel' =
      if channel' = channel then f (partOf α edits channel) else partOf α edits channel' := by
  rw [partOf, modify, KeyMap.get?_insert]
  split
  · rw [Option.getD_some, part_modifyEdit, partOf]
  · rfl

/-! ## Edits of one kind -/

theorem about_empty (names : String → Prop) : About α names KeyMap.empty where
  applyTo_eq c := Eq.symm (setRefs_refs (α := α) c)
  named channel := by
    rw [partOf, KeyMap.get?_empty, Option.getD_none, part_empty]
    exact RefEdit.named_empty
  mentions channel name h := by
    rw [partOf, KeyMap.get?_empty, Option.getD_none, part_empty] at h
    exact absurd h (RefEdit.not_mentions_empty name)

theorem About.mono (h : About α names edits) {names' : String → Prop}
    (hnames : ∀ name, names name → names' name) : About α names' edits :=
  ⟨h.applyTo_eq, h.named, fun channel name hm => hnames name (h.mentions channel name hm)⟩

/-- A change of the references of one kind in one channel. -/
theorem About.modify (h : About α names edits) (channel : String) {f : RefEdit ρ → RefEdit ρ}
    (hnamed : ∀ e : RefEdit ρ, e.Named → (f e).Named)
    (hmentions : ∀ (e : RefEdit ρ) name, (f e).Mentions name → e.Mentions name ∨ names name) :
    About α names (edits.modify channel (modifyEdit α f)) where
  applyTo_eq c := by
    rw [applyTo_eq_apply, ChannelEdits.modify, KeyMap.get?_insert]
    split
    · rename_i hname
      rw [Option.getD_some, apply_modifyEdit, ← hname, ← applyTo_eq_apply, h.applyTo_eq c,
        setRefs_setRefs, refs_setRefs]
    · rw [← applyTo_eq_apply]
      exact h.applyTo_eq c
  named channel' := by
    rw [partOf_modify]
    split
    · exact hnamed _ (h.named channel)
    · exact h.named channel'
  mentions channel' name hm := by
    rw [partOf_modify] at hm
    split at hm
    · rcases hmentions _ name hm with hold | hnew
      · exact h.mentions channel name hold
      · exact hnew
    · exact h.mentions channel' name hm

theorem About.putEdit (h : About α names edits) (channel : String) {ref : ρ}
    (href : names (Reference.name ref)) : About α names (putEdit α edits channel ref) := by
  refine h.modify channel (fun e he => he.putRef ref) fun e name hm => ?_
  rcases RefEdit.mentions_putRef hm with rfl | hold
  · exact Or.inr href
  · exact Or.inl hold

theorem About.removeEdit (h : About α names edits) (channel : String) {name : String}
    (hname : names name) : About α names (removeEdit α edits channel name) := by
  refine h.modify channel (fun e he => he.removeRef name) fun e name' hm => ?_
  rcases RefEdit.mentions_removeRef hm with rfl | hold
  · exact Or.inr hname
  · exact Or.inl hold

/-! ## What such edits leave alone -/

theorem About.distinct_applyTo (h : About α names edits) {c : Channel} (hc : c.Distinct) :
    (edits.applyTo c).Distinct := by
  rw [h.applyTo_eq c, refs_applyTo]
  exact distinct_setRefs hc (RefEdit.distinctRefs_apply (distinct_refs hc))

/-- Edits of one kind leave the references of the other. -/
theorem About.refs_applyTo_independent {β σ : Type} [Attribute β σ] (h : About α names edits)
    (hβ : Independent α β) (c : Channel) : refs β (edits.applyTo c) = refs β c := by
  rw [h.applyTo_eq c, hβ.refs_setRefs]

/-- References of other names stay as they are, in their order. -/
theorem About.filter_applyTo (h : About α names edits) {keep : String → Bool}
    (hkeep : ∀ name, names name → keep name = false) (c : Channel) :
    (refs α (edits.applyTo c)).filter (fun r => keep (Reference.name r)) =
      (refs α c).filter fun r => keep (Reference.name r) := by
  rw [refs_applyTo]
  exact (h.named c.name).filter_apply (fun name hm => hkeep name (h.mentions c.name name hm)) _

/-- What edits make of a reference depends on that reference only. -/
theorem About.currentRef?_applyTo_congr (h : About α names edits) {c c' : Channel} {name : String}
    (hname : c.name = c'.name) (href : currentRef? α c name = currentRef? α c' name) :
    currentRef? α (edits.applyTo c) name = currentRef? α (edits.applyTo c') name := by
  rw [currentRef?, currentRef?, refs_applyTo, refs_applyTo, (h.named c.name).findRef?_apply,
    (h.named c'.name).findRef?_apply, hname]
  exact congrArg _ (congrArg _ href)

/-! ## What staging does to one reference -/

theorem refs_applyTo_modify (edits : ChannelEdits) (channel : String) (f : RefEdit ρ → RefEdit ρ)
    (c : Channel) :
    refs α ((edits.modify channel (modifyEdit α f)).applyTo c) =
      if c.name = channel then (f (partOf α edits c.name)).apply (refs α c)
      else refs α (edits.applyTo c) := by
  rw [refs_applyTo, partOf_modify, refs_applyTo]
  by_cases h : c.name = channel
  · rw [if_pos h, if_pos h, h]
  · rw [if_neg h, if_neg h]

/-- What a channel carries after a put is the reference that is put. -/
theorem About.currentRef?_putEdit (h : About α names edits) (channel : String) (ref : ρ)
    (c : Channel) (name : String) :
    currentRef? α ((Attribute.putEdit α edits channel ref).applyTo c) name =
      if c.name = channel ∧ name = Reference.name ref then some ref
      else currentRef? α (edits.applyTo c) name := by
  rw [currentRef?, Attribute.putEdit, refs_applyTo_modify, currentRef?]
  by_cases hc : c.name = channel
  · rw [if_pos hc, (h.named c.name).findRef?_apply_putRef, refs_applyTo]
    simp [hc]
  · simp [hc]

/-- After a removal a channel carries nothing of the name. -/
theorem About.currentRef?_removeEdit (h : About α names edits) (channel name' : String)
    (c : Channel) (name : String) :
    currentRef? α ((Attribute.removeEdit α edits channel name').applyTo c) name =
      if c.name = channel ∧ name = name' then none
      else currentRef? α (edits.applyTo c) name := by
  rw [currentRef?, Attribute.removeEdit, refs_applyTo_modify, currentRef?]
  by_cases hc : c.name = channel
  · rw [if_pos hc, (h.named c.name).findRef?_apply_removeRef, refs_applyTo]
    simp [hc]
  · simp [hc]

theorem About.foldl_removeEdit (h : About α names edits) {name : String} (hname : names name)
    (channels : List String) :
    About α names
      (channels.foldl (fun edits channel => Attribute.removeEdit α edits channel name) edits) := by
  induction channels generalizing edits with
  | nil => exact h
  | cons channel channels ih => exact ih (h.removeEdit channel hname)

/-- After removals on some channels these carry nothing of the name. -/
theorem About.currentRef?_foldl_removeEdit (h : About α names edits) {name' : String}
    (hname : names name') (channels : List String) (c : Channel) (name : String) :
    currentRef? α
        ((channels.foldl (fun edits channel => Attribute.removeEdit α edits channel name')
          edits).applyTo c) name =
      if c.name ∈ channels ∧ name = name' then none else currentRef? α (edits.applyTo c) name := by
  induction channels generalizing edits with
  | nil => simp
  | cons channel channels ih =>
    rw [List.foldl_cons, ih (h.removeEdit channel hname), h.currentRef?_removeEdit]
    by_cases hchannel : c.name = channel <;> by_cases heq : name = name' <;> simp [hchannel, heq]

theorem About.foldl_putEdit (h : About α names edits) {upserts : List (String × ρ)}
    (hnames : ∀ e ∈ upserts, names (Reference.name e.2)) :
    About α names (upserts.foldl (fun edits e => Attribute.putEdit α edits e.1 e.2) edits) := by
  induction upserts generalizing edits with
  | nil => exact h
  | cons e upserts ih =>
    refine ih (h.putEdit e.1 (hnames e List.mem_cons_self)) fun e' he' => ?_
    exact hnames e' (List.mem_cons_of_mem _ he')

/-- Of references of one name for one channel, the last one that is put counts. -/
theorem About.currentRef?_foldl_putEdit (h : About α names edits) {name' : String}
    (hname : names name') {upserts : List (String × ρ)}
    (hnames : ∀ e ∈ upserts, Reference.name e.2 = name') (c : Channel) (name : String) :
    currentRef? α
        ((upserts.foldl (fun edits e => Attribute.putEdit α edits e.1 e.2) edits).applyTo c) name =
      if name = name' then
        ((KeyMap.ofList upserts).get? c.name).or (currentRef? α (edits.applyTo c) name)
      else currentRef? α (edits.applyTo c) name := by
  induction upserts generalizing edits with
  | nil => simp [KeyMap.ofList]
  | cons e upserts ih =>
    have he : Reference.name e.2 = name' := hnames e List.mem_cons_self
    rw [List.foldl_cons, ih (h.putEdit e.1 (he ▸ hname))
      (fun e' he' => hnames e' (List.mem_cons_of_mem _ he')), h.currentRef?_putEdit,
      KeyMap.get?_ofList_cons, he]
    by_cases hchannel : c.name = e.1 <;> by_cases heq : name = name' <;>
      simp [hchannel, heq]

end ChannelEdits

/-! ## Staging a delta -/

/-- The delta writes references of one name only. -/
def Delta.Names (d : Delta ρ) (name : String) : Prop :=
  ∀ e ∈ d.upserts, Reference.name e.2 = name

namespace ChannelEdits

variable {edits : ChannelEdits} {names : String → Prop} {d : Delta ρ} {name' : String}

/-- Staging a delta of one name adds edits about this name only. -/
theorem About.stage (h : About α names edits) (hd : d.Names name') (hname : names name') :
    About α names (Attribute.stage α edits name' d) :=
  (h.foldl_removeEdit hname d.removed.keys).foldl_putEdit fun e he => (hd e he).symm ▸ hname

/-- A staged delta is carried out on the references of its name. -/
theorem About.currentRef?_stage (h : About α names edits) (hd : d.Names name')
    (hname : names name') (c : Channel) (name : String) :
    currentRef? α ((Attribute.stage α edits name' d).applyTo c) name =
      if name = name' then d.result c.name (currentRef? α (edits.applyTo c) name)
      else currentRef? α (edits.applyTo c) name := by
  have hremove := h.foldl_removeEdit hname d.removed.keys
  refine (hremove.currentRef?_foldl_putEdit hname hd c name).trans ?_
  rw [h.currentRef?_foldl_removeEdit hname, d.get?_ofList_upserts, Delta.result]
  by_cases heq : name = name' <;> simp [heq]

end ChannelEdits

namespace Delta

variable {name : String}

theorem names_strip (current : KeyMap ρ) : (strip current).Names name := by
  intro e he
  cases he

variable [DecidableEq ρ]

omit [Reference ρ] in
/-- A merge writes references of the request. -/
theorem forall_upserts_merge (current : KeyMap ρ) {desired : KeyMap ρ} {Q : ρ → Prop}
    (hdesired : ∀ channel ref, desired.get? channel = some ref → Q ref) :
    ∀ e ∈ (merge current desired).upserts, Q e.2 := by
  intro e he
  rw [mem_upserts, merge, KeyMap.get?_filter, KeyMap.get?_filter, Option.filter_eq_some_iff,
    Option.filter_eq_some_iff] at he
  rcases he with he | he <;> exact hdesired e.1 e.2 he.1

omit [Reference ρ] in
/-- Refreshing others adds references that have been refreshed. -/
theorem forall_upserts_refreshOthers {d : Delta ρ} {Q : ρ → Prop} (hd : ∀ e ∈ d.upserts, Q e.2)
    {current : KeyMap ρ} {refresh : ρ → ρ}
    (hrefresh : ∀ channel ref, current.get? channel = some ref → Q (refresh ref)) :
    ∀ e ∈ (d.refreshOthers current refresh).upserts, Q e.2 := by
  intro e he
  rw [mem_upserts, added_refreshOthers, get?_refreshed_refreshOthers] at he
  rcases he with he | he
  · exact hd e (mem_upserts.mpr (Or.inl he))
  · rw [Option.or_eq_some_iff] at he
    rcases he with he | ⟨-, he⟩
    · exact hd e (mem_upserts.mpr (Or.inr he))
    · split at he
      · cases he
      · obtain ⟨ref, href, he⟩ := Option.bind_eq_some_iff.mp he
        rw [← Option.some.inj (Option.filter_eq_some_iff.mp he).1]
        exact hrefresh e.1 ref href

theorem names_merge {current desired : KeyMap ρ}
    (hdesired : ∀ channel ref, desired.get? channel = some ref → Reference.name ref = name) :
    (merge current desired).Names name :=
  forall_upserts_merge current hdesired

theorem names_replace {current desired : KeyMap ρ}
    (hdesired : ∀ channel ref, desired.get? channel = some ref → Reference.name ref = name) :
    (replace current desired).Names name :=
  forall_upserts_merge current hdesired

theorem names_refreshOthers {d : Delta ρ} (hd : d.Names name) (current : KeyMap ρ)
    {refresh : ρ → ρ} (hrefresh : ∀ ref, Reference.name (refresh ref) = name) :
    (d.refreshOthers current refresh).Names name :=
  forall_upserts_refreshOthers (Q := fun ref => Reference.name ref = name) hd fun _ ref _ =>
    hrefresh ref

end Delta

end ChannelDirectory

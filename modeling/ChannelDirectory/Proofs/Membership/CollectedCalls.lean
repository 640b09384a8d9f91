import Mathlib.Data.Finset.Card
import ChannelDirectory.Proofs.Membership.Composition

/-!
# Collected calls

Puts and removals of tags and properties, for any channels and in any order, are collected in one
edit for each channel. The edit forgets the order of the calls : it keeps a set of removed names and
a map of references that are put, and carries out the removals first. It still does what the calls
would have done one after another (`EditCall.collected_carry_out`), because a call takes back
what an earlier call of its name has left in the edit (`RefCall.findRef?_apply_collect`).

The references of one kind are followed through a list of `RefCall`s. `CallKind` says how the calls
of each kind are found among the calls for a channel.
-/

namespace ChannelDirectory

open Attribute

/-! ## References of one kind -/

/-- A call that changes the references of one kind in a channel. -/
inductive RefCall (ρ : Type) where
  | put (ref : ρ)
  | remove (name : String)

namespace RefCall

variable {ρ : Type} [Reference ρ] {e : RefEdit ρ}

/-- The name that the call is about. -/
def name : RefCall ρ → String
  | put ref => Reference.name ref
  | remove name => name

/-- The reference of this name after the call. -/
def ref? : RefCall ρ → Option ρ
  | put ref => some ref
  | remove _ => none

/-- The edit with the call collected. -/
def collect (e : RefEdit ρ) : RefCall ρ → RefEdit ρ
  | put ref => e.putRef ref
  | remove name => e.removeRef name

/-- The references after the call. -/
def perform (refs : List ρ) : RefCall ρ → List ρ
  | put ref => putRef refs ref
  | remove name => eraseRef refs name

/-- A call decides what is carried under its name, and nothing else. -/
theorem findRef?_perform (call : RefCall ρ) (refs : List ρ) (name : String) :
    findRef? (call.perform refs) name =
      if name = call.name then call.ref? else findRef? refs name := by
  cases call with
  | put ref => exact findRef?_putRef refs ref name
  | remove name' => exact findRef?_eraseRef refs name' name

/-- A call that is collected is seen under its name, whatever was collected before. -/
theorem findRef?_apply_collect (h : e.Named) (call : RefCall ρ) (refs : List ρ) (name : String) :
    findRef? ((call.collect e).apply refs) name =
      if name = call.name then call.ref? else findRef? (e.apply refs) name := by
  cases call with
  | put ref => exact h.findRef?_apply_putRef ref refs name
  | remove name' => exact h.findRef?_apply_removeRef name' refs name

theorem named_collect (h : e.Named) (call : RefCall ρ) : (call.collect e).Named := by
  cases call with
  | put ref => exact h.putRef ref
  | remove name => exact h.removeRef name

/-- Collecting a call mentions its name in addition. -/
theorem mentions_collect_iff (call : RefCall ρ) (name : String) :
    (call.collect e).Mentions name ↔ name = call.name ∨ e.Mentions name := by
  cases call with
  | put ref =>
    refine ⟨RefEdit.mentions_putRef, fun h => ?_⟩
    by_cases hname : name = Reference.name ref
    · exact Or.inl ⟨ref, by simp [collect, RefEdit.putRef, hname]⟩
    · rcases h.resolve_left hname with ⟨other, hput⟩ | hremoved
      · exact Or.inl ⟨other, by simp [collect, RefEdit.putRef, hname, hput]⟩
      · exact Or.inr (KeyMap.mem_keys_erase.mpr ⟨hname, hremoved⟩)
  | remove name' =>
    refine ⟨RefEdit.mentions_removeRef, fun h => ?_⟩
    by_cases hname : name = name'
    · exact Or.inr (KeyMap.mem_keys_insert.mpr (Or.inl hname))
    · rcases h.resolve_left hname with ⟨other, hput⟩ | hremoved
      · exact Or.inl ⟨other, by simp [collect, RefEdit.removeRef, hname, hput]⟩
      · exact Or.inr (KeyMap.mem_keys_insert.mpr (Or.inr hremoved))

/-- A call takes its name out of the part of the edit that it does not put it in. -/
theorem disjoint_collect (h : e.removed.keys.Disjoint e.put.keys) (call : RefCall ρ) :
    (call.collect e).removed.keys.Disjoint (call.collect e).put.keys := by
  cases call with
  | put ref =>
    intro name hremoved hput
    obtain ⟨hne, hremoved⟩ := KeyMap.mem_keys_erase.mp hremoved
    exact h hremoved ((KeyMap.mem_keys_insert.mp hput).resolve_left hne)
  | remove name' =>
    intro name hremoved hput
    obtain ⟨hne, hput⟩ := KeyMap.mem_keys_erase.mp hput
    exact h ((KeyMap.mem_keys_insert.mp hremoved).resolve_left hne) hput

/-! ### Many calls -/

/-- The edit that calls are collected in. -/
def collectAll (calls : List (RefCall ρ)) : RefEdit ρ :=
  calls.foldl collect RefEdit.empty

theorem collectAll_concat (calls : List (RefCall ρ)) (call : RefCall ρ) :
    collectAll (calls ++ [call]) = call.collect (collectAll calls) :=
  List.foldl_concat collect RefEdit.empty call calls

theorem named_collectAll (calls : List (RefCall ρ)) : (collectAll calls).Named := by
  induction calls using List.reverseRecOn with
  | nil => exact RefEdit.named_empty
  | append_singleton calls call ih =>
    rw [collectAll_concat]
    exact named_collect ih call

/-- The names that are mentioned are those of the calls. -/
theorem mentions_collectAll_iff (calls : List (RefCall ρ)) (name : String) :
    (collectAll calls).Mentions name ↔ name ∈ calls.map RefCall.name := by
  induction calls using List.reverseRecOn with
  | nil => exact iff_of_false (RefEdit.not_mentions_empty name) List.not_mem_nil
  | append_singleton calls call ih =>
    rw [collectAll_concat, mentions_collect_iff, ih, List.map_append, List.mem_append, or_comm,
      List.map_singleton, List.mem_singleton]

/-- No name is both removed and put : the later call takes back the earlier one. -/
theorem disjoint_collectAll (calls : List (RefCall ρ)) :
    (collectAll calls).removed.keys.Disjoint (collectAll calls).put.keys := by
  induction calls using List.reverseRecOn with
  | nil => exact List.disjoint_nil_left _
  | append_singleton calls call ih =>
    rw [collectAll_concat]
    exact disjoint_collect ih call

/-- Collected calls give each name the reference that the calls give it one after another. -/
theorem findRef?_apply_collectAll (calls : List (RefCall ρ)) (refs : List ρ) (name : String) :
    findRef? ((collectAll calls).apply refs) name = findRef? (calls.foldl perform refs) name := by
  induction calls using List.reverseRecOn with
  | nil => rfl
  | append_singleton calls call ih =>
    rw [collectAll_concat, findRef?_apply_collect (named_collectAll calls), List.foldl_concat,
      findRef?_perform, ih]

/-- References whose names are in no call come first, in their order, and then what is put. -/
theorem apply_collectAll (calls : List (RefCall ρ)) (refs : List ρ) :
    (collectAll calls).apply refs =
      (refs.filter fun r => Reference.name r ∉ calls.map RefCall.name) ++
        (collectAll calls).put.values := by
  rw [(named_collectAll calls).apply_eq]
  congr 1
  refine List.filter_congr fun r _ => ?_
  rw [decide_eq_decide, ← mentions_collectAll_iff, RefEdit.Mentions, not_or, and_comm,
    KeyMap.mem_keys_iff]

end RefCall

/-! ## Channels -/

/-- A call that changes the references of a channel. -/
inductive EditCall where
  | putTag (channel : String) (tag : TagRef)
  | removeTag (channel name : String)
  | putProperty (channel : String) (property : PropertyRef)
  | removeProperty (channel name : String)

namespace EditCall

/-- The channel that the call is addressed to. -/
def channel : EditCall → String
  | putTag channel _ => channel
  | removeTag channel _ => channel
  | putProperty channel _ => channel
  | removeProperty channel _ => channel

/-- The edits with the call collected. -/
def collect (edits : ChannelEdits) : EditCall → ChannelEdits
  | putTag channel tag => edits.putTag channel tag
  | removeTag channel name => edits.removeTag channel name
  | putProperty channel property => edits.putProperty channel property
  | removeProperty channel name => edits.removeProperty channel name

/-- The channel after the call. -/
def perform (c : Channel) : EditCall → Channel
  | putTag _ tag => c.addTag tag
  | removeTag _ name => c.removeTag name
  | putProperty _ property => c.addProperty property
  | removeProperty _ name => c.removeProperty name

@[simp]
theorem name_perform (c : Channel) (call : EditCall) : (call.perform c).name = c.name := by
  cases call <;> rfl

@[simp]
theorem owner_perform (c : Channel) (call : EditCall) : (call.perform c).owner = c.owner := by
  cases call <;> rfl

end EditCall

/-- The calls that change references of one kind. -/
class CallKind (α : Type) {ρ : outParam Type} [Attribute α ρ] [Reference ρ]
    [LawfulAttribute α] where
  /-- The change that a call makes to the references of this kind, if it makes one. -/
  changes : EditCall → List (RefCall ρ)
  partOf_collect : ∀ (edits : ChannelEdits) (call : EditCall) (channel : String),
    ChannelEdits.partOf α (call.collect edits) channel =
      if channel = call.channel then
        (changes call).foldl RefCall.collect (ChannelEdits.partOf α edits channel)
      else ChannelEdits.partOf α edits channel
  refs_perform : ∀ (c : Channel) (call : EditCall),
    refs α (call.perform c) = (changes call).foldl RefCall.perform (refs α c)

namespace ChannelEdits

/-- Modifying the edit of one channel leaves those of the others. -/
theorem getD_modify (edits : ChannelEdits) (channel channel' : String)
    (f : ChannelEdit → ChannelEdit) :
    ((edits.modify channel f).get? channel').getD ChannelEdit.empty =
      if channel' = channel then f ((edits.get? channel').getD ChannelEdit.empty)
      else (edits.get? channel').getD ChannelEdit.empty := by
  rw [modify, KeyMap.get?_insert]
  split
  · rename_i h
    rw [h, Option.getD_some]
  · rfl

theorem owner_applyTo (edits : ChannelEdits) (c : Channel) : (edits.applyTo c).owner = c.owner := by
  rw [applyTo]
  split <;> rfl

/-- Edits leave one reference for each name. -/
theorem distinct_applyTo {c : Channel} (hc : c.Distinct) (edits : ChannelEdits) :
    (edits.applyTo c).Distinct := by
  have htags := refs_applyTo (α := Tag) edits c
  have hproperties := refs_applyTo (α := Property) edits c
  change (edits.applyTo c).tags = _ at htags
  change (edits.applyTo c).properties = _ at hproperties
  rw [Channel.Distinct, htags, hproperties]
  exact ⟨RefEdit.distinctRefs_apply hc.1, RefEdit.distinctRefs_apply hc.2⟩

end ChannelEdits

instance : CallKind Tag where
  changes
    | .putTag _ tag => [.put tag]
    | .removeTag _ name => [.remove name]
    | .putProperty _ _ => []
    | .removeProperty _ _ => []
  partOf_collect edits call channel := by
    cases call <;>
    · refine (congrArg ChannelEdit.tags (ChannelEdits.getD_modify edits _ channel _)).trans ?_
      rw [apply_ite ChannelEdit.tags]
      rfl
  refs_perform c call := by cases call <;> rfl

instance : CallKind Property where
  changes
    | .putTag _ _ => []
    | .removeTag _ _ => []
    | .putProperty _ property => [.put property]
    | .removeProperty _ name => [.remove name]
  partOf_collect edits call channel := by
    cases call <;>
    · refine (congrArg ChannelEdit.properties
        (ChannelEdits.getD_modify edits _ channel _)).trans ?_
      rw [apply_ite ChannelEdit.properties]
      rfl
  refs_perform c call := by cases call <;> rfl

namespace EditCall

/-- The edits that calls are collected in. -/
def collectAll (calls : List EditCall) : ChannelEdits :=
  calls.foldl collect KeyMap.empty

/-- The calls addressed to a channel. -/
def addressedTo (channel : String) (calls : List EditCall) : List EditCall :=
  calls.filter fun call => call.channel = channel

/-- The channel after the calls that are addressed to it, one after another. -/
def performAll (calls : List EditCall) (c : Channel) : Channel :=
  (addressedTo c.name calls).foldl perform c

section Kinds

variable {α ρ : Type} [Attribute α ρ] [Reference ρ] [LawfulAttribute α] [CallKind α]

variable (α) in
/-- The changes that calls make to the references of one kind in a channel. -/
def changesOf (channel : String) (calls : List EditCall) : List (RefCall ρ) :=
  (addressedTo channel calls).flatMap (CallKind.changes α)

theorem collectAll_concat (calls : List EditCall) (call : EditCall) :
    collectAll (calls ++ [call]) = call.collect (collectAll calls) :=
  List.foldl_concat collect KeyMap.empty call calls

theorem changesOf_concat (channel : String) (calls : List EditCall) (call : EditCall) :
    changesOf α channel (calls ++ [call]) =
      changesOf α channel calls ++
        if channel = call.channel then CallKind.changes α call else [] := by
  by_cases h : call.channel = channel
  · simp [changesOf, addressedTo, h]
  · simp [changesOf, addressedTo, h, Ne.symm h]

/-- In the edits of a channel, the calls of one kind are collected as if they were alone. -/
theorem partOf_collectAll (calls : List EditCall) (channel : String) :
    ChannelEdits.partOf α (collectAll calls) channel =
      RefCall.collectAll (changesOf α channel calls) := by
  induction calls using List.reverseRecOn with
  | nil => exact LawfulAttribute.part_empty
  | append_singleton calls call ih =>
    rw [collectAll_concat, CallKind.partOf_collect, ih, changesOf_concat, RefCall.collectAll,
      RefCall.collectAll, List.foldl_append]
    split <;> rfl

/-- The references of one kind change by the calls of this kind only. -/
theorem refs_foldl_perform (calls : List EditCall) (c : Channel) :
    refs α (calls.foldl perform c) =
      (calls.flatMap (CallKind.changes α)).foldl RefCall.perform (refs α c) := by
  induction calls generalizing c with
  | nil => rfl
  | cons call calls ih =>
    rw [List.foldl_cons, ih, CallKind.refs_perform, List.flatMap_cons, List.foldl_append]

/-- The collected calls leave each reference as the calls do. -/
theorem currentRef?_applyTo_collectAll (calls : List EditCall) (c : Channel) (name : String) :
    currentRef? α ((collectAll calls).applyTo c) name =
      currentRef? α (performAll calls c) name := by
  rw [currentRef?, ChannelEdits.refs_applyTo, partOf_collectAll, RefCall.findRef?_apply_collectAll,
    currentRef?, performAll, refs_foldl_perform, changesOf]

/-- Collected edits keep the references that no call names, in their order, and append what is
put. -/
theorem refs_applyTo_collectAll (calls : List EditCall) (c : Channel) :
    refs α ((collectAll calls).applyTo c) =
      ((refs α c).filter fun r =>
        Reference.name r ∉ (changesOf α c.name calls).map RefCall.name) ++
        (ChannelEdits.partOf α (collectAll calls) c.name).put.values := by
  rw [ChannelEdits.refs_applyTo, partOf_collectAll, RefCall.apply_collectAll]

end Kinds

/-! ## What the collected edits are -/

theorem mem_keys_collect_iff (edits : ChannelEdits) (call : EditCall) (channel : String) :
    channel ∈ (call.collect edits).keys ↔ channel = call.channel ∨ channel ∈ edits.keys := by
  cases call <;> exact KeyMap.mem_keys_insert

/-- The channels that are edited are those of the calls. -/
theorem mem_keys_collectAll_iff (calls : List EditCall) (channel : String) :
    channel ∈ (collectAll calls).keys ↔ channel ∈ calls.map EditCall.channel := by
  induction calls using List.reverseRecOn with
  | nil => exact iff_of_false List.not_mem_nil List.not_mem_nil
  | append_singleton calls call ih =>
    rw [collectAll_concat, mem_keys_collect_iff, ih, List.map_append, List.mem_append, or_comm,
      List.map_singleton, List.mem_singleton]

/-- There is one edit for each channel that calls are addressed to. -/
theorem size_collectAll (calls : List EditCall) :
    (collectAll calls).size = (calls.map EditCall.channel).toFinset.card := by
  have hkeys : (collectAll calls).keys.toFinset = (calls.map EditCall.channel).toFinset := by
    ext channel
    rw [List.mem_toFinset, List.mem_toFinset, mem_keys_collectAll_iff]
  rw [← hkeys, List.toFinset_card_of_nodup (collectAll calls).keys_nodup, KeyMap.size, KeyMap.keys,
    List.length_map]

/-- For no channel a name is both removed and put. -/
theorem disjoint_of_get?_collectAll {calls : List EditCall} {channel : String} {edit : ChannelEdit}
    (h : (collectAll calls).get? channel = some edit) :
    edit.tags.removed.keys.Disjoint edit.tags.put.keys ∧
      edit.properties.removed.keys.Disjoint edit.properties.put.keys := by
  have hedit : ((collectAll calls).get? channel).getD ChannelEdit.empty = edit := by
    rw [h, Option.getD_some]
  have htags := partOf_collectAll (α := Tag) calls channel
  have hproperties := partOf_collectAll (α := Property) calls channel
  rw [ChannelEdits.partOf, hedit] at htags hproperties
  change edit.tags = _ at htags
  change edit.properties = _ at hproperties
  rw [htags, hproperties]
  exact ⟨RefCall.disjoint_collectAll _, RefCall.disjoint_collectAll _⟩

theorem name_performAll (calls : List EditCall) (c : Channel) :
    (performAll calls c).name = c.name :=
  List.foldlRecOn (addressedTo c.name calls) perform (motive := fun c' => c'.name = c.name) rfl
    fun c' hname call _ => (name_perform c' call).trans hname

theorem owner_performAll (calls : List EditCall) (c : Channel) :
    (performAll calls c).owner = c.owner :=
  List.foldlRecOn (addressedTo c.name calls) perform (motive := fun c' => c'.owner = c.owner) rfl
    fun c' howner call _ => (owner_perform c' call).trans howner

/-- Edits do to a channel what calls do to it one after another, and each says of a name one thing
only. -/
structure CarriedOutBy (calls : List EditCall) (c : Channel) (edits : ChannelEdits) : Prop where
  name_eq : (edits.applyTo c).name = (performAll calls c).name
  owner_eq : (edits.applyTo c).owner = (performAll calls c).owner
  /-- Each name has the tag that the calls leave. -/
  tag?_eq : ∀ name, (edits.applyTo c).tag? name = (performAll calls c).tag? name
  /-- Each name has the property that the calls leave. -/
  property?_eq : ∀ name, (edits.applyTo c).property? name = (performAll calls c).property? name
  /-- Each name still occurs once. -/
  distinct : (edits.applyTo c).Distinct
  /-- Tags that no call for the channel names keep their order, in front of those that are put. -/
  tags_eq : (edits.applyTo c).tags =
    (c.tags.filter fun tag => tag.name ∉ (changesOf Tag c.name calls).map RefCall.name) ++
      (ChannelEdits.partOf Tag edits c.name).put.values
  /-- Properties that no call for the channel names keep their order, in front of those that are
  put. -/
  properties_eq : (edits.applyTo c).properties =
    (c.properties.filter fun property =>
      property.name ∉ (changesOf Property c.name calls).map RefCall.name) ++
      (ChannelEdits.partOf Property edits c.name).put.values
  /-- No name is both removed and put. -/
  disjoint : ∀ channel edit, edits.get? channel = some edit →
    edit.tags.removed.keys.Disjoint edit.tags.put.keys ∧
      edit.properties.removed.keys.Disjoint edit.properties.put.keys
  /-- There is one edit for each channel that calls are addressed to. -/
  size_eq : edits.size = (calls.map EditCall.channel).toFinset.card

/-- Whatever calls are collected, the edits do to every channel what the calls do to it. -/
theorem collected_carry_out (calls : List EditCall) {c : Channel} (hc : c.Distinct) :
    CarriedOutBy calls c (collectAll calls) where
  name_eq := by rw [ChannelEdits.name_applyTo, name_performAll]
  owner_eq := by rw [ChannelEdits.owner_applyTo, owner_performAll]
  tag?_eq := currentRef?_applyTo_collectAll (α := Tag) calls c
  property?_eq := currentRef?_applyTo_collectAll (α := Property) calls c
  distinct := ChannelEdits.distinct_applyTo hc (collectAll calls)
  tags_eq := refs_applyTo_collectAll (α := Tag) calls c
  properties_eq := refs_applyTo_collectAll (α := Property) calls c
  disjoint _ _ := disjoint_of_get?_collectAll
  size_eq := size_collectAll calls

/-- A channel with three tags and two properties. -/
def tagged : Channel :=
  ⟨"A", "o", [⟨"t0", "o"⟩, ⟨"t1", "o"⟩, ⟨"t2", "o"⟩], [⟨"cell", "o", "1"⟩, ⟨"hall", "o", "2"⟩]⟩

/-- Calls for two channels, with puts and removals of one tag on the channel in turn. -/
def mixedCalls : List EditCall :=
  [.putTag "A" ⟨"t1", "p"⟩, .removeTag "A" "t1", .removeTag "B" "t2", .putTag "A" ⟨"t1", "q"⟩,
    .putTag "A" ⟨"s", "o"⟩, .removeProperty "A" "hall", .putProperty "A" ⟨"ready", "o", "3"⟩,
    .removeTag "A" "t0"]

theorem mixedCalls_carried_out :
    tagged.Distinct ∧ CarriedOutBy mixedCalls tagged (collectAll mixedCalls) :=
  ⟨by decide, collected_carry_out mixedCalls (by decide)⟩

end EditCall

end ChannelDirectory

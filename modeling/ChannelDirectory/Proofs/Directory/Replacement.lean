import ChannelDirectory.Proofs.Directory.AttributeEffects

/-!
# Creating a record makes its channels the only members

A successful `createAttribute` stores the record, and makes the members that the request
names the members, each with the one reference that the request means for it. Nothing else
changes (`Directory.OnlyTouches`), and the answer lists these members by name.
-/

namespace ChannelDirectory

open Attribute Collection LawfulAttribute Program

namespace Directory

/-- What replacing the record of a name and its members does to a store. -/
structure Replaces (dir : Directory) (α : Type) {ρ : Type} [Attribute α ρ] [Reference ρ]
    [LawfulAttribute α] (s s' : Store) (name : String) (record answer : α) : Prop where
  only_touches : dir.OnlyTouches α [name] s s'
  stored : s'.get? (Attribute.index α dir.config) name =
    some (Json.ofMembers [("name", .string name), ("owner", .string (owner record))])
  members : ∃ desired, requestedMembers record = .ok desired ∧
    (∀ channel ref, desired.get? channel = some ref →
      ∃ c, (dir.channels.contents s').get? channel = some c) ∧
    (∀ channel c, (dir.channels.contents s').get? channel = some c →
      (refs α c).filter (fun r => Reference.name r = name) = (desired.get? channel).toList) ∧
    ∃ found, answer = withChannels (Entity.stored record) found ∧
      found.map Channel.name = desired.keys ∧
      ∀ c ∈ found, (dir.channels.contents s').get? c.name = some c

variable {α ρ : Type} [Attribute α ρ] [Reference ρ] [DecidableEq ρ] [LawfulAttribute α]
  [LawfulEntity α] {dir : Directory} {b b' : Backend} {name : String}

/-- A creation that succeeds has replaced the membership of its name by the one that it asks for. -/
theorem createAttribute_replaces (indices : dir.config.DistinctIndices)
    (shape : dir.InShape α b.store) {record answer : α}
    (h : (dir.createAttribute name record).run b = (.ok answer, b')) :
    dir.Replaces α b.store b'.store name record answer := by
  rw [createAttribute_eq] at h
  have hspec : ∀ p, (dir.createPlan name record).Returns b p →
      dir.RecordOps α p.ops ∧ ∃ names, p.edits.About α names := by
    intro p hp
    obtain ⟨desired, -, -, -, hops, -, staged⟩ := returns_createPlan shape hp
    rw [hops]
    exact ⟨recordOps_puts [record], _, staged.about⟩
  obtain ⟨p, hp, edited, hanswer⟩ := editWrite_run_ok indices shape _ hspec h
  obtain ⟨desired, rfl, hdesired, hstored, hops, hread, staged⟩ := returns_createPlan shape hp
  have hrecords : (dir.records α).contents b'.store =
      ((dir.records α).contents b.store).insert (Entity.name record) (Entity.stored record) := by
    rw [edited.records, hops, Store.after_cons, Store.after_nil, contents_apply_putOp]
  have hrefs : ∀ channel name', dir.refAt? α b'.store channel name' =
      if name' = Entity.name record then desired.get? channel
      else dir.refAt? α b.store channel name' := by
    intro channel name'
    refine edited.refAt?_eq staged (fun hnone name' => ?_) name'
    rw [get?_eq_none_of_stored hstored hnone, refAt?_eq_none hnone, ite_self]
  have hmembers : ∀ channel, dir.refAt? α b'.store channel (Entity.name record) =
      desired.get? channel := fun channel => (hrefs channel _).trans (if_pos rfl)
  rw [hread] at hanswer
  obtain ⟨answered, hget, hlist⟩ := returns_readAttribute edited.shape hanswer
  rw [hrecords, KeyMap.get?_insert, if_pos rfl] at hget
  obtain rfl := Option.some.inj hget
  refine ⟨edited.onlyTouches shape staged.about ?_ ?_, ?_, desired, hdesired, ?_, ?_, ?_⟩
  · rintro name' rfl
    exact List.mem_singleton_self _
  · intro id hid
    rw [← edited.records, hrecords, KeyMap.get?_insert,
      if_neg fun heq => hid (List.mem_singleton.mpr heq)]
  · exact get?_of_contents_put edited.shape (by rw [hrecords, KeyMap.get?_insert, if_pos rfl])
  · exact fun channel ref href => edited.exists_channel (hstored channel ref href)
  · intro channel c hc
    rw [filter_refs_eq edited.shape.channels hc, hmembers]
  · exact ⟨_, hlist, names_select_members edited.shape.channels hmembers,
      fun c hc => get?_of_mem_select edited.shape.channels hc⟩

/-- A tag or property that is created has exactly the channels of the request as members, and
nothing else changes. -/
theorem create_replaces_membership (dir : Directory) (b b' : Backend) (name : String)
    (indices : dir.config.DistinctIndices) (wf : dir.WellFormed b.store) :
    (∀ tag answer : Tag, (dir.createAttribute name tag).run b = (.ok answer, b') →
      dir.Replaces Tag b.store b'.store name tag answer) ∧
    ∀ property answer : Property,
      (dir.createAttribute name property).run b = (.ok answer, b') →
        dir.Replaces Property b.store b'.store name property answer :=
  ⟨fun _ _ h => createAttribute_replaces indices wf.tagShape h,
    fun _ _ h => createAttribute_replaces indices wf.propertyShape h⟩

/-- Two channels, one of which has a tag. -/
def tagOnB : Backend where
  store := usual.filled [⟨"A", "o", [], []⟩, ⟨"B", "o", [⟨"t", "x"⟩], []⟩] [⟨"t", "x", []⟩] []

/-- The tag moves from one channel to the other and gets another owner. -/
theorem create_moves_tag : ∃ answer b',
    (usual.createAttribute "t" (⟨"t", "y", [{ name := "A" }]⟩ : Tag)).run tagOnB =
        (.ok answer, b') ∧
      usual.Replaces Tag tagOnB.store b'.store "t" ⟨"t", "y", [{ name := "A" }]⟩ answer := by
  have hok : (usual.createAttribute "t" (⟨"t", "y", [{ name := "A" }]⟩ : Tag)).Returns tagOnB
      ⟨"t", "y", [⟨"A", "o", [⟨"t", "y"⟩], []⟩]⟩ := by
    unfold Returns
    cbv
  have wf : usual.WellFormed tagOnB.store := wellFormed_filled distinctIndices_usual (by decide) _ _
  exact ⟨_, _, hok.run_eq, (create_replaces_membership usual tagOnB _ "t" distinctIndices_usual
    wf).1 _ _ hok.run_eq⟩

end Directory

end ChannelDirectory

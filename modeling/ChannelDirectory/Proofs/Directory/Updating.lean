import ChannelDirectory.Proofs.Directory.AttributeEffects

/-!
# Updating a record, under its name or a new one

A successful `updateAttribute` stores the record under its new name and owner. Under the same
name its members are the old ones and those that the request names, and all references to it
carry the owner (`Directory.Updates.kept`). Under a new name nothing is left of the old one, and
the members are those that the request names, or if it names none the old ones with their
values (`Directory.Updates.moved`). Nothing else changes.
-/

namespace ChannelDirectory

open Attribute Collection LawfulAttribute Program

namespace Directory

/-- What an update of a record does to a store, given the record that there was and the
members that the request names. -/
structure Updates (dir : Directory) (α : Type) {ρ : Type} [Attribute α ρ] [Reference ρ]
    [LawfulAttribute α] (s s' : Store) (name : String) (existing request : α) (desired : KeyMap ρ)
    (answer : α) : Prop where
  only_touches : dir.OnlyTouches α [name, updatedName name request] s s'
  stored : s'.get? (Attribute.index α dir.config) (updatedName name request) =
    some (Json.ofMembers [("name", .string (updatedName name request)),
      ("owner", .string (updatedOwner existing request))])
  desired_stored : ∀ channel ref, desired.get? channel = some ref →
    ∃ c, (dir.channels.contents s').get? channel = some c
  kept : updatedName name request = name →
    ∀ channel c, (dir.channels.contents s').get? channel = some c →
      (refs α c).filter (fun r => Reference.name r = name) =
        ((desired.get? channel).or ((dir.refAt? α s channel name).map fun ref =>
          Reference.rebind ref name (updatedOwner existing request))).toList
  moved : updatedName name request ≠ name →
    s'.get? (Attribute.index α dir.config) name = none ∧
      ∀ channel c, (dir.channels.contents s').get? channel = some c →
        (refs α c).filter (fun r => Reference.name r = name) = [] ∧
          (refs α c).filter (fun r => Reference.name r = updatedName name request) =
            (renamed (updatedName name request) (updatedOwner existing request)
              (dir.refAt? α s channel name) desired channel).toList
  answer : ∃ found,
    answer = withChannels (Entity.stored (updatedRecord name existing request)) found ∧
    found.Pairwise (fun c c' => c.name < c'.name) ∧
      ∀ c, c ∈ found ↔ (dir.channels.contents s').get? c.name = some c ∧
        (currentRef? α c (updatedName name request)).isSome = true

/-- The answer is the record with the channels that carry its new name. -/
theorem answer_of_update {α ρ : Type} [Attribute α ρ] [Reference ρ] [LawfulAttribute α]
    [LawfulEntity α] {dir : Directory} {b : Backend} {name : String} (shape : dir.InShape α b.store) {answer record : α}
    (hget : ((dir.records α).contents b.store).get? name = some record)
    (hanswer : (dir.readAttribute α name true).Returns b answer) :
    ∃ found, answer = withChannels record found ∧ found.Pairwise (fun c c' => c.name < c'.name) ∧
      ∀ c, c ∈ found ↔ (dir.channels.contents b.store).get? c.name = some c ∧
        (currentRef? α c name).isSome = true := by
  obtain ⟨answered, hanswered, hlist⟩ := returns_readAttribute shape hanswer
  obtain rfl := Option.some.inj (hget.symm.trans hanswered)
  exact ⟨_, hlist, shape.channels.select_ascending (memberPredicate α name),
    fun c => mem_select_members shape.channels⟩

variable {α ρ : Type} [Attribute α ρ] [Reference ρ] [DecidableEq ρ] [LawfulAttribute α]
  [LawfulReference ρ] [LawfulEntity α] {dir : Directory} {b b' : Backend} {name : String}

/-- Carrying out the plan of an update, with what its answer is read from. -/
theorem updateAttribute_run_ok (indices : dir.config.DistinctIndices)
    (shape : dir.InShape α b.store) {request answer : α}
    (h : (dir.updateAttribute name request).run b = (.ok answer, b')) :
    ∃ p, (dir.updatePlan name request).Returns b p ∧
      dir.Edited α p.ops p.edits b.store b'.store ∧ p.answer.Returns b' answer := by
  rw [updateAttribute_eq] at h
  refine editWrite_run_ok indices shape _ (fun p hp => ?_) h
  obtain ⟨existing, desired, -, -, -, hops, -, staged⟩ := returns_updatePlan shape hp
  rw [hops]
  exact ⟨recordOps_updateOps name existing request, _, staged.about⟩

/-- An update that succeeds moves the record to its new name and owner, and its members with it. -/
theorem updateAttribute_updates (indices : dir.config.DistinctIndices)
    (shape : dir.InShape α b.store) {request answer : α}
    (h : (dir.updateAttribute name request).run b = (.ok answer, b')) :
    ∃ existing desired, ((dir.records α).contents b.store).get? name = some existing ∧
      requestedMembers (updatedRecord name existing request) = .ok desired ∧
      dir.Updates α b.store b'.store name existing request desired answer := by
  obtain ⟨p, hp, edited, hanswer⟩ := updateAttribute_run_ok indices shape h
  obtain ⟨existing, desired, hexisting, hdesired, hstored, hops, hread, staged⟩ :=
    returns_updatePlan shape hp
  refine ⟨existing, desired, hexisting, hdesired, ?_⟩
  have hname : Entity.name (updatedRecord name existing request) = updatedName name request :=
    name_withIdentity request _ _
  have howner : owner (updatedRecord name existing request) = updatedOwner existing request :=
    owner_withIdentity request _ _
  have hrecords := get?_records_of_update hops edited
  have hrefs := refAt?_of_update edited hstored staged
  have hput := (hrecords (updatedName name request)).trans (if_pos rfl)
  rw [hread] at hanswer
  refine ⟨edited.onlyTouches shape staged.about ?_ ?_, ?_, ?_, ?_, ?_,
    answer_of_update edited.shape hput hanswer⟩
  · rintro name' (rfl | rfl)
    · exact List.mem_cons_self
    · exact List.mem_cons_of_mem _ List.mem_cons_self
  · intro id hid
    rw [← edited.records, hrecords, if_neg fun heq => hid (by simp [heq]),
      if_neg fun heq => hid (by simp [heq])]
  · rw [← hname] at hput
    have hdoc := get?_of_contents_put edited.shape hput
    rwa [hname, howner] at hdoc
  · exact fun channel ref href => edited.exists_channel (hstored channel ref href)
  · intro hsame channel c hc
    rw [filter_refs_eq edited.shape.channels hc, hrefs, if_pos hsame.symm, updatedMember,
      if_pos hsame]
  · intro hne
    refine ⟨?_, fun channel c hc => ⟨?_, ?_⟩⟩
    · have hgone := edited.shape.records.get?_store name
      rwa [hrecords, if_neg (Ne.symm hne), if_pos rfl, Option.map_none] at hgone
    · rw [filter_refs_eq edited.shape.channels hc, hrefs, if_neg (Ne.symm hne), if_pos rfl]
      rfl
    · rw [filter_refs_eq edited.shape.channels hc, hrefs, if_pos rfl, updatedMember, if_neg hne]

/-- An update of a tag or property, in place or under a new name. -/
theorem update_keeps_or_moves_members (dir : Directory) (b b' : Backend) (name : String)
    (indices : dir.config.DistinctIndices) (wf : dir.WellFormed b.store) :
    (∀ request answer : Tag, (dir.updateAttribute name request).run b = (.ok answer, b') →
      ∃ existing desired, (dir.tags.contents b.store).get? name = some existing ∧
        requestedMembers (updatedRecord name existing request) = .ok desired ∧
        dir.Updates Tag b.store b'.store name existing request desired answer) ∧
    ∀ request answer : Property, (dir.updateAttribute name request).run b = (.ok answer, b') →
      ∃ existing desired, (dir.properties.contents b.store).get? name = some existing ∧
        requestedMembers (updatedRecord name existing request) = .ok desired ∧
        dir.Updates Property b.store b'.store name existing request desired answer :=
  ⟨fun _ _ h => updateAttribute_updates indices wf.tagShape h,
    fun _ _ h => updateAttribute_updates indices wf.propertyShape h⟩

/-- A channel with two properties, and another one with the second of them. -/
def propertiesOnAB : Backend where
  store := usual.filled
    [⟨"A", "o", [], [⟨"p", "x", "1"⟩, ⟨"q", "z", "2"⟩]⟩, ⟨"B", "o", [], [⟨"q", "z", "3"⟩]⟩] []
    [{ name := "p", owner := "x" }, { name := "q", owner := "z" }]

/-- A property takes the name of another one : its members keep their values, and the members
of the other one are gone. -/
theorem update_renames_property : ∃ answer b' existing desired,
    (usual.updateAttribute "p" (⟨"q", "y", none, []⟩ : Property)).run propertiesOnAB =
        (.ok answer, b') ∧
      usual.Updates Property propertiesOnAB.store b'.store "p" existing ⟨"q", "y", none, []⟩ desired
        answer := by
  have hok : (usual.updateAttribute "p" (⟨"q", "y", none, []⟩ : Property)).Returns propertiesOnAB
      ⟨"q", "y", none, [⟨"A", "o", [], [⟨"q", "y", "1"⟩]⟩]⟩ := by
    unfold Returns
    cbv
  have wf : usual.WellFormed propertiesOnAB.store :=
    wellFormed_filled distinctIndices_usual (by decide) _ _
  obtain ⟨existing, desired, -, -, updates⟩ := (update_keeps_or_moves_members usual propertiesOnAB _
    "p" distinctIndices_usual wf).2 _ _ hok.run_eq
  exact ⟨_, _, existing, desired, hok.run_eq, updates⟩

end Directory

end ChannelDirectory

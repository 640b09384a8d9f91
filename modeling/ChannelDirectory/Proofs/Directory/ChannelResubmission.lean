import ChannelDirectory.Proofs.Directory.ChannelWrites
import ChannelDirectory.Proofs.Directory.Resubmission

/-!
# Channels that are submitted again

What is read to prepare a channel are tags and properties, and writes of channels do not touch
these. So a channel that is created is prepared in the same way again, and its document is there by
then (`repeats_createChannel`, `repeats_createChannels`).

An update under the same name merges the request into what the first submission has stored. The
references of the request stand at the end already, and the owners of all references have been
brought up to date, so nothing moves (`stampRefs_putRefs_stampRefs`, `repeats_updateChannel`).
-/

namespace ChannelDirectory

open Collection Program

/-! ## References that are put and stamped again -/

section References

variable {ρ : Type} [Reference ρ] [LawfulReference ρ]

/-- An owner that has been stamped is stamped to the same one. -/
theorem stampRef_stampRef (owners : KeyMap String) (ref : ρ) :
    stampRef owners (stampRef owners ref) = stampRef owners ref := by
  cases howner : owners.get? (Reference.name ref) with
  | none => simp only [stampRef, howner]
  | some owner =>
    rw [stampRef, name_stampRef, howner]
    change withOwner (stampRef owners ref) owner = _
    rw [withOwner, ← owner_stampRef howner, LawfulReference.rebind_self]

/-- References that have been put and stamped stay where they are if they are put and stamped
again. -/
theorem stampRefs_putRefs_stampRefs (owners : KeyMap String) (refs more : List ρ) :
    stampRefs owners (putRefs (stampRefs owners (putRefs refs more)) more) =
      stampRefs owners (putRefs refs more) := by
  have hkept : ((refs.filter fun r => Reference.name r ∉ more.map Reference.name).map
      (stampRef owners)).filter (fun r => Reference.name r ∉ more.map Reference.name) =
      (refs.filter fun r => Reference.name r ∉ more.map Reference.name).map (stampRef owners) := by
    refine List.filter_eq_self.mpr fun r hr => ?_
    obtain ⟨plain, hplain, rfl⟩ := List.mem_map.mp hr
    rw [name_stampRef]
    exact (List.mem_filter.mp hplain).2
  have hdropped : ((dedupRefs more).map (stampRef owners)).filter
      (fun r => Reference.name r ∉ more.map Reference.name) = [] := by
    refine List.filter_eq_nil_iff.mpr fun r hr => ?_
    obtain ⟨plain, hplain, rfl⟩ := List.mem_map.mp hr
    rw [name_stampRef, decide_eq_true_iff, not_not]
    rw [dedupRefs_eq_lastRefs] at hplain
    exact mem_names_lastRefs_iff.mp (List.mem_map_of_mem hplain)
  have hstamped : ∀ rs : List ρ, (rs.map (stampRef owners)).map (stampRef owners) =
      rs.map (stampRef owners) := by
    intro rs
    rw [List.map_map]
    exact List.map_congr_left fun r _ => stampRef_stampRef owners r
  simp only [stampRefs_eq_map, putRefs_eq, List.map_append, List.filter_append, hkept, hdropped,
    hstamped, List.append_nil]

/-- References that are the same once they are stamped have the same names. -/
theorem exists_of_stampRefs_eq {owners : KeyMap String} {refs refs' : List ρ}
    (h : stampRefs owners refs = stampRefs owners refs') {ref : ρ} (href : ref ∈ refs) :
    ∃ ref' ∈ refs', stampRef owners ref' = stampRef owners ref ∧
      Reference.name ref' = Reference.name ref := by
  have hstamped : stampRef owners ref ∈ stampRefs owners refs := List.mem_map_of_mem href
  rw [h] at hstamped
  obtain ⟨ref', href', hsame⟩ := List.mem_map.mp hstamped
  refine ⟨ref', href', hsame, ?_⟩
  rw [← name_stampRef owners, ← name_stampRef owners ref]
  exact congrArg _ hsame

end References

namespace Channel

/-- Merging a request into what has been merged with it and stamped leads to the same once it is
stamped. -/
theorem stamp_merge_stamp (owners : Owners) (c request : Channel) :
    owners.stamp ((owners.stamp (c.merge request)).merge request) =
      owners.stamp (c.merge request) := by
  have howner : ((owners.stamp (c.merge request)).merge request).owner =
      (c.merge request).owner := by
    change (if request.owner = "" then (if request.owner = "" then c.owner else request.owner)
      else request.owner) = if request.owner = "" then c.owner else request.owner
    split <;> rfl
  have htags := stampRefs_putRefs_stampRefs owners.tags c.tags request.tags
  have hproperties :=
    stampRefs_putRefs_stampRefs owners.properties c.properties request.properties
  change (⟨c.name, _, stampRefs owners.tags (putRefs _ _),
    stampRefs owners.properties (putRefs _ _)⟩ : Channel) = ⟨c.name, _, _, _⟩
  rw [howner]
  exact congrArg₂ (Channel.mk c.name _) htags hproperties

theorem dedup_of_distinct {c : Channel} (h : c.Distinct) : c.dedup = c := by
  rw [dedup, dedupRefs_of_distinct h.1, dedupRefs_of_distinct h.2]

theorem Distinct.merge {c : Channel} (h : c.Distinct) (request : Channel) :
    (c.merge request).Distinct :=
  ⟨distinctRefs_putRefs h.1 request.tags, distinctRefs_putRefs h.2 request.properties⟩

theorem Distinct.stamp {c : Channel} (h : c.Distinct) (owners : Owners) :
    (owners.stamp c).Distinct :=
  ⟨distinctRefs_stampRefs h.1, distinctRefs_stampRefs h.2⟩

end Channel

namespace Directory

variable {dir : Directory} {b : Backend} {s : Store} {ops : List Operation}

/-! ## Preparing again -/

/-- Writes of channels do not change the owners that are stamped. -/
theorem ChannelOps.owners_eq (indices : dir.config.DistinctIndices) (hops : dir.ChannelOps s ops) :
    dir.owners (s.after ops) = dir.owners s := by
  rw [owners, contents_congr (c := dir.tags) (hops.documents_eq (Ne.symm indices.1)),
    contents_congr (c := dir.properties) (hops.documents_eq (Ne.symm indices.2.1)), owners]

/-- Writes of channels delete no record. -/
theorem ChannelOps.knows (indices : dir.config.DistinctIndices) (hops : dir.ChannelOps s ops)
    {c : Channel} (h : dir.Knows s c) : dir.Knows (s.after ops) c := by
  rw [Knows, contents_congr (c := dir.tags) (hops.documents_eq (Ne.symm indices.1)),
    contents_congr (c := dir.properties) (hops.documents_eq (Ne.symm indices.2.1))]
  exact h

/-- A channel that passes its checks is prepared as before. -/
theorem ChannelOps.returns_prepare (indices : dir.config.DistinctIndices)
    (wf : dir.WellFormed b.store) (hops : dir.ChannelOps b.store ops) (havail : b.available = true)
    {c normal : Channel} (hnormal : c.normalize = .ok normal) (knows : dir.Knows b.store normal) :
    (dir.prepare c).Returns (b.after ops) ((dir.owners b.store).stamp normal) := by
  rw [← hops.owners_eq indices]
  exact returns_prepare_of_knows (b := b.after ops) (hops.wellFormed indices wf) havail hnormal
    (hops.knows indices knows)

/-- Creating the same channel again puts the same document. -/
theorem repeats_createChannel (indices : dir.config.DistinctIndices) (wf : dir.WellFormed b.store)
    (name : String) (c : Channel) : (dir.createChannel name c).Repeats b := by
  rw [createChannel_eq]
  refine Write.repeats _ fun batch value hbatch havail hanswer => ?_
  have hops := channelOps_createWrite wf hbatch
  obtain ⟨hname, prepared, hprepared, rfl⟩ := returns_createWrite_plan_iff.mp hbatch
  obtain ⟨normal, hnormal, knows, rfl⟩ := returns_prepare wf hprepared
  refine ⟨_, returns_createWrite_plan_iff.mpr ⟨hname, _,
    hops.returns_prepare indices wf havail hnormal knows, rfl⟩, ?_, fun _ => hanswer⟩
  exact Store.settled_after (fun op hop => ⟨_, _, _, List.mem_singleton.mp hop⟩)
    (List.pairwise_singleton _ _) b.store

/-- Channels by their names are all different. -/
theorem pairwise_names_stamp (owners : Owners) (channels : List Channel) :
    ((KeyMap.ofList (channels.map fun c => (c.name, c))).values.map owners.stamp).Pairwise
      fun c c' => c'.name ≠ c.name := by
  have hdistinct := KeyMap.keys_nodup (KeyMap.ofList (channels.map fun c => (c.name, c)))
  rw [KeyMap.keys_ofList_map_self] at hdistinct
  rw [List.pairwise_map]
  exact (List.pairwise_map.mp hdistinct).imp fun h => Ne.symm h

/-- Creating the same channels again puts the same documents. -/
theorem repeats_createChannels (indices : dir.config.DistinctIndices)
    (wf : dir.WellFormed b.store) (channels : List Channel) :
    (dir.createChannels channels).Repeats b := by
  rw [createChannels_eq]
  refine Write.repeats _ fun batch value hbatch havail hanswer => ?_
  have hops := channelOps_createAllWrite wf hbatch
  obtain ⟨prepared, hprepared, rfl⟩ := returns_createAllWrite_plan_iff.mp hbatch
  obtain ⟨normals, hnormals, knows, rfl⟩ := returns_prepareAll wf hprepared
  have hagain := returns_prepareAll_of_knows (b := b.after _) (hops.wellFormed indices wf) havail
    hnormals fun c hc => hops.knows indices (knows c hc)
  rw [Backend.after, hops.owners_eq indices] at hagain
  refine ⟨_, returns_createAllWrite_plan_iff.mpr ⟨_, hagain, rfl⟩, ?_, fun _ => hanswer⟩
  refine Store.settled_after (fun op hop => ?_) ?_ b.store
  · obtain ⟨c, -, rfl⟩ := List.mem_map.mp hop
    exact ⟨_, _, _, rfl⟩
  · rw [List.pairwise_map]
    exact (pairwise_names_stamp _ normals).imp fun hne hsame => hne hsame.2

/-! ## Updating again -/

/-- Channels that are stamped alike refer to the same records. -/
theorem Knows.of_stamp_eq {owners : Owners} {c c' : Channel}
    (h : owners.stamp c = owners.stamp c') (knows : dir.Knows s c') : dir.Knows s c := by
  constructor
  · intro ref href
    obtain ⟨ref', href', -, hname⟩ := exists_of_stampRefs_eq (congrArg Channel.tags h) href
    change ref'.name = ref.name at hname
    exact hname ▸ knows.1 ref' href'
  · intro ref href
    obtain ⟨ref', href', -, hname⟩ := exists_of_stampRefs_eq (congrArg Channel.properties h) href
    change ref'.name = ref.name at hname
    exact hname ▸ knows.2 ref' href'

/-- Channels that are the same once they are stamped pass the same checks. -/
theorem normalize_of_stamp_eq {owners : Owners} {c c' : Channel}
    (h : owners.stamp c = owners.stamp c') (hdistinct : c.Distinct) (hdistinct' : c'.Distinct)
    (hok : c'.normalize = .ok c') : c.normalize = .ok c := by
  have hname : c.name = c'.name :=
    show (owners.stamp c).name = (owners.stamp c').name from congrArg Channel.name h
  have howner : c.owner = c'.owner :=
    show (owners.stamp c).owner = (owners.stamp c').owner from congrArg Channel.owner h
  obtain ⟨-, hvalid, hvalues⟩ := Channel.normalize_eq_ok_iff.mp hok
  refine Channel.normalize_eq_ok_iff.mpr ⟨(Channel.dedup_of_distinct hdistinct).symm, ?_, ?_⟩
  · rwa [hname, howner]
  · rw [Channel.dedup_of_distinct hdistinct]
    rw [Channel.dedup_of_distinct hdistinct'] at hvalues
    intro property hproperty
    obtain ⟨property', hproperty', hsame, -⟩ :=
      exists_of_stampRefs_eq (congrArg Channel.properties h) hproperty
    rw [← value_stampRef owners.properties, ← hsame, value_stampRef]
    exact hvalues property' hproperty'

/-- The same update of a channel merges into what it has made of it, and so puts the same document
again, as long as the channel keeps its name. -/
theorem repeats_updateChannel (indices : dir.config.DistinctIndices) (wf : dir.WellFormed b.store)
    {name : String} {request : Channel} (hname : request.name = "" ∨ request.name = name) :
    (dir.updateChannel name request).Repeats b := by
  have hnew : (if request.name = "" then name else request.name) = name := by
    rcases hname with hname | hname <;> simp [hname]
  have hplan : ∀ {b : Backend} {batch}, (dir.updateWrite name request).plan.Returns b batch ↔
      ∃ existing prepared, (dir.channels.require name).Returns b existing ∧
        (dir.prepare { existing.merge request with name }).Returns b prepared ∧
        batch = ⟨[dir.channels.putOp prepared], fun _ => .done prepared, fun _ => trivial⟩ := by
    intro b batch
    simpa only [hnew, ne_eq, not_true_eq_false, if_false, List.nil_append] using
      (returns_updateWrite_plan_iff : (dir.updateWrite name request).plan.Returns b batch ↔ _)
  rw [updateChannel_eq]
  refine Write.repeats _ fun batch value hbatch havail hanswer => ?_
  have hops := channelOps_updateWrite wf hbatch
  obtain ⟨existing, prepared, hexisting, hprepared, rfl⟩ := hplan.mp hbatch
  obtain ⟨normal, hnormal, knows, rfl⟩ := returns_prepare wf hprepared
  obtain ⟨-, hget⟩ := (returns_require wf.channels).mp hexisting
  obtain ⟨rfl, hdistinct⟩ : existing.name = name ∧ existing.Distinct :=
    wf.channels.of_get?_contents hget
  have hmerged := hdistinct.merge request
  obtain rfl : normal = existing.merge request :=
    (Channel.normalize_ok hnormal).1.trans (Channel.dedup_of_distinct hmerged)
  -- What is stored by then is merged with the request once more.
  have hsame := Channel.stamp_merge_stamp (dir.owners b.store) existing request
  have hagain := hops.returns_prepare indices wf havail
    (normalize_of_stamp_eq hsame ((hmerged.stamp _).merge request) hmerged hnormal)
    (knows.of_stamp_eq hsame)
  rw [hsame] at hagain
  refine ⟨_, hplan.mpr ⟨(dir.owners b.store).stamp (existing.merge request), _, ?_, hagain, rfl⟩,
    ?_, fun _ => hanswer⟩
  · refine (returns_require (b := b.after _) (hops.wellFormed indices wf).channels).mpr
      ⟨havail, ?_⟩
    change (dir.channels.contents (b.store.after _)).get? _ = _
    rw [Store.after_cons, Store.after_nil, contents_apply_putOp, KeyMap.get?_insert]
    exact if_pos rfl
  · exact Store.settled_after (fun op hop => ⟨_, _, _, List.mem_singleton.mp hop⟩)
      (List.pairwise_singleton _ _) b.store

/-! ## All of them -/

/-- The writes of channels that can be submitted again. -/
structure ChannelsRepeat (dir : Directory) (b : Backend) : Prop where
  create : ∀ (name : String) (c : Channel), (dir.createChannel name c).Repeats b
  createMany : ∀ channels : List Channel, (dir.createChannels channels).Repeats b
  update : ∀ (name : String) (request : Channel), request.name = "" ∨ request.name = name →
    (dir.updateChannel name request).Repeats b

/-- A request that has succeeded can be submitted again : it gives the same answer, and leaves the
store as it is. This holds of all writes of tags, properties and channels but those that delete or
rename a record, and the update of many channels. -/
theorem requests_repeat (dir : Directory) (b : Backend) (indices : dir.config.DistinctIndices)
    (wf : dir.WellFormed b.store) :
    dir.AttributesRepeat Tag b ∧ dir.AttributesRepeat Property b ∧ dir.ChannelsRepeat b :=
  ⟨attributesRepeat indices wf.tagShape, attributesRepeat indices wf.propertyShape,
    ⟨repeats_createChannel indices wf, repeats_createChannels indices wf,
      fun _ _ => repeats_updateChannel indices wf⟩⟩

/-- A channel with two tags and a property. -/
def twoTagsOnA : Backend where
  store := usual.filled [⟨"A", "o", [⟨"t", "x"⟩, ⟨"u", "w"⟩], [⟨"p", "x", "1"⟩]⟩]
    [⟨"t", "x", []⟩, ⟨"u", "w", []⟩] [{ name := "p", owner := "x" }]

/-- The first submission moves the tag to the end, and the second one leaves it there. -/
theorem twoTagsOnA_repeat :
    (∃ answer b', (usual.updateAttribute "t" (⟨"t", "y", []⟩ : Tag)).run twoTagsOnA =
        (.ok answer, b') ∧
      (usual.updateAttribute "t" (⟨"t", "y", []⟩ : Tag)).run b' = (.ok answer, b') ∧
      answer.channels = [⟨"A", "o", [⟨"u", "w"⟩, ⟨"t", "y"⟩], [⟨"p", "x", "1"⟩]⟩]) ∧
    (∃ answer b', (usual.addToChannel "p" "A" (⟨"p", "x", some "2", []⟩ : Property)).run
        twoTagsOnA = (.ok answer, b') ∧
      (usual.addToChannel "p" "A" (⟨"p", "x", some "2", []⟩ : Property)).run b' =
        (.ok answer, b')) ∧
    ∃ answer b', (usual.updateChannel "A" ⟨"", "", [⟨"t", ""⟩], []⟩).run twoTagsOnA =
        (.ok answer, b') ∧
      (usual.updateChannel "A" ⟨"", "", [⟨"t", ""⟩], []⟩).run b' = (.ok answer, b') ∧
      answer.tags = [⟨"u", "w"⟩, ⟨"t", "x"⟩] := by
  have wf : usual.WellFormed twoTagsOnA.store :=
    wellFormed_filled distinctIndices_usual (by decide) _ _
  obtain ⟨tags, properties, channels⟩ :=
    requests_repeat usual twoTagsOnA distinctIndices_usual wf
  have htag : (usual.updateAttribute "t" (⟨"t", "y", []⟩ : Tag)).Returns twoTagsOnA
      ⟨"t", "y", [⟨"A", "o", [⟨"u", "w"⟩, ⟨"t", "y"⟩], [⟨"p", "x", "1"⟩]⟩]⟩ := by
    unfold Returns
    cbv
  have hproperty : (usual.addToChannel "p" "A" (⟨"p", "x", some "2", []⟩ : Property)).Returns
      twoTagsOnA { name := "p", owner := "x" } := by
    unfold Returns
    cbv
  have hchannel : (usual.updateChannel "A" ⟨"", "", [⟨"t", ""⟩], []⟩).Returns twoTagsOnA
      ⟨"A", "o", [⟨"u", "w"⟩, ⟨"t", "x"⟩], [⟨"p", "x", "1"⟩]⟩ := by
    unfold Returns
    cbv
  refine ⟨⟨_, _, htag.run_eq, ?_, ?_⟩, ⟨_, _, hproperty.run_eq, ?_⟩,
    ⟨_, _, hchannel.run_eq, ?_, ?_⟩⟩
  · exact tags.update "t" _ (by decide) _ _ htag.run_eq
  · rfl
  · exact properties.addToChannel "p" "A" _ _ _ hproperty.run_eq
  · exact channels.update "A" _ (.inl rfl) _ _ hchannel.run_eq
  · rfl

end Directory

end ChannelDirectory

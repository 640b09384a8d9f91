import ChannelDirectory.Proofs.Directory.ChannelWrites
import ChannelDirectory.Proofs.Record.Merge

/-!
# What an update of many channels merges

`updateChannels` merges the first request of a name into the channel that is stored, takes the
later ones as they are, and of all of them writes the last one (`getLast?_mergeExisting`). So
what merging all of them leads to (`Channel.mergedAll`) is stored exactly if the name is
requested once, or the last request names every tag and property that there was or that an
earlier request names. In all other cases tags or properties are lost, stored ones included
(`Directory.updateChannels_merges_iff`).
-/

namespace ChannelDirectory

open Channel Collection Program

/-- The requests about the channel of a name. -/
def requestsOf (requests : List Channel) (name : String) : List Channel :=
  requests.filter fun request => request.name = name

namespace Directory

/-- Of the requests of a name, the first one is merged into the channel that exists. -/
theorem filter_mergeExisting {existing : KeyMap Channel}
    (named : ∀ name c, existing.get? name = some c → c.name = name) (requests : List Channel)
    (name : String) :
    (mergeExisting existing requests).filter (fun c => c.name = name) =
      match requestsOf requests name with
      | [] => []
      | first :: rest => mergeInto (existing.get? name) first :: rest := by
  induction requests generalizing existing with
  | nil => rfl
  | cons request requests ih =>
    rw [mergeExisting, requestsOf]
    cases hget : existing.get? request.name with
    | none =>
      by_cases hname : request.name = name
      · have hnone : existing.get? name = none := hname ▸ hget
        rw [List.filter_cons_of_pos (by simpa using hname),
          List.filter_cons_of_pos (by simpa using hname), ih named, hnone, ← requestsOf]
        cases requestsOf requests name <;> rfl
      · rw [List.filter_cons_of_neg (by simpa using hname),
          List.filter_cons_of_neg (by simpa using hname), ih named, ← requestsOf]
    | some c =>
      have hnamed : ∀ name c, (existing.erase request.name).get? name = some c →
          c.name = name := by
        intro name c hc
        rw [KeyMap.get?_erase] at hc
        split at hc
        · cases hc
        · exact named name c hc
      have hmerged : (c.merge request).name = request.name := named _ c hget
      by_cases hname : request.name = name
      · -- The channel is used up : later requests of the name do not find it.
        have hnone : (existing.erase request.name).get? name = none := by
          rw [KeyMap.get?_erase, if_pos hname.symm]
        rw [List.filter_cons_of_pos (by simpa using hmerged.trans hname),
          List.filter_cons_of_pos (by simpa using hname), ih hnamed, hnone, ← requestsOf,
          ← hname, hget]
        cases requestsOf requests request.name <;> rfl
      · have hkept : (existing.erase request.name).get? name = existing.get? name := by
          rw [KeyMap.get?_erase, if_neg (Ne.symm hname)]
        rw [List.filter_cons_of_neg (by simpa [hmerged] using hname),
          List.filter_cons_of_neg (by simpa using hname), ih hnamed, hkept, ← requestsOf]

/-- The last request of a name stays as it is, unless it is the only one. -/
theorem getLast?_mergeExisting {existing : KeyMap Channel}
    (named : ∀ name c, existing.get? name = some c → c.name = name) {requests : List Channel}
    {name : String} {last : Channel} (h : (requestsOf requests name).getLast? = some last) :
    ((mergeExisting existing requests).filter fun c => c.name = name).getLast? =
      some (if requestsOf requests name = [last] then mergeInto (existing.get? name) last
        else last) := by
  rw [filter_mergeExisting named]
  cases hrequests : requestsOf requests name with
  | nil =>
    rw [hrequests] at h
    cases h
  | cons first rest =>
    rw [hrequests] at h
    cases rest with
    | nil =>
      have hlast : first = last := Option.some.inj h
      rw [hlast, if_pos rfl]
      rfl
    | cons second rest =>
      rw [List.getLast?_cons_cons] at h
      rw [if_neg (by simp), List.getLast?_cons_cons, h]

variable {dir : Directory} {s : Store} {b b' : Backend}

/-- Of the channels of a name that are created, the last one is stored. -/
theorem returns_createAllWrite (wf : dir.WellFormed b.store) {channels : List Channel}
    {batch : Batched (List Channel)} (h : (dir.createAllWrite channels).plan.Returns b batch) :
    (∀ c ∈ channels, validateNamed .channel c.name c.owner = .ok ()) ∧
      ∀ name, (dir.channels.contents (b.store.after batch.ops)).get? name =
        ((channels.filter fun c => c.name = name).getLast?.map fun c =>
          (dir.owners b.store).stamp c.dedup).or ((dir.channels.contents b.store).get? name) := by
  obtain ⟨prepared, hprepared, rfl⟩ := returns_createAllWrite_plan_iff.mp h
  obtain ⟨normals, hnormals, -, rfl⟩ := returns_prepareAll wf hprepared
  obtain ⟨rfl, hvalid⟩ := Channel.mapM_normalize_ok hnormals
  refine ⟨hvalid, fun name => ?_⟩
  let last := KeyMap.ofList ((channels.map Channel.dedup).map fun c => (c.name, c))
  have hvalues : last.values.map (dir.owners b.store).stamp =
      (last.mapValues fun _ c => (dir.owners b.store).stamp c).values := by
    simp only [KeyMap.values, KeyMap.mapValues, List.map_map, Function.comp_def]
  have named : ∀ name c, (last.mapValues fun _ c => (dir.owners b.store).stamp c).get? name =
      some c → Entity.name c = name := by
    intro name c hc
    rw [KeyMap.get?_mapValues] at hc
    obtain ⟨plain, hplain, rfl⟩ := Option.map_eq_some_iff.mp hc
    obtain ⟨c, -, hname, rfl⟩ := KeyMap.mem_of_get?_ofList_map hplain
    exact hname
  change (dir.channels.contents (b.store.after
    ((last.values.map (dir.owners b.store).stamp).map dir.channels.putOp))).get? name = _
  rw [hvalues, get?_contents_after_puts_values _ _ named, KeyMap.get?_mapValues,
    KeyMap.get?_ofList_map_self, List.filter_map, List.getLast?_map, Option.map_map, Option.map_map]
  rfl

/-- The name is requested if there is a request about it. -/
theorem exists_getLast?_requestsOf {requests : List Channel} {name : String} :
    (∃ last, (requestsOf requests name).getLast? = some last) ↔
      name ∈ requests.map Channel.name := by
  rw [← Option.isSome_iff_exists, List.getLast?_isSome, Ne, requestsOf, List.filter_eq_nil_iff]
  simp

/-- Under a requested name the last of its requests is stored, merged into the channel that
exists if it is the only one. -/
theorem returns_updateAllWrite (wf : dir.WellFormed b.store) {requests : List Channel}
    {batch : Batched (List Channel)} (h : (dir.updateAllWrite requests).plan.Returns b batch)
    (name : String) :
    (name ∉ requests.map Channel.name →
      (dir.channels.contents (b.store.after batch.ops)).get? name =
        (dir.channels.contents b.store).get? name) ∧
    ∀ last, (requestsOf requests name).getLast? = some last → ∃ written,
      written = (if requestsOf requests name = [last] then
        mergeInto ((dir.channels.contents b.store).get? name) last else last) ∧
      written.owner ≠ "" ∧
      (dir.channels.contents (b.store.after batch.ops)).get? name =
        some ((dir.owners b.store).stamp written.dedup) := by
  obtain ⟨found, hfound, hplan⟩ := (returns_bind (dir.channels.readOnly_findAll _)).mp h
  obtain ⟨-, rfl⟩ := (returns_findAll wf.channels).mp hfound
  let existing := KeyMap.ofList (((requests.map Channel.name).filterMap fun name =>
    (dir.channels.contents b.store).get? name).map fun c => (c.name, c))
  have hexisting : ∀ name, existing.get? name =
      if name ∈ requests.map Channel.name then (dir.channels.contents b.store).get? name
      else none := by
    intro name
    refine (wf.channels.get?_ofList_found (requests.map Channel.name) id name).trans ?_
    rw [Option.map_id, id]
  have named : ∀ name c, existing.get? name = some c → c.name = name := by
    intro name c hc
    rw [hexisting] at hc
    split at hc
    · exact wf.channels.name_eq hc
    · cases hc
  have hcreate : (dir.createAllWrite (mergeExisting existing requests)).plan.Returns b batch :=
    hplan
  obtain ⟨hvalid, hcontents⟩ := returns_createAllWrite wf hcreate
  refine ⟨fun hname => ?_, fun last hlast => ?_⟩
  · have hnone : requestsOf requests name = [] := by
      rw [← List.getLast?_eq_none_iff, Option.eq_none_iff_forall_ne_some]
      exact fun last hlast => hname (exists_getLast?_requestsOf.mp ⟨last, hlast⟩)
    rw [hcontents, filter_mergeExisting named, hnone]
    rfl
  · have hname := exists_getLast?_requestsOf.mp ⟨last, hlast⟩
    have hwritten := getLast?_mergeExisting named hlast
    have howner := owner_ne_empty
      (hvalid _ (List.mem_filter.mp (List.mem_of_getLast? hwritten)).1)
    rw [hexisting, if_pos hname] at hwritten howner
    exact ⟨_, rfl, howner, by rw [hcontents, hwritten, Option.map_some, Option.some_or]⟩

/-! ## What is stored and what merging leads to -/

section Stamped

variable {ρ : Type} [Reference ρ] [LawfulReference ρ]

/-- Stamping owners does not change which references are covered. -/
theorem coversRefs_stampRefs_iff {owners : KeyMap String} {refs other : List ρ} :
    CoversRefs (stampRefs owners refs) other ↔ CoversRefs refs other := by
  simp only [coversRefs_iff, findRef?_stampRefs, Option.map_eq_none_iff]

/-- References that some others are put on top of are lost if only the others are written. -/
theorem sameRefs_stamp_putRefs_iff {owners : KeyMap String} {refs more : List ρ} :
    SameRefs (stampRefs owners (dedupRefs more))
        (stampRefs owners (dedupRefs (putRefs refs more))) ↔ CoversRefs more refs := by
  unfold SameRefs
  simp only [coversRefs_iff, findRef?_stampRefs, findRef?_dedupRefs, findRef?_reverse_putRefs]
  refine forall_congr' fun name => ?_
  cases hmore : findRef? more.reverse name with
  | some ref =>
    have hfound : findRef? more name ≠ none := by
      rw [Ne, ← findRef?_eq_none_iff_reverse, hmore]
      simp
    simp [hfound]
  | none =>
    have hmissed : findRef? more name = none := findRef?_eq_none_iff_reverse.mp hmore
    rw [Option.none_or, Option.map_none, eq_comm, Option.map_eq_none_iff,
      findRef?_eq_none_iff_reverse]
    exact ⟨fun h _ => h, fun h => h hmissed⟩

end Stamped

/-- Neither stamping nor dropping doubles changes what a channel covers. -/
theorem covers_stamp_dedup_iff {owners : Owners} {c other : Channel} :
    (owners.stamp c.dedup).Covers other ↔ c.Covers other := by
  simp only [Covers, Owners.stamp, dedup, coversRefs_stampRefs_iff, coversRefs_dedupRefs_iff]

/-- The last payload alone says the same as all of them merged exactly if it covers what they
say. -/
theorem sameMaps_stamp_merge_iff {owners : Owners} {c last : Channel} :
    (owners.stamp last.dedup).SameMaps (owners.stamp (c.merge last).dedup) ↔ last.Covers c :=
  and_congr sameRefs_stamp_putRefs_iff sameRefs_stamp_putRefs_iff

/-- What is written for the requests of one name, beside what merging all of them leads to. -/
theorem exists_promised {owners : Owners} {existing : Option Channel} {requests : List Channel}
    {last written : Channel} (hlast : requests.getLast? = some last)
    (hwritten : written = if requests = [last] then mergeInto existing last else last)
    (howner : written.owner ≠ "") :
    ∃ promised, mergedAll existing requests = some promised ∧
      (owners.stamp written.dedup).owner = promised.owner ∧
      ((owners.stamp written.dedup).SameMaps (owners.stamp promised.dedup) ↔
        requests = [last] ∨ ∀ c, existing = some c ∨ c ∈ requests → last.Covers c) ∧
      ∀ c, existing = some c →
        ((owners.stamp written.dedup).Covers c ↔ requests = [last] ∨ last.Covers c) := by
  obtain ⟨init, rfl⟩ := List.getLast?_eq_some_iff.mp hlast
  refine ⟨_, mergedAll_append_singleton existing init last, ?_⟩
  cases init with
  | nil =>
    rw [List.nil_append, if_pos rfl] at hwritten
    rw [hwritten]
    refine ⟨rfl, iff_of_true (sameMaps_refl _) (Or.inl rfl), fun c hc => ?_⟩
    rw [covers_stamp_dedup_iff, hc]
    exact iff_of_true (covers_merge_left c last) (Or.inl rfl)
  | cons first rest =>
    have hseveral : first :: rest ++ [last] ≠ [last] := by simp
    rw [if_neg hseveral] at hwritten
    rw [hwritten] at howner ⊢
    cases hbase : mergedAll existing (first :: rest) with
    | none => exact absurd (mergedAll_eq_none_iff.mp hbase).2 (List.cons_ne_nil _ _)
    | some base =>
      have hcovers : last.Covers base ↔
          ∀ c, existing = some c ∨ c ∈ first :: rest ++ [last] → last.Covers c := by
        have hbefore : (∀ c, mergedAll existing (first :: rest) = some c → last.Covers c) ↔ _ :=
          covers_mergedAll
        rw [hbase] at hbefore
        constructor
        · intro h c hc
          rw [List.mem_append, List.mem_singleton, ← or_assoc] at hc
          rcases hc with hc | rfl
          · exact hbefore.mp (fun c hc => Option.some.inj hc ▸ h) c hc
          · exact covers_refl c
        · intro h
          exact hbefore.mpr (fun c hc => h c (hc.imp_right (List.mem_append_left _))) base rfl
      refine ⟨?_, ?_, fun c hc => ?_⟩
      · exact (if_neg howner).symm
      · rw [mergeInto, sameMaps_stamp_merge_iff, hcovers, or_iff_right hseveral]
      · rw [covers_stamp_dedup_iff, or_iff_right hseveral]

/-- What an update of many channels does to a store. What merging the requests of a name leads
to is stored under it, as far as owners go; for tags and properties this is so exactly if the
name is requested once, or the last request of the name covers the stored channel and all
other requests of the name. -/
structure UpdatesMany (dir : Directory) (requests : List Channel) (s s' : Store) : Prop where
  named : ∀ name ∈ requests.map Channel.name, ∃ last promised stored,
    (requestsOf requests name).getLast? = some last ∧
    mergedAll ((dir.channels.contents s).get? name) (requestsOf requests name) = some promised ∧
    (dir.channels.contents s').get? name = some stored ∧
    stored.owner = promised.owner ∧
    (stored.SameMaps ((dir.owners s).stamp promised.dedup) ↔
      requestsOf requests name = [last] ∨
        ∀ c, (dir.channels.contents s).get? name = some c ∨ c ∈ requestsOf requests name →
          last.Covers c) ∧
    ∀ c, (dir.channels.contents s).get? name = some c →
      (stored.Covers c ↔ requestsOf requests name = [last] ∨ last.Covers c)
  unnamed : ∀ name, name ∉ requests.map Channel.name →
    s'.get? dir.config.channelIndex name = s.get? dir.config.channelIndex name
  others : ∀ index, index ≠ dir.config.channelIndex → s'.documents index = s.documents index

/-- An update of many channels stores what merging all requests leads to exactly under the
names of which nothing is lost. -/
theorem updateChannels_merges_iff (dir : Directory) (b b' : Backend)
    (requests answer : List Channel) (wf : dir.WellFormed b.store)
    (h : (dir.updateChannels requests).run b = (.ok answer, b')) :
    dir.UpdatesMany requests b.store b'.store := by
  rw [updateChannels_eq] at h
  obtain ⟨batch, hbatch, rfl, -, -⟩ := Write.run_ok _ h
  have hops := channelOps_updateAllWrite wf hbatch
  refine ⟨fun name hname => ?_, fun name hname => ?_, fun index hindex => ?_⟩
  · obtain ⟨last, hlast⟩ := exists_getLast?_requestsOf.mpr hname
    obtain ⟨written, hwritten, howner, hstored⟩ :=
      (returns_updateAllWrite wf hbatch name).2 last hlast
    obtain ⟨promised, hpromised, hsameOwner, hsame, hcovers⟩ :=
      exists_promised hlast hwritten howner
    exact ⟨last, promised, _, hlast, hpromised, hstored, hsameOwner, hsame, hcovers⟩
  · have hsame := (returns_updateAllWrite wf hbatch name).1 hname
    have hafter : dir.channels.HoldsOnly Channel.Distinct (b.store.after batch.ops) :=
      wf.channels.after fun op => hops.writesOnly fun c hc => hc.distinct
    refine (hafter.get?_store name).trans ?_
    rw [hsame]
    exact (wf.channels.get?_store name).symm
  · exact hops.documents_eq hindex

/-- Two channels with a tag, and another tag that no channel has. -/
def tagOnAB : Backend where
  store := usual.filled [⟨"A", "o", [⟨"t", "x"⟩], []⟩, ⟨"B", "o", [⟨"t", "x"⟩], []⟩]
    [⟨"t", "x", []⟩, ⟨"u", "y", []⟩] []

theorem wellFormed_tagOnAB : usual.WellFormed tagOnAB.store :=
  wellFormed_filled distinctIndices_usual (by decide) _ _

/-- One request for the first channel, and two for the second one. -/
def tagRequests : List Channel :=
  [⟨"A", "o", [⟨"u", ""⟩], []⟩, ⟨"B", "o", [], []⟩, ⟨"B", "o", [⟨"u", ""⟩], []⟩]

/-- Of two payloads for one channel, only the last is merged. -/
theorem returns_tagRequests : (usual.updateChannels tagRequests).Returns tagOnAB
    [⟨"A", "o", [⟨"t", "x"⟩, ⟨"u", "y"⟩], []⟩, ⟨"B", "o", [⟨"u", "y"⟩], []⟩] := by
  unfold Returns
  cbv

/-- The first channel has both tags after the update. -/
theorem tagRequests_merge_once : ∃ answer b',
    (usual.updateChannels tagRequests).run tagOnAB = (.ok answer, b') ∧
      usual.UpdatesMany tagRequests tagOnAB.store b'.store :=
  ⟨_, _, returns_tagRequests.run_eq, updateChannels_merges_iff usual tagOnAB _ tagRequests _
    wellFormed_tagOnAB returns_tagRequests.run_eq⟩

/-- The second channel has lost its first tag, so an update of many channels does not always
store what merging the requests leads to. -/
theorem tagRequests_lose_tag :
    ¬∀ (dir : Directory) (b b' : Backend) (requests answer : List Channel),
      dir.config.DistinctIndices → dir.WellFormed b.store →
      (dir.updateChannels requests).run b = (.ok answer, b') →
      ∀ name stored promised, (dir.channels.contents b'.store).get? name = some stored →
        mergedAll ((dir.channels.contents b.store).get? name) (requestsOf requests name) =
          some promised →
        stored.SameMaps ((dir.owners b.store).stamp promised.dedup) := by
  intro h
  have hsame := h usual tagOnAB _ tagRequests _ distinctIndices_usual wellFormed_tagOnAB
    returns_tagRequests.run_eq "B" ⟨"B", "o", [⟨"u", "y"⟩], []⟩
    ⟨"B", "o", [⟨"t", "x"⟩, ⟨"u", ""⟩], []⟩ (by cbv) (by cbv)
  have hpromised : findRef? ((usual.owners tagOnAB.store).stamp (Channel.dedup
      ⟨"B", "o", [⟨"t", "x"⟩, ⟨"u", ""⟩], []⟩)).tags "t" = some ⟨"t", "x"⟩ := by cbv
  have htag := hsame.1 "t"
  rw [hpromised] at htag
  cases htag

end Directory

end ChannelDirectory

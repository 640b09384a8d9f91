import ChannelDirectory.Proofs.Directory.OneRecord

/-!
# Deleting a record, and assigning it to one channel

Three commands change the references of one name only, and say on which channels :
`removeAttribute` takes them off every channel that carries the name, and deletes the record;
`addToChannel` and `removeFromChannel` put one on a single channel or take it off, and leave all
records alone. On the channels that are touched everything else stays, order included
(`ExchangesRefs`), and the other channels stay the documents that they are
(`Directory.ExchangesIn`).

What is put on a channel stands at its end, so taking it off again leaves the channel as it was
if it did not carry the name before (`eraseRef_putRef_of_absent`).
-/

namespace ChannelDirectory

open Attribute ChannelEdits Collection LawfulAttribute Program

/-! ## One channel -/

section Channels

variable {α ρ : Type} [Attribute α ρ] [Reference ρ] [LawfulAttribute α]

/-- A channel has other references of a name than before, and is the same in all else. -/
structure ExchangesRefs (α : Type) {ρ : Type} [Attribute α ρ] [Reference ρ] [LawfulAttribute α]
    (name : String) (new : List ρ) (c c' : Channel) : Prop where
  rest : c' = setRefs α c (refs α c')
  named : (refs α c').filter (fun r => Reference.name r = name) = new
  others : (refs α c').filter (fun r => Reference.name r ≠ name) =
    (refs α c).filter fun r => Reference.name r ≠ name

omit [Attribute α ρ] [LawfulAttribute α] in
/-- Nothing of a name is left once it is taken off. -/
theorem filter_name_eraseRef (refs : List ρ) (name : String) :
    (eraseRef refs name).filter (fun r => Reference.name r = name) = [] := by
  refine List.filter_eq_nil_iff.mpr fun r hr => ?_
  simpa using (mem_eraseRef.mp hr).2

omit [Attribute α ρ] [LawfulAttribute α] in
/-- What is put where there was nothing of its name is taken off without a trace. -/
theorem eraseRef_putRef_of_absent {refs : List ρ} {ref : ρ}
    (h : findRef? refs (Reference.name ref) = none) :
    eraseRef (putRef refs ref) (Reference.name ref) = refs := by
  rw [eraseRef_putRef_self]
  exact List.filter_eq_self.mpr fun r hr => by simpa using findRef?_eq_none_iff.mp h r hr

/-- The references of other names are kept. -/
def keepsOther (name : String) : String → Bool := fun other => other ≠ name

theorem keepsOther_self (name : String) : keepsOther name name = false :=
  decide_eq_false (not_not.mpr rfl)

/-- Taking a name off leaves no reference of it, and the others as they are. -/
theorem exchangesRefs_erase (name : String) (c : Channel) :
    ExchangesRefs α name [] c (setRefs α c (eraseRef (refs α c) name)) where
  rest := by rw [refs_setRefs]
  named := by rw [refs_setRefs, filter_name_eraseRef]
  others := by
    rw [refs_setRefs]
    exact filter_eraseRef (keepsOther_self name) (refs α c)

/-- Putting a reference leaves it as the only one of its name, and the others as they are. -/
theorem exchangesRefs_put (ref : ρ) (c : Channel) :
    ExchangesRefs α (Reference.name ref) [ref] c (setRefs α c (putRef (refs α c) ref)) where
  rest := by rw [refs_setRefs]
  named := by
    rw [refs_setRefs, putRef, List.filter_append, filter_name_eraseRef]
    simp
  others := by
    rw [refs_setRefs]
    exact filter_putRef (keepsOther_self _) (refs α c)

/-- Taking a name off several channels takes it off each of them. -/
theorem foldl_eraseAt (name : String) (channels : List String) (c : Channel) :
    channels.foldl (eraseAt α name) c =
      if c.name ∈ channels then setRefs α c (eraseRef (refs α c) name) else c := by
  induction channels generalizing c with
  | nil => rfl
  | cons channel channels ih =>
    rw [List.foldl_cons, ih, eraseAt]
    by_cases h : c.name = channel
    · simp only [h, if_true, name_setRefs, refs_setRefs, eraseRef_eraseRef, setRefs_setRefs,
        ite_self, List.mem_cons_self]
    · simp only [h, if_false, List.mem_cons, false_or]

/-- Stripping members takes the name off those channels and changes no other. -/
theorem applyTo_strip (members : KeyMap ρ) (name : String) (c : Channel) :
    (Attribute.stage α KeyMap.empty name (Delta.strip members)).applyTo c =
      if c.name ∈ members.keys then setRefs α c (eraseRef (refs α c) name) else c := by
  rw [(about_empty (α := α) (· ≤ name)).applyTo_stage (Delta.names_strip members), Delta.carryOut]
  change (Delta.strip members).removed.keys.foldl (eraseAt α name) c = _
  rw [foldl_eraseAt, Delta.strip, KeyMap.keys_mapValues]

/-- One reference to put changes its channel only. -/
theorem applyTo_put (channel : String) (ref : ρ) (c : Channel) :
    (Attribute.putEdit α KeyMap.empty channel ref).applyTo c =
      if c.name = channel then setRefs α c (putRef (refs α c) ref) else c :=
  (about_empty (α := α) (· ≤ Reference.name ref)).applyTo_putEdit channel c

/-- One reference to remove changes its channel only. -/
theorem applyTo_remove (channel name : String) (c : Channel) :
    (Attribute.removeEdit α KeyMap.empty channel name).applyTo c =
      if c.name = channel then setRefs α c (eraseRef (refs α c) name) else c :=
  (about_empty (α := α) (· = name)).applyTo_removeEdit channel name c

end Channels

namespace Directory

/-! ## Some channels of a store -/

/-- Some channels have other references of a name than before. Nothing else has changed but the
records under some ids. -/
structure ExchangesIn (dir : Directory) (α : Type) {ρ : Type} [Attribute α ρ] [Reference ρ]
    [LawfulAttribute α] (name : String) (touched : Channel → Prop) (new : List ρ)
    (records : List String) (s s' : Store) : Prop where
  shape : dir.InShape α s'
  same_channels : (dir.channels.contents s').keys = (dir.channels.contents s).keys
  exchanged : ∀ id c, (dir.channels.contents s).get? id = some c → touched c →
    ∃ c', (dir.channels.contents s').get? id = some c' ∧ ExchangesRefs α name new c c'
  untouched : ∀ id c, (dir.channels.contents s).get? id = some c → ¬touched c →
    s'.get? dir.config.channelIndex id = s.get? dir.config.channelIndex id
  others : ∀ index id, index ≠ dir.config.channelIndex →
    ¬(index = Attribute.index α dir.config ∧ id ∈ records) → s'.get? index id = s.get? index id

variable {α ρ : Type} [Attribute α ρ] [Reference ρ] [LawfulAttribute α] [LawfulEntity α]
  {dir : Directory} {b b' : Backend} {s s' : Store} {name channel : String}

/-- Edits exchange references where they do so in each channel. -/
theorem Edited.exchangesIn {ops : List Operation} {edits : ChannelEdits} {touched : Channel → Prop}
    {new : List ρ} {records : List String} (shape : dir.InShape α s)
    (edited : dir.Edited α ops edits s s')
    (htouched : ∀ id c, (dir.channels.contents s).get? id = some c → touched c →
      ExchangesRefs α name new c (edits.applyTo c))
    (huntouched : ∀ id c, (dir.channels.contents s).get? id = some c → ¬touched c →
      edits.applyTo c = c)
    (hops : ∀ op ∈ ops, op.id ∈ records) :
    dir.ExchangesIn α name touched new records s s' where
  shape := edited.shape
  same_channels := by rw [edited.channels, KeyMap.keys_mapValues]
  exchanged id c hc ht := by
    refine ⟨edits.applyTo c, ?_, htouched id c hc ht⟩
    rw [edited.channels, KeyMap.get?_mapValues, hc, Option.map_some]
  untouched id c hc ht := by
    have hbefore := shape.channels.get?_store id
    have hafter := edited.shape.channels.get?_store id
    rw [edited.channels, KeyMap.get?_mapValues, hc, Option.map_some,
      huntouched id c hc ht] at hafter
    rw [hc] at hbefore
    exact hafter.trans hbefore.symm
  others index id hchannel hid := by
    by_cases hindex : index = Attribute.index α dir.config
    · rw [hindex]
      refine edited.get?_record shape ?_
      rw [get?_contents, get?_contents, Store.get?_after_of_ne]
      intro op hop hsame
      exact hid ⟨hindex, hsame.2 ▸ hops op hop⟩
    · exact Store.get?_congr (edited.others index hchannel hindex) id

/-! ## The three commands -/

/-- A deletion takes the name off the channels that carried it. -/
theorem removeAttribute_exchanges [DecidableEq ρ] (indices : dir.config.DistinctIndices)
    (shape : dir.InShape α b.store)
    (h : (dir.removeAttribute α name).run b = (.ok (), b')) :
    (∃ doc, b.store.get? (Attribute.index α dir.config) name = some doc) ∧
      b'.store.get? (Attribute.index α dir.config) name = none ∧
      dir.ExchangesIn α name (fun c => (currentRef? α c name).isSome = true) [] [name] b.store
        b'.store := by
  rw [removeAttribute_eq] at h
  obtain ⟨p, hp, edited, -⟩ := editWrite_run_ok indices shape _ (fun p hp =>
    ⟨(confined_removePlan shape hp).records, (confined_removePlan shape hp).about⟩) h
  obtain ⟨⟨record, hget⟩, -, rfl⟩ := (returns_removePlan_iff shape).mp hp
  have hmember : ∀ id c, (dir.channels.contents b.store).get? id = some c →
      (c.name ∈ (dir.membersOf α b.store name).keys ↔ (currentRef? α c name).isSome = true) := by
    intro id c hc
    have hname : c.name = id := shape.channels.name_eq hc
    rw [KeyMap.mem_keys_iff, hname, ← Option.isSome_iff_exists, get?_membersOf, refAt?, hc,
      Option.bind_some]
  refine ⟨?_, ?_, edited.exchangesIn shape ?_ ?_ (List.forall_mem_singleton.mpr
    List.mem_cons_self)⟩
  · have hdoc := shape.records.get?_store name
    rw [hget] at hdoc
    exact ⟨_, hdoc⟩
  · have hgone := edited.shape.records.get?_store name
    rw [edited.records, Store.after_cons, Store.after_nil, contents_apply_deleteOp,
      KeyMap.get?_erase, if_pos rfl] at hgone
    exact hgone
  · intro id c hc hcarries
    rw [applyTo_strip, if_pos ((hmember id c hc).mpr hcarries)]
    exact exchangesRefs_erase name c
  · intro id c hc hcarries
    rw [applyTo_strip, if_neg fun hmem => hcarries ((hmember id c hc).mp hmem)]

/-- An assignment puts the reference that is asked for on its channel, whatever was there of the
name. -/
theorem addToChannel_exchanges (indices : dir.config.DistinctIndices)
    (shape : dir.InShape α b.store) {request answer : α}
    (h : (dir.addToChannel name channel request).run b = (.ok answer, b')) :
    ∃ c ref, ((dir.records α).contents b.store).get? name = some answer ∧
      (dir.channels.contents b.store).get? channel = some c ∧
      singleRef answer request channel = .ok ref ∧
      dir.ExchangesIn α name (fun c => c.name = channel) [ref] [] b.store b'.store := by
  rw [addToChannel_eq] at h
  obtain ⟨p, hp, edited, hanswer⟩ := editWrite_run_ok indices shape _ (fun p hp =>
    ⟨(confined_addPlan shape hp).records, (confined_addPlan shape hp).about⟩) h
  obtain ⟨-, -, ⟨c, hc⟩, record, ref, hget, href, rfl⟩ := (returns_addPlan_iff shape).mp hp
  obtain rfl := returns_done.mp hanswer
  have hname : Reference.name ref = name := by
    rw [(singleRef_ok href).1, shape.records.name_eq hget]
  refine ⟨c, ref, hget, hc, href, edited.exchangesIn shape ?_ ?_ (List.forall_mem_nil _)⟩
  · intro id c _ hchannel
    rw [applyTo_put, if_pos hchannel, ← hname]
    exact exchangesRefs_put ref c
  · intro id c _ hchannel
    rw [applyTo_put, if_neg hchannel]

/-- Taking a record off a channel leaves it and its other members as they are. -/
theorem removeFromChannel_exchanges (indices : dir.config.DistinctIndices)
    (shape : dir.InShape α b.store)
    (h : (dir.removeFromChannel α name channel).run b = (.ok (), b')) :
    (∃ doc, b.store.get? (Attribute.index α dir.config) name = some doc) ∧
      (∃ c, (dir.channels.contents b.store).get? channel = some c) ∧
      dir.ExchangesIn α name (fun c => c.name = channel) [] [] b.store b'.store := by
  rw [removeFromChannel_eq] at h
  obtain ⟨p, hp, edited, -⟩ := editWrite_run_ok indices shape _ (fun p hp =>
    ⟨(confined_removeFromPlan shape hp).records, (confined_removeFromPlan shape hp).about⟩) h
  obtain ⟨-, ⟨record, hget⟩, hchannel, rfl⟩ := (returns_removeFromPlan_iff shape).mp hp
  refine ⟨?_, hchannel, edited.exchangesIn shape ?_ ?_ (List.forall_mem_nil _)⟩
  · have hdoc := shape.records.get?_store name
    rw [hget] at hdoc
    exact ⟨_, hdoc⟩
  · intro id c _ hname
    rw [applyTo_remove, if_pos hname]
    exact exchangesRefs_erase name c
  · intro id c _ hname
    rw [applyTo_remove, if_neg hname]

/-! ## Putting on and taking off -/

omit [Reference ρ] [LawfulAttribute α] in
/-- Edits that others undo leave every document as it was. -/
theorem Edited.undone {edits edits' : ChannelEdits} {s'' : Store} (shape : dir.InShape α s)
    (edited : dir.Edited α [] edits s s') (edited' : dir.Edited α [] edits' s' s'')
    (hundo : ∀ id c, (dir.channels.contents s).get? id = some c →
      edits'.applyTo (edits.applyTo c) = c) (index id : String) :
    s''.get? index id = s.get? index id := by
  by_cases hchannel : index = dir.config.channelIndex
  · have hcontents : (dir.channels.contents s'').get? id = (dir.channels.contents s).get? id := by
      rw [edited'.channels, KeyMap.get?_mapValues, edited.channels, KeyMap.get?_mapValues]
      cases hc : (dir.channels.contents s).get? id with
      | none => rfl
      | some c => rw [Option.map_some, Option.map_some, hundo id c hc]
    have hafter := edited'.shape.channels.get?_store id
    rw [hcontents, ← shape.channels.get?_store id] at hafter
    rw [hchannel]
    exact hafter
  · by_cases hindex : index = Attribute.index α dir.config
    · rw [hindex, edited'.get?_record edited.shape rfl, edited.get?_record shape rfl]
    · exact (Store.get?_congr (edited'.others index hchannel hindex) id).trans
        (Store.get?_congr (edited.others index hchannel hindex) id)

/-- What is added to a channel that does not carry the name can be taken off again, and the store
is as it was. -/
theorem removeFromChannel_restores (indices : dir.config.DistinctIndices)
    (shape : dir.InShape α b.store) {request answer : α}
    (h : (dir.addToChannel name channel request).run b = (.ok answer, b'))
    (habsent : dir.refAt? α b.store channel name = none) :
    ∃ b'', (dir.removeFromChannel α name channel).run b' = (.ok (), b'') ∧
      ∀ index id, b''.store.get? index id = b.store.get? index id := by
  rw [addToChannel_eq, editWrite_run_eq_ok_iff] at h
  obtain ⟨p, more, hp, hmore, -, -, rfl, -⟩ := h
  have hconfined := confined_addPlan shape hp
  obtain ⟨names, habout⟩ := hconfined.about
  have edited := edited_of_returns_operations indices shape hconfined.records habout hmore
  obtain ⟨-, havail, ⟨c, hc⟩, record, ref, hget, href, rfl⟩ := (returns_addPlan_iff shape).mp hp
  have hname : Reference.name ref = name := by
    rw [(singleRef_ok href).1, shape.records.name_eq hget]
  -- The record and the channel are still there.
  have hplan : (dir.removeFromPlan α name channel).Returns (b.after ([] ++ more)) _ :=
    (returns_removeFromPlan_iff (b := b.after ([] ++ more)) edited.shape).mpr
      ⟨havail, ⟨record, edited.records ▸ hget⟩, edited.exists_channel ⟨c, hc⟩, rfl⟩
  have hwrites := (plansFor_removeFromPlan channel).writes (b := b.after ([] ++ more)) edited.shape
    hplan
  obtain ⟨ops, hrun, edited', -⟩ := hwrites.exists_run (b := b.after ([] ++ more)) indices
    edited.shape (readOnly_removeFromPlan name channel) hplan
  refine ⟨(b.after ([] ++ more)).after ops, ?_, ?_⟩
  · rw [removeFromChannel_eq, hrun]
    rfl
  · refine edited.undone shape edited' fun id c' hc' => ?_
    rw [applyTo_put, applyTo_remove]
    by_cases hchannel : c'.name = channel
    · have hid : c'.name = id := shape.channels.name_eq hc'
      rw [refAt?, ← hchannel, hid, hc', Option.bind_some, ← hname] at habsent
      rw [if_pos hchannel, name_setRefs, if_pos hchannel, refs_setRefs, setRefs_setRefs, ← hname,
        eraseRef_putRef_of_absent habsent, setRefs_refs]
    · rw [if_neg hchannel, if_neg hchannel]

/-! ## Both kinds -/

/-- What deleting a record and assigning it to one channel do on a backend, with the reference
that a request means for a record of a name and an owner. -/
structure ChangesNamed (dir : Directory) (α : Type) {ρ : Type} [Attribute α ρ] [Reference ρ]
    [DecidableEq ρ] [LawfulAttribute α] (meant : String → String → α → Option ρ) (b : Backend) :
    Prop where
  remove : ∀ name b', (dir.removeAttribute α name).run b = (.ok (), b') →
    (∃ doc, b.store.get? (Attribute.index α dir.config) name = some doc) ∧
      b'.store.get? (Attribute.index α dir.config) name = none ∧
      dir.ExchangesIn α name (fun c => (currentRef? α c name).isSome = true) [] [name] b.store
        b'.store
  add : ∀ name channel (request answer : α) b',
    (dir.addToChannel name channel request).run b = (.ok answer, b') →
      ∃ c ref, ((dir.records α).contents b.store).get? name = some answer ∧
        (dir.channels.contents b.store).get? channel = some c ∧
        meant name (owner answer) request = some ref ∧
        dir.ExchangesIn α name (fun c => c.name = channel) [ref] [] b.store b'.store
  removeFrom : ∀ name channel b',
    (dir.removeFromChannel α name channel).run b = (.ok (), b') →
      (∃ doc, b.store.get? (Attribute.index α dir.config) name = some doc) ∧
        (∃ c, (dir.channels.contents b.store).get? channel = some c) ∧
        dir.ExchangesIn α name (fun c => c.name = channel) [] [] b.store b'.store
  undo : ∀ name channel c (request answer : α) b',
    (dir.addToChannel name channel request).run b = (.ok answer, b') →
      (dir.channels.contents b.store).get? channel = some c →
      (∀ ref ∈ refs α c, Reference.name ref ≠ name) →
        ∃ b'', (dir.removeFromChannel α name channel).run b' = (.ok (), b'') ∧
          ∀ index id, b''.store.get? index id = b.store.get? index id

/-- What a command that names one channel changes there and nowhere else. -/
theorem changesNamed [DecidableEq ρ] {meant : String → String → α → Option ρ}
    (hmeant : ∀ {record request : α} {channel : String} {ref : ρ},
      singleRef record request channel = .ok ref →
        meant (Entity.name record) (owner record) request = some ref)
    (indices : dir.config.DistinctIndices) (shape : dir.InShape α b.store) :
    dir.ChangesNamed α meant b where
  remove _ _ h := removeAttribute_exchanges indices shape h
  add name channel request answer b' h := by
    obtain ⟨c, ref, hget, hc, href, exchanges⟩ := addToChannel_exchanges indices shape h
    have hname : Entity.name answer = name := shape.records.name_eq hget
    exact ⟨c, ref, hget, hc, hname ▸ hmeant href, exchanges⟩
  removeFrom _ _ _ h := removeFromChannel_exchanges indices shape h
  undo name channel c request answer b' h hc habsent := by
    refine removeFromChannel_restores indices shape h ?_
    rw [refAt?, hc, Option.bind_some]
    exact findRef?_eq_none_iff.mpr habsent

end Directory

/-- The reference that a tag means for a single channel. -/
def Tag.meantAlone (name owner : String) (_ : Tag) : Option TagRef :=
  some ⟨name, owner⟩

/-- The reference that a property means for a single channel, with the value of the request. -/
def Property.meantAlone (name owner : String) (request : Property) : Option PropertyRef :=
  request.value.map fun value => ⟨name, owner, value⟩

/-- A tag on a single channel means its stored name and owner. -/
theorem Tag.meantAlone_eq {record request : Tag} {channel : String} {ref : TagRef}
    (h : singleRef record request channel = .ok ref) :
    Tag.meantAlone record.name record.owner request = some ref := by
  cases h
  rfl

/-- A property on a single channel means the value that its request gives. -/
theorem Property.meantAlone_eq {record request : Property} {channel : String} {ref : PropertyRef}
    (h : singleRef record request channel = .ok ref) :
    Property.meantAlone record.name record.owner request = some ref := by
  change record.toRef <$> validateValue record.name channel request.value = .ok ref at h
  rw [Property.meantAlone]
  cases hvalue : request.value with
  | none =>
    rw [hvalue] at h
    cases h
  | some value =>
    rw [hvalue, validateValue] at h
    split at h
    · cases h
    · rw [← Except.ok.inj h]
      rfl

namespace Directory

/-- Deleting a tag or property and assigning it to one channel change what they name only. -/
theorem changes_named_only (dir : Directory) (b : Backend) (indices : dir.config.DistinctIndices)
    (wf : dir.WellFormed b.store) :
    dir.ChangesNamed Tag Tag.meantAlone b ∧ dir.ChangesNamed Property Property.meantAlone b :=
  ⟨changesNamed Tag.meantAlone_eq indices wf.tagShape,
    changesNamed Property.meantAlone_eq indices wf.propertyShape⟩

/-- A tag on one of two channels. -/
def tagOnA : Backend where
  store := usual.filled [⟨"A", "o", [⟨"s", "y"⟩, ⟨"t", "x"⟩], []⟩, ⟨"B", "o", [⟨"s", "y"⟩], []⟩]
    [{ name := "s", owner := "y" }, { name := "t", owner := "x" }] []

/-- The tag is put on the other channel and taken off again, or else it is deleted. -/
theorem tagOnA_changes :
    (∃ after restored, (usual.addToChannel "t" "B" ({ name := "t" } : Tag)).run tagOnA =
        (.ok { name := "t", owner := "x" }, after) ∧
      usual.ExchangesIn Tag "t" (fun c => c.name = "B") [⟨"t", "x"⟩] [] tagOnA.store after.store ∧
      (usual.removeFromChannel Tag "t" "B").run after = (.ok (), restored) ∧
      ∀ index id, restored.store.get? index id = tagOnA.store.get? index id) ∧
    ∃ after, (usual.removeAttribute Tag "t").run tagOnA = (.ok (), after) ∧
      usual.ExchangesIn Tag "t" (fun c => (currentRef? Tag c "t").isSome = true) [] ["t"]
        tagOnA.store after.store := by
  have wf : usual.WellFormed tagOnA.store := wellFormed_filled distinctIndices_usual (by decide) _ _
  obtain ⟨changes, -⟩ := changes_named_only usual tagOnA distinctIndices_usual wf
  have hadd : (usual.addToChannel "t" "B" ({ name := "t" } : Tag)).Returns tagOnA
      { name := "t", owner := "x" } := by
    unfold Returns
    cbv
  have hremove : (usual.removeAttribute Tag "t").Returns tagOnA () := by
    unfold Returns
    cbv
  have hB : (usual.channels.contents tagOnA.store).get? "B" =
      some ⟨"B", "o", [⟨"s", "y"⟩], []⟩ := by
    cbv
  obtain ⟨_, ref, -, -, href, exchanges⟩ := changes.add _ _ _ _ _ hadd.run_eq
  obtain rfl := Option.some.inj href
  obtain ⟨restored, hback, hsame⟩ := changes.undo _ _ _ _ _ _ hadd.run_eq hB (by decide)
  exact ⟨⟨_, restored, hadd.run_eq, exchanges, hback, hsame⟩, _, hremove.run_eq,
    (changes.remove _ _ hremove.run_eq).2.2⟩

end Directory

end ChannelDirectory

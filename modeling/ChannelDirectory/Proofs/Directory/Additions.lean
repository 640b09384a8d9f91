import ChannelDirectory.Proofs.Directory.Batches
import ChannelDirectory.Proofs.Directory.Plans

/-!
# Adding members to many records

A successful `updateAttributes` leaves the records that exist as they are, and stores the others
that the request names (`Directory.AddsMembers`). The members of each of them are the old ones and
those that the last record of its name lists. The channels that this record lists carry the
reference that it means, with the owner that is stored; what all other channels carry of the name
stays.

What else a channel carries stays in its order. Here it is not enough that edits are about some
names : a channel loses its order only for the names whose records list this channel
(`mentions_foldl_stagedMerge`).
-/

namespace ChannelDirectory

open Attribute ChannelEdits Collection LawfulAttribute Program

/-! ## What requests mean -/

/-- The reference that a tag means for its channels. -/
def Tag.meant (name owner : String) (_ : Channel) : Option TagRef :=
  some ⟨name, owner⟩

/-- The reference that a property means for one of its channels : its value is the one that is
given there. -/
def Property.meant (name owner : String) (c : Channel) : Option PropertyRef :=
  (c.property? name).map fun given => ⟨name, owner, given.value⟩

/-- A kind of records that mean a reference for each of their channels, under any identity. -/
structure Means (α : Type) {ρ : Type} [Attribute α ρ]
    (meant : String → String → Channel → Option ρ) : Prop where
  channels_withIdentity : ∀ (record : α) (name owner : String),
    Attribute.channels (withIdentity record name owner) = Attribute.channels record
  memberRef_ok : ∀ {record : α} {c : Channel} {ref : ρ}, memberRef record c = .ok ref →
    meant (Entity.name record) (Attribute.owner record) c = some ref

/-- A tag means the same reference for each of its channels. -/
theorem means_tag : Means Tag Tag.meant where
  channels_withIdentity _ _ _ := rfl
  memberRef_ok h := by
    cases h
    rfl

/-- A property means a reference with the value that the channel gives for it. -/
theorem means_property : Means Property Property.meant where
  channels_withIdentity _ _ _ := rfl
  memberRef_ok {p c ref} h := by
    change p.toRef <$> validateValue p.name c.name ((c.property? p.name).map PropertyRef.value) =
      .ok ref at h
    change (c.property? p.name).map _ = some ref
    cases hgiven : c.property? p.name with
    | none =>
      rw [hgiven] at h
      cases h
    | some given =>
      rw [hgiven, Option.map_some, validateValue] at h
      split at h
      · cases h
      · rw [← Except.ok.inj h]
        rfl

variable {α ρ : Type} [Attribute α ρ]

namespace Directory

/-- What a request says of one of the channels that it lists. -/
theorem exists_memberRef_of_entry {record : α} {c : Channel} {entry : String × ρ}
    (h : (fun ref => (c.name, ref)) <$> memberRef record c = .ok entry) :
    ∃ ref, memberRef record c = .ok ref ∧ entry = (c.name, ref) := by
  cases hmember : memberRef record c with
  | error e =>
    rw [hmember] at h
    cases h
  | ok ref =>
    rw [hmember] at h
    exact ⟨ref, rfl, (Except.ok.inj h).symm⟩

/-- Of the channels of one name that a request lists, the last one says what the member is. -/
theorem get?_of_requestedMembers {record : α} {desired : KeyMap ρ}
    (h : requestedMembers record = .ok desired) (id : String) :
    match ((Attribute.channels record).filter fun c => c.name = id).getLast? with
    | some c => ∃ ref, memberRef record c = .ok ref ∧ desired.get? id = some ref
    | none => desired.get? id = none := by
  unfold requestedMembers at h
  cases hmembers : (Attribute.channels record).mapM
      fun c => (fun ref => (c.name, ref)) <$> memberRef record c with
  | error e =>
    rw [hmembers] at h
    cases h
  | ok members =>
    rw [hmembers] at h
    obtain rfl := Except.ok.inj h
    have hall := mapM_eq_ok_iff.mp hmembers
    clear h hmembers
    generalize Attribute.channels record = cs at hall ⊢
    induction hall with
    | nil => rfl
    | @cons c member cs members hmade _ ih =>
      obtain ⟨ref, href, rfl⟩ := exists_memberRef_of_entry hmade
      rw [KeyMap.get?_ofList_cons]
      by_cases hname : c.name = id
      · rw [List.filter_cons_of_pos (by simpa using hname), List.getLast?_cons, if_pos hname.symm]
        cases hlast : (cs.filter fun c => c.name = id).getLast? with
        | none =>
          rw [hlast] at ih
          exact ⟨ref, href, by rw [show (KeyMap.ofList members).get? id = none from ih]; rfl⟩
        | some last =>
          rw [hlast] at ih
          obtain ⟨other, hother, hget⟩ := ih
          exact ⟨other, hother, by rw [hget]; rfl⟩
      · rw [List.filter_cons_of_neg (by simpa using hname), if_neg (Ne.symm hname), Option.or_none]
        exact ih

/-- A request names the members that it lists. -/
theorem exists_get?_of_requestedMembers_iff {record : α} {desired : KeyMap ρ}
    (h : requestedMembers record = .ok desired) (id : String) :
    (∃ ref, desired.get? id = some ref) ↔ ∃ c ∈ Attribute.channels record, c.name = id := by
  have hlast := get?_of_requestedMembers h id
  constructor
  · rintro ⟨ref, href⟩
    obtain ⟨c, hc, hname, -⟩ := exists_memberRef_of_requested h href
    exact ⟨c, hc, hname⟩
  · rintro ⟨c, hc, hname⟩
    cases hfilter : ((Attribute.channels record).filter fun c => c.name = id).getLast? with
    | none =>
      have hnone := List.filter_eq_nil_iff.mp (List.getLast?_eq_none_iff.mp hfilter) c hc
      exact absurd (decide_eq_true hname) hnone
    | some last =>
      rw [hfilter] at hlast
      obtain ⟨ref, -, href⟩ := hlast
      exact ⟨ref, href⟩

end Directory

/-! ## Which channels are edited for a name -/

namespace ChannelEdits

variable [Reference ρ] [LawfulAttribute α] {edits : ChannelEdits}
  {channel channel' name name' : String}

/-- One reference to remove adds its name to the edits of its channel. -/
theorem mentions_removeEdit
    (h : (partOf α (Attribute.removeEdit α edits channel' name) channel).Mentions name') :
    (partOf α edits channel).Mentions name' ∨ name' = name ∧ channel = channel' := by
  rw [Attribute.removeEdit, partOf_modify] at h
  split at h
  · rename_i heq
    rcases RefEdit.mentions_removeRef h with hname | h
    · exact Or.inr ⟨hname, heq⟩
    · exact Or.inl (heq ▸ h)
  · exact Or.inl h

/-- One reference to put adds its name to the edits of its channel. -/
theorem mentions_putEdit {ref : ρ}
    (h : (partOf α (Attribute.putEdit α edits channel' ref) channel).Mentions name') :
    (partOf α edits channel).Mentions name' ∨ name' = Reference.name ref ∧ channel = channel' := by
  rw [Attribute.putEdit, partOf_modify] at h
  split at h
  · rename_i heq
    rcases RefEdit.mentions_putRef h with hname | h
    · exact Or.inr ⟨hname, heq⟩
    · exact Or.inl (heq ▸ h)
  · exact Or.inl h

theorem mentions_foldl_removeEdit (channels : List String)
    (h : (partOf α (channels.foldl (fun edits channel => Attribute.removeEdit α edits channel name)
      edits) channel).Mentions name') :
    (partOf α edits channel).Mentions name' ∨ name' = name ∧ channel ∈ channels := by
  induction channels generalizing edits with
  | nil => exact Or.inl h
  | cons removed channels ih =>
    rcases ih h with hm | ⟨hname, hmem⟩
    · rcases mentions_removeEdit hm with hm | ⟨hname, rfl⟩
      · exact Or.inl hm
      · exact Or.inr ⟨hname, List.mem_cons_self⟩
    · exact Or.inr ⟨hname, List.mem_cons_of_mem _ hmem⟩

theorem mentions_foldl_putEdit (upserts : List (String × ρ))
    (hnames : ∀ e ∈ upserts, Reference.name e.2 = name)
    (h : (partOf α (upserts.foldl (fun edits e => Attribute.putEdit α edits e.1 e.2) edits)
      channel).Mentions name') :
    (partOf α edits channel).Mentions name' ∨ name' = name ∧ ∃ ref, (channel, ref) ∈ upserts := by
  induction upserts generalizing edits with
  | nil => exact Or.inl h
  | cons e upserts ih =>
    obtain ⟨hfirst, hrest⟩ := List.forall_mem_cons.mp hnames
    rcases ih hrest h with hm | ⟨hname, ref, hmem⟩
    · rcases mentions_putEdit hm with hm | ⟨hname, rfl⟩
      · exact Or.inl hm
      · exact Or.inr ⟨hname.trans hfirst, e.2, List.mem_cons_self⟩
    · exact Or.inr ⟨hname, ref, List.mem_cons_of_mem _ hmem⟩

/-- A staged delta adds its own name to the edits of the channels that it says something about. -/
theorem mentions_stage {d : Delta ρ} (hd : d.Names name)
    (h : (partOf α (Attribute.stage α edits name d) channel).Mentions name') :
    (partOf α edits channel).Mentions name' ∨
      name' = name ∧ (channel ∈ d.removed.keys ∨ ∃ ref, (channel, ref) ∈ d.upserts) := by
  rcases mentions_foldl_putEdit d.upserts hd h with hm | ⟨hname, href⟩
  · rcases mentions_foldl_removeEdit d.removed.keys hm with hm | ⟨hname, hmem⟩
    · exact Or.inl hm
    · exact Or.inr ⟨hname, Or.inl hmem⟩
  · exact Or.inr ⟨hname, Or.inr href⟩

end ChannelEdits

namespace Directory

variable {dir : Directory} {s s' : Store} {edits : ChannelEdits}
  {meant : String → String → Channel → Option ρ}

/-- The record that counts for a name is the last one of that name. -/
theorem get?_lastByName_eq (records : List α) (name : String) :
    (lastByName records).get? name = (records.filter fun r => Entity.name r = name).getLast? :=
  KeyMap.get?_ofList_map_self records Entity.name name

theorem get?_lastByName_eq_none {records : List α} {name : String} (h : name ∉ records.map Entity.name) :
    (lastByName records).get? name = none := by
  cases hget : (lastByName records).get? name with
  | none => rfl
  | some record =>
    obtain ⟨hmem, rfl⟩ := get?_lastByName hget
    exact absurd (List.mem_map_of_mem hmem) h

/-- The names of the records of a request that list a channel. -/
def namesListing (records : KeyMap α) (id : String) : List String :=
  (records.filter fun _ record => (Attribute.channels record).any fun c => c.name = id).keys

/-- The names of a channel are those of the records that list it. -/
theorem mem_namesListing_iff {records : KeyMap α} {id name : String} :
    name ∈ namesListing records id ↔
      ∃ record, records.get? name = some record ∧ ∃ c ∈ Attribute.channels record, c.name = id := by
  rw [namesListing, KeyMap.mem_keys_iff]
  simp only [KeyMap.get?_filter, Option.filter_eq_some_iff, List.any_eq_true, decide_eq_true_eq]

/-- The identity that a record is given does not change the channels that it lists. -/
theorem channels_mergedIn (hmeans : Means α meant) (record : α) :
    Attribute.channels (dir.mergedIn s record) = Attribute.channels record := by
  unfold mergedIn merged
  split
  · exact hmeans.channels_withIdentity record _ _
  · rfl

variable [Reference ρ] [DecidableEq ρ] [LawfulAttribute α]

/-- The edits of a channel mention the names of those records that list it. -/
theorem mentions_stagedMerge {record : α} {channel name : String}
    (hvalid : requestedMembers record = .ok (wanted record))
    (h : (partOf α (dir.stagedMerge s edits record) channel).Mentions name) :
    (partOf α edits channel).Mentions name ∨
      name = Entity.name record ∧ ∃ c ∈ Attribute.channels record, c.name = channel := by
  have hnames : (Delta.merge (dir.membersOf α s (Entity.name record)) (wanted record)).Names
      (Entity.name record) :=
    Delta.names_merge fun channel ref href => (requestedMembers_ok hvalid href).2.1
  rcases mentions_stage hnames h with hm | ⟨hname, hremoved | ⟨ref, href⟩⟩
  · exact Or.inl hm
  · cases hremoved
  · refine Or.inr ⟨hname, (exists_get?_of_requestedMembers_iff hvalid channel).mp ?_⟩
    rw [Delta.mem_upserts, Delta.merge, KeyMap.get?_filter, KeyMap.get?_filter,
      Option.filter_eq_some_iff, Option.filter_eq_some_iff] at href
    rcases href with ⟨hget, -⟩ | ⟨hget, -⟩ <;> exact ⟨ref, hget⟩

/-- The edits of a channel for many records mention the names of those records that list it, and
what was mentioned before. -/
theorem mentions_foldl_stagedMerge (hmeans : Means α meant) {b : Backend}
    {entries : List (String × α)}
    (hadmits : ∀ e ∈ entries, dir.Admits b (dir.mergedIn b.store e.2)) {channel name : String}
    (h : (partOf α (entries.foldl (fun edits e =>
      dir.stagedMerge b.store edits (dir.mergedIn b.store e.2)) edits) channel).Mentions name) :
    (partOf α edits channel).Mentions name ∨
      ∃ e ∈ entries, Entity.name e.2 = name ∧ ∃ c ∈ Attribute.channels e.2, c.name = channel := by
  induction entries generalizing edits with
  | nil => exact Or.inl h
  | cons e entries ih =>
    obtain ⟨hfirst, hrest⟩ := List.forall_mem_cons.mp hadmits
    rcases ih hrest h with hm | ⟨e', he', hlists⟩
    · rcases mentions_stagedMerge hfirst.valid hm with hm | ⟨rfl, hlists⟩
      · exact Or.inl hm
      · rw [channels_mergedIn hmeans] at hlists
        exact Or.inr ⟨e, List.mem_cons_self, (name_merged _ rfl).symm, hlists⟩
    · exact Or.inr ⟨e', List.mem_cons_of_mem _ he', hlists⟩

/-! ## What is left -/

/-- What adding members to the records of a request does to a store. -/
structure AddsMembers (dir : Directory) (α : Type) {ρ : Type} [Attribute α ρ] [Reference ρ]
    [LawfulAttribute α] (meant : String → String → Channel → Option ρ) (s s' : Store)
    (records : List α) : Prop where
  only_touches : dir.OnlyTouches α (records.map Entity.name) s s'
  in_order : ∀ id c c', (dir.channels.contents s).get? id = some c →
    (dir.channels.contents s').get? id = some c' →
      (refs α c').filter (fun r => Reference.name r ∉ namesListing (lastByName records) id) =
        (refs α c).filter fun r => Reference.name r ∉ namesListing (lastByName records) id
  kept : ∀ name doc, s.get? (Attribute.index α dir.config) name = some doc →
    s'.get? (Attribute.index α dir.config) name = some doc
  created : ∀ name record, (records.filter fun r => Entity.name r = name).getLast? = some record →
    s.get? (Attribute.index α dir.config) name = none →
      s'.get? (Attribute.index α dir.config) name =
        some (Json.ofMembers [("name", .string name), ("owner", .string (owner record))])
  members : ∀ name record, (records.filter fun r => Entity.name r = name).getLast? = some record →
    ∀ id, (dir.refAt? α s' id name).isSome = true ↔
      (dir.refAt? α s id name).isSome = true ∨ ∃ c ∈ Attribute.channels record, c.name = id
  asked : ∀ name record, (records.filter fun r => Entity.name r = name).getLast? = some record →
    ∀ id c, ((Attribute.channels record).filter fun c => c.name = id).getLast? = some c →
      ∃ canonical ref c', ((dir.records α).contents s').get? name = some canonical ∧
        meant name (owner canonical) c = some ref ∧
        (dir.channels.contents s').get? id = some c' ∧
        (refs α c').filter (fun r => Reference.name r = name) = [ref]
  unasked : ∀ name record, (records.filter fun r => Entity.name r = name).getLast? = some record →
    ∀ id, (∀ c ∈ Attribute.channels record, c.name ≠ id) →
      ∀ c c', (dir.channels.contents s).get? id = some c →
        (dir.channels.contents s').get? id = some c' →
          (refs α c').filter (fun r => Reference.name r = name) =
            (refs α c).filter fun r => Reference.name r = name

variable [LawfulEntity α] {b b' : Backend} {records : List α} {p : EditPlan (List α)}

/-- What no record lists for a channel stays on it in its order. -/
theorem filter_refs_of_updateAllPlan (hmeans : Means α meant) (shape : dir.InShape α b.store)
    (hplan : (dir.updateAllPlan records).Returns b p)
    (edited : dir.Edited α p.ops p.edits b.store s') {id : String} {c c' : Channel}
    (hc : (dir.channels.contents b.store).get? id = some c)
    (hc' : (dir.channels.contents s').get? id = some c') :
    (refs α c').filter (fun r => Reference.name r ∉ namesListing (lastByName records) id) =
      (refs α c).filter fun r => Reference.name r ∉ namesListing (lastByName records) id := by
  obtain ⟨-, -, -, staged⟩ := returns_updateAllPlan shape hplan
  obtain ⟨hadmits, heq⟩ := (returns_updateAllPlan_iff shape).mp hplan
  have hname : c.name = id := shape.channels.name_eq hc
  rw [edited.channels, KeyMap.get?_mapValues, hc, Option.map_some] at hc'
  obtain rfl := Option.some.inj hc'
  have hkeep : ∀ name, (partOf α p.edits c.name).Mentions name →
      decide (name ∉ namesListing (lastByName records) id) = false := by
    intro name hmentions
    rw [heq] at hmentions
    rcases mentions_foldl_stagedMerge hmeans hadmits hmentions with hm | ⟨e, he, rfl, hlists⟩
    · exact absurd ((about_empty (α := α) fun _ => False).mentions c.name name hm) not_false
    · have hget : (lastByName records).get? e.1 = some e.2 := KeyMap.get?_eq_some_iff_mem.mpr he
      rw [(get?_lastByName hget).2, ← hname]
      exact decide_eq_false (not_not.mpr (mem_namesListing_iff.mpr ⟨e.2, hget, hlists⟩))
  rw [refs_applyTo]
  exact (staged.about.named c.name).filter_apply hkeep (refs α c)

/-- The owner that a record is given is the one that is stored then. -/
theorem exists_canonical_of_updateAllPlan (shape : dir.InShape α b.store)
    (hplan : (dir.updateAllPlan records).Returns b p)
    (edited : dir.Edited α p.ops p.edits b.store s') {name : String} {record : α}
    (hlast : (lastByName records).get? name = some record) :
    ∃ canonical, ((dir.records α).contents s').get? name = some canonical ∧
      owner (dir.mergedIn b.store record) = owner canonical := by
  obtain ⟨-, rfl⟩ := get?_lastByName hlast
  rw [get?_records_of_updateAllPlan shape hplan edited, hlast, mergedIn, merged]
  cases ((dir.records α).contents b.store).get? (Entity.name record) with
  | some existing => exact ⟨existing, rfl, owner_withIdentity record _ _⟩
  | none => exact ⟨Entity.stored record, rfl, (owner_stored record).symm⟩

/-- The members that are asked for are those that the request lists. -/
theorem requestedMembers_of_updateAllPlan (shape : dir.InShape α b.store)
    (hplan : (dir.updateAllPlan records).Returns b p) {name : String} {record : α}
    (hlast : (lastByName records).get? name = some record) :
    requestedMembers (dir.mergedIn b.store record) = .ok (wanted (dir.mergedIn b.store record)) :=
  (((returns_updateAllPlan_iff shape).mp hplan).1 (name, record)
    (KeyMap.get?_eq_some_iff_mem.mp hlast)).valid

/-- Only the records of the request are touched, and the references to them. -/
theorem onlyTouches_of_updateAllPlan (shape : dir.InShape α b.store)
    (hplan : (dir.updateAllPlan records).Returns b p)
    (edited : dir.Edited α p.ops p.edits b.store s') :
    dir.OnlyTouches α (records.map Entity.name) b.store s' := by
  obtain ⟨-, -, -, staged⟩ := returns_updateAllPlan shape hplan
  refine edited.onlyTouches shape staged.about (fun name hname => ?_) fun name hname => ?_
  · obtain ⟨record, hlast⟩ := KeyMap.mem_keys_iff.mp hname
    obtain ⟨hmem, rfl⟩ := get?_lastByName hlast
    exact List.mem_map_of_mem hmem
  · rw [← edited.records, get?_records_of_updateAllPlan shape hplan edited,
      get?_lastByName_eq_none hname, Option.map_none, Option.or_none]

/-- The document of a record that exists stays as it is. -/
theorem get?_kept_of_updateAllPlan (shape : dir.InShape α b.store)
    (hplan : (dir.updateAllPlan records).Returns b p)
    (edited : dir.Edited α p.ops p.edits b.store s') {name : String} {doc : Json}
    (hdoc : b.store.get? (Attribute.index α dir.config) name = some doc) :
    s'.get? (Attribute.index α dir.config) name = some doc := by
  have hold := shape.records.get?_store name
  have hnew := edited.shape.records.get?_store name
  rw [show b.store.get? (dir.records α).index name = some doc from hdoc] at hold
  obtain ⟨existing, hget, he⟩ := Option.map_eq_some_iff.mp hold.symm
  rw [get?_records_of_updateAllPlan shape hplan edited, hget, Option.some_or, Option.map_some,
    he] at hnew
  exact hnew

/-- The document of a record that did not exist holds its name and its owner. -/
theorem get?_created_of_updateAllPlan (shape : dir.InShape α b.store)
    (hplan : (dir.updateAllPlan records).Returns b p)
    (edited : dir.Edited α p.ops p.edits b.store s') {name : String} {record : α}
    (hlast : (lastByName records).get? name = some record)
    (hnone : b.store.get? (Attribute.index α dir.config) name = none) :
    s'.get? (Attribute.index α dir.config) name =
      some (Json.ofMembers [("name", .string name), ("owner", .string (owner record))]) := by
  have hold := shape.records.get?_store name
  rw [show b.store.get? (dir.records α).index name = none from hnone] at hold
  have hget := get?_records_of_updateAllPlan shape hplan edited name
  rw [Option.map_eq_none_iff.mp hold.symm, Option.none_or, hlast, Option.map_some] at hget
  obtain ⟨-, rfl⟩ := get?_lastByName hlast
  exact get?_of_contents_put edited.shape hget

/-- The members of a name are the old ones and those that are listed for it. -/
theorem isSome_refAt?_of_updateAllPlan (hmeans : Means α meant) (shape : dir.InShape α b.store)
    (hplan : (dir.updateAllPlan records).Returns b p)
    (edited : dir.Edited α p.ops p.edits b.store s') {name : String} {record : α}
    (hlast : (lastByName records).get? name = some record) (id : String) :
    (dir.refAt? α s' id name).isSome = true ↔
      (dir.refAt? α b.store id name).isSome = true ∨
        ∃ c ∈ Attribute.channels record, c.name = id := by
  have hvalid := requestedMembers_of_updateAllPlan shape hplan hlast
  rw [refAt?_of_updateAllPlan shape hplan edited hlast, Option.isSome_or, Bool.or_eq_true,
    ← channels_mergedIn hmeans record (s := b.store),
    ← exists_get?_of_requestedMembers_iff hvalid id, ← Option.isSome_iff_exists, or_comm]

/-- A channel that is listed carries the reference that the last mention of it means. -/
theorem exists_meant_of_updateAllPlan (hmeans : Means α meant) (shape : dir.InShape α b.store)
    (hplan : (dir.updateAllPlan records).Returns b p)
    (edited : dir.Edited α p.ops p.edits b.store s') {name id : String} {record : α} {c : Channel}
    (hlast : (lastByName records).get? name = some record)
    (hc : ((Attribute.channels record).filter fun c => c.name = id).getLast? = some c) :
    ∃ canonical ref c', ((dir.records α).contents s').get? name = some canonical ∧
      meant name (owner canonical) c = some ref ∧
      (dir.channels.contents s').get? id = some c' ∧
      (refs α c').filter (fun r => Reference.name r = name) = [ref] := by
  obtain ⟨hok, -, -, -⟩ := returns_updateAllPlan shape hplan
  obtain ⟨canonical, hcanonical, howner⟩ :=
    exists_canonical_of_updateAllPlan shape hplan edited hlast
  have hlists :=
    get?_of_requestedMembers (requestedMembers_of_updateAllPlan shape hplan hlast) id
  rw [channels_mergedIn hmeans, hc] at hlists
  obtain ⟨ref, hmade, hget⟩ := hlists
  have href := hmeans.memberRef_ok hmade
  obtain ⟨hmem, rfl⟩ := get?_lastByName hlast
  rw [mergedIn, name_merged _ rfl, ← mergedIn, howner] at href
  obtain ⟨c', hc'⟩ := edited.exists_channel ((hok _ record hlast).2 id ref hget)
  refine ⟨canonical, ref, c', hcanonical, href, hc', ?_⟩
  rw [filter_refs_eq edited.shape.channels hc', refAt?_of_updateAllPlan shape hplan edited hlast,
    hget]
  rfl

/-- A channel that is not listed keeps what it carries of the name. -/
theorem filter_named_of_updateAllPlan (hmeans : Means α meant) (shape : dir.InShape α b.store)
    (hplan : (dir.updateAllPlan records).Returns b p)
    (edited : dir.Edited α p.ops p.edits b.store s') {name id : String} {record : α}
    {c c' : Channel} (hlast : (lastByName records).get? name = some record)
    (hunasked : ∀ c ∈ Attribute.channels record, c.name ≠ id)
    (hget : (dir.channels.contents b.store).get? id = some c)
    (hget' : (dir.channels.contents s').get? id = some c') :
    (refs α c').filter (fun r => Reference.name r = name) =
      (refs α c).filter fun r => Reference.name r = name := by
  have hnone : (wanted (dir.mergedIn b.store record)).get? id = none := by
    cases hwanted : (wanted (dir.mergedIn b.store record)).get? id with
    | none => rfl
    | some ref =>
      obtain ⟨c, hc, hname⟩ := (exists_get?_of_requestedMembers_iff
        (requestedMembers_of_updateAllPlan shape hplan hlast) id).mp ⟨ref, hwanted⟩
      rw [channels_mergedIn hmeans] at hc
      exact absurd hname (hunasked c hc)
  rw [filter_refs_eq edited.shape.channels hget', filter_refs_eq shape.channels hget,
    refAt?_of_updateAllPlan shape hplan edited hlast, hnone, Option.none_or]

/-- A request that succeeds adds the members that its records list, and nothing else. -/
theorem updateAttributes_adds (hmeans : Means α meant) (indices : dir.config.DistinctIndices)
    (shape : dir.InShape α b.store) {answer : List α}
    (h : (dir.updateAttributes records).run b = (.ok answer, b')) :
    dir.AddsMembers α meant b.store b'.store records := by
  rw [updateAttributes_eq] at h
  obtain ⟨p, hp, edited, -⟩ := editWrite_run_ok indices shape _ (fun p hp =>
    ⟨(confined_updateAllPlan shape hp).records, (confined_updateAllPlan shape hp).about⟩) h
  have hlast : ∀ {name record},
      (records.filter fun r => Entity.name r = name).getLast? = some record →
        (lastByName records).get? name = some record :=
    fun hfilter => (get?_lastByName_eq records _).trans hfilter
  exact {
    only_touches := onlyTouches_of_updateAllPlan shape hp edited
    in_order := fun _ _ _ => filter_refs_of_updateAllPlan hmeans shape hp edited
    kept := fun _ _ => get?_kept_of_updateAllPlan shape hp edited
    created := fun _ _ h => get?_created_of_updateAllPlan shape hp edited (hlast h)
    members := fun _ _ h => isSome_refAt?_of_updateAllPlan hmeans shape hp edited (hlast h)
    asked := fun _ _ h _ _ => exists_meant_of_updateAllPlan hmeans shape hp edited (hlast h)
    unasked := fun _ _ h _ hunasked _ _ =>
      filter_named_of_updateAllPlan hmeans shape hp edited (hlast h) hunasked }

/-- Adding members to many tags or properties in one request. -/
theorem updateMany_adds_members (dir : Directory) (b b' : Backend)
    (indices : dir.config.DistinctIndices) (wf : dir.WellFormed b.store) :
    (∀ tags answer : List Tag, (dir.updateAttributes tags).run b = (.ok answer, b') →
      dir.AddsMembers Tag Tag.meant b.store b'.store tags) ∧
    ∀ properties answer : List Property,
      (dir.updateAttributes properties).run b = (.ok answer, b') →
        dir.AddsMembers Property Property.meant b.store b'.store properties :=
  ⟨fun _ _ h => updateAttributes_adds means_tag indices wf.tagShape h,
    fun _ _ h => updateAttributes_adds means_property indices wf.propertyShape h⟩

/-- Two channels with a property, and a third one without. -/
def propertyOnAB : Backend where
  store := usual.filled
    [⟨"A", "o", [], [⟨"p", "x", "1"⟩]⟩, ⟨"B", "o", [], [⟨"p", "x", "2"⟩]⟩, ⟨"C", "o", [], []⟩] []
    [{ name := "p", owner := "x" }]

/-- A property that exists and one that does not, the first of them given twice. -/
def propertiesToAdd : List Property :=
  [{ name := "p", owner := "y", channels := [⟨"B", "", [], [⟨"p", "", "9"⟩]⟩] },
    { name := "q", owner := "z", channels := [⟨"A", "", [], [⟨"q", "", "5"⟩]⟩] },
    { name := "p", owner := "y", channels :=
      [⟨"A", "", [], [⟨"p", "", "3"⟩]⟩, ⟨"C", "", [], [⟨"p", "", "4"⟩]⟩] }]

/-- The property that exists keeps its owner and its value on the channel that is not listed. -/
theorem propertiesToAdd_added : ∃ answer b',
    (usual.updateAttributes propertiesToAdd).run propertyOnAB = (.ok answer, b') ∧
      usual.AddsMembers Property Property.meant propertyOnAB.store b'.store propertiesToAdd := by
  have hok : (usual.updateAttributes propertiesToAdd).Returns propertyOnAB
      [⟨"p", "x", none, [⟨"A", "o", [], [⟨"p", "x", "3"⟩, ⟨"q", "z", "5"⟩]⟩,
          ⟨"B", "o", [], [⟨"p", "x", "2"⟩]⟩, ⟨"C", "o", [], [⟨"p", "x", "4"⟩]⟩]⟩,
        ⟨"q", "z", none, [⟨"A", "o", [], [⟨"p", "x", "3"⟩, ⟨"q", "z", "5"⟩]⟩]⟩] := by
    unfold Returns
    cbv
  have wf : usual.WellFormed propertyOnAB.store :=
    wellFormed_filled distinctIndices_usual (by decide) _ _
  exact ⟨_, _, hok.run_eq, (updateMany_adds_members usual propertyOnAB _ distinctIndices_usual
    wf).2 _ _ hok.run_eq⟩

end Directory

end ChannelDirectory

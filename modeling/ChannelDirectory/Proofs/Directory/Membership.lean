import ChannelDirectory.Attributes
import ChannelDirectory.Proofs.Collection.Pages
import ChannelDirectory.Proofs.Directory.WellFormed

/-!
# What a write reads of a membership

On a store in shape the reads that come before a write return what `Directory.refAt?` says :
the current members (`returns_currentMembers`), the members that a request asks for
(`requestedMembers_ok`), and that its channels exist (`returns_checkRecord`).
-/

namespace ChannelDirectory

open Attribute Collection LawfulAttribute Program

namespace Directory

variable {α ρ : Type} [Attribute α ρ] {dir : Directory} {s : Store} {b : Backend} {name : String}

/-! ## What is read-only -/

theorem readOnly_checkName (name : String) (record : α) : (checkName name record).ReadOnly := by
  unfold checkName
  split <;> trivial

theorem readOnly_checkRecord (dir : Directory) (record : α) :
    (dir.checkRecord record).ReadOnly := by
  refine (readOnly_check _).bind fun _ => (dir.channels.readOnly_missing _).bind fun missing => ?_
  cases missing <;> trivial

theorem readOnly_checkChannel (dir : Directory) (channel : String) :
    (dir.checkChannel channel).ReadOnly := by
  refine (dir.channels.readOnly_contains channel).bind fun found => ?_
  cases found <;> trivial

theorem readOnly_members (dir : Directory) (p : Predicate) : (dir.members p).ReadOnly :=
  dir.channels.readOnly_findMatching dir.pageBudget p

theorem readOnly_currentMembers [Reference ρ] (dir : Directory) (name : String) :
    (dir.currentMembers α name).ReadOnly :=
  (dir.readOnly_members _).bind fun _ => trivial

theorem readOnly_readAttribute (dir : Directory) (name : String) (withMembers : Bool) :
    (dir.readAttribute α name withMembers).ReadOnly := by
  refine ((dir.records α).readOnly_require name).bind fun record => ?_
  cases withMembers
  · trivial
  · exact (dir.readOnly_members _).bind fun members => trivial

theorem readOnly_readAttributes (dir : Directory) (names : List String) :
    (dir.readAttributes α names).ReadOnly :=
  readOnly_each fun name _ => dir.readOnly_readAttribute name true

/-! ## Current members -/

/-- A page holds at least one channel, so reading on makes progress. -/
theorem pageSize_pos (dir : Directory) : 0 < dir.channels.pageSize :=
  Nat.lt_of_lt_of_le Nat.zero_lt_one (Nat.le_max_right _ _)

/-- What a search finds are the stored channels that match, in the order of their names. -/
theorem returns_members (wf : dir.channels.HoldsOnly Channel.Distinct b.store) {p : Predicate}
    {found : List Channel} (h : (dir.members p).Returns b found) :
    found = dir.channels.select p b.store :=
  ((returns_findMatching wf dir.pageSize_pos).mp h).2.2.2

/-- A record that passes has the name under which it is written. -/
theorem returns_checkName {record : α} (h : (checkName name record).Returns b ()) :
    Entity.name record = name := by
  unfold checkName at h
  split at h
  · assumption
  · exact absurd h returns_fail

/-- A channel that passes is stored. -/
theorem returns_checkChannel (wf : dir.channels.HoldsOnly Channel.Distinct b.store)
    {channel : String} (h : (dir.checkChannel channel).Returns b ()) :
    ∃ c, (dir.channels.contents b.store).get? channel = some c := by
  obtain ⟨found, hfound, hrest⟩ := (returns_bind (dir.channels.readOnly_contains channel)).mp h
  obtain ⟨-, rfl⟩ := (returns_contains wf).mp hfound
  cases hcontains : (dir.channels.contents b.store).contains channel with
  | true => exact KeyMap.contains_iff.mp hcontains
  | false =>
    rw [hcontains] at hrest
    exact absurd hrest returns_fail

/-- A checked record is valid, and all its channels exist. -/
theorem returns_checkRecord (wf : dir.channels.HoldsOnly Channel.Distinct b.store) {record : α}
    (h : (dir.checkRecord record).Returns b ()) :
    Attribute.validate record = .ok () ∧ ∀ c ∈ Attribute.channels record,
      ∃ stored, (dir.channels.contents b.store).get? c.name = some stored := by
  obtain ⟨_, hvalid, h⟩ := (returns_bind (readOnly_check _)).mp h
  obtain ⟨missing, hmissing, hrest⟩ := (returns_bind (dir.channels.readOnly_missing _)).mp h
  obtain ⟨-, rfl⟩ := (returns_missing wf).mp hmissing
  refine ⟨returns_check.mp hvalid, fun c hc => ?_⟩
  cases habsent : ((Attribute.channels record).map Channel.name).filter
      (fun id => !(dir.channels.contents b.store).contains id) with
  | cons name rest =>
    rw [habsent] at hrest
    exact absurd hrest returns_fail
  | nil =>
    have hpresent := List.filter_eq_nil_iff.mp habsent c.name (List.mem_map_of_mem hc)
    exact KeyMap.contains_iff.mp (by simpa using hpresent)

/-- The answer of a write is the stored record with its members. -/
theorem returns_readAttribute [LawfulEntity α] (shape : dir.InShape α b.store) {answer : α}
    (h : (dir.readAttribute α name true).Returns b answer) :
    ∃ record, ((dir.records α).contents b.store).get? name = some record ∧
      answer = withChannels record (dir.channels.select (memberPredicate α name) b.store) := by
  obtain ⟨record, hrecord, h⟩ := (returns_bind ((dir.records α).readOnly_require name)).mp h
  obtain ⟨members, hmembers, h⟩ := (returns_bind (dir.readOnly_members _)).mp h
  refine ⟨record, ((returns_require shape.records).mp hrecord).2, ?_⟩
  rw [returns_done.mp h, returns_members shape.channels hmembers]

/-- Channels that a selection finds are stored. -/
theorem get?_of_mem_select (wf : dir.channels.HoldsOnly Channel.Distinct s) {p : Predicate}
    {c : Channel} (hc : c ∈ dir.channels.select p s) :
    (dir.channels.contents s).get? c.name = some c := by
  obtain ⟨⟨id, hget⟩, -⟩ := mem_select.mp hc
  have hname : c.name = id := wf.name_eq hget
  rw [hname, hget]

/-- A member that a request asks for is one of its channels, with the reference that it means. -/
theorem exists_memberRef_of_requested {record : α} {desired : KeyMap ρ}
    (h : requestedMembers record = .ok desired) {channel : String} {ref : ρ}
    (href : desired.get? channel = some ref) :
    ∃ c ∈ Attribute.channels record, c.name = channel ∧ memberRef record c = .ok ref := by
  unfold requestedMembers at h
  cases hmembers : (Attribute.channels record).mapM
      fun c => (fun ref => (c.name, ref)) <$> memberRef record c with
  | error e =>
    rw [hmembers] at h
    cases h
  | ok members =>
    rw [hmembers] at h
    obtain rfl := Except.ok.inj h
    have hmem := KeyMap.mem_of_get?_ofList href
    obtain ⟨c, hc, hmember⟩ := exists_of_mapM_eq_ok hmembers hmem
    cases hmade : memberRef record c with
    | error e =>
      rw [hmade] at hmember
      cases hmember
    | ok made =>
      rw [hmade] at hmember
      obtain ⟨hname, rfl⟩ := Prod.mk.inj (Except.ok.inj hmember)
      exact ⟨c, hc, hname, hmade⟩

variable [Reference ρ]

/-- The members that a request asks for are among its channels, and their references carry
the name and the owner of the record. -/
theorem requestedMembers_ok [LawfulAttribute α] {record : α} {desired : KeyMap ρ}
    (h : requestedMembers record = .ok desired) {channel : String} {ref : ρ}
    (href : desired.get? channel = some ref) :
    (∃ c ∈ Attribute.channels record, c.name = channel) ∧ Reference.name ref = Entity.name record ∧
      Reference.owner ref = owner record := by
  obtain ⟨c, hc, hname, hmade⟩ := exists_memberRef_of_requested h href
  exact ⟨⟨c, hc, hname⟩, memberRef_ok hmade⟩

/-- The channels that a selection finds show the references that are stored. -/
theorem get?_membership_select [LawfulAttribute α]
    (wf : dir.channels.HoldsOnly Channel.Distinct s) (name channel : String) :
    (membership α (dir.channels.select (memberPredicate α name) s) name).get? channel =
      dir.refAt? α s channel name := by
  have found : ∀ ref, (membership α (dir.channels.select (memberPredicate α name) s) name).get?
      channel = some ref → dir.refAt? α s channel name = some ref := by
    intro ref href
    obtain ⟨c, hc, hpair⟩ := List.mem_filterMap.mp (KeyMap.mem_of_get?_ofList href)
    obtain ⟨ref', href', heq⟩ := Option.map_eq_some_iff.mp hpair
    obtain ⟨hname, rfl⟩ := Prod.mk.inj heq
    obtain ⟨⟨id, hget⟩, -⟩ := mem_select.mp hc
    have hid : c.name = id := wf.name_eq hget
    rw [refAt?, ← hname, hid, hget, Option.bind_some, href']
  cases hmember : (membership α (dir.channels.select (memberPredicate α name) s) name).get?
      channel with
  | some ref => rw [found ref hmember]
  | none =>
    cases href : dir.refAt? α s channel name with
    | none => rfl
    | some ref =>
      obtain ⟨c, hget, hcurrent⟩ := Option.bind_eq_some_iff.mp href
      have hname : c.name = channel := wf.name_eq hget
      have hc : c ∈ dir.channels.select (memberPredicate α name) s := by
        rw [mem_select, holds_memberPredicate, hcurrent]
        exact ⟨⟨channel, hget⟩, rfl⟩
      have hpair : (c.name, ref) ∈ (dir.channels.select (memberPredicate α name) s).filterMap
          fun c => (currentRef? α c name).map fun ref => (c.name, ref) :=
        List.mem_filterMap.mpr ⟨c, hc, by rw [hcurrent, Option.map_some]⟩
      exact absurd hname (KeyMap.get?_ofList_eq_none_iff.mp hmember _ hpair)

/-- The current members are read as they are stored. -/
theorem returns_currentMembers [LawfulAttribute α]
    (wf : dir.channels.HoldsOnly Channel.Distinct b.store) {current : KeyMap ρ}
    (h : (dir.currentMembers α name).Returns b current) (channel : String) :
    current.get? channel = dir.refAt? α b.store channel name := by
  obtain ⟨found, hfound, hcurrent⟩ := (returns_bind (dir.readOnly_members _)).mp h
  rw [returns_members wf hfound] at hcurrent
  rw [returns_done.mp hcurrent]
  exact get?_membership_select wf name channel

/-- The channels that a selection finds are those that carry a reference, by name. -/
theorem names_select_members [LawfulAttribute α]
    (wf : dir.channels.HoldsOnly Channel.Distinct s) {members : KeyMap ρ}
    (hmembers : ∀ channel, dir.refAt? α s channel name = members.get? channel) :
    (dir.channels.select (memberPredicate α name) s).map Channel.name = members.keys := by
  refine (wf.names_select (memberPredicate α name)).trans ?_
  refine KeyMap.keys_eq_of_mem_iff fun channel => ?_
  rw [KeyMap.mem_keys_iff, KeyMap.mem_keys_iff, ← hmembers, refAt?, KeyMap.get?_filter]
  cases (dir.channels.contents s).get? channel with
  | none => simp
  | some c => simp [Option.filter, holds_memberPredicate, Option.isSome_iff_exists]

/-- A channel that is not stored carries nothing. -/
theorem refAt?_eq_none {channel : String}
    (h : (dir.channels.contents s).get? channel = none) (name : String) :
    dir.refAt? α s channel name = none := by
  rw [refAt?, h, Option.bind_none]

omit [Attribute α ρ] [Reference ρ] in
/-- Members that are all stored are none of the channels that are not. -/
theorem get?_eq_none_of_stored {members : KeyMap ρ}
    (hstored : ∀ channel ref, members.get? channel = some ref →
      ∃ c, (dir.channels.contents s).get? channel = some c) {channel : String}
    (h : (dir.channels.contents s).get? channel = none) : members.get? channel = none := by
  cases hget : members.get? channel with
  | none => rfl
  | some ref =>
    obtain ⟨c, hc⟩ := hstored channel ref hget
    rw [h] at hc
    cases hc

/-- The members that an answer lists are the stored channels that carry the name. -/
theorem mem_select_members [LawfulAttribute α]
    (wf : dir.channels.HoldsOnly Channel.Distinct s) {c : Channel} :
    c ∈ dir.channels.select (memberPredicate α name) s ↔
      (dir.channels.contents s).get? c.name = some c ∧ (currentRef? α c name).isSome = true := by
  rw [← holds_memberPredicate]
  constructor
  · intro hc
    exact ⟨get?_of_mem_select wf hc, (mem_select.mp hc).2⟩
  · rintro ⟨hget, hholds⟩
    exact mem_select.mpr ⟨⟨c.name, hget⟩, hholds⟩

/-- In a stored channel, all references of a name are the one that is found. -/
theorem filter_refs_eq [LawfulAttribute α] (wf : dir.channels.HoldsOnly Channel.Distinct s)
    {channel : String} {c : Channel} (hc : (dir.channels.contents s).get? channel = some c)
    (name : String) :
    (refs α c).filter (fun r => Reference.name r = name) =
      (dir.refAt? α s channel name).toList := by
  have hdistinct : DistinctRefs (refs α c) := distinct_refs (wf.of_get?_contents hc).2
  rw [filter_name_of_distinct hdistinct, refAt?, hc, Option.bind_some, currentRef?]

/-- The document of a record that has been put. -/
theorem get?_of_contents_put [LawfulAttribute α] [LawfulEntity α] (shape : dir.InShape α s)
    {record : α}
    (h : ((dir.records α).contents s).get? (Entity.name record) = some (Entity.stored record)) :
    s.get? (Attribute.index α dir.config) (Entity.name record) =
      some (Json.ofMembers [("name", .string (Entity.name record)),
        ("owner", .string (owner record))]) := by
  have hdoc := shape.records.get?_store (Entity.name record)
  rw [h, Option.map_some] at hdoc
  rw [← toDocument_eq]
  exact hdoc

end Directory

end ChannelDirectory

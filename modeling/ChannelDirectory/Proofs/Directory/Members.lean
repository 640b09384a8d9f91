import ChannelDirectory.Proofs.Directory.Membership
import ChannelDirectory.Proofs.Program.Endings

/-!
# Reading members, exactly

`Directory.membersOf` is the membership of a name as the store shows it. It can be read under
three conditions (`Directory.Lists`) : the backend answers, a page fits its window, and the
budget allows for the pages. The reads before and after a write return exactly under these
conditions, and if what they ask for is there : `returns_currentMembers_iff`,
`returns_checkRecord_iff`, `returns_readAttribute_iff`.

They end without a value by an error that is about the whole request, or because the budget is
smaller than the number of pages of all channels (`Directory.Ample`).
-/

namespace ChannelDirectory

open Attribute Collection LawfulAttribute Program

namespace Directory

/-- The budget allows for the pages of all channels. -/
def Ample (dir : Directory) (s : Store) : Prop :=
  (dir.channels.contents s).size / dir.channels.pageSize < dir.pageBudget

instance (dir : Directory) (s : Store) : Decidable (dir.Ample s) :=
  inferInstanceAs (Decidable (_ < _))

section Members

variable {α ρ : Type} [Attribute α ρ] [Reference ρ] {dir : Directory} {s : Store} {b : Backend}
  {name : String}

/-- The channels that carry a reference of a name, with that reference. -/
def membersOf (dir : Directory) (α : Type) {ρ : Type} [Attribute α ρ] [Reference ρ] (s : Store)
    (name : String) : KeyMap ρ :=
  (dir.channels.contents s).filterMap fun _ c => currentRef? α c name

/-- The members of a name can be read. -/
structure Lists (dir : Directory) (α : Type) {ρ : Type} [Attribute α ρ] [Reference ρ] (b : Backend)
    (name : String) : Prop where
  available : b.available = true
  fits : dir.channels.Fits b
  budget : (dir.membersOf α b.store name).size / dir.channels.pageSize < dir.pageBudget

/-- A channel is a member with the reference that its document carries. -/
theorem get?_membersOf (channel : String) :
    (dir.membersOf α s name).get? channel = dir.refAt? α s channel name := by
  rw [membersOf, KeyMap.get?_filterMap, refAt?]

/-- Members are stored. -/
theorem exists_of_get?_membersOf {channel : String} {ref : ρ}
    (h : (dir.membersOf α s name).get? channel = some ref) :
    ∃ c, (dir.channels.contents s).get? channel = some c := by
  rw [get?_membersOf, refAt?] at h
  obtain ⟨c, hc, -⟩ := Option.bind_eq_some_iff.mp h
  exact ⟨c, hc⟩

variable [LawfulAttribute α]

/-- The channels found by the predicate of a name give exactly the members of this name. -/
theorem membership_select (wf : dir.channels.HoldsOnly Channel.Distinct s) :
    membership α (dir.channels.select (memberPredicate α name) s) name =
      dir.membersOf α s name := by
  refine KeyMap.ext_get? fun channel => ?_
  rw [get?_membership_select wf, get?_membersOf]

/-- The predicate of a name finds as many channels as the name has members. -/
theorem length_select_members (wf : dir.channels.HoldsOnly Channel.Distinct s) :
    (dir.channels.select (memberPredicate α name) s).length = (dir.membersOf α s name).size := by
  have hnames : _ = (dir.membersOf α s name).keys :=
    names_select_members wf fun channel => (get?_membersOf channel).symm
  simpa [KeyMap.keys, KeyMap.size] using congrArg List.length hnames

/-- The search for the members of a name succeeds exactly if they can be listed, and finds the
channels that match. -/
theorem returns_members_iff (wf : dir.channels.HoldsOnly Channel.Distinct b.store)
    {found : List Channel} :
    (dir.members (memberPredicate α name)).Returns b found ↔
      dir.Lists α b name ∧ found = dir.channels.select (memberPredicate α name) b.store := by
  rw [members, returns_findMatching wf dir.pageSize_pos, length_select_members wf]
  constructor
  · rintro ⟨havail, hfits, hbudget, hfound⟩
    exact ⟨⟨havail, hfits, hbudget⟩, hfound⟩
  · rintro ⟨⟨havail, hfits, hbudget⟩, hfound⟩
    exact ⟨havail, hfits, hbudget, hfound⟩

/-- Reading the members of a name succeeds exactly if they can be listed, and gives the references
in the documents. -/
theorem returns_currentMembers_iff (wf : dir.channels.HoldsOnly Channel.Distinct b.store)
    {current : KeyMap ρ} :
    (dir.currentMembers α name).Returns b current ↔
      dir.Lists α b name ∧ current = dir.membersOf α b.store name := by
  rw [currentMembers, returns_bind (dir.readOnly_members _)]
  simp only [returns_members_iff wf, pure_eq, returns_done]
  constructor
  · rintro ⟨found, ⟨hlists, rfl⟩, rfl⟩
    exact ⟨hlists, membership_select wf⟩
  · rintro ⟨hlists, rfl⟩
    exact ⟨_, ⟨hlists, rfl⟩, (membership_select wf).symm⟩

/-- A record is read with its members if it is there and they can be read. -/
theorem returns_readAttribute_iff [LawfulEntity α] (shape : dir.InShape α b.store) {answer : α} :
    (dir.readAttribute α name true).Returns b answer ↔
      dir.Lists α b name ∧ ∃ record, ((dir.records α).contents b.store).get? name = some record ∧
        answer = withChannels record (dir.channels.select (memberPredicate α name) b.store) := by
  rw [readAttribute, returns_bind ((dir.records α).readOnly_require name)]
  simp only [returns_require shape.records, if_true]
  constructor
  · rintro ⟨record, ⟨-, hrecord⟩, h⟩
    obtain ⟨found, hfound, h⟩ := (returns_bind (dir.readOnly_members _)).mp h
    obtain ⟨hlists, rfl⟩ := (returns_members_iff shape.channels).mp hfound
    exact ⟨hlists, record, hrecord, returns_done.mp h⟩
  · rintro ⟨hlists, record, hrecord, rfl⟩
    refine ⟨record, ⟨hlists.available, hrecord⟩, (returns_bind (dir.readOnly_members _)).mpr ?_⟩
    exact ⟨_, (returns_members_iff shape.channels).mpr ⟨hlists, rfl⟩, returns_done.mpr rfl⟩

/-- Where records have been read with their members, these can be read. -/
theorem lists_of_returns_readAttributes [LawfulEntity α] (shape : dir.InShape α b.store)
    {names : List String} {answers : List α} (h : (dir.readAttributes α names).Returns b answers)
    (hname : name ∈ names) : dir.Lists α b name := by
  obtain ⟨answer, hlisted⟩ := exists_of_returns_each
    (fun name => dir.readOnly_readAttribute (α := α) name true) h hname
  exact ((returns_readAttribute_iff shape).mp hlisted).1

end Members

section Checks

variable {α ρ : Type} [Attribute α ρ] {dir : Directory} {s : Store} {b : Backend} {name : String}

/-- The check of a name passes exactly if the record has it. -/
theorem returns_checkName_iff {record : α} :
    (checkName name record).Returns b () ↔ Entity.name record = name := by
  unfold checkName
  split
  · simp [*]
  · simp [*]

/-- A record passes its check if it is valid and its channels exist. -/
theorem returns_checkRecord_iff (wf : dir.channels.HoldsOnly Channel.Distinct b.store)
    {record : α} :
    (dir.checkRecord record).Returns b () ↔
      Attribute.validate record = .ok () ∧
        (Attribute.channels record = [] ∨ b.available = true) ∧
          ∀ c ∈ Attribute.channels record,
            ∃ stored, (dir.channels.contents b.store).get? c.name = some stored := by
  constructor
  · intro h
    refine ⟨(returns_checkRecord wf h).1, ?_, (returns_checkRecord wf h).2⟩
    obtain ⟨_, -, h⟩ := (returns_bind (readOnly_check _)).mp h
    obtain ⟨missing, hmissing, -⟩ := (returns_bind (dir.channels.readOnly_missing _)).mp h
    simpa using ((returns_missing wf).mp hmissing).1
  · rintro ⟨hvalid, havail, hstored⟩
    refine (returns_bind (readOnly_check _)).mpr ⟨(), returns_check.mpr hvalid, ?_⟩
    have hnone : ((Attribute.channels record).map Channel.name).filter
        (fun id => !(dir.channels.contents b.store).contains id) = [] := by
      rw [List.filter_eq_nil_iff]
      intro id hid
      obtain ⟨c, hc, rfl⟩ := List.mem_map.mp hid
      simpa using hstored c hc
    refine (returns_bind (dir.channels.readOnly_missing _)).mpr ⟨[], ?_, returns_done.mpr rfl⟩
    exact (returns_missing wf).mpr ⟨by simpa using havail, hnone.symm⟩

/-- The check of a channel passes exactly if it is stored and the backend answers. -/
theorem returns_checkChannel_iff (wf : dir.channels.HoldsOnly Channel.Distinct b.store)
    {channel : String} :
    (dir.checkChannel channel).Returns b () ↔
      b.available = true ∧ ∃ c, (dir.channels.contents b.store).get? channel = some c := by
  rw [checkChannel, returns_bind (dir.channels.readOnly_contains channel)]
  simp only [returns_contains wf, ← KeyMap.contains_iff]
  cases (dir.channels.contents b.store).contains channel <;> simp

/-! ## How these reads can end -/

variable {short : Prop}

theorem endsIn_checkName (record : α) : (checkName name record).EndsIn b Error.IsWhole short := by
  unfold checkName
  split
  · exact endsIn_done ()
  · exact endsIn_fail (by rintro ⟨⟩)

theorem endsIn_checkRecord (record : α) :
    (dir.checkRecord record).EndsIn b Error.IsWhole short := by
  refine (endsIn_check _).bind (readOnly_check _) fun _ _ => ?_
  refine (dir.channels.endsIn_missing _).bind (dir.channels.readOnly_missing _) fun missing _ => ?_
  cases missing with
  | nil => exact endsIn_done ()
  | cons name rest => exact endsIn_fail (by rintro ⟨⟩)

theorem endsIn_checkChannel (channel : String) :
    (dir.checkChannel channel).EndsIn b Error.IsWhole short := by
  refine (dir.channels.endsIn_contains channel).bind (dir.channels.readOnly_contains channel)
    fun found _ => ?_
  cases found with
  | true => exact endsIn_done ()
  | false => exact endsIn_fail (by rintro ⟨⟩)

/-- No predicate finds more channels than there are. -/
theorem length_select_le (p : Predicate) :
    (dir.channels.select p s).length ≤ (dir.channels.contents s).size := by
  rw [select, KeyMap.values, List.length_map, KeyMap.size]
  exact List.length_filter_le _ _

/-- A search ends in an answer, or in an error of its pages, unless the budget is too small. -/
theorem endsIn_members (wf : dir.channels.HoldsOnly Channel.Distinct b.store) (p : Predicate) :
    (dir.members p).EndsIn b (dir.channels.NoPage b) (¬dir.Ample b.store) := by
  refine (endsIn_findMatching wf dir.pageSize_pos p dir.pageBudget).mono (fun e he => he) ?_
  intro hbudget
  exact Nat.not_lt.mpr (hbudget.trans (Nat.div_le_div_right (length_select_le p)))

/-- Reading members ends in an answer or in an error that has changed nothing, unless the budget is
too small. -/
theorem endsIn_currentMembers [Reference ρ]
    (wf : dir.channels.HoldsOnly Channel.Distinct b.store) (name : String) :
    (dir.currentMembers α name).EndsIn b Error.IsWhole (¬dir.Ample b.store) :=
  ((dir.endsIn_members wf _).mono (fun _ he => he.1) id).bind (dir.readOnly_members _) fun _ _ =>
    endsIn_done _

/-- A record that is there is read with its members where there is an answer, a window and a
budget. -/
theorem endsIn_readAttribute [LawfulEntity α] (shape : dir.InShape α b.store)
    (havail : b.available = true) (hfits : dir.channels.Fits b)
    (hrecord : ∃ record, ((dir.records α).contents b.store).get? name = some record)
    {errors : Error → Prop} :
    (dir.readAttribute α name true).EndsIn b errors (¬dir.Ample b.store) := by
  obtain ⟨record, hget⟩ := hrecord
  have hrequire : ((dir.records α).require name).Returns b record :=
    (returns_require shape.records).mpr ⟨havail, hget⟩
  refine hrequire.endsIn.bind ((dir.records α).readOnly_require name) fun record' _ => ?_
  have hmembers : (dir.members (memberPredicate α name)).EndsIn b errors (¬dir.Ample b.store) :=
    (dir.endsIn_members shape.channels _).mono (fun e he => absurd ⟨havail, hfits⟩ he.2) id
  exact hmembers.bind (dir.readOnly_members _) fun _ _ => endsIn_done _

end Checks

end Directory

end ChannelDirectory

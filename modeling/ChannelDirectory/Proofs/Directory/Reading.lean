import ChannelDirectory.Proofs.Directory.Members
import ChannelDirectory.Proofs.Directory.Selection

/-!
# Members are what the channels show

The members of a tag or property are not stored anywhere but in the channels. They are searched
for with a predicate on documents, page by page, decoded, and looked up in the records again.
Where the backend answers and a page fits its window, all this finds exactly the stored channels
that carry a reference of the name, each once and in the order of their names, however many pages
they take (`members_read_exactly`).
-/

namespace ChannelDirectory

open Attribute Collection LawfulAttribute Program

/-- The channel carries a reference of exactly this name. -/
def Attribute.Carries (α : Type) {ρ : Type} [Attribute α ρ] [Reference ρ] (c : Channel)
    (name : String) : Prop :=
  ∃ ref ∈ refs α c, Reference.name ref = name

namespace Directory

variable {α ρ : Type} [Attribute α ρ] [Reference ρ] {dir : Directory} {b : Backend} {s : Store}
  {name : String}

/-- The members of a name are read as the stored channels show them : with the references that
they carry, and as the channels of the record. -/
structure ReadsMembers (dir : Directory) (α : Type) {ρ : Type} [Attribute α ρ] [Reference ρ]
    (b : Backend) (name : String) : Prop where
  current : ∃ members : KeyMap ρ, (dir.currentMembers α name).run b = (.ok members, b) ∧
    ∀ channel ref, members.get? channel = some ref ↔
      Reference.name ref = name ∧ ∃ c, dir.Stores b.store c ∧ c.name = channel ∧ ref ∈ refs α c
  listed : ∀ (doc : Json) (record : α),
    b.store.get? (Attribute.index α dir.config) name = some doc → Entity.decode doc = .ok record →
      ∃ found, dir.Selects b.store (fun c => Carries α c name) found ∧
        (dir.readAttribute α name true).run b = (.ok (withChannels record found), b)

variable [LawfulAttribute α]

/-- The reference that is found on a stored channel is the one that it carries. -/
theorem refAt?_eq_some_iff (wf : dir.channels.HoldsOnly Channel.Distinct s) {channel : String}
    {ref : ρ} : dir.refAt? α s channel name = some ref ↔
      Reference.name ref = name ∧ ∃ c, dir.Stores s c ∧ c.name = channel ∧ ref ∈ refs α c := by
  rw [refAt?, Option.bind_eq_some_iff]
  constructor
  · rintro ⟨c, hget, href⟩
    obtain rfl : c.name = channel := wf.name_eq hget
    obtain ⟨hcarried, hname⟩ :=
      (findRef?_eq_some_iff (distinct_refs (wf.of_get?_contents hget).2)).mp href
    exact ⟨hname, c, (stores_iff wf).mpr hget, rfl, hcarried⟩
  · rintro ⟨hname, c, hstored, rfl, hcarried⟩
    have hget := (stores_iff wf).mp hstored
    refine ⟨c, hget, ?_⟩
    exact (findRef?_eq_some_iff (distinct_refs (wf.of_get?_contents hget).2)).mpr
      ⟨hcarried, hname⟩

/-- The predicate of a name matches the channels that carry it. -/
theorem holds_memberPredicate_iff {c : Channel} :
    (memberPredicate α name).holds (toDocument c) = true ↔ Carries α c name := by
  rw [Carries, ← findRef?_isSome_iff]
  exact Bool.eq_iff_iff.mp (holds_memberPredicate name c)

/-- The channels that are found for a name are those that carry a reference of it. -/
theorem selects_members (wf : dir.channels.HoldsOnly Channel.Distinct s) :
    dir.Selects s (fun c => Carries α c name)
      (dir.channels.select (memberPredicate α name) s) :=
  (selects_select wf _).congr fun _ => holds_memberPredicate_iff

/-- On a backend that answers, pages within the window and an ample budget list the members of each
name. -/
theorem lists_of_ample (havail : b.available = true)
    (hwindow : max dir.config.querySize 1 ≤ b.window)
    (wf : dir.channels.HoldsOnly Channel.Distinct b.store) (hbudget : dir.Ample b.store)
    (name : String) : dir.Lists α b name where
  available := havail
  fits := fits_of_pageSize_le hwindow
  budget := by
    rw [← length_select_members wf]
    exact (Nat.div_le_div_right (length_select_le _)).trans_lt hbudget

/-- A record that is there is read with its members. -/
theorem run_readAttribute (wf : dir.channels.HoldsOnly Channel.Distinct b.store)
    (hlists : dir.Lists α b name) {doc : Json} {record : α}
    (hdoc : b.store.get? (Attribute.index α dir.config) name = some doc)
    (hdecode : Entity.decode doc = .ok record) :
    (dir.readAttribute α name true).run b =
      (.ok (withChannels record (dir.channels.select (memberPredicate α name) b.store)), b) := by
  have hread : (dir.readAttribute α name true).Returns b
      (withChannels record (dir.channels.select (memberPredicate α name) b.store)) := by
    refine (returns_bind ((dir.records α).readOnly_require name)).mpr ⟨record, ?_, ?_⟩
    · exact returns_require_of_decode hlists.available hdoc hdecode
    · refine (returns_bind (dir.readOnly_members _)).mpr ⟨_, ?_, returns_done.mpr rfl⟩
      exact (returns_members_iff wf).mpr ⟨hlists, rfl⟩
  exact Prod.ext hread ((dir.readOnly_readAttribute name true).run_snd b)

/-- Where the members of a name can be listed, they are read from the documents. -/
theorem readsMembers (wf : dir.channels.HoldsOnly Channel.Distinct b.store)
    (hlists : dir.Lists α b name) : dir.ReadsMembers α b name where
  current := by
    have hcurrent : (dir.currentMembers α name).Returns b (dir.membersOf α b.store name) :=
      (returns_currentMembers_iff wf).mpr ⟨hlists, rfl⟩
    refine ⟨_, Prod.ext hcurrent ((dir.readOnly_currentMembers name).run_snd b), ?_⟩
    intro channel ref
    rw [get?_membersOf, refAt?_eq_some_iff wf]
  listed _ _ hdoc hdecode := ⟨_, selects_members wf, run_readAttribute wf hlists hdoc hdecode⟩

/-- The members of a tag or property are read exactly as the channel documents show them. -/
theorem members_read_exactly (dir : Directory) (b : Backend) (name : String)
    (havail : b.available = true) (hwindow : max dir.config.querySize 1 ≤ b.window)
    (wf : dir.channels.HoldsOnly Channel.Distinct b.store) (hbudget : dir.Ample b.store) :
    dir.ReadsMembers Tag b name ∧ dir.ReadsMembers Property b name :=
  ⟨readsMembers wf (lists_of_ample havail hwindow wf hbudget name),
    readsMembers wf (lists_of_ample havail hwindow wf hbudget name)⟩

/-- A directory whose pages hold one record. -/
def onePerPage : Directory := ⟨{ querySize := 0 }, 5⟩

/-- Three channels, and two tags whose names differ in case only. -/
def caseApart : Backend where
  store := onePerPage.filled
    [⟨"A", "o", [⟨"t", "x"⟩], []⟩, ⟨"B", "o", [⟨"T", "y"⟩], []⟩,
      ⟨"C", "o", [⟨"T", "y"⟩, ⟨"t", "x"⟩], []⟩] [⟨"t", "x", []⟩, ⟨"T", "y", []⟩] []
  window := 1

/-- The members of one tag are found over three pages, and those of the other are not mixed up
with them. -/
theorem caseApart_read : onePerPage.ReadsMembers Tag caseApart "t" ∧
    ((onePerPage.readAttribute Tag "t" true).run caseApart).1 =
      .ok ⟨"t", "x", [⟨"A", "o", [⟨"t", "x"⟩], []⟩, ⟨"C", "o", [⟨"T", "y"⟩, ⟨"t", "x"⟩], []⟩]⟩ := by
  have wf : onePerPage.WellFormed caseApart.store :=
    wellFormed_filled (by decide) (by decide) _ _
  refine ⟨(members_read_exactly onePerPage caseApart "t" rfl (by decide) wf.channels
    (by decide)).1, ?_⟩
  cbv

end Directory

end ChannelDirectory

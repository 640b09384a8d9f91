import ChannelDirectory.Attributes
import ChannelDirectory.Proofs.Membership.LawfulAttribute
import ChannelDirectory.Proofs.Store.Contents

/-!
# Stores in shape

A store is well-formed for a directory if its three indices hold nothing but records of their
kind, each under its own name, and no channel has two references of one name. It is
consistent if every reference names a record that exists, and carries its owner.

Stores that are filled with records are well-formed (`wellFormed_filled`), the empty one is
also consistent.
-/

namespace ChannelDirectory

open Attribute Collection LawfulAttribute

namespace Directory

/-- The channels and the records of one kind are in shape. -/
structure InShape (dir : Directory) (α : Type) {ρ : Type} [Attribute α ρ] (s : Store) : Prop where
  channels : dir.channels.HoldsOnly Channel.Distinct s
  records : (dir.records α).HoldsOnly (fun _ => True) s

/-- The channels, the tags and the properties are in shape : each document is the JSON of a
record under the name of the record, and each channel has one reference for each name. -/
structure WellFormed (dir : Directory) (s : Store) : Prop where
  channels : dir.channels.HoldsOnly Channel.Distinct s
  tags : dir.tags.HoldsOnly (fun _ => True) s
  properties : dir.properties.HoldsOnly (fun _ => True) s

/-- The reference of a name that a stored channel carries. -/
def refAt? (dir : Directory) (α : Type) {ρ : Type} [Attribute α ρ] [Reference ρ] (s : Store)
    (channel name : String) : Option ρ :=
  ((dir.channels.contents s).get? channel).bind fun c => currentRef? α c name

/-- Every reference of a kind in the channel names a record that exists, and carries its
owner. -/
def Backs (dir : Directory) (α : Type) {ρ : Type} [Attribute α ρ] [Reference ρ] (s : Store)
    (c : Channel) : Prop :=
  ∀ ref ∈ refs α c, ∃ record,
    ((dir.records α).contents s).get? (Reference.name ref) = some record ∧
      owner record = Reference.owner ref

/-- Every reference of a kind in a stored channel names a record that exists, and carries its
owner. -/
def InSync (dir : Directory) (α : Type) {ρ : Type} [Attribute α ρ] [Reference ρ] (s : Store) :
    Prop :=
  ∀ channel c, (dir.channels.contents s).get? channel = some c → dir.Backs α s c

/-- Every tag and every property of a channel exists, and the channel has its owner. -/
structure Consistent (dir : Directory) (s : Store) : Prop where
  tags : dir.InSync Tag s
  properties : dir.InSync Property s

/-- A store with nothing but some channels, tags and properties. -/
def filled (dir : Directory) (channels : List Channel) (tags : List Tag)
    (properties : List Property) : Store :=
  Store.empty.after (channels.map dir.channels.putOp ++
    (tags.map dir.tags.putOp ++ properties.map dir.properties.putOp))

variable {dir : Directory} {s : Store}

theorem WellFormed.tagShape (wf : dir.WellFormed s) : dir.InShape Tag s :=
  ⟨wf.channels, wf.tags⟩

theorem WellFormed.propertyShape (wf : dir.WellFormed s) : dir.InShape Property s :=
  ⟨wf.channels, wf.properties⟩

/-- A directory without documents is well-formed. -/
theorem wellFormed_empty (dir : Directory) : dir.WellFormed Store.empty :=
  ⟨holdsOnly_of_documents_eq_empty rfl, holdsOnly_of_documents_eq_empty rfl,
    holdsOnly_of_documents_eq_empty rfl⟩

/-- A directory without documents is consistent. -/
theorem consistent_empty (dir : Directory) : dir.Consistent Store.empty where
  tags := by
    rintro channel c ⟨⟩
  properties := by
    rintro channel c ⟨⟩

/-- A directory that is filled with channels without doubles is well-formed. -/
theorem wellFormed_filled (indices : dir.config.DistinctIndices) {channels : List Channel}
    (hchannels : ∀ c ∈ channels, c.Distinct) (tags : List Tag) (properties : List Property) :
    dir.WellFormed (dir.filled channels tags properties) := by
  have hop : ∀ op ∈ channels.map dir.channels.putOp ++
      (tags.map dir.tags.putOp ++ properties.map dir.properties.putOp),
      dir.channels.WritesOnly Channel.Distinct op ∧ dir.tags.WritesOnly (fun _ => True) op ∧
        dir.properties.WritesOnly (fun _ => True) op := by
    obtain ⟨hct, hcp, htp⟩ := indices
    intro op hop
    rcases List.mem_append.mp hop with hop | hop
    · obtain ⟨c, hc, rfl⟩ := List.mem_map.mp hop
      exact ⟨writesOnly_putOp (hchannels c hc), writesOnly_of_index_ne hct,
        writesOnly_of_index_ne hcp⟩
    · rcases List.mem_append.mp hop with hop | hop
      · obtain ⟨t, -, rfl⟩ := List.mem_map.mp hop
        exact ⟨writesOnly_of_index_ne (Ne.symm hct), writesOnly_putOp trivial,
          writesOnly_of_index_ne htp⟩
      · obtain ⟨p, -, rfl⟩ := List.mem_map.mp hop
        exact ⟨writesOnly_of_index_ne (Ne.symm hcp), writesOnly_of_index_ne (Ne.symm htp),
          writesOnly_putOp trivial⟩
  exact ⟨(wellFormed_empty dir).channels.after fun op h => (hop op h).1,
    (wellFormed_empty dir).tags.after fun op h => (hop op h).2.1,
    (wellFormed_empty dir).properties.after fun op h => (hop op h).2.2⟩

/-- A directory with the indices that a configuration has by default. -/
def usual : Directory := ⟨{}, 3⟩

theorem distinctIndices_usual : usual.config.DistinctIndices := by decide

variable {α ρ : Type} [Attribute α ρ] [Reference ρ]

/-- References are in sync if those are that are found. -/
theorem inSync_iff [LawfulAttribute α] (wf : dir.channels.HoldsOnly Channel.Distinct s) :
    dir.InSync α s ↔ ∀ channel name ref, dir.refAt? α s channel name = some ref →
      ∃ record, ((dir.records α).contents s).get? name = some record ∧
        owner record = Reference.owner ref := by
  constructor
  · intro h channel name ref href
    obtain ⟨c, hc, hfound⟩ := Option.bind_eq_some_iff.mp href
    have hsync := h channel c hc ref (mem_of_findRef? hfound)
    rwa [name_of_findRef? hfound] at hsync
  · intro h channel c hc ref href
    refine h channel (Reference.name ref) ref ?_
    have hdistinct : DistinctRefs (refs α c) := distinct_refs (wf.of_get?_contents hc).2
    rw [refAt?, hc, Option.bind_some]
    exact (findRef?_eq_some_iff hdistinct).mpr ⟨href, rfl⟩

end Directory

end ChannelDirectory

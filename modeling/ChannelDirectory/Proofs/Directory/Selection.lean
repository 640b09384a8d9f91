import Mathlib.Data.List.Perm.Subperm
import ChannelDirectory.Proofs.Collection.Pages
import ChannelDirectory.Proofs.Directory.WellFormed
import ChannelDirectory.Listing

/-!
# Selections of channels

A selection is the list of the stored channels of which something holds, by name
(`Directory.Selects`). It is said in terms of documents, so it does not depend on how channels are
searched for or decoded. A directory finds the selection of a predicate (`selects_select`), and
counts it (`run_count`). Two selections are compared by what they ask for : asking for more gives
a longer one, and equal lengths mean that no channel has been left out (`length_eq_iff`).
-/

namespace ChannelDirectory

open Collection Program

namespace Directory

/-- The channel is stored under its name. -/
def Stores (dir : Directory) (s : Store) (c : Channel) : Prop :=
  s.get? dir.config.channelIndex c.name = some (toDocument c)

/-- These are the stored channels of which something holds, by name. -/
structure Selects (dir : Directory) (s : Store) (P : Channel → Prop) (found : List Channel) :
    Prop where
  ascending : found.Pairwise fun c c' => c.name < c'.name
  mem_iff : ∀ c, c ∈ found ↔ dir.Stores s c ∧ P c

variable {dir : Directory} {s : Store} {b : Backend} {p : Predicate} {P Q R : Channel → Prop}
  {found found' : List Channel}

/-- A channel is stored if it is in the contents under its name. -/
theorem stores_iff (wf : dir.channels.HoldsOnly R s) {c : Channel} :
    dir.Stores s c ↔ (dir.channels.contents s).get? c.name = some c :=
  wf.get?_contents_iff.symm

/-- The channels that satisfy a predicate are found by name. -/
theorem selects_select (wf : dir.channels.HoldsOnly R s) (p : Predicate) :
    dir.Selects s (fun c => p.holds (toDocument c) = true) (dir.channels.select p s) where
  ascending := wf.select_ascending p
  mem_iff c := by
    rw [mem_select, stores_iff wf]
    refine and_congr_left fun _ => ?_
    constructor
    · rintro ⟨id, hget⟩
      obtain rfl : c.name = id := wf.name_eq hget
      exact hget
    · intro hget
      exact ⟨c.name, hget⟩

/-- Whatever is asked for, there is a selection of it. -/
theorem exists_selects (wf : dir.channels.HoldsOnly R s) (P : Channel → Prop) :
    ∃ found, dir.Selects s P found := by
  classical
  have hall := selects_select wf .matchAll
  refine ⟨(dir.channels.select .matchAll s).filter fun c => P c, hall.ascending.filter _, ?_⟩
  intro c
  rw [List.mem_filter, hall.mem_iff, decide_eq_true_iff, Predicate.holds, Predicate.holdsIn,
    and_iff_left rfl]

/-- A count is the number of stored channels that match, and changes nothing. -/
theorem run_count (havail : b.available = true) (wf : dir.channels.HoldsOnly R b.store)
    (p : Predicate) : (dir.count p).run b = (.ok (dir.channels.select p b.store).length, b) := by
  have hcount : (b.handle (.count dir.config.channelIndex p)).1 =
      .ok (dir.channels.select p b.store).length := by
    have hmatching : b.store.matching dir.config.channelIndex p = _ := wf.matching_eq p
    rw [Backend.handle, if_pos havail, Backend.answer, hmatching, List.length_map]
  refine Prod.ext (returns_request.mpr hcount) ?_
  exact (readOnly_request rfl).run_snd b

namespace Selects

/-- Properties that hold of the same channels select the same channels. -/
theorem congr (h : dir.Selects s P found) (hiff : ∀ c, P c ↔ Q c) : dir.Selects s Q found where
  ascending := h.ascending
  mem_iff c := by rw [h.mem_iff, hiff]

/-- No channel is selected twice. -/
theorem nodup (h : dir.Selects s P found) : found.Nodup := by
  refine h.ascending.imp ?_
  rintro c c' hlt rfl
  exact String.lt_irrefl c.name hlt

/-- Asking for more finds more. -/
theorem subperm (h : dir.Selects s P found) (h' : dir.Selects s Q found')
    (hle : ∀ c, dir.Stores s c → P c → Q c) : found.Subperm found' := by
  refine List.subperm_of_subset h.nodup fun c hc => ?_
  obtain ⟨hstored, hP⟩ := (h.mem_iff c).mp hc
  exact (h'.mem_iff c).mpr ⟨hstored, hle c hstored hP⟩

/-- There is one selection of what is asked for. -/
theorem unique (h : dir.Selects s P found) (h' : dir.Selects s P found') : found = found' := by
  have hperm := (List.perm_ext_iff_of_nodup h.nodup h'.nodup).mpr fun c =>
    (h.mem_iff c).trans (h'.mem_iff c).symm
  exact hperm.eq_of_pairwise (fun _ _ _ _ hlt hgt => absurd hgt (String.lt_asymm hlt))
    h.ascending h'.ascending

/-- If one selection asks for more than another one, both are equally long if no stored channel
is asked for by the first one only. -/
theorem length_eq_iff (h : dir.Selects s P found) (h' : dir.Selects s Q found')
    (hle : ∀ c, dir.Stores s c → P c → Q c) :
    found'.length = found.length ↔ ∀ c, dir.Stores s c → Q c → P c := by
  constructor
  · intro hlength c hstored hQ
    have hperm := (h.subperm h' hle).perm_of_length_le (Nat.le_of_eq hlength)
    exact ((h.mem_iff c).mp (hperm.mem_iff.mpr ((h'.mem_iff c).mpr ⟨hstored, hQ⟩))).2
  · intro hback
    exact Nat.le_antisymm (h'.subperm h hback).length_le (h.subperm h' hle).length_le

end Selects

end Directory

end ChannelDirectory

import ChannelDirectory.Proofs.Membership.Delta

/-!
# Deltas are exact

Carrying a delta out does to each channel what `Delta.result` says (`Delta.get?_applyTo`). The parts
of a delta are found apart from each other, and `Delta.Apt` says what keeps them in step with the
membership that the delta is for : what is added is added to channels without a reference, what is
refreshed differs from what the channel has, and what is removed is there and not written.

Of an apt delta everything else follows (`Delta.Apt.leads`) : no channel is in two parts or written
twice, and each entry changes something, so that the delta is empty exactly if there is nothing to
change. `Delta.replace`, `Delta.merge` and `Delta.strip` are apt, so they lead to what they promise
with nothing to spare (`Delta.deltas_lead`).
-/

namespace ChannelDirectory

namespace Delta

variable {ρ : Type} {d : Delta ρ} {current result : KeyMap ρ} {channel : String}

/-- Carrying a delta out does to each channel what the delta says of it. -/
theorem get?_applyTo (d : Delta ρ) (current : KeyMap ρ) (channel : String) :
    (d.applyTo current).get? channel = d.result channel (current.get? channel) := by
  rw [applyTo, KeyMap.get?_foldl_insert, ← KeyMap.get?_ofList, get?_ofList_upserts,
    KeyMap.get?_foldl_erase, Delta.result]

/-- A delta is empty if it mentions no channel. -/
theorem isEmpty_iff_not_mentions :
    d.isEmpty = true ↔ ∀ channel, ¬d.mentions channel = true := by
  simp only [isEmpty, Bool.and_eq_true, KeyMap.isEmpty_iff, not_mentions_iff,
    ← KeyMap.get?_eq_none_iff_not_mem_keys, forall_and]
  exact ⟨fun h => ⟨h.1.1, h.2, h.1.2⟩, fun h => ⟨⟨h.1, h.2.2⟩, h.2.1⟩⟩

/-- A delta leads from one membership to another with nothing to spare. -/
structure Leads (d : Delta ρ) (current result : KeyMap ρ) : Prop where
  /-- What is added and what is refreshed are different channels. -/
  added_refreshed : d.added.keys.Disjoint d.refreshed.keys
  /-- What is added and what is removed are different channels. -/
  added_removed : d.added.keys.Disjoint d.removed.keys
  /-- What is refreshed and what is removed are different channels. -/
  refreshed_removed : d.refreshed.keys.Disjoint d.removed.keys
  /-- Only channels that are no members are added. -/
  added_absent : ∀ channel ∈ d.added.keys, channel ∉ current.keys
  /-- Only members are refreshed. -/
  refreshed_member : ∀ channel ∈ d.refreshed.keys, channel ∈ current.keys
  /-- Only members are removed. -/
  removed_member : ∀ channel ∈ d.removed.keys, channel ∈ current.keys
  /-- Carrying the delta out gives the other membership. -/
  applyTo_eq : d.applyTo current = result
  /-- Each channel that is mentioned changes. -/
  changes : ∀ channel, d.mentions channel = true → result.get? channel ≠ current.get? channel
  /-- The delta is empty exactly if there is nothing to change. -/
  isEmpty_iff : d.isEmpty = true ↔ current = result
  /-- Each channel that is written is written once. -/
  count_upserts : ∀ channel, (d.upserts.map Prod.fst).count channel =
    if channel ∈ d.added.keys ∨ channel ∈ d.refreshed.keys then 1 else 0

/-- The parts of a delta fit the membership that it is for. -/
structure Apt (d : Delta ρ) (current : KeyMap ρ) : Prop where
  added : ∀ channel ∈ d.added.keys, current.get? channel = none
  refreshed : ∀ channel ref, d.refreshed.get? channel = some ref →
    ∃ old, current.get? channel = some old ∧ old ≠ ref
  removed : ∀ channel ∈ d.removed.keys,
    (∃ old, current.get? channel = some old) ∧ channel ∉ d.refreshed.keys

namespace Apt

theorem added_refreshed (h : d.Apt current) : d.added.keys.Disjoint d.refreshed.keys := by
  intro channel hadded hrefreshed
  obtain ⟨ref, href⟩ := KeyMap.mem_keys_iff.mp hrefreshed
  obtain ⟨old, hold, -⟩ := h.refreshed channel ref href
  rw [h.added channel hadded] at hold
  cases hold

theorem added_removed (h : d.Apt current) : d.added.keys.Disjoint d.removed.keys := by
  intro channel hadded hremoved
  obtain ⟨old, hold⟩ := (h.removed channel hremoved).1
  rw [h.added channel hadded] at hold
  cases hold

/-- Every channel that an apt delta mentions has another reference afterwards. -/
theorem result_ne (h : d.Apt current) (hchannel : d.mentions channel = true) :
    d.result channel (current.get? channel) ≠ current.get? channel := by
  rcases mentions_iff.mp hchannel with hadded | hrefreshed | hremoved
  · obtain ⟨ref, href⟩ := KeyMap.mem_keys_iff.mp hadded
    have hnone := KeyMap.get?_eq_none_iff_not_mem_keys.mpr (h.added_refreshed hadded)
    simp [Delta.result, put?, href, hnone, h.added channel hadded]
  · obtain ⟨ref, href⟩ := KeyMap.mem_keys_iff.mp hrefreshed
    obtain ⟨old, hold, hne⟩ := h.refreshed channel ref href
    simp [Delta.result, put?, href, hold, Ne.symm hne]
  · obtain ⟨⟨old, hold⟩, hnot⟩ := h.removed channel hremoved
    have hrefreshed := KeyMap.get?_eq_none_iff_not_mem_keys.mpr hnot
    have hadded : d.added.get? channel = none :=
      KeyMap.get?_eq_none_iff_not_mem_keys.mpr fun hadded => h.added_removed hadded hremoved
    simp [Delta.result, put?, hadded, hrefreshed, hold, hremoved]

/-- No channel is put twice. -/
theorem nodup_upserts (h : d.Apt current) : (d.upserts.map Prod.fst).Nodup := by
  rw [upserts, List.map_append]
  exact d.added.keys_nodup.append d.refreshed.keys_nodup h.added_refreshed

/-- An apt delta is empty exactly if it changes nothing. -/
theorem isEmpty_iff (h : d.Apt current) : d.isEmpty = true ↔ current = d.applyTo current := by
  rw [isEmpty_iff_not_mentions]
  constructor
  · intro hnot
    refine KeyMap.ext_get? fun channel => ?_
    obtain ⟨hadded, hrefreshed, hremoved⟩ := not_mentions_iff.mp (hnot channel)
    simp [get?_applyTo, Delta.result, put?, hadded, hrefreshed, hremoved]
  · intro heq channel hchannel
    refine h.result_ne hchannel ?_
    rw [← get?_applyTo, ← heq]

/-- An apt delta has nothing to spare. -/
theorem leads (h : d.Apt current) (hresult : d.applyTo current = result) :
    d.Leads current result where
  added_refreshed := h.added_refreshed
  added_removed := h.added_removed
  refreshed_removed := fun channel hrefreshed hremoved => (h.removed channel hremoved).2 hrefreshed
  added_absent channel hadded :=
    KeyMap.get?_eq_none_iff_not_mem_keys.mp (h.added channel hadded)
  refreshed_member channel hrefreshed := by
    obtain ⟨ref, href⟩ := KeyMap.mem_keys_iff.mp hrefreshed
    obtain ⟨old, hold, -⟩ := h.refreshed channel ref href
    exact KeyMap.mem_keys_iff.mpr ⟨old, hold⟩
  removed_member channel hremoved := KeyMap.mem_keys_iff.mpr (h.removed channel hremoved).1
  applyTo_eq := hresult
  changes channel hchannel := by
    rw [← hresult, get?_applyTo]
    exact h.result_ne hchannel
  isEmpty_iff := by rw [h.isEmpty_iff, hresult]
  count_upserts channel := by
    rw [h.nodup_upserts.count, upserts, List.map_append]
    simp only [List.mem_append]
    rfl

end Apt

/-! ## The three deltas -/

/-- Stripping members removes those that are there. -/
theorem apt_strip (current : KeyMap ρ) : (strip current).Apt current where
  added channel hadded := absurd hadded List.not_mem_nil
  refreshed channel ref href := by cases href
  removed channel hremoved := by
    rw [strip, KeyMap.keys_mapValues] at hremoved
    exact ⟨KeyMap.mem_keys_iff.mp hremoved, List.not_mem_nil⟩

variable [DecidableEq ρ]

/-- A merge adds what is not there, and refreshes what differs. -/
theorem apt_merge (current desired : KeyMap ρ) : (merge current desired).Apt current where
  added channel hadded := by
    obtain ⟨ref, href⟩ := KeyMap.mem_keys_iff.mp hadded
    rw [merge, KeyMap.get?_filter, Option.filter_eq_some_iff] at href
    simpa [KeyMap.contains] using href.2
  refreshed channel ref href := by
    rw [merge, KeyMap.get?_filter, Option.filter_eq_some_iff] at href
    cases hcurrent : current.get? channel with
    | none => simp [hcurrent] at href
    | some old => exact ⟨old, rfl, by simpa [hcurrent] using href.2⟩
  removed channel hremoved := absurd hremoved List.not_mem_nil

/-- A replacement adds what is not there, refreshes what differs and removes the rest. -/
theorem apt_replace (current desired : KeyMap ρ) : (replace current desired).Apt current where
  added := (apt_merge current desired).added
  refreshed := (apt_merge current desired).refreshed
  removed channel hremoved := by
    obtain ⟨hmember, habsent⟩ := mem_removed_replace.mp hremoved
    refine ⟨hmember, fun hrefreshed => ?_⟩
    obtain ⟨ref, href⟩ := KeyMap.mem_keys_iff.mp hrefreshed
    rw [replace, merge, KeyMap.get?_filter, habsent] at href
    cases href

/-- Replacing leads to exactly the desired members, merging to the current ones overridden by the
desired ones, and stripping to none, each with nothing to spare. -/
theorem deltas_lead (current desired : KeyMap ρ) :
    (replace current desired).Leads current desired ∧
      (merge current desired).Leads current (current.overridden desired) ∧
        (strip current).Leads current KeyMap.empty := by
  refine ⟨(apt_replace current desired).leads ?_, (apt_merge current desired).leads ?_,
    (apt_strip current).leads ?_⟩
  · refine KeyMap.ext_get? fun channel => ?_
    rw [get?_applyTo, result_replace]
  · refine KeyMap.ext_get? fun channel => ?_
    rw [get?_applyTo, result_merge, KeyMap.get?_overridden]
  · refine KeyMap.ext_get? fun channel => ?_
    rw [get?_applyTo, result_strip, KeyMap.get?_empty]

end Delta

end ChannelDirectory

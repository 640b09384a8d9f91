import ChannelDirectory.Proofs.Membership.ExactDeltas

/-!
# Refreshing the other members

`Delta.refreshOthers` is to bring the members up to date that a request does not name. It sees the
delta and not the request, and refreshes every member that the delta does not mention
(`Delta.get?_applyTo_refreshOthers`). A channel that the request names and that carries the desired
reference already is not mentioned either, so its reference is refreshed like those of the others
(`Delta.refreshedInPlace`).

The desired references come out as they were asked for exactly if refreshing leaves those alone that
are carried already (`Delta.refreshing_spares_desired_iff`). This holds where the desired references
have the owner that refreshing writes.
-/

namespace ChannelDirectory

namespace Delta

variable {ρ : Type} [DecidableEq ρ] {current desired : KeyMap ρ} {refresh : ρ → ρ} {d : Delta ρ}
  {channel : String}

/-! ## What is refreshed -/

/-- A channel that the delta mentions becomes what the delta says, and every other member is
refreshed. -/
theorem get?_applyTo_refreshOthers (d : Delta ρ) (current : KeyMap ρ) (refresh : ρ → ρ)
    (channel : String) :
    ((d.refreshOthers current refresh).applyTo current).get? channel =
      if d.mentions channel then (d.applyTo current).get? channel
      else (current.get? channel).map refresh := by
  rw [get?_applyTo, get?_applyTo, Delta.result, put?_refreshOthers, removed_refreshOthers]
  by_cases hmentions : d.mentions channel = true
  · simp [hmentions, Delta.result]
  · obtain ⟨hadded, hrefreshed, hremoved⟩ := not_mentions_iff.mp hmentions
    rw [if_neg hmentions, if_neg hmentions, if_neg hremoved, put?, hadded, hrefreshed]
    cases current.get? channel with
    | none => rfl
    | some ref =>
      by_cases hsame : ref = refresh ref
      · simp [Option.filter, ← hsame]
      · simp [Option.filter, hsame]

/-- Refreshing the other members leaves a delta without anything to spare. -/
theorem Apt.refreshOthers (h : d.Apt current) (refresh : ρ → ρ) :
    (d.refreshOthers current refresh).Apt current where
  added channel hadded := by
    rw [added_refreshOthers] at hadded
    exact h.added channel hadded
  refreshed channel ref href := by
    rw [get?_refreshed_refreshOthers, Option.or_eq_some_iff] at href
    rcases href with hbefore | ⟨-, hnew⟩
    · exact h.refreshed channel ref hbefore
    · split at hnew
      · cases hnew
      · obtain ⟨old, hold, hnew⟩ := Option.bind_eq_some_iff.mp hnew
        obtain ⟨hsome, hne⟩ := Option.filter_eq_some_iff.mp hnew
        exact ⟨old, hold, of_decide_eq_true hne⟩
  removed channel hremoved := by
    rw [removed_refreshOthers] at hremoved
    have hmentions : d.mentions channel = true := mentions_iff.mpr (Or.inr (Or.inr hremoved))
    refine ⟨(h.removed channel hremoved).1, ?_⟩
    rw [← KeyMap.get?_eq_none_iff_not_mem_keys, get?_refreshed_refreshOthers, if_pos hmentions,
      Option.or_none, KeyMap.get?_eq_none_iff_not_mem_keys]
    exact (h.removed channel hremoved).2

/-! ## The desired references -/

/-- A merge mentions the desired members that do not carry their reference. -/
theorem mentions_merge_iff :
    (merge current desired).mentions channel = true ↔
      ∃ ref, desired.get? channel = some ref ∧ current.get? channel ≠ some ref := by
  rw [mentions_merge, put?_merge, Option.isSome_iff_exists]
  simp [Option.filter_eq_some_iff]

/-- A replacement mentions the channels that have another reference afterwards. -/
theorem mentions_replace_iff :
    (replace current desired).mentions channel = true ↔
      desired.get? channel ≠ current.get? channel := by
  have hmerge : (replace current desired).mentions channel = true ↔
      (merge current desired).mentions channel = true ∨
        channel ∈ (replace current desired).removed.keys := by
    simp [mentions_iff, replace, merge, or_assoc]
  rw [hmerge, mentions_merge_iff, mem_removed_replace]
  cases hdesired : desired.get? channel with
  | none => cases current.get? channel <;> simp
  | some ref => simp [eq_comm]

/-- The desired references, refreshed where they are carried already. -/
def refreshedInPlace (current desired : KeyMap ρ) (refresh : ρ → ρ) : KeyMap ρ :=
  desired.mapValues fun channel ref =>
    if current.get? channel = some ref then refresh ref else ref

/-- Refreshing changes no reference that is desired and carried already. -/
def SparesCarried (current desired : KeyMap ρ) (refresh : ρ → ρ) : Prop :=
  ∀ channel ref, current.get? channel = some ref → desired.get? channel = some ref →
    refresh ref = ref

/-- Refreshing in place gives what is desired exactly if it spares what is carried as desired. -/
theorem refreshedInPlace_eq_iff :
    refreshedInPlace current desired refresh = desired ↔ SparesCarried current desired refresh := by
  constructor
  · intro heq channel ref hcurrent hdesired
    have hget := congrArg (KeyMap.get? · channel) heq
    simpa [refreshedInPlace, hdesired, hcurrent] using hget
  · intro hspares
    refine KeyMap.ext_get? fun channel => ?_
    rw [refreshedInPlace, KeyMap.get?_mapValues]
    cases hdesired : desired.get? channel with
    | none => rfl
    | some ref =>
      by_cases hcurrent : current.get? channel = some ref
      · rw [Option.map_some, if_pos hcurrent, hspares channel ref hcurrent hdesired]
      · rw [Option.map_some, if_neg hcurrent]

theorem overridden_refreshedInPlace_eq_iff (m : KeyMap ρ) :
    m.overridden (refreshedInPlace current desired refresh) = m.overridden desired ↔
      SparesCarried current desired refresh := by
  rw [← refreshedInPlace_eq_iff]
  refine ⟨fun heq => KeyMap.ext_get? fun channel => ?_, fun heq => by rw [heq]⟩
  have hget := congrArg (KeyMap.get? · channel) heq
  simp only [KeyMap.get?_overridden, refreshedInPlace, KeyMap.get?_mapValues] at hget ⊢
  cases hdesired : desired.get? channel with
  | none => rfl
  | some ref => simpa [hdesired] using hget

theorem applyTo_refreshOthers_merge (current desired : KeyMap ρ) (refresh : ρ → ρ) :
    ((merge current desired).refreshOthers current refresh).applyTo current =
      (current.mapValues fun _ ref => refresh ref).overridden
        (refreshedInPlace current desired refresh) := by
  refine KeyMap.ext_get? fun channel => ?_
  rw [get?_applyTo_refreshOthers, get?_applyTo, result_merge, KeyMap.get?_overridden,
    refreshedInPlace, KeyMap.get?_mapValues, KeyMap.get?_mapValues]
  simp only [mentions_merge_iff]
  cases hdesired : desired.get? channel with
  | none => simp
  | some ref => by_cases hcurrent : current.get? channel = some ref <;> simp [hcurrent]

theorem applyTo_refreshOthers_replace (current desired : KeyMap ρ) (refresh : ρ → ρ) :
    ((replace current desired).refreshOthers current refresh).applyTo current =
      refreshedInPlace current desired refresh := by
  refine KeyMap.ext_get? fun channel => ?_
  rw [get?_applyTo_refreshOthers, get?_applyTo, result_replace, refreshedInPlace,
    KeyMap.get?_mapValues]
  simp only [mentions_replace_iff]
  cases hdesired : desired.get? channel with
  | none => cases current.get? channel <;> simp
  | some ref =>
    by_cases hcurrent : current.get? channel = some ref
    · simp [hcurrent]
    · simp [hcurrent, Ne.symm hcurrent]

/-- Where a request is merged or replaces the members, and the other members are refreshed, the
desired members have what was desired exactly if refreshing spares the references that are carried
already. In any case these are the only ones that come out otherwise, and nothing is written to
spare. -/
theorem refreshing_spares_desired_iff (current desired : KeyMap ρ) (refresh : ρ → ρ) :
    ((merge current desired).refreshOthers current refresh).Leads current
        ((current.mapValues fun _ ref => refresh ref).overridden
          (refreshedInPlace current desired refresh)) ∧
      ((replace current desired).refreshOthers current refresh).Leads current
        (refreshedInPlace current desired refresh) ∧
      (((merge current desired).refreshOthers current refresh).applyTo current =
          (current.mapValues fun _ ref => refresh ref).overridden desired ↔
        SparesCarried current desired refresh) ∧
      (((replace current desired).refreshOthers current refresh).applyTo current = desired ↔
        SparesCarried current desired refresh) := by
  refine ⟨((apt_merge current desired).refreshOthers refresh).leads ?_,
    ((apt_replace current desired).refreshOthers refresh).leads ?_, ?_, ?_⟩
  · exact applyTo_refreshOthers_merge current desired refresh
  · exact applyTo_refreshOthers_replace current desired refresh
  · rw [applyTo_refreshOthers_merge, overridden_refreshedInPlace_eq_iff]
  · rw [applyTo_refreshOthers_replace, refreshedInPlace_eq_iff]

/-- A channel with its owner. -/
def ownedOnA : KeyMap String :=
  KeyMap.ofList [("A", "o1")]

/-- A desired member that is up to date loses its reference to the refreshed one. -/
theorem ownedOnA_refreshed :
    ((merge ownedOnA ownedOnA).refreshOthers ownedOnA fun _ => "o2").applyTo ownedOnA ≠
        (ownedOnA.mapValues fun _ _ => "o2").overridden ownedOnA ∧
      ((replace ownedOnA ownedOnA).refreshOthers ownedOnA fun _ => "o2").applyTo ownedOnA ≠
        ownedOnA := by
  decide

end Delta

end ChannelDirectory

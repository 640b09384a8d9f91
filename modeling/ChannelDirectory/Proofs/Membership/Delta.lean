import ChannelDirectory.Membership.Delta
import ChannelDirectory.Proofs.KeyMap

/-!
# What a change of membership does

A `Delta` is read channel by channel : `Delta.put?` is the reference that it writes for a
channel, and `Delta.result` what becomes of the reference that the channel had. For the
deltas of two memberships the results are those that their names promise
(`result_replace`, `result_merge`, `result_strip`), provided that the channel has what the
current membership says.

`Delta.refreshOthers` walks over the current members and looks at each time what the delta
mentions by then. As every member occurs once, this is the same as looking at the delta
that the walk began with (`refreshed_foldl_refreshOther`).
-/

namespace ChannelDirectory

namespace Delta

variable {ρ : Type}

/-- The reference that is written for a channel. -/
def put? (d : Delta ρ) (channel : String) : Option ρ :=
  (d.refreshed.get? channel).or (d.added.get? channel)

/-- What becomes of the reference that a channel has. -/
def result (d : Delta ρ) (channel : String) (old : Option ρ) : Option ρ :=
  (d.put? channel).or (if channel ∈ d.removed.keys then none else old)

theorem get?_ofList_upserts (d : Delta ρ) (channel : String) :
    (KeyMap.ofList d.upserts).get? channel = d.put? channel := by
  rw [upserts, KeyMap.get?_ofList_append, KeyMap.get?_ofList_entries, KeyMap.get?_ofList_entries,
    put?]

/-- The upserts are what is added and what is refreshed. -/
theorem mem_upserts {d : Delta ρ} {e : String × ρ} :
    e ∈ d.upserts ↔ d.added.get? e.1 = some e.2 ∨ d.refreshed.get? e.1 = some e.2 := by
  rw [upserts, List.mem_append, KeyMap.get?_eq_some_iff_mem, KeyMap.get?_eq_some_iff_mem]

theorem mentions_iff {d : Delta ρ} {channel : String} :
    d.mentions channel = true ↔
      channel ∈ d.added.keys ∨ channel ∈ d.refreshed.keys ∨ channel ∈ d.removed.keys := by
  simp only [mentions, Bool.or_eq_true, KeyMap.contains_iff, KeyMap.mem_keys_iff, or_assoc]

/-- What a delta does not mention it neither writes nor removes. -/
theorem not_mentions_iff {d : Delta ρ} {channel : String} :
    ¬d.mentions channel = true ↔ d.added.get? channel = none ∧ d.refreshed.get? channel = none ∧
      channel ∉ d.removed.keys := by
  rw [mentions_iff, not_or, not_or, KeyMap.get?_eq_none_iff_not_mem_keys,
    KeyMap.get?_eq_none_iff_not_mem_keys]

/-- No member has a reference. -/
theorem result_strip (current : KeyMap ρ) (channel : String) :
    (strip current).result channel (current.get? channel) = none := by
  cases h : current.get? channel <;> simp [result, put?, strip, KeyMap.mem_keys_iff, h]

/-! ## Adding members -/

variable [DecidableEq ρ]

/-- A merge puts what is desired and not carried yet. -/
theorem put?_merge (current desired : KeyMap ρ) (channel : String) :
    (merge current desired).put? channel =
      (desired.get? channel).filter fun ref => current.get? channel ≠ some ref := by
  rw [put?, merge]
  cases hdesired : desired.get? channel with
  | none => simp [hdesired]
  | some ref =>
    cases hcurrent : current.get? channel with
    | none => simp [hdesired, hcurrent, Option.filter, KeyMap.contains]
    | some existing =>
      by_cases heq : existing = ref <;>
        simp [hdesired, hcurrent, Option.filter, KeyMap.contains, heq]

/-- Desired members have their reference, and all others what they had. -/
theorem result_merge (current desired : KeyMap ρ) (channel : String) :
    (merge current desired).result channel (current.get? channel) =
      (desired.get? channel).or (current.get? channel) := by
  rw [result, put?_merge]
  cases desired.get? channel with
  | none => simp [merge]
  | some ref =>
    by_cases heq : current.get? channel = some ref <;> simp [merge, Option.filter, heq]

/-- A replacement removes the members that are not desired. -/
theorem mem_removed_replace {current desired : KeyMap ρ} {channel : String} :
    channel ∈ (replace current desired).removed.keys ↔
      (∃ ref, current.get? channel = some ref) ∧ desired.get? channel = none := by
  simp [replace, KeyMap.mem_keys_iff, Option.filter_eq_some_iff, KeyMap.contains]

/-- Exactly the desired members have a reference, and it is the desired one. -/
theorem result_replace (current desired : KeyMap ρ) (channel : String) :
    (replace current desired).result channel (current.get? channel) = desired.get? channel := by
  have hput : (replace current desired).put? channel = (merge current desired).put? channel := rfl
  rw [result, hput, put?_merge]
  cases hdesired : desired.get? channel with
  | none =>
    cases hcurrent : current.get? channel with
    | none => simp
    | some existing => simp [mem_removed_replace, hdesired, hcurrent]
  | some ref =>
    by_cases heq : current.get? channel = some ref
    · simp [Option.filter, heq, mem_removed_replace, hdesired]
    · simp [Option.filter, heq]

/-! ## Refreshing the other members -/

theorem added_foldl_refreshOther (refresh : ρ → ρ) (members : List (String × ρ)) (d : Delta ρ) :
    (members.foldl (refreshOther refresh) d).added = d.added := by
  induction members generalizing d with
  | nil => rfl
  | cons member members ih =>
    rw [List.foldl_cons, ih, refreshOther]
    split <;> rfl

theorem removed_foldl_refreshOther (refresh : ρ → ρ) (members : List (String × ρ)) (d : Delta ρ) :
    (members.foldl (refreshOther refresh) d).removed = d.removed := by
  induction members generalizing d with
  | nil => rfl
  | cons member members ih =>
    rw [List.foldl_cons, ih, refreshOther]
    split <;> rfl

theorem refreshed_refreshOther_of_ne (refresh : ρ → ρ) (d : Delta ρ) {member : String × ρ}
    {channel : String} (h : channel ≠ member.1) :
    (refreshOther refresh d member).refreshed.get? channel = d.refreshed.get? channel := by
  rw [refreshOther]
  split
  · rfl
  · simp [h]

/-- A member that the delta does not mention is refreshed, unless that changes nothing. -/
theorem refreshed_refreshOther_self (refresh : ρ → ρ) (d : Delta ρ) (member : String × ρ) :
    (refreshOther refresh d member).refreshed.get? member.1 =
      (d.refreshed.get? member.1).or
        (if d.mentions member.1 then none
          else (some (refresh member.2)).filter fun ref => member.2 ≠ ref) := by
  by_cases hmentions : d.mentions member.1 = true
  · simp [refreshOther, hmentions]
  · have hnone : d.refreshed.get? member.1 = none := (not_mentions_iff.mp hmentions).2.1
    by_cases hsame : refresh member.2 = member.2
    · simp [refreshOther, hsame, Option.filter]
    · simp [refreshOther, hmentions, hsame, Option.filter, hnone, Ne.symm hsame]

/-- A member is refreshed if the delta does not mention it from the start. -/
theorem refreshed_foldl_refreshOther (refresh : ρ → ρ) {members : List (String × ρ)}
    (distinct : (members.map Prod.fst).Nodup) (d : Delta ρ) (channel : String) :
    (members.foldl (refreshOther refresh) d).refreshed.get? channel =
      (d.refreshed.get? channel).or
        (if d.mentions channel then none
          else ((KeyMap.ofList members).get? channel).bind fun ref =>
            (some (refresh ref)).filter fun ref' => ref ≠ ref') := by
  induction members generalizing d with
  | nil => simp [KeyMap.ofList]
  | cons member members ih =>
    obtain ⟨hnotin, hdistinct⟩ := List.nodup_cons.mp distinct
    rw [List.foldl_cons, ih hdistinct, KeyMap.get?_ofList_cons]
    by_cases h : channel = member.1
    · -- This member does not occur again, so its own step is the one that counts.
      subst h
      have habsent : (KeyMap.ofList members).get? member.1 = none := by
        rw [KeyMap.get?_ofList_eq_none_iff]
        exact fun e he heq => hnotin (heq ▸ List.mem_map_of_mem he)
      rw [refreshed_refreshOther_self, habsent]
      by_cases hmentions : d.mentions member.1 = true <;> simp [hmentions]
    · have hmentions : (refreshOther refresh d member).mentions channel = d.mentions channel := by
        have hadded := added_foldl_refreshOther refresh [member] d
        have hremoved := removed_foldl_refreshOther refresh [member] d
        rw [List.foldl_cons, List.foldl_nil] at hadded hremoved
        simp only [mentions, KeyMap.contains, hadded, hremoved,
          refreshed_refreshOther_of_ne refresh d h]
      rw [refreshed_refreshOther_of_ne refresh d h, hmentions, if_neg h, Option.or_none]

theorem added_refreshOthers (d : Delta ρ) (current : KeyMap ρ) (refresh : ρ → ρ) :
    (d.refreshOthers current refresh).added = d.added :=
  added_foldl_refreshOther refresh current.entries d

theorem removed_refreshOthers (d : Delta ρ) (current : KeyMap ρ) (refresh : ρ → ρ) :
    (d.refreshOthers current refresh).removed = d.removed :=
  removed_foldl_refreshOther refresh current.entries d

theorem get?_refreshed_refreshOthers (d : Delta ρ) (current : KeyMap ρ) (refresh : ρ → ρ)
    (channel : String) :
    (d.refreshOthers current refresh).refreshed.get? channel =
      (d.refreshed.get? channel).or
        (if d.mentions channel then none
          else (current.get? channel).bind fun ref =>
            (some (refresh ref)).filter fun ref' => ref ≠ ref') := by
  rw [refreshOthers, refreshed_foldl_refreshOther refresh current.keys_nodup,
    KeyMap.get?_ofList_entries]

/-- Refreshing the others adds to the upserts the members that the delta does not mention and that
come out different. -/
theorem put?_refreshOthers (d : Delta ρ) (current : KeyMap ρ) (refresh : ρ → ρ)
    (channel : String) :
    (d.refreshOthers current refresh).put? channel =
      (d.put? channel).or
        (if d.mentions channel then none
          else (current.get? channel).bind fun ref =>
            (some (refresh ref)).filter fun ref' => ref ≠ ref') := by
  rw [put?, added_refreshOthers, get?_refreshed_refreshOthers, put?]
  by_cases hmentions : d.mentions channel = true
  · simp [hmentions]
  · have hnone : d.added.get? channel = none := (not_mentions_iff.mp hmentions).1
    simp [hmentions, hnone]

theorem mentions_merge (current desired : KeyMap ρ) (channel : String) :
    (merge current desired).mentions channel = ((merge current desired).put? channel).isSome := by
  simp [mentions, KeyMap.contains, put?, merge, Bool.or_comm]

/-- Desired members have their reference, and all other members are refreshed, if desired
references are up to date. -/
theorem result_refreshOthers {current desired : KeyMap ρ} {refresh : ρ → ρ}
    (hdesired : ∀ channel ref, desired.get? channel = some ref → refresh ref = ref)
    (channel : String) :
    ((merge current desired).refreshOthers current refresh).result channel (current.get? channel) =
      (desired.get? channel).or ((current.get? channel).map refresh) := by
  have hremoved : (merge current desired).removed.keys = [] := rfl
  rw [result, put?_refreshOthers, removed_refreshOthers, hremoved, mentions_merge, put?_merge,
    if_neg List.not_mem_nil]
  cases hdes : desired.get? channel with
  | none =>
    cases current.get? channel with
    | none => rfl
    | some ref =>
      by_cases hsame : ref = refresh ref
      · simp [Option.filter, ← hsame]
      · simp [Option.filter, hsame]
  | some ref =>
    by_cases heq : current.get? channel = some ref
    · simp [Option.filter, heq, hdesired channel ref hdes]
    · simp [Option.filter, heq]

/-! ## Nothing to do -/

/-- The delta between memberships that are the same. -/
def nothing : Delta ρ := ⟨KeyMap.empty, KeyMap.empty, KeyMap.empty⟩

/-- Members that are there need not be added. -/
theorem merge_eq_nothing {current desired : KeyMap ρ}
    (h : ∀ channel ref, desired.get? channel = some ref → current.get? channel = some ref) :
    merge current desired = nothing := by
  have hnone : ∀ (keep : String → ρ → Bool), (∀ channel ref,
      current.get? channel = some ref → keep channel ref = false) →
        desired.filter keep = KeyMap.empty := by
    intro keep hkeep
    refine KeyMap.ext_get? fun channel => ?_
    rw [KeyMap.get?_filter, KeyMap.get?_empty, Option.filter_eq_none_iff]
    exact fun ref href => by simp [hkeep channel ref (h channel ref href)]
  rw [merge, hnone _ fun channel ref href => by simp [KeyMap.contains, href],
    hnone _ fun channel ref href => by simp [href], nothing]

/-- Nothing is to be done where the members are as desired. -/
theorem replace_self (members : KeyMap ρ) : replace members members = nothing := by
  have hremoved : members.filter (fun name _ => !members.contains name) = KeyMap.empty := by
    refine KeyMap.ext_get? fun channel => ?_
    rw [KeyMap.get?_filter, KeyMap.get?_empty, Option.filter_eq_none_iff]
    exact fun ref href => by simp [KeyMap.contains, href]
  rw [replace, merge_eq_nothing fun _ _ href => href, hremoved]
  rfl

/-- Members that are up to date need not be refreshed. -/
theorem refreshOthers_nothing {current : KeyMap ρ} {refresh : ρ → ρ}
    (h : ∀ channel ref, current.get? channel = some ref → refresh ref = ref) :
    nothing.refreshOthers current refresh = nothing := by
  have hall : ∀ members : List (String × ρ), (∀ e ∈ members, refresh e.2 = e.2) →
      members.foldl (refreshOther refresh) nothing = nothing := by
    intro members hmembers
    induction members with
    | nil => rfl
    | cons e members ih =>
      obtain ⟨hfirst, hrest⟩ := List.forall_mem_cons.mp hmembers
      rw [List.foldl_cons, refreshOther, if_pos (by simp [hfirst]), ih hrest]
  exact hall current.entries fun e he => h e.1 e.2 (KeyMap.get?_eq_some_iff_mem.mpr he)

end Delta

end ChannelDirectory

import ChannelDirectory.Record.Validation
import ChannelDirectory.Proofs.Membership.Composition

/-!
# Valid names and owners, and the references that are left

`ValidName` says which names pass their check, without the order in which the check looks for
what is wrong (`validateName_eq_ok_iff`).

`lastRefs` keeps a reference if no later one has its name. It is what putting the references one
after another leads to (`dedupRefs_eq_lastRefs`) : the last reference of a name counts, and the
ones that are left stand in the order in which they came.
-/

namespace ChannelDirectory

/-! ## Names and owners -/

/-- Some character of the text is not blank. -/
def HasText (text : String) : Prop :=
  ∃ c ∈ text.toList, Text.isBlank c = false

/-- A name that a record can have. -/
structure ValidName (name : String) : Prop where
  hasText : HasText name
  length_le : name.length ≤ 255
  noControl : ∀ c ∈ name.toList, Text.isControl c = false
  trimmed : Text.trim name = name

theorem isBlankText_eq_false_iff {text : String} :
    Text.isBlankText text = false ↔ HasText text := by
  simp [Text.isBlankText, HasText]

theorem validateName_eq_ok_iff {kind : RecordKind} {name : String} :
    validateName kind name = .ok () ↔ ValidName name := by
  have hcontrol : name.toList.any Text.isControl = false ↔
      ∀ c ∈ name.toList, Text.isControl c = false := by simp
  unfold validateName
  split
  · rename_i hblank
    exact iff_of_false nofun fun h => by
      rw [isBlankText_eq_false_iff.mpr h.hasText] at hblank
      cases hblank
  · rename_i hblank
    have htext := isBlankText_eq_false_iff.mp (Bool.eq_false_of_not_eq_true hblank)
    split
    · rename_i hlong
      exact iff_of_false nofun fun h => absurd hlong (Nat.not_lt.mpr h.length_le)
    · rename_i hshort
      split
      · rename_i hany
        exact iff_of_false nofun fun h => by
          rw [hcontrol.mpr h.noControl] at hany
          cases hany
      · rename_i hnone
        split
        · rename_i hne
          exact iff_of_false nofun fun h => hne h.trimmed.symm
        · rename_i heq
          exact iff_of_true rfl ⟨htext, Nat.not_lt.mp hshort,
            hcontrol.mp (Bool.eq_false_of_not_eq_true hnone), (not_not.mp heq).symm⟩

theorem validateOwner_eq_ok_iff {kind : RecordKind} {name owner : String} :
    validateOwner kind name owner = .ok () ↔ HasText owner := by
  rw [validateOwner, ← isBlankText_eq_false_iff]
  cases Text.isBlankText owner with
  | true => exact iff_of_false nofun nofun
  | false => exact iff_of_true rfl rfl

/-! ## The references that are left -/

section References

variable {ρ : Type} [Reference ρ]

/-- The references that no later one has the name of. -/
def lastRefs : List ρ → List ρ
  | [] => []
  | ref :: refs =>
    if Reference.name ref ∈ refs.map Reference.name then lastRefs refs else ref :: lastRefs refs

theorem dedupRefs_eq_lastRefs (refs : List ρ) : dedupRefs refs = lastRefs refs := by
  induction refs with
  | nil => rfl
  | cons ref refs ih =>
    have hput : dedupRefs (ref :: refs) = putRefs [ref] refs := rfl
    rw [hput, putRefs_eq, ih, lastRefs]
    by_cases hlater : Reference.name ref ∈ refs.map Reference.name
    · rw [if_pos hlater, List.filter_cons_of_neg (by simpa using hlater)]
      rfl
    · rw [if_neg hlater, List.filter_cons_of_pos (by simpa using hlater)]
      rfl

/-- Every name is left. -/
theorem mem_names_lastRefs_iff {refs : List ρ} {name : String} :
    name ∈ (lastRefs refs).map Reference.name ↔ name ∈ refs.map Reference.name := by
  induction refs with
  | nil => rfl
  | cons ref refs ih =>
    rw [lastRefs, List.map_cons, List.mem_cons]
    split
    · rename_i hlater
      rw [ih, or_iff_right_of_imp (fun h => h ▸ hlater)]
    · rw [List.map_cons, List.mem_cons, ih]

end References

/-! ## Channels -/

/-- The channel passes all checks that need nothing but the channel. -/
structure Channel.Valid (c : Channel) : Prop where
  name : ValidName c.name
  owner : HasText c.owner
  values : ∀ property ∈ lastRefs c.properties, property.value ≠ ""

end ChannelDirectory

import ChannelDirectory.Proofs.Pattern.Reading

/-!
# Patterns recognised by their segments

Two tests look at the segments of a pattern and never at a text. `Pattern.matchesEverything` looks
for a single `*`, and `Pattern.isLiteral` for wildcards. For a pattern that is read from a text they
tell whether it matches every text and whether it matches exactly one
(`Pattern.tests_decide_texts`).

A pattern matches some text in any case (`Segment.exists_cut`), and any character can stand for a
wildcard (`Segment.covers_singleton`), so a pattern that holds one matches two texts at least
(`Pattern.exists_two_texts`). A single `*` is known by the empty text and one letter : in normal
form, no other pattern matches both (`Pattern.matchesEverything_ofSegments_iff`).
-/

namespace ChannelDirectory

namespace Segment

variable {mode : CaseMode}

/-- The characters of a literal. A wildcard has none. -/
def spelling : Segment → List Char
  | literal text => text.toList
  | anyChar | anySequence => []

/-- A text of the first segments and one of the others make one of all segments. -/
theorem cut_append {front back : List Segment} {text text' : List Char}
    (hfront : Cut mode front text) (hback : Cut mode back text') :
    Cut mode (front ++ back) (text ++ text') := by
  induction hfront with
  | nil => exact hback
  | cons hpiece _ ih =>
    rw [List.append_assoc]
    exact .cons hpiece ih

/-- Segments match some text. -/
theorem exists_cut (mode : CaseMode) (segments : List Segment) :
    ∃ text, Cut mode segments text := by
  induction segments with
  | nil => exact ⟨[], .nil⟩
  | cons segment segments ih =>
    obtain ⟨rest, hrest⟩ := ih
    have hpiece : ∃ piece, segment.Covers mode piece := by
      cases segment with
      | literal text => exact ⟨text.toList, rfl⟩
      | anyChar => exact ⟨['a'], rfl⟩
      | anySequence => exact ⟨[], trivial⟩
    obtain ⟨piece, hpiece⟩ := hpiece
    exact ⟨piece ++ rest, .cons hpiece hrest⟩

/-- A wildcard covers any single character. -/
theorem covers_singleton {segment : Segment} (h : segment.isLiteral = false) (c : Char) :
    segment.Covers mode [c] := by
  cases segment with
  | literal text => cases h
  | anyChar => rfl
  | anySequence => trivial

/-- Segments without a wildcard match their own characters and nothing else. -/
theorem cut_literals_iff {segments : List Segment} (h : ∀ segment ∈ segments, segment.isLiteral)
    {text : List Char} : Cut .sensitive segments text ↔ text = segments.flatMap spelling := by
  induction segments generalizing text with
  | nil => exact cut_nil_iff
  | cons segment segments ih =>
    obtain ⟨hsegment, hsegments⟩ := List.forall_mem_cons.mp h
    have hkey : CaseMode.sensitive.key = id := rfl
    have hcovers : ∀ piece, segment.Covers .sensitive piece ↔ piece = segment.spelling := by
      intro piece
      cases segment with
      | literal own => simp [Covers, hkey, spelling]
      | anyChar | anySequence => cases hsegment
    rw [cut_cons_iff, List.flatMap_cons]
    simp only [hcovers, ih hsegments]
    constructor
    · rintro ⟨piece, rest, rfl, rfl, rfl⟩
      rfl
    · rintro rfl
      exact ⟨_, _, rfl, rfl, rfl⟩

end Segment

open Segment

namespace Pattern

variable {p : Pattern}

/-- The literal segments of the pattern, joined. -/
def spelling (p : Pattern) : String :=
  String.ofList (p.segments.flatMap Segment.spelling)

theorem isLiteral_iff : p.isLiteral = true ↔ ∀ segment ∈ p.segments, segment.isLiteral := by
  rw [isLiteral, List.all_eq_true]

/-- A pattern with a wildcard matches two texts at least. -/
theorem exists_two_texts (mode : CaseMode) (h : p.isLiteral = false) :
    ∃ text text', text ≠ text' ∧ p.Matches mode text ∧ p.Matches mode text' := by
  obtain ⟨wildcard, hmem, hwildcard⟩ := List.all_eq_false.mp h
  obtain ⟨front, back, hsegments⟩ := List.append_of_mem hmem
  obtain ⟨before, hbefore⟩ := exists_cut mode front
  obtain ⟨after, hafter⟩ := exists_cut mode back
  have hmatches : ∀ c, p.Matches mode (String.ofList (before ++ ([c] ++ after))) := by
    intro c
    rw [Matches, hsegments, String.toList_ofList]
    exact cut_append hbefore
      (.cons (covers_singleton (Bool.eq_false_iff.mpr hwildcard) c) hafter)
  refine ⟨_, _, ?_, hmatches 'a', hmatches 'b'⟩
  simp

/-- A pattern without a wildcard matches what its segments spell and nothing else. -/
theorem matches_iff_of_isLiteral (h : p.isLiteral = true) {text : String} :
    p.Matches .sensitive text ↔ text = p.spelling := by
  rw [Matches, cut_literals_iff (isLiteral_iff.mp h), spelling, ← String.toList_inj,
    String.toList_ofList]

theorem isLiteral_of_existsUnique {mode : CaseMode} (h : ∃! text, p.Matches mode text) :
    p.isLiteral = true := by
  by_contra hliteral
  obtain ⟨text, text', hne, htext, htext'⟩ :=
    exists_two_texts mode (Bool.eq_false_iff.mpr hliteral)
  exact hne (h.unique htext htext')

/-- For a pattern that is read from a text, `matchesEverything` tells whether it matches every text,
and `isLiteral` whether it matches exactly one, which is then spelled by its literal segments. -/
theorem tests_decide_texts (source : String) :
    (∀ mode, (parse source).matchesEverything = true ↔
        ∀ text, (parse source).matchesText mode text = true) ∧
      ((parse source).isLiteral = true ↔
        ∃! text, (parse source).matchesText .sensitive text = true) ∧
      ((parse source).isLiteral = true ↔
        ∀ text, (parse source).matchesText .sensitive text = true ↔
          text = (parse source).spelling) := by
  simp only [matchesText_iff]
  have hunique : (∀ text, (parse source).Matches .sensitive text ↔
      text = (parse source).spelling) → ∃! text, (parse source).Matches .sensitive text :=
    fun h => ⟨_, (h _).mpr rfl, fun text => (h text).mp⟩
  refine ⟨fun mode => matchesEverything_ofSegments_iff, ⟨fun h => ?_, isLiteral_of_existsUnique⟩,
    ⟨fun h text => matches_iff_of_isLiteral h, fun h => ?_⟩⟩
  · exact hunique fun text => matches_iff_of_isLiteral h
  · exact isLiteral_of_existsUnique (hunique h)

end Pattern

end ChannelDirectory

import ChannelDirectory.Proofs.Pattern.Meaning

/-!
# Reading a pattern text

A pattern text can be read in two ways. Matched directly, character by character, it is
`Pattern.Describes` : a recursion on the pattern text that uses up the other text. Cut into units,
it is `Segment.Reads` : a wildcard, a backslash with the character after it, and any number of plain
characters at once are a unit each, and so is a backslash that is left over at the end.

`Pattern.parse` agrees with both. However long the units are, the segments they stand for make the
same pattern (`Segment.Reads.normalize_eq`), and what the units say about single characters is all
there in it (`Segment.places_normalize`).
-/

namespace ChannelDirectory

/-- The pattern text, read from its first character on, matches the other text as a whole, with
every character as it is. -/
def Pattern.Describes : List Char → List Char → Prop
  | [], text => text = []
  | '*' :: pattern, text => ∃ skipped rest, text = skipped ++ rest ∧ Describes pattern rest
  | '?' :: pattern, text => ∃ c rest, text = c :: rest ∧ Describes pattern rest
  | ['\\'], text => text = ['\\']
  | '\\' :: c :: pattern, text => ∃ rest, text = c :: rest ∧ Describes pattern rest
  | c :: pattern, text => ∃ rest, text = c :: rest ∧ Describes pattern rest

namespace Segment

/-- The pattern text consists of units that stand for these segments, one after another. -/
inductive Reads : List Char → List Segment → Prop where
  | nil : Reads [] []
  | sequence {pattern : List Char} {segments : List Segment} :
      Reads pattern segments → Reads ('*' :: pattern) (anySequence :: segments)
  | single {pattern : List Char} {segments : List Segment} :
      Reads pattern segments → Reads ('?' :: pattern) (anyChar :: segments)
  | escaped {pattern : List Char} {segments : List Segment} (c : Char) :
      Reads pattern segments →
        Reads ('\\' :: c :: pattern) (literal (String.singleton c) :: segments)
  | plain {pattern : List Char} {segments : List Segment} (run : List Char) :
      (∀ c ∈ run, isSpecial c = false) → Reads pattern segments →
        Reads (run ++ pattern) (literal (String.ofList run) :: segments)
  | dangling : Reads ['\\'] [literal "\\"]

/-- What a segment asks of single characters : a literal for each of its own, and `?` for any
one. -/
def places : Segment → List (Option Char)
  | literal text => text.toList.map some
  | anyChar => [none]
  | anySequence => []

/-! ## Units -/

theorem ofChars_plain {c : Char} (h : isSpecial c = false) (pattern : List Char) :
    ofChars (c :: pattern) = literal (String.singleton c) :: ofChars pattern := by
  have hne : ∀ d, isSpecial d = true → c ≠ d := by
    rintro d hd rfl
    rw [h] at hd
    cases hd
  rw [ofChars]
  · exact fun hc => absurd hc (hne '\\' (by decide))
  · exact fun _ _ hc => absurd hc (hne '\\' (by decide))
  · exact hne '*' (by decide)
  · exact hne '?' (by decide)

/-- A character that is read as itself is a plain one. -/
theorem isSpecial_eq_false {c : Char} {pattern : List Char} (hdangling : c = '\\' → pattern ≠ [])
    (hescaped : ∀ d rest, c = '\\' → pattern ≠ d :: rest) (hstar : c ≠ '*') (hquestion : c ≠ '?') :
    isSpecial c = false := by
  have hbackslash : c ≠ '\\' := by
    intro hc
    obtain ⟨d, rest, hpattern⟩ := List.exists_cons_of_ne_nil (hdangling hc)
    exact hescaped d rest hc hpattern
  simp [isSpecial, hstar, hquestion, hbackslash]

/-- Every pattern text can be cut into units. -/
theorem reads_ofChars (pattern : List Char) : Reads pattern (ofChars pattern) := by
  induction pattern using ofChars.induct with
  | case1 => exact .nil
  | case2 => exact .dangling
  | case3 c pattern ih => exact .escaped c ih
  | case4 pattern ih => exact .sequence ih
  | case5 pattern ih => exact .single ih
  | case6 c pattern hdangling hescaped hstar hquestion ih =>
    have hplain := isSpecial_eq_false hdangling hescaped hstar hquestion
    rw [ofChars_plain hplain]
    exact .plain [c] (by simpa using hplain) ih

theorem normalize_cons (segment : Segment) (segments : List Segment) :
    normalize (segment :: segments) = prepend segment (normalize segments) :=
  rfl

theorem prepend_empty (segments : List Segment) : prepend (literal "") segments = segments :=
  rfl

/-- A literal may be put in front in two steps. -/
theorem prepend_literal_append (first second : String) (segments : List Segment) :
    prepend (literal (first ++ second)) segments =
      prepend (literal first) (prepend (literal second) segments) := by
  by_cases hfirst : first = ""
  · subst hfirst
    rw [String.empty_append, prepend_empty]
  by_cases hsecond : second = ""
  · subst hsecond
    rw [String.append_empty, prepend_empty]
  cases segments with
  | nil => simp [prepend, hfirst, hsecond]
  | cons segment segments => cases segment <;> simp [prepend, hfirst, hsecond, String.append_assoc]

/-- Plain characters that are taken at once make the same pattern as one by one. -/
theorem normalize_plain {run : List Char} (h : ∀ c ∈ run, isSpecial c = false)
    (pattern : List Char) :
    normalize (ofChars (run ++ pattern)) =
      prepend (literal (String.ofList run)) (normalize (ofChars pattern)) := by
  induction run with
  | nil => rfl
  | cons c run ih =>
    obtain ⟨hc, hrun⟩ := List.forall_mem_cons.mp h
    rw [List.cons_append, ofChars_plain hc, normalize_cons, ih hrun, ← prepend_literal_append,
      String.singleton_eq_ofList, ← String.ofList_append, List.singleton_append]

/-- However a pattern text is cut into units, they make one pattern. -/
theorem Reads.normalize_eq {pattern : List Char} {segments : List Segment}
    (h : Reads pattern segments) : normalize segments = normalize (ofChars pattern) := by
  induction h with
  | nil | dangling => rfl
  | sequence _ ih => rw [normalize_cons, ih, ofChars, normalize_cons]
  | single _ ih => rw [normalize_cons, ih, ofChars, normalize_cons]
  | escaped c _ ih => rw [normalize_cons, ih, ofChars, normalize_cons]
  | plain run hrun _ ih => rw [normalize_cons, ih, normalize_plain hrun]

theorem places_prepend (segment : Segment) (segments : List Segment) :
    (prepend segment segments).flatMap places = (segment :: segments).flatMap places := by
  fun_cases prepend segment segments with
  | case1 => rfl
  | case2 text _ next segments => simp [places]
  | case3 => rfl
  | case4 => rfl
  | case5 => rfl

/-- The normal form asks the same of single characters. -/
theorem places_normalize (segments : List Segment) :
    (normalize segments).flatMap places = segments.flatMap places := by
  induction segments with
  | nil => rfl
  | cons segment segments ih =>
    rw [normalize_cons, places_prepend, List.flatMap_cons, ih, List.flatMap_cons]

/-! ## Characters -/

/-- A character is matched by itself only. -/
theorem cut_character_iff {c : Char} {segments : List Segment} {text : List Char} :
    Cut .sensitive (literal (String.singleton c) :: segments) text ↔
      ∃ rest, text = c :: rest ∧ Cut .sensitive segments rest := by
  rw [cut_singleton_iff]
  constructor
  · rintro ⟨d, rest, rfl, rfl, hrest⟩
    exact ⟨rest, rfl, hrest⟩
  · rintro ⟨rest, rfl, hrest⟩
    exact ⟨c, rest, rfl, rfl, hrest⟩

/-- The segments of a pattern text match what it describes. -/
theorem cut_ofChars_iff_describes {pattern text : List Char} :
    Cut .sensitive (ofChars pattern) text ↔ Pattern.Describes pattern text := by
  induction pattern using ofChars.induct generalizing text with
  | case1 => exact cut_nil_iff
  | case2 =>
    rw [ofChars, show ("\\" : String) = String.singleton '\\' from rfl, cut_character_iff,
      Pattern.Describes]
    simp [cut_nil_iff]
  | case3 c pattern ih =>
    rw [ofChars, cut_character_iff, Pattern.Describes]
    simp only [ih]
  | case4 pattern ih =>
    rw [ofChars, cut_cons_iff, Pattern.Describes]
    simp [Covers, ih]
  | case5 pattern ih =>
    rw [ofChars, cut_anyChar_iff, Pattern.Describes]
    simp only [ih]
  | case6 c pattern hdangling hescaped hstar hquestion ih =>
    rw [ofChars.eq_6 _ _ hdangling hescaped hstar hquestion, cut_character_iff,
      Pattern.Describes.eq_6 _ _ _ hstar hquestion hdangling hescaped]
    simp only [ih]

end Segment

namespace Pattern

open Segment

/-- A pattern text means what it says character by character. Its pattern matches exactly the texts
that it describes ; there is always a way to cut it into units, and every one leads to this pattern,
in which each plain or escaped character and each `?` has its place, once and in order. -/
theorem matches_parse_iff_describes (pattern text : String) :
    ((parse pattern).matchesText .sensitive text = true ↔
        Describes pattern.toList text.toList) ∧
      (∃ segments, Reads pattern.toList segments) ∧
      ∀ segments, Reads pattern.toList segments →
        parse pattern = ofSegments segments ∧
          (parse pattern).segments.flatMap places = segments.flatMap places := by
  refine ⟨?_, ⟨_, reads_ofChars _⟩, fun segments h => ?_⟩
  · rw [matchesText_iff, Matches, parse, ofSegments, cut_normalize_iff, cut_ofChars_iff_describes]
  · have hparse : parse pattern = ofSegments segments := by
      rw [parse, ofSegments, ofSegments, h.normalize_eq]
    rw [hparse, ofSegments, places_normalize]
    exact ⟨rfl, rfl⟩

/-- An escaped backslash before a star, a run that is taken at once, an escaped star after it, and a
backslash that is left over. -/
theorem matches_parse_dangling :
    Reads "\\\\*ab\\*\\".toList
        [.literal "\\", .anySequence, .literal "ab", .literal "*", .literal "\\"] ∧
      parse "\\\\*ab\\*\\" = ⟨[.literal "\\", .anySequence, .literal "ab*\\"]⟩ ∧
      (parse "\\\\*ab\\*\\").matchesText .sensitive "\\xyab*\\" = true := by
  have hreads : Reads "\\\\*ab\\*\\".toList
      [.literal "\\", .anySequence, .literal "ab", .literal "*", .literal "\\"] :=
    .escaped '\\' (.sequence (.plain ['a', 'b'] (by simp [isSpecial]) (.escaped '*' .dangling)))
  obtain ⟨hmatches, -, hparse⟩ := matches_parse_iff_describes "\\\\*ab\\*\\" "\\xyab*\\"
  refine ⟨hreads, (hparse _ hreads).1.trans (by decide), hmatches.mpr ?_⟩
  exact ⟨_, rfl, ['x', 'y'], _, rfl, _, rfl, _, rfl, _, rfl, rfl⟩

end Pattern

end ChannelDirectory

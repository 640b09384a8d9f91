import ChannelDirectory.Proofs.Pattern.Display

/-!
# Wildcards in order

A `*` and a `?` beside it may change places : both orders match the texts with at least one
character there (`Mark.fits_many_one_iff`). `Pattern.arranged` puts every run of wildcards in one
order, first each `?` and then a single `*`, and keeps what the pattern matches
(`Pattern.matches_arranged_iff`). The patterns that are arranged already are those in which no `*`
stands before a wildcard (`Pattern.arranged_eq_self_iff`).

It is done mark by mark, from the end (`Mark.push`).
-/

namespace ChannelDirectory

namespace Mark

open Segment (Cut cut_nil_iff cut_cons_iff cut_character_iff cut_anyChar_iff)

/-- The marks match the text, with every character as it is. -/
def Fits (marks : List Mark) (text : List Char) : Prop :=
  Cut .sensitive (marks.map segment) text

/-- Puts a mark in front of marks, with a `*` behind the `?` that it meets. -/
def push : Mark → List Mark → List Mark
  | many, one :: marks => one :: push many marks
  | many, many :: marks => many :: marks
  | mark, marks => mark :: marks

theorem push_char (c : Char) (marks : List Mark) : push (char c) marks = char c :: marks := by
  cases marks <;> rfl

theorem push_one (marks : List Mark) : push one marks = one :: marks := by
  cases marks <;> rfl

theorem push_many_char (c : Char) (marks : List Mark) :
    push many (char c :: marks) = many :: char c :: marks :=
  rfl

/-- The marks with every run of wildcards in order, first each `?` and then a single `*`. -/
def arrange (marks : List Mark) : List Mark :=
  marks.foldr push []

theorem arrange_cons (mark : Mark) (marks : List Mark) :
    arrange (mark :: marks) = push mark (arrange marks) :=
  rfl

/-- No `*` stands before a wildcard. -/
inductive Arranged : List Mark → Prop where
  | nil : Arranged []
  | char {marks : List Mark} (c : Char) : Arranged marks → Arranged (.char c :: marks)
  | one {marks : List Mark} : Arranged marks → Arranged (.one :: marks)
  | last : Arranged [.many]
  | many {marks : List Mark} {c : Char} :
      Arranged (.char c :: marks) → Arranged (.many :: .char c :: marks)

variable {marks marks' : List Mark} {text : List Char} {c : Char}

/-! ## Texts -/

theorem fits_nil_iff : Fits [] text ↔ text = [] :=
  cut_nil_iff

theorem fits_char_iff : Fits (char c :: marks) text ↔ ∃ rest, text = c :: rest ∧ Fits marks rest :=
  cut_character_iff

theorem fits_one_iff : Fits (one :: marks) text ↔ ∃ d rest, text = d :: rest ∧ Fits marks rest :=
  cut_anyChar_iff

theorem fits_many_iff :
    Fits (many :: marks) text ↔ ∃ skipped rest, text = skipped ++ rest ∧ Fits marks rest := by
  rw [Fits, List.map_cons, cut_cons_iff]
  simp only [segment, Segment.Covers, true_and]
  rfl

/-- A `*` may be skipped. -/
theorem Fits.many (h : Fits marks text) : Fits (.many :: marks) text :=
  fits_many_iff.mpr ⟨[], text, rfl, h⟩

/-- Marks that fit the same texts still do with the same mark in front. -/
theorem fits_cons_congr (h : ∀ text, Fits marks text ↔ Fits marks' text)
    (mark : Mark) : Fits (mark :: marks) text ↔ Fits (mark :: marks') text := by
  simp only [Fits, List.map_cons, cut_cons_iff]
  exact exists₂_congr fun piece rest => and_congr_right fun _ => and_congr_right fun _ => h rest

/-- A `*` and a `?` may change places. -/
theorem fits_many_one_iff :
    Fits (many :: one :: marks) text ↔ Fits (one :: many :: marks) text := by
  simp only [fits_many_iff, fits_one_iff]
  constructor
  · rintro ⟨skipped, _, rfl, d, rest, rfl, hrest⟩
    cases skipped with
    | nil => exact ⟨d, rest, rfl, [], rest, rfl, hrest⟩
    | cons e skipped => exact ⟨e, _, rfl, skipped ++ [d], rest, by simp, hrest⟩
  · rintro ⟨d, _, rfl, skipped, rest, rfl, hrest⟩
    cases skipped using List.reverseRecOn with
    | nil => exact ⟨[], _, rfl, d, rest, rfl, hrest⟩
    | append_singleton skipped e => exact ⟨d :: skipped, e :: rest, by simp, e, rest, rfl, hrest⟩

/-- Two stars beside each other fit what one fits. -/
theorem fits_many_many_iff : Fits (many :: many :: marks) text ↔ Fits (many :: marks) text :=
  Segment.cut_anySequence_twice_iff

/-- Moving a mark to its place does not change what fits. -/
theorem fits_push_iff (mark : Mark) : Fits (push mark marks) text ↔ Fits (mark :: marks) text := by
  fun_induction push mark marks generalizing text with
  | case1 marks ih => rw [fits_many_one_iff, fits_cons_congr (fun _ => ih)]
  | case2 => exact fits_many_many_iff.symm
  | case3 => rfl

/-- Arranging the marks does not change what fits. -/
theorem fits_arrange_iff : Fits (arrange marks) text ↔ Fits marks text := by
  induction marks generalizing text with
  | nil => rfl
  | cons mark marks ih => rw [arrange_cons, fits_push_iff, fits_cons_congr fun _ => ih]

/-- A mark that is moved to its place leaves the marks arranged. -/
theorem Arranged.push (h : Arranged marks) (mark : Mark) : Arranged (mark.push marks) := by
  fun_induction Mark.push mark marks with
  | case1 marks ih =>
    cases h with
    | one h => exact .one (ih h)
  | case2 => exact h
  | case3 mark marks hone hmany =>
    cases mark with
    | char c => exact .char c h
    | one => exact .one h
    | many =>
      cases h with
      | nil => exact .last
      | char c h => exact .many (.char c h)
      | one _ => exact absurd rfl (hone _ rfl)
      | _ => exact absurd rfl (hmany _ rfl)

theorem Arranged.tail {mark : Mark} (h : Arranged (mark :: marks)) : Arranged marks := by
  cases h with
  | char _ h | one h | many h => exact h
  | last => exact .nil

/-- The end of arranged marks is arranged. -/
theorem Arranged.of_append (h : Arranged (marks ++ marks')) : Arranged marks' := by
  induction marks with
  | nil => exact h
  | cons mark marks ih => exact ih h.tail

/-- Arranging the marks leaves them arranged. -/
theorem arranged_arrange (marks : List Mark) : Arranged (arrange marks) := by
  induction marks with
  | nil => exact .nil
  | cons mark marks ih => exact ih.push mark

/-- Arranged marks have nothing to move. -/
theorem Arranged.arrange_eq (h : Arranged marks) : arrange marks = marks := by
  induction h with
  | nil | last => rfl
  | char c _ ih => rw [arrange_cons, ih, push_char]
  | one _ ih => rw [arrange_cons, ih, push_one]
  | many _ ih => rw [arrange_cons, ih, push_many_char]

end Mark

namespace Segment

/-- A character in front of segments begins their first literal or makes a new one. -/
theorem exists_prepend_character (c : Char) (segments : List Segment) :
    ∃ text rest, prepend (literal (String.singleton c)) segments = literal text :: rest ∧
      (literal text :: rest).flatMap marks = .char c :: segments.flatMap marks := by
  have hne : String.singleton c ≠ "" := by simp
  cases segments with
  | nil => exact ⟨String.singleton c, [], if_neg hne, by simp [marks]⟩
  | cons segment segments =>
    cases segment with
    | literal next => exact ⟨String.singleton c ++ next, segments, if_neg hne, by simp [marks]⟩
    | anyChar | anySequence => exact ⟨String.singleton c, _, if_neg hne, by simp [marks]⟩

/-- Arranged marks are those of the segments that they make. -/
theorem marks_normalize {ms : List Mark} (h : Mark.Arranged ms) :
    (normalize (ms.map Mark.segment)).flatMap marks = ms := by
  induction h with
  | nil | last => rfl
  | @char ms c _ ih =>
    obtain ⟨text, rest, heq, hmarks⟩ :=
      exists_prepend_character c (normalize (ms.map Mark.segment))
    rw [List.map_cons, normalize_cons, Mark.segment, heq, hmarks, ih]
  | @one ms _ ih =>
    rw [List.map_cons, normalize_cons]
    exact congrArg (Mark.one :: ·) ih
  | @many ms c _ ih =>
    obtain ⟨text, rest, heq, -⟩ := exists_prepend_character c (normalize (ms.map Mark.segment))
    rw [List.map_cons, normalize_cons, Mark.segment, heq] at ih
    rw [List.map_cons, normalize_cons, List.map_cons, normalize_cons, Mark.segment, Mark.segment,
      heq]
    exact congrArg (Mark.many :: ·) ih

end Segment

open Segment

namespace Pattern

variable {p : Pattern} {text : String}

/-- The marks of all segments. -/
def marks (p : Pattern) : List Mark :=
  p.segments.flatMap Segment.marks

/-- The pattern with every run of wildcards in order. -/
def arranged (p : Pattern) : Pattern :=
  ofSegments ((Mark.arrange p.marks).map Mark.segment)

/-- A pattern matches a text if its marks fit it. -/
theorem matches_iff_fits : p.Matches .sensitive text ↔ Mark.Fits p.marks text.toList := by
  rw [Matches, Mark.Fits, marks, ← cut_normalize_iff, ← normalize_marks, cut_normalize_iff]

/-- The order of wildcards does not count. -/
theorem matches_arranged_iff : p.arranged.Matches .sensitive text ↔ p.Matches .sensitive text := by
  have hfits : p.arranged.Matches .sensitive text ↔
      Mark.Fits (Mark.arrange p.marks) text.toList := by
    rw [Matches, arranged, ofSegments, cut_normalize_iff, Mark.Fits]
  rw [hfits, Mark.fits_arrange_iff, matches_iff_fits]

/-- A pattern in normal form is arranged already exactly if no `*` of it stands before a
wildcard. -/
theorem arranged_eq_self_iff {segments : List Segment} :
    (ofSegments segments).arranged = ofSegments segments ↔
      Mark.Arranged (ofSegments segments).marks := by
  constructor
  · intro h
    have hmarks : (ofSegments segments).arranged.marks = Mark.arrange (ofSegments segments).marks :=
      marks_normalize (Mark.arranged_arrange _)
    rw [← h, hmarks]
    exact Mark.arranged_arrange _
  · intro h
    rw [arranged, h.arrange_eq, marks, ofSegments, ofSegments, normalize_marks, normalize_normalize]

end Pattern

end ChannelDirectory

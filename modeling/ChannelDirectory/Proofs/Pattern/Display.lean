import ChannelDirectory.Proofs.Pattern.Reading

/-!
# Writing a pattern

`Pattern.display` writes the segments one after another and a backslash before each character of a
literal that would be read as something else. Reading it gives the pattern back, whatever the
segments are, up to their normal form (`Pattern.parse_display`).

In between stand the marks of a pattern, one for each character of a literal and one for each
wildcard. The text of a pattern is cut into units that stand for its marks
(`Segment.reads_display`), and the marks of segments have the normal form of the segments
(`Segment.normalize_marks`). A literal is taken apart by the one and put together again by the
other, whatever wildcard stands beside it.
-/

namespace ChannelDirectory

/-- What a pattern says of one place of a text : a character, any character, or anything. -/
inductive Mark where
  | char (c : Char)
  | one
  | many
  deriving DecidableEq

/-- The mark as a segment. -/
def Mark.segment : Mark → Segment
  | char c => .literal (String.singleton c)
  | one => .anyChar
  | many => .anySequence

/-- The text with a backslash before each character that the test holds of. -/
def escapeChars (test : Char → Bool) (text : List Char) : List Char :=
  text.flatMap fun c => if test c then ['\\', c] else [c]

theorem escapeChars_cons (test : Char → Bool) (c : Char) (cs : List Char) :
    escapeChars test (c :: cs) = (if test c then ['\\', c] else [c]) ++ escapeChars test cs :=
  List.flatMap_cons

namespace Segment

/-- The marks of a segment. -/
def marks : Segment → List Mark
  | literal text => text.toList.map .char
  | anyChar => [.one]
  | anySequence => [.many]

/-! ## Normal form -/

/-- Characters that are put in front one by one make one literal. -/
theorem foldr_prepend_chars (cs : List Char) (segments : List Segment) :
    ((cs.map Mark.char).map Mark.segment).foldr prepend segments =
      prepend (literal (String.ofList cs)) segments := by
  induction cs with
  | nil => rfl
  | cons c cs ih =>
    rw [List.map_cons, List.map_cons, List.foldr_cons, ih, Mark.segment, ← prepend_literal_append,
      String.singleton_eq_ofList, ← String.ofList_append, List.singleton_append]

/-- Segments and their marks are the same pattern. -/
theorem normalize_marks (segments : List Segment) :
    normalize ((segments.flatMap marks).map Mark.segment) = normalize segments := by
  induction segments with
  | nil => rfl
  | cons segment segments ih =>
    rw [normalize_cons, ← ih, List.flatMap_cons, List.map_append, normalize, List.foldr_append,
      ← normalize]
    cases segment with
    | literal text => rw [marks, foldr_prepend_chars, String.ofList_toList]
    | anyChar | anySequence => rfl

/-- Segments in normal form stay so when another one is put in front. -/
theorem normalize_prepend {segments : List Segment} (h : normalize segments = segments)
    (segment : Segment) : normalize (prepend segment segments) = prepend segment segments := by
  fun_cases prepend segment segments with
  | case1 => exact h
  | case2 text htext next segments =>
    rw [normalize_cons, prepend_literal_append, ← normalize_cons, h, prepend, if_neg htext]
  | case3 text htext segments hother =>
    rw [normalize_cons, h, prepend.eq_2 _ _ hother, if_neg htext]
  | case4 => exact h
  | case5 segment segments hliteral hsequence =>
    rw [normalize_cons, h, prepend.eq_4 _ _ hliteral hsequence]

/-- The normal form of segments in normal form is the same. -/
theorem normalize_normalize (segments : List Segment) :
    normalize (normalize segments) = normalize segments := by
  induction segments with
  | nil => rfl
  | cons segment segments ih => rw [normalize_cons, normalize_prepend ih]

/-! ## Units -/

/-- An escaped text is cut into its characters. -/
theorem reads_escapeChars (text : List Char) {pattern : List Char} {segments : List Segment}
    (h : Reads pattern segments) :
    Reads (escapeChars isSpecial text ++ pattern)
      ((text.map Mark.char).map Mark.segment ++ segments) := by
  induction text with
  | nil => exact h
  | cons c text ih =>
    rw [escapeChars_cons]
    cases hspecial : isSpecial c with
    | true => exact .escaped c ih
    | false => exact .plain [c] (by simpa using hspecial) ih

/-- The text of segments is cut into units, one for each of their marks. -/
theorem reads_display (segments : List Segment) :
    Reads (segments.flatMap chars) ((segments.flatMap marks).map Mark.segment) := by
  induction segments with
  | nil => exact .nil
  | cons segment segments ih =>
    rw [List.flatMap_cons, List.flatMap_cons, List.map_append]
    cases segment with
    | literal text => exact reads_escapeChars text.toList ih
    | anyChar => exact .single ih
    | anySequence => exact .sequence ih

end Segment

open Segment

namespace Pattern

/-- What is written for a pattern is read as the pattern of its segments. -/
theorem parse_display (p : Pattern) : parse p.display = ofSegments p.segments := by
  rw [parse, display, String.toList_ofList, ofSegments, ← (reads_display p.segments).normalize_eq,
    normalize_marks, ofSegments]

/-- Patterns in normal form are written and read without loss, and so are those that are read from
a text or match one text. -/
theorem parse_display_ofSegments :
    (∀ segments, parse (ofSegments segments).display = ofSegments segments) ∧
      (∀ text, parse (parse text).display = parse text) ∧
      ∀ text, parse (literal text).display = literal text := by
  have hsegments : ∀ segments, parse (ofSegments segments).display = ofSegments segments := by
    intro segments
    rw [parse_display, ofSegments, ofSegments, normalize_normalize]
  exact ⟨hsegments, fun _ => hsegments _, fun _ => hsegments _⟩

/-- A star of a literal before a wildcard, and a backslash after one. -/
example : (ofSegments [.literal "a*", .anySequence, .literal "", .anySequence, .literal "\\",
    .anyChar]).display = "a\\**\\\\?" := by decide

end Pattern

end ChannelDirectory

import ChannelDirectory.Pattern
import ChannelDirectory.Text.CaseFold

/-!
# Which texts a pattern matches

`Pattern.Matches` is the meaning of a pattern: the text can be cut into consecutive pieces,
one for each segment, such that a literal's piece equals the literal, the piece of `?` is
one character and the piece of `*` is anything. Without regard to case, "equals" means
that the characters have the same simple case folding.

`Pattern.matchesText` decides it. The segments are taken one after another, together with
the list of all rests of the text that can be left after the segments so far, longest
first. After a `*` these are all ends of the longest one, so the list never holds more
rests than the text has characters, and a pattern with many wildcards takes no longer than
its length times that of the text.
-/

namespace ChannelDirectory

/-- How characters are compared. -/
inductive CaseMode where
  | sensitive
  | insensitive
  deriving DecidableEq, Repr

/-- The character that stands for a character's class. -/
def CaseMode.key : CaseMode → Char → Char
  | .sensitive, c => c
  | .insensitive, c => Text.foldCase c

namespace Segment

/-- The piece of a text that a segment covers. -/
def Covers (mode : CaseMode) : Segment → List Char → Prop
  | .literal text, piece => piece.map mode.key = text.toList.map mode.key
  | .anyChar, piece => piece.length = 1
  | .anySequence, _ => True

/-- The text after a literal at its front. -/
def dropLiteral? (mode : CaseMode) : List Char → List Char → Option (List Char)
  | [], rest => some rest
  | _ :: _, [] => none
  | c :: cs, d :: rest =>
    if mode.key c = mode.key d then dropLiteral? mode cs rest else none

/-- All ends of a text, longest first. -/
def ends : List Char → List (List Char)
  | [] => [[]]
  | c :: cs => (c :: cs) :: ends cs

/-- What can be left after a segment, given what can be left before it, longest first. -/
def advance (mode : CaseMode) : Segment → List (List Char) → List (List Char)
  | .literal text, rests => rests.filterMap (dropLiteral? mode text.toList)
  | .anyChar, rests => rests.filterMap List.tail?
  | .anySequence, [] => []
  | .anySequence, longest :: _ => ends longest

/-- A text is cut into consecutive pieces that the segments cover, one each and in order. -/
inductive Cut (mode : CaseMode) : List Segment → List Char → Prop where
  | nil : Cut mode [] []
  | cons {segment : Segment} {segments : List Segment} {piece rest : List Char} :
      segment.Covers mode piece → Cut mode segments rest →
        Cut mode (segment :: segments) (piece ++ rest)

end Segment

namespace Pattern

/-- The text can be cut into pieces that the segments of the pattern cover. -/
def Matches (mode : CaseMode) (p : Pattern) (text : String) : Prop :=
  Segment.Cut mode p.segments text.toList

/-- What can be left of a text after the segments, longest first. -/
def rests (mode : CaseMode) (segments : List Segment) (text : List Char) : List (List Char) :=
  segments.foldl (fun rests segment => segment.advance mode rests) [text]

/-- The pattern matches the whole text. -/
def matchesText (mode : CaseMode) (p : Pattern) (text : String) : Bool :=
  (rests mode p.segments text.toList).contains []

end Pattern

end ChannelDirectory

/-!
# Wildcard patterns

A pattern is a list of segments: literal text, `?` for one character and `*` for any
number of them. `Pattern.parse` reads a pattern text, in which a backslash makes the next
character literal, and `Pattern.display` writes one.

Patterns are built in a normal form (`Pattern.ofSegments`): no empty literal, no two
literals in a row and no two `*` in a row.
-/

namespace ChannelDirectory

/-- A piece of a wildcard pattern. -/
inductive Segment where
  /-- These characters. -/
  | literal (text : String)
  /-- Exactly one character. -/
  | anyChar
  /-- Any number of characters. -/
  | anySequence
  deriving DecidableEq, Repr

namespace Segment

/-- The segment holds no wildcard. -/
def isLiteral : Segment → Bool
  | literal _ => true
  | _ => false

/-- Puts a segment before segments in normal form, keeping the normal form. -/
def prepend : Segment → List Segment → List Segment
  | literal text, segments =>
    if text = "" then segments
    else match segments with
      | literal next :: segments => literal (text ++ next) :: segments
      | segments => literal text :: segments
  | anySequence, anySequence :: segments => anySequence :: segments
  | segment, segments => segment :: segments

/-- The segments in normal form. -/
def normalize (segments : List Segment) : List Segment :=
  segments.foldr prepend []

/-- One segment for each character of a pattern text, or for a character and the backslash
before it. A backslash at the end of the text is a literal. -/
def ofChars : List Char → List Segment
  | [] => []
  | ['\\'] => [literal "\\"]
  | '\\' :: c :: cs => literal (String.singleton c) :: ofChars cs
  | '*' :: cs => anySequence :: ofChars cs
  | '?' :: cs => anyChar :: ofChars cs
  | c :: cs => literal (String.singleton c) :: ofChars cs

/-- The character has a meaning of its own in a pattern text. -/
def isSpecial (c : Char) : Bool :=
  c == '*' || c == '?' || c == '\\'

/-- The pattern text of a segment. -/
def chars : Segment → List Char
  | literal text => text.toList.flatMap fun c => if isSpecial c then ['\\', c] else [c]
  | anyChar => ['?']
  | anySequence => ['*']

end Segment

/-- A wildcard pattern. -/
structure Pattern where
  segments : List Segment
  deriving DecidableEq, Repr

namespace Pattern

/-- The pattern with these segments, in normal form. -/
def ofSegments (segments : List Segment) : Pattern :=
  ⟨Segment.normalize segments⟩

/-- The pattern that a text stands for. -/
def parse (text : String) : Pattern :=
  ofSegments (Segment.ofChars text.toList)

/-- The pattern that matches a text and nothing else. -/
def literal (text : String) : Pattern :=
  ofSegments [.literal text]

/-- The pattern that matches every text. -/
def any : Pattern :=
  ⟨[.anySequence]⟩

/-- The text that stands for the pattern. -/
def display (p : Pattern) : String :=
  String.ofList (p.segments.flatMap Segment.chars)

/-- The pattern is a single `*`. -/
def matchesEverything (p : Pattern) : Bool :=
  p.segments = [.anySequence]

/-- The pattern holds no wildcard. -/
def isLiteral (p : Pattern) : Bool :=
  p.segments.all Segment.isLiteral

end Pattern

end ChannelDirectory

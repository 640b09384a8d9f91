/-!
# Characters of YAML texts

The characters that may stand in a YAML text, and the classes in which its rules are said.
`unifyBreaks` writes every end of a line as `\n`, so that the readers meet one kind of it.
The line and paragraph separators also end a line, but stay what they are, because they
come back in the text of a scalar.
-/

namespace ChannelDirectory.Yaml

/-- The character may stand in a YAML text. Controls may not, save the tab and the ends of
lines. -/
def isAllowed (c : Char) : Bool :=
  let n := c.toNat
  n == 0x09 || n == 0x0A || n == 0x0D || (0x20 ≤ n && n ≤ 0x7E) || n == 0x85 ||
    (0xA0 ≤ n && n ≤ 0xFFFD) || 0x10000 ≤ n

/-- Writes the ends of lines as `\n`. -/
def unifyBreaks : List Char → List Char
  | '\r' :: '\n' :: cs => '\n' :: unifyBreaks cs
  | '\r' :: cs => '\n' :: unifyBreaks cs
  | '\u0085' :: cs => '\n' :: unifyBreaks cs
  | c :: cs => c :: unifyBreaks cs
  | [] => []

/-- A blank within a line. -/
def isBlank (c : Char) : Bool :=
  c == ' ' || c == '\t'

/-- A line ends here. -/
def isBreak (c : Char) : Bool :=
  c == '\n' || c == '\u2028' || c == '\u2029'

/-- A letter, a digit, `_` or `-`. -/
def isWordChar (c : Char) : Bool :=
  c.isAlphanum || c == '_' || c == '-'

/-- The character has a meaning of its own inside brackets and braces. -/
def isFlowMark (c : Char) : Bool :=
  c == ',' || c == '[' || c == ']' || c == '{' || c == '}'

/-- A line ends at the front of a text. -/
def atBreak : List Char → Bool
  | c :: _ => isBreak c
  | [] => false

/-- A blank, the end of a line or the end of the text comes next. -/
def endsWord : List Char → Bool
  | c :: _ => isBlank c || isBreak c
  | [] => true

/-- Three times the character, as a word of its own. -/
def isTriple (mark : Char) : List Char → Bool
  | a :: b :: c :: cs => a == mark && b == mark && c == mark && endsWord cs
  | _ => false

/-- A document begins or ends here, if this is the start of a line. -/
def atDocumentMark (cs : List Char) : Bool :=
  isTriple '-' cs || isTriple '.' cs

/-- The text from the end of the line on. -/
def dropLine (cs : List Char) : List Char :=
  cs.dropWhile fun c => !isBreak c

/-- The text after the end of a line on which only blanks and a comment are left. -/
def finishLine? (cs : List Char) : Option (List Char) :=
  let cs := cs.dropWhile isBlank
  let cs := if cs.head? == some '#' then dropLine cs else cs
  match cs with
  | [] => some []
  | c :: rest => if isBreak c then some rest else none

/-- The line ends at the front of a text, passing over the blanks between and after them,
then the column of the first other character, and the text from there. The text begins in
the given column. `none` if a tab stands left of the column `indent`. -/
def takeBreaks? (indent column : Nat) : List Char → Option (List Char × Nat × List Char)
  | [] => some ([], column, [])
  | c :: cs =>
    if isBlank c then
      if c == '\t' && column < indent then none else takeBreaks? indent (column + 1) cs
    else if isBreak c then
      (takeBreaks? indent 0 cs).map fun (breaks, column, rest) => (c :: breaks, column, rest)
    else some ([], column, c :: cs)

/-- What line ends inside a scalar stand for: a single one for a blank, several for one
fewer. A separator as the first of them keeps them all. -/
def foldBreaks : List Char → List Char
  | ['\n'] => [' ']
  | '\n' :: breaks => breaks
  | breaks => breaks

/-- Where a character stands in a text. -/
structure Position where
  /-- How many bytes stand before it. -/
  index : Nat := 0
  line : Nat := 0
  column : Nat := 0
  deriving DecidableEq, Repr

/-- The position after a character. -/
def Position.pass (p : Position) (c : Char) : Position :=
  if isBreak c then ⟨p.index + c.utf8Size, p.line + 1, 0⟩
  else ⟨p.index + c.utf8Size, p.line, p.column + 1⟩

/-- The position after some characters. -/
def Position.passAll (p : Position) (cs : List Char) : Position :=
  cs.foldl Position.pass p

end ChannelDirectory.Yaml

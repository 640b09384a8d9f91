import ChannelDirectory.Text.FormEncoding
import ChannelDirectory.Yaml.Character

/-!
# Quoted scalars

`singleQuoted?` and `doubleQuoted?` read a scalar after its opening quote and return its
characters and the text after its closing quote. Lines are joined: blanks around a line end
do not count, a single line end stands for a blank and several stand for one fewer. Blanks
that an escape stands for are content and stay. A backslash before a line end takes it away,
and the line ends after that one all stay.

No line of a quoted scalar may look like the mark of a document.
-/

namespace ChannelDirectory.Yaml

/-- The character that a number of hexadecimal digits stands for. -/
def hexEscape? (count : Nat) (cs : List Char) : Option (Char × List Char) := do
  let digits := cs.take count
  let values ← digits.mapM Text.FormEncoding.hexValue
  let n := values.foldl (fun n d => n * 16 + d) 0
  if digits.length = count && n.isValidChar then some (Char.ofNat n, cs.drop count) else none

/-- The characters that a backslash and one character stand for. -/
def shortEscapes : List (Char × Char) :=
  [('0', '\x00'), ('a', '\x07'), ('b', '\x08'), ('t', '\t'), ('\t', '\t'), ('n', '\n'),
    ('v', '\x0b'), ('f', '\x0c'), ('r', '\r'), ('e', '\x1b'), (' ', ' '), ('"', '"'),
    ('/', '/'), ('\\', '\\'), ('N', '\u0085'), ('_', '\u00a0'), ('L', '\u2028'),
    ('P', '\u2029')]

/-- The character that an escape stands for, from after its backslash. -/
def escape? : List Char → Option (Char × List Char)
  | 'x' :: cs => hexEscape? 2 cs
  | 'u' :: cs => hexEscape? 4 cs
  | 'U' :: cs => hexEscape? 8 cs
  | c :: cs => (shortEscapes.lookup c).map fun x => (x, cs)
  | [] => none

/-- What the blanks and line ends at the front of a text stand for, whether a line begins
after them, and the text from there. -/
def quotedGap? (cs : List Char) : Option (List Char × Bool × List Char) :=
  let line := cs.dropWhile isBlank
  if atBreak line then
    (takeBreaks? 0 0 line).map fun (breaks, column, rest) =>
      (foldBreaks breaks, column == 0, rest)
  else some (cs.takeWhile isBlank, false, line)

/-- The characters of a scalar up to its single quote. A quote inside is written twice.
`out` holds those before, the latest first, and `lineStart` says whether a line begins
here. -/
def singleQuotedFrom (out : List Char) (lineStart : Bool) (cs : List Char) :
    (fuel : Nat) → Option (List Char × List Char)
  | 0 => none
  | fuel + 1 =>
    if lineStart && atDocumentMark cs then none
    else match cs with
    | [] => none
    | '\'' :: '\'' :: rest => singleQuotedFrom ('\'' :: out) false rest fuel
    | '\'' :: rest => some (out.reverse, rest)
    | c :: rest =>
      if isBlank c || isBreak c then
        match quotedGap? cs with
        | none => none
        | some (gap, lineStart, rest) => singleQuotedFrom (gap.reverse ++ out) lineStart rest fuel
      else singleQuotedFrom (c :: out) false rest fuel

/-- The characters of a scalar up to its double quote. -/
def doubleQuotedFrom (out : List Char) (lineStart : Bool) (cs : List Char) :
    (fuel : Nat) → Option (List Char × List Char)
  | 0 => none
  | fuel + 1 =>
    if lineStart && atDocumentMark cs then none
    else match cs with
    | [] => none
    | '"' :: rest => some (out.reverse, rest)
    | '\\' :: rest =>
      if atBreak rest then
        match takeBreaks? 0 0 (rest.drop 1) with
        | none => none
        | some (breaks, column, rest) =>
          doubleQuotedFrom (breaks.reverse ++ out) (column == 0) rest fuel
      else match escape? rest with
        | none => none
        | some (c, rest) => doubleQuotedFrom (c :: out) false rest fuel
    | c :: rest =>
      if isBlank c || isBreak c then
        match quotedGap? cs with
        | none => none
        | some (gap, lineStart, rest) => doubleQuotedFrom (gap.reverse ++ out) lineStart rest fuel
      else doubleQuotedFrom (c :: out) false rest fuel

/-- A single-quoted scalar after its opening quote. -/
def singleQuoted? (cs : List Char) : Option (List Char × List Char) :=
  singleQuotedFrom [] false cs cs.length.succ

/-- A double-quoted scalar after its opening quote. -/
def doubleQuoted? (cs : List Char) : Option (List Char × List Char) :=
  doubleQuotedFrom [] false cs cs.length.succ

end ChannelDirectory.Yaml

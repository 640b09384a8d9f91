import ChannelDirectory.Yaml.Character

/-!
# Block scalars

A block scalar is a run of indented lines below a header. Its first line that is not empty
sets the indentation, unless the header does. A literal scalar keeps the ends of its lines.
A folded one joins two lines by a blank, but keeps the line ends next to empty lines and to
lines that begin with a further blank. The header also says what becomes of the line ends
after the last line: as a rule one stays, with `-` none, with `+` all.
-/

namespace ChannelDirectory.Yaml

/-- What becomes of the line ends after the last line. -/
inductive Chomping where
  | strip
  | clip
  | keep
  deriving DecidableEq, Repr

/-- What the header of a block scalar says. -/
structure BlockHeader where
  chomping : Chomping := .clip
  /-- How far the lines are indented more than what is around them. -/
  increment : Option Nat := none

/-- The chomping that a character stands for. -/
def Chomping.ofChar? : Char → Option Chomping
  | '+' => some .keep
  | '-' => some .strip
  | _ => none

/-- A digit, which is not zero, and the text after it; nothing if there is no digit. -/
def increment? : List Char → Option (Option Nat × List Char)
  | c :: cs =>
    if c == '0' then none
    else if c.isDigit then some (some (c.toNat - 0x30), cs)
    else some (none, c :: cs)
  | [] => some (none, [])

/-- The header of a block scalar after its first character, and the text from the next line
on. -/
def blockHeader? (cs : List Char) : Option (BlockHeader × List Char) :=
  match (cs.head?.bind Chomping.ofChar?) with
  | some chomping => do
    let (increment, cs) ← increment? (cs.drop 1)
    let rest ← finishLine? cs
    some (⟨chomping, increment⟩, rest)
  | none => do
    let (increment, cs) ← increment? cs
    let chomping := if increment.isSome then cs.head?.bind Chomping.ofChar? else none
    let rest ← finishLine? (if chomping.isSome then cs.drop 1 else cs)
    some (⟨chomping.getD .clip, increment⟩, rest)

/-- What stands before a line of a block scalar. -/
structure BlockIndent where
  /-- The ends of empty lines. -/
  breaks : List Char
  /-- How far the deepest of the lines is indented. -/
  deepest : Nat
  column : Nat
  rest : List Char

/-- The empty lines at the front of a text and the indentation of the line after them, which
goes no further than `limit`. No tab may stand inside of the indentation. -/
def blockIndent? (limit : Option Nat) (deepest column : Nat) : List Char → Option BlockIndent
  | [] => some ⟨[], max deepest column, column, []⟩
  | c :: cs =>
    let inside := limit.all fun n => column < n
    if inside && c == ' ' then blockIndent? limit deepest (column + 1) cs
    else if inside && c == '\t' then none
    else if isBreak c then
      (blockIndent? limit (max deepest column) 0 cs).map fun next =>
        { next with breaks := c :: next.breaks }
    else some ⟨[], max deepest column, column, c :: cs⟩

/-- What two lines of a block scalar are joined by. `first` is the end of the former line and
`more` are those of empty lines; `further` says that one of the two lines begins with a
blank. -/
def blockJoint (folded further : Bool) (first more : List Char) : List Char :=
  if folded && first == ['\n'] && !further then
    if more.isEmpty then [' '] else more
  else first ++ more

/-- A text begins with a blank. -/
def atBlank (cs : List Char) : Bool :=
  cs.head?.any isBlank

/-- The lines of a block scalar that are indented by `indent`: their text, the end of the
last one, the ends of the empty lines after it, and the text from there. `out` is the text
before, and `further` says whether its last line begins with a blank. -/
def blockLines? (folded : Bool) (indent : Nat) (out : List Char) (further : Bool)
    (first : List Char) (next : BlockIndent) :
    (fuel : Nat) → Option (List Char × List Char × BlockIndent)
  | 0 => none
  | fuel + 1 =>
    if next.column ≠ indent || next.rest.isEmpty then some (out, first, next)
    else
      let blank := atBlank next.rest
      let out := out ++ blockJoint folded (further || blank) first next.breaks ++
        next.rest.takeWhile fun c => !isBreak c
      match dropLine next.rest with
      | [] => some (out, [], ⟨[], 0, 0, []⟩)
      | c :: rest =>
        match blockIndent? (some indent) 0 0 rest with
        | none => none
        | some next => blockLines? folded indent out blank [c] next fuel

/-- A block scalar after its first character, inside of what is indented by one less than
`level`, and the text after it. -/
def block? (folded : Bool) (level : Nat) (cs : List Char) : Option (List Char × List Char) := do
  let (header, cs) ← blockHeader? cs
  let limit := header.increment.map fun n => (level - 1) + n
  let next ← blockIndent? limit 0 0 cs
  let indent := limit.getD (max next.deepest (max level 1))
  let (out, first, next) ← blockLines? folded indent [] false [] next cs.length.succ
  let tail := match header.chomping with
    | .strip => []
    | .clip => first
    | .keep => first ++ next.breaks
  some (out ++ tail, next.rest)

end ChannelDirectory.Yaml

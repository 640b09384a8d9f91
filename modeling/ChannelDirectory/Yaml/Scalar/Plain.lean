import ChannelDirectory.Yaml.Character

/-!
# Plain scalars

A plain scalar goes on until a comment, a colon that ends a name, the mark of a document or,
inside brackets and braces, one of their marks. Outside of them it takes in the lines after
its first one that are indented, and its lines are joined as those of a quoted scalar are.
-/

namespace ChannelDirectory.Yaml

/-- A plain scalar can begin with these characters, apart from a dash, a question mark and a
colon, which can only begin one if they are not words of their own. -/
def beginsPlain : List Char → Bool
  | [] => false
  | c :: _ => !(isBlank c || isBreak c || isFlowMark c || "#&*!|>'\"%@`".toList.contains c)

/-- The characters of a plain scalar up to the next blank or line end, or its own end, and
the text from there. Inside brackets and braces no colon may stand right before one of
their marks or a question mark. -/
def plainWord? (flow : Bool) : List Char → Option (List Char × List Char)
  | [] => some ([], [])
  | c :: cs =>
    if isBlank c || isBreak c || (flow && isFlowMark c) then some ([], c :: cs)
    else if c == ':' && flow && cs.head?.any (fun d => isFlowMark d || d == '?') then none
    else if c == ':' && endsWord cs then some ([], c :: cs)
    else (plainWord? flow cs).map fun (word, rest) => (c :: word, rest)

/-- A plain scalar that has been read. -/
structure PlainScalar where
  chars : List Char
  /-- The ends of lines after it have been read too. -/
  endsLine : Bool
  rest : List Char

/-- A plain scalar whose first part is `out`, from after what `gap` stands for on. Lines
indented by less than `indent` do not belong to it. -/
def plainFrom (flow : Bool) (indent : Nat) (out gap : List Char) (lineStart endsLine : Bool)
    (cs : List Char) : (fuel : Nat) → Option PlainScalar
  | 0 => none
  | fuel + 1 =>
    if (lineStart && atDocumentMark cs) || cs.head? == some '#' then some ⟨out, endsLine, cs⟩
    else match plainWord? flow cs with
    | none => none
    | some ([], rest) => some ⟨out, endsLine, rest⟩
    | some (word, rest) =>
      let out := out ++ gap ++ word
      let line := rest.dropWhile isBlank
      if atBreak line then
        match takeBreaks? indent 0 line with
        | none => none
        | some (breaks, column, rest) =>
          if !flow && column < indent then some ⟨out, true, rest⟩
          else plainFrom flow indent out (foldBreaks breaks) (column == 0) true rest fuel
      else plainFrom flow indent out (rest.takeWhile isBlank) false false line fuel

/-- A plain scalar at the front of a text. -/
def plain? (flow : Bool) (indent : Nat) (cs : List Char) : Option PlainScalar :=
  plainFrom flow indent [] [] false false cs cs.length.succ

end ChannelDirectory.Yaml

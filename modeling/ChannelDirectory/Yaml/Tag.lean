import ChannelDirectory.Text.FormEncoding
import ChannelDirectory.Yaml.Character

/-!
# Tags

A tag names the type of a node. It is written in full as `!<tag>`, or as a handle (`!`, `!!`
or `!word!`) and a suffix. Directives at the start of a document say what a handle stands
for, and `TagHandles.resolve?` puts the full tag together. Bytes that are written as `%XX`
become characters below 256.
-/

namespace ChannelDirectory.Yaml

open Text.FormEncoding (hexValue)

/-- A tag as it is written. The handle of a tag in full is empty. -/
structure Tag where
  handle : String
  suffixText : String
  deriving DecidableEq, Repr

/-- What handles stand for, the directives of the document first. -/
abbrev TagHandles := List (String × String)

/-- The handles that every document has. -/
def TagHandles.standard : TagHandles :=
  [("!", "!"), ("!!", "tag:yaml.org,2002:")]

/-- The full text of a tag. A handle has to be known. -/
def TagHandles.resolve? (handles : TagHandles) (tag : Tag) : Option String :=
  if tag.handle = "" then some tag.suffixText
  else (handles.lookup tag.handle).map fun lead => lead ++ tag.suffixText

/-- The character may stand in a tag. Some marks may only in a tag in full or a directive. -/
def isTagChar (wide : Bool) (c : Char) : Bool :=
  isWordChar c || ";/?:@&=+$.!~*'()".toList.contains c || (wide && ",[]".toList.contains c)

/-- How many bytes of a character follow its first one. -/
def followers? (byte : Nat) : Option Nat :=
  if byte < 0x80 then some 0
  else if 0xC0 ≤ byte && byte < 0xE0 then some 1
  else if 0xE0 ≤ byte && byte < 0xF0 then some 2
  else if 0xF0 ≤ byte && byte < 0xF8 then some 3
  else none

/-- The characters of a tag at the front of a text, and the text from there. `pending` bytes
of a character have to follow. -/
def tagChars? (wide : Bool) (pending : Nat) : List Char → Option (List Char × List Char)
  | '%' :: a :: b :: cs =>
    match hexValue a, hexValue b with
    | some x, some y =>
      let byte := x * 16 + y
      let left := if pending = 0 then followers? byte
        else if byte / 64 = 2 then some (pending - 1) else none
      match left with
      | none => none
      | some left => (tagChars? wide left cs).map fun (out, rest) => (Char.ofNat byte :: out, rest)
    | _, _ => none
  | c :: cs =>
    if pending ≠ 0 || c == '%' then none
    else if isTagChar wide c then (tagChars? wide 0 cs).map fun (out, rest) => (c :: out, rest)
    else some ([], c :: cs)
  | [] => if pending = 0 then some ([], []) else none

/-- The characters of a tag, at least one. -/
def someTagChars? (wide : Bool) (cs : List Char) : Option (List Char × List Char) :=
  match tagChars? wide 0 cs with
  | some ([], _) | none => none
  | some (out, rest) => some (out, rest)

/-- A tag as it counts: a suffix goes no further than a zero byte, and a handle alone is the
tag `!`. -/
def Tag.make (handle suffixChars : List Char) : Tag :=
  let suffixChars := suffixChars.takeWhile (· != '\x00')
  if handle == ['!'] && suffixChars.isEmpty then ⟨"", "!"⟩
  else ⟨String.ofList handle, String.ofList suffixChars⟩

/-- A tag after its exclamation mark, and the text after it. Inside brackets and braces a
comma may follow. -/
def tag? (flow : Bool) (cs : List Char) : Option (Tag × List Char) := do
  let (tag, rest) ← (match cs with
    | '<' :: cs =>
      match someTagChars? true cs with
      | some (chars, '>' :: rest) => some (Tag.make [] chars, rest)
      | _ => none
    | cs =>
      let word := cs.takeWhile isWordChar
      match cs.dropWhile isWordChar with
      | '!' :: cs =>
        (someTagChars? false cs).map fun (chars, rest) =>
          (Tag.make ('!' :: word ++ ['!']) chars, rest)
      | cs =>
        (tagChars? false 0 cs).map fun (chars, rest) =>
          (Tag.make ['!'] (word ++ chars), rest))
  if endsWord rest || (flow && rest.head? == some ',') then some (tag, rest) else none

/-- A handle in a directive, and the text after it. -/
def tagHandle? : List Char → Option (String × List Char)
  | '!' :: cs =>
    let word := cs.takeWhile isWordChar
    match cs.dropWhile isWordChar with
    | '!' :: rest => some (String.ofList ('!' :: word ++ ['!']), rest)
    | rest => if word.isEmpty then some ("!", rest) else none
  | _ => none

end ChannelDirectory.Yaml

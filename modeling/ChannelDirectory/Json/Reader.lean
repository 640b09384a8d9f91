import ChannelDirectory.Json.Number
import ChannelDirectory.Text.FormEncoding

/-!
# Reading JSON texts

`Json.read` reads a whole text as one value. It refuses what is not JSON, an escaped
surrogate without its partner, a number too large for a double, and arrays and objects
nested more than `maxDepth` deep.

The readers take a text and return what they read and the rest of the text. Those for
nested values count down `fuel`, which the length of the text bounds, and `depth`.
`skipValue` passes over a value whose content does not matter: it checks the grammar, but
neither the depth nor the size of numbers nor surrogates.
-/

namespace ChannelDirectory.Json

open Text.FormEncoding (hexValue)

/-- How deep arrays and objects may be nested. -/
def maxDepth : Nat := 127

/-- Blank in JSON: space, tab and the two line ends. -/
def isSpace (c : Char) : Bool :=
  c == ' ' || c == '\n' || c == '\t' || c == '\r'

/-- The text from its first character that is not blank. -/
def skipSpace (cs : List Char) : List Char :=
  cs.dropWhile isSpace

/-- The value of four hexadecimal digits. -/
def hex4? (a b c d : Char) : Option Nat := do
  let a ← hexValue a
  let b ← hexValue b
  let c ← hexValue c
  let d ← hexValue d
  some (((a * 16 + b) * 16 + c) * 16 + d)

/-- The character that a letter after a backslash stands for. -/
def escaped? : Char → Option Char
  | '"' => some '"'
  | '\\' => some '\\'
  | '/' => some '/'
  | 'b' => some '\x08'
  | 'f' => some '\x0c'
  | 'n' => some '\n'
  | 'r' => some '\r'
  | 't' => some '\t'
  | _ => none

/-- The characters of a string up to its closing quote, and the text after it. -/
def readChars : List Char → Option (List Char × List Char)
  | [] => none
  | '"' :: cs => some ([], cs)
  | '\\' :: 'u' :: a :: b :: c :: d :: cs =>
    match hex4? a b c d with
    | none => none
    | some high =>
      if 0xD800 ≤ high && high ≤ 0xDBFF then
        match cs with
        | '\\' :: 'u' :: a :: b :: c :: d :: cs =>
          match hex4? a b c d with
          | none => none
          | some low =>
            if 0xDC00 ≤ low && low ≤ 0xDFFF then
              let n := 0x10000 + (high - 0xD800) * 0x400 + (low - 0xDC00)
              (readChars cs).map fun (out, rest) => (Char.ofNat n :: out, rest)
            else none
        | _ => none
      else if 0xDC00 ≤ high && high ≤ 0xDFFF then none
      else (readChars cs).map fun (out, rest) => (Char.ofNat high :: out, rest)
  | '\\' :: c :: cs =>
    match escaped? c with
    | none => none
    | some x => (readChars cs).map fun (out, rest) => (x :: out, rest)
  | c :: cs =>
    if c.toNat < 0x20 || c == '\\' then none
    else (readChars cs).map fun (out, rest) => (c :: out, rest)

/-- A string after its opening quote, and the text after it. -/
def readString (cs : List Char) : Option (String × List Char) :=
  (readChars cs).map fun (out, rest) => (String.ofList out, rest)

/-- The text after a string, from after its opening quote. -/
def skipString : List Char → Option (List Char)
  | [] => none
  | '"' :: cs => some cs
  | '\\' :: 'u' :: a :: b :: c :: d :: cs =>
    if (hex4? a b c d).isSome then skipString cs else none
  | '\\' :: c :: cs => if (escaped? c).isSome then skipString cs else none
  | c :: cs => if c.toNat < 0x20 || c == '\\' then none else skipString cs

/-- The name of a member with its colon. -/
def readName (cs : List Char) : Option (String × List Char) :=
  match skipSpace cs with
  | '"' :: cs =>
    match readString cs with
    | none => none
    | some (name, cs) =>
      match skipSpace cs with
      | ':' :: cs => some (name, cs)
      | _ => none
  | _ => none

mutual

/-- A value at the front of a text, and the rest. -/
def readValue : (fuel depth : Nat) → List Char → Option (Json × List Char)
  | 0, _, _ => none
  | fuel + 1, depth, cs =>
    match skipSpace cs with
    | 'n' :: 'u' :: 'l' :: 'l' :: cs => some (.null, cs)
    | 't' :: 'r' :: 'u' :: 'e' :: cs => some (.bool true, cs)
    | 'f' :: 'a' :: 'l' :: 's' :: 'e' :: cs => some (.bool false, cs)
    | '"' :: cs => (readString cs).map fun (s, rest) => (.string s, rest)
    | '[' :: cs =>
      match depth with
      | 0 => none
      | depth + 1 =>
        match skipSpace cs with
        | ']' :: cs => some (.array [], cs)
        | cs => (readItems fuel depth cs).map fun (items, rest) => (.array items, rest)
    | '{' :: cs =>
      match depth with
      | 0 => none
      | depth + 1 =>
        (readMembers fuel depth cs).map fun (members, rest) => (ofMembers members, rest)
    | cs => readNumber cs
termination_by structural fuel => fuel

/-- The items of an array, at least one, up to its closing bracket. -/
def readItems : (fuel depth : Nat) → List Char → Option (List Json × List Char)
  | 0, _, _ => none
  | fuel + 1, depth, cs =>
    match readValue fuel depth cs with
    | none => none
    | some (item, cs) =>
      match skipSpace cs with
      | ',' :: cs => (readItems fuel depth cs).map fun (items, rest) => (item :: items, rest)
      | ']' :: cs => some ([item], cs)
      | _ => none
termination_by structural fuel => fuel

/-- The members of an object after its opening brace, in the order of the text. -/
def readMembers : (fuel depth : Nat) → List Char → Option (List (String × Json) × List Char)
  | 0, _, _ => none
  | fuel + 1, depth, cs =>
    match skipSpace cs with
    | '}' :: cs => some ([], cs)
    | cs => readMoreMembers fuel depth cs
termination_by structural fuel => fuel

/-- The members of an object, at least one, up to its closing brace. -/
def readMoreMembers : (fuel depth : Nat) → List Char → Option (List (String × Json) × List Char)
  | 0, _, _ => none
  | fuel + 1, depth, cs =>
    match readName cs with
    | none => none
    | some (name, cs) =>
      match readValue fuel depth cs with
      | none => none
      | some (value, cs) =>
        match skipSpace cs with
        | ',' :: cs =>
          (readMoreMembers fuel depth cs).map fun (members, rest) =>
            ((name, value) :: members, rest)
        | '}' :: cs => some ([(name, value)], cs)
        | _ => none
termination_by structural fuel => fuel

end

mutual

/-- The text after a value. -/
def skipValue : (fuel : Nat) → List Char → Option (List Char)
  | 0, _ => none
  | fuel + 1, cs =>
    match skipSpace cs with
    | 'n' :: 'u' :: 'l' :: 'l' :: cs => some cs
    | 't' :: 'r' :: 'u' :: 'e' :: cs => some cs
    | 'f' :: 'a' :: 'l' :: 's' :: 'e' :: cs => some cs
    | '"' :: cs => skipString cs
    | '[' :: cs =>
      match skipSpace cs with
      | ']' :: cs => some cs
      | cs => skipItems fuel cs
    | '{' :: cs =>
      match skipSpace cs with
      | '}' :: cs => some cs
      | cs => skipMembers fuel cs
    | cs => skipNumber cs
termination_by structural fuel => fuel

/-- The text after the items of an array and its closing bracket. -/
def skipItems : (fuel : Nat) → List Char → Option (List Char)
  | 0, _ => none
  | fuel + 1, cs =>
    match skipValue fuel cs with
    | none => none
    | some cs =>
      match skipSpace cs with
      | ',' :: cs => skipItems fuel cs
      | ']' :: cs => some cs
      | _ => none
termination_by structural fuel => fuel

/-- The text after the members of an object and its closing brace. -/
def skipMembers : (fuel : Nat) → List Char → Option (List Char)
  | 0, _ => none
  | fuel + 1, cs =>
    match skipSpace cs with
    | '"' :: cs =>
      match skipString cs with
      | none => none
      | some cs =>
        match skipSpace cs with
        | ':' :: cs =>
          match skipValue fuel cs with
          | none => none
          | some cs =>
            match skipSpace cs with
            | ',' :: cs => skipMembers fuel cs
            | '}' :: cs => some cs
            | _ => none
        | _ => none
    | _ => none
termination_by structural fuel => fuel

end

/-- Nothing but blanks is left. -/
def atEnd (cs : List Char) : Bool :=
  (skipSpace cs).isEmpty

/-- Enough fuel for a text: every step of a reader takes a character off it, or is the
last but one before a step that does. -/
def fuelFor (cs : List Char) : Nat :=
  2 * cs.length + 2

/-- The value that a whole text stands for. -/
def read (s : String) : Option Json :=
  let cs := s.toList
  match readValue (fuelFor cs) maxDepth cs with
  | some (value, rest) => if atEnd rest then some value else none
  | none => none

end ChannelDirectory.Json

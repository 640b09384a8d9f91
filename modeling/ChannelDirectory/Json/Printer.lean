import ChannelDirectory.Json
import ChannelDirectory.Text.Quoted
import ChannelDirectory.Decimal.Shortest

/-!
# Writing JSON values

Two layouts of a value: `compact` on one line without blanks, and `pretty` with one member
or item to a line, two blanks of indentation a level, `": "` after a name, and `[]` and
`{}` for what is empty. In strings only quotes, backslashes and control characters are
escaped. Members are written in the order in which the object holds them.
-/

namespace ChannelDirectory.Json

/-- One character inside a string. -/
def printChar (c : Char) : List Char :=
  match c with
  | '"' => ['\\', '"']
  | '\\' => ['\\', '\\']
  | '\x08' => ['\\', 'b']
  | '\t' => ['\\', 't']
  | '\n' => ['\\', 'n']
  | '\x0c' => ['\\', 'f']
  | '\r' => ['\\', 'r']
  | c =>
    if c.toNat < 0x20 then
      let digits := Text.hexDigits c.toNat
      '\\' :: 'u' :: List.replicate (4 - digits.length) '0' ++ digits
    else [c]

/-- A string with its quotes. -/
def printString (s : String) : String :=
  String.ofList ('"' :: s.toList.flatMap printChar ++ ['"'])

/-- The parts with a text between every two. -/
def join (between : String) : List String → String
  | [] => ""
  | [part] => part
  | part :: parts => part ++ between ++ join between parts

mutual

/-- A value on one line. -/
def compact : Json → String
  | .null => "null"
  | .bool true => "true"
  | .bool false => "false"
  | .integer n => toString n
  | .double bits => Decimal.scientific bits
  | .string s => printString s
  | .array items => "[" ++ join "," (compactItems items) ++ "]"
  | .object members => "\x7b" ++ join "," (compactMembers members) ++ "\x7d"

/-- The items of an array, each on one line. -/
def compactItems : List Json → List String
  | [] => []
  | item :: items => compact item :: compactItems items

/-- The members of an object, each on one line. -/
def compactMembers : List (String × Json) → List String
  | [] => []
  | (name, value) :: members => (printString name ++ ":" ++ compact value) :: compactMembers members

end

/-- A line end and the indentation of a level. -/
def newline (level : Nat) : String :=
  String.ofList ('\n' :: List.replicate (2 * level) ' ')

/-- Parts between brackets, each on a line of its own. -/
def block (opening closing : String) (level : Nat) (parts : List String) : String :=
  if parts.isEmpty then opening ++ closing
  else
    opening ++ newline (level + 1) ++ join ("," ++ newline (level + 1)) parts ++
      newline level ++ closing

mutual

/-- A value over several lines, starting at a level of indentation. -/
def prettyAt (level : Nat) : Json → String
  | .null => "null"
  | .bool true => "true"
  | .bool false => "false"
  | .integer n => toString n
  | .double bits => Decimal.scientific bits
  | .string s => printString s
  | .array items => block "[" "]" level (prettyItems (level + 1) items)
  | .object members => block "\x7b" "\x7d" level (prettyMembers (level + 1) members)

/-- The items of an array. -/
def prettyItems (level : Nat) : List Json → List String
  | [] => []
  | item :: items => prettyAt level item :: prettyItems level items

/-- The members of an object. -/
def prettyMembers (level : Nat) : List (String × Json) → List String
  | [] => []
  | (name, value) :: members =>
    (printString name ++ ": " ++ prettyAt level value) :: prettyMembers level members

end

/-- A value over several lines, without a line end after it. -/
def pretty (value : Json) : String :=
  prettyAt 0 value

end ChannelDirectory.Json

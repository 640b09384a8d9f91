import ChannelDirectory.Text.Visible

/-!
# Quoted text in messages

`quote` writes a text between double quotes the way messages about malformed documents
show it: quotes and backslashes are escaped, the usual controls have their letter, and
any other character that is not visible on its own is given by its number.
-/

namespace ChannelDirectory.Text

/-- The lower-case hexadecimal digits of a number. -/
def hexDigits (n : Nat) : List Char :=
  Nat.toDigits 16 n

/-- One character inside double quotes. -/
def quoteChar (c : Char) : List Char :=
  match c with
  | '\x00' => ['\\', '0']
  | '\t' => ['\\', 't']
  | '\r' => ['\\', 'r']
  | '\n' => ['\\', 'n']
  | '\\' => ['\\', '\\']
  | '"' => ['\\', '"']
  | c => if isVisible c then [c] else '\\' :: 'u' :: '{' :: hexDigits c.toNat ++ ['}']

/-- The text in double quotes. -/
def quote (s : String) : String :=
  String.ofList ('"' :: s.toList.flatMap quoteChar ++ ['"'])

end ChannelDirectory.Text

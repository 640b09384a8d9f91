import ChannelDirectory.Text.Split
import ChannelDirectory.Text.Utf8

/-!
# Form-encoded pairs

A query text such as `~name=SR*&~tag=archived` is a list of pairs in the form encoding of
the web: pairs are joined by `&`, the first `=` of a pair ends its key, `+` stands for a
blank and `%XX` for a byte. `pairs` reads such a text and never fails: a `%` that two
hexadecimal digits do not follow stands for itself.
-/

namespace ChannelDirectory.Text.FormEncoding

/-- The value of a hexadecimal digit. -/
def hexValue (c : Char) : Option Nat :=
  let n := c.toNat
  if 0x30 ≤ n && n ≤ 0x39 then some (n - 0x30)
  else if 0x41 ≤ n && n ≤ 0x46 then some (n - 0x37)
  else if 0x61 ≤ n && n ≤ 0x66 then some (n - 0x57)
  else none

/-- The bytes that the characters of a key or value stand for. -/
def bytes : List Char → List UInt8
  | [] => []
  | '+' :: cs => 0x20 :: bytes cs
  | '%' :: a :: b :: cs =>
    match hexValue a, hexValue b with
    | some x, some y => UInt8.ofNat (x * 16 + y) :: bytes cs
    | _, _ => 0x25 :: bytes (a :: b :: cs)
  | c :: cs => String.utf8EncodeChar c ++ bytes cs

/-- The text that a key or value stands for. -/
def decode (cs : List Char) : String :=
  String.ofList (Utf8.decode (bytes cs))

/-- Key and value of one pair. A pair without `=` is a key with an empty value. -/
def pair (cs : List Char) : String × String :=
  match cutAt (· == '=') cs with
  | some (key, value) => (decode key, decode value)
  | none => (decode cs, "")

/-- The pairs of a form-encoded text. Empty parts between two `&` are skipped. -/
def pairs (cs : List Char) : List (String × String) :=
  ((pieces (· == '&') cs).filter fun piece => !piece.isEmpty).map pair

end ChannelDirectory.Text.FormEncoding

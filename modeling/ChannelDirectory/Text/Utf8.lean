/-!
# Reading bytes as UTF-8

`decode` reads a list of bytes as UTF-8. Each maximal part of an ill-formed sequence
that could still have begun a character becomes one replacement character, so decoding
never fails. `encode` writes a text as bytes, one character after another.

Decoding is a machine with the state `State`: between characters, or inside one.
-/

namespace ChannelDirectory.Text.Utf8

/-- The character that stands for bytes that encode none. -/
def replacement : Char := '\ufffd'

/-- The UTF-8 form of a text. -/
def encode (cs : List Char) : List UInt8 :=
  cs.flatMap String.utf8EncodeChar

/-- Where the decoder is: at the start of a character, or after its first bytes, with
`missing + 1` bytes still to come, `value` read so far and the next byte between `low`
and `high`. -/
inductive State where
  | start
  | inside (missing value low high : Nat)

/-- A byte met at the start of a character. Only bytes that can begin a well-formed
character are waited for. -/
def begin (b : Nat) : List Char × State :=
  if b < 0x80 then ([Char.ofNat b], .start)
  else if 0xC2 ≤ b && b ≤ 0xDF then ([], .inside 0 (b - 0xC0) 0x80 0xBF)
  else if b == 0xE0 then ([], .inside 1 0 0xA0 0xBF)
  else if b == 0xED then ([], .inside 1 0xD 0x80 0x9F)
  else if 0xE1 ≤ b && b ≤ 0xEF then ([], .inside 1 (b - 0xE0) 0x80 0xBF)
  else if b == 0xF0 then ([], .inside 2 0 0x90 0xBF)
  else if b == 0xF4 then ([], .inside 2 4 0x80 0x8F)
  else if 0xF1 ≤ b && b ≤ 0xF3 then ([], .inside 2 (b - 0xF0) 0x80 0xBF)
  else ([replacement], .start)

/-- The characters that one byte completes, and the state after it. -/
def step (b : Nat) : State → List Char × State
  | .start => begin b
  | .inside missing value low high =>
    if low ≤ b && b ≤ high then
      let value := value * 64 + (b - 0x80)
      match missing with
      | 0 => ([Char.ofNat value], .start)
      | missing + 1 => ([], .inside missing value 0x80 0xBF)
    else
      let (out, state) := begin b
      (replacement :: out, state)

/-- Decodes the bytes that follow, from a state. -/
def decodeFrom : State → List UInt8 → List Char
  | .start, [] => []
  | .inside .., [] => [replacement]
  | state, b :: bytes =>
    let (out, state) := step b.toNat state
    out ++ decodeFrom state bytes

/-- The text that bytes stand for, with replacement characters where they are ill-formed. -/
def decode (bytes : List UInt8) : List Char :=
  decodeFrom .start bytes

end ChannelDirectory.Text.Utf8

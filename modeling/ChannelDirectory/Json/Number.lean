import ChannelDirectory.Json
import ChannelDirectory.Decimal.Binary64

/-!
# Number texts in JSON

`readNumber` reads a number from the front of a text. Without a point or an exponent it is
an integer if it fits 64 bits (signed if it has a sign); `-0` is a double, because no
integer has that value. Every other number is a double: as many digits as fit an unsigned
integer of 64 bits form the significand, the rest only move the power of ten, and the
significand is then scaled by `Binary64.ofDecimal`.
-/

namespace ChannelDirectory.Json

open Decimal

/-- The greatest significand. -/
def maxSignificand : Nat := 18446744073709551615

/-- The value of a decimal digit. -/
def digit? (c : Char) : Option Nat :=
  let n := c.toNat
  if 0x30 ≤ n && n ≤ 0x39 then some (n - 0x30) else none

/-- The digits at the front of a text, and the rest. -/
def takeDigits : List Char → List Nat × List Char
  | [] => ([], [])
  | c :: cs =>
    match digit? c with
    | some d =>
      let (ds, rest) := takeDigits cs
      (d :: ds, rest)
    | none => ([], c :: cs)

/-- Appends digits to a significand while it stays in range. Also counts the digits taken. -/
def accumulate (significand taken : Nat) : List Nat → Nat × Nat
  | [] => (significand, taken)
  | d :: ds =>
    if significand * 10 + d ≤ maxSignificand then
      accumulate (significand * 10 + d) (taken + 1) ds
    else (significand, taken)

/-- The digits before the point. A zero stands alone. -/
def integerPart? (cs : List Char) : Option (List Nat × List Char) :=
  match takeDigits cs with
  | ([], _) => none
  | (0 :: _ :: _, _) => none
  | parts => some parts

/-- The digits after the point, none if there is no point. At least one follows a point. -/
def fractionPart? : List Char → Option (List Nat × List Char)
  | '.' :: cs =>
    match takeDigits cs with
    | ([], _) => none
    | parts => some parts
  | cs => some ([], cs)

/-- An exponent: its sign, its digits and the rest; `none` inside if there is no exponent. -/
def exponentPart? (cs : List Char) : Option (Option (Bool × Nat) × List Char) :=
  match cs with
  | c :: cs =>
    if c == 'e' || c == 'E' then
      let (negative, cs) := match cs with
        | '+' :: cs => (false, cs)
        | '-' :: cs => (true, cs)
        | cs => (false, cs)
      match takeDigits cs with
      | ([], _) => none
      | (ds, rest) => some (some (negative, ds.foldl (fun n d => n * 10 + d) 0), rest)
    else some (none, c :: cs)
  | [] => some (none, [])

/-- The greatest exponent that is looked at. Beyond it a number is zero or too large. -/
def maxExponent : Nat := 2147483647

/-- A double with a sign, if it is not too large. -/
def double? (negative : Bool) (significand : Nat) (exponent : Int) : Option Json :=
  (Binary64.ofDecimal significand exponent).map fun bits =>
    .double (if negative then bits + Binary64.signBit else bits)

/-- The number with these parts. -/
def number? (negative : Bool) (whole fraction : List Nat) (pointed : Bool)
    (exponent : Option (Bool × Nat)) : Option Json :=
  let (significand, taken) := accumulate 0 0 whole
  let dropped := whole.length - taken
  if !pointed && exponent.isNone then
    if dropped != 0 then double? negative significand dropped
    else if !negative then some (.integer significand)
    else if significand == 0 || 9223372036854775808 < significand then
      double? true significand 0
    else some (.integer (-(significand : Int)))
  else
    let (significand, places) := accumulate significand 0 fraction
    let shift : Int := (dropped : Int) - (places : Int)
    match exponent with
    | none => double? negative significand shift
    | some (down, e) =>
      if maxExponent < e then
        if significand != 0 && !down then none else double? negative 0 0
      else double? negative significand (if down then shift - (e : Int) else shift + (e : Int))

/-- A number at the front of a text, and the rest. -/
def readNumber (cs : List Char) : Option (Json × List Char) := do
  let (negative, cs) := match cs with
    | '-' :: cs => (true, cs)
    | cs => (false, cs)
  let (whole, cs) ← integerPart? cs
  let (fraction, cs) ← fractionPart? cs
  let (exponent, cs) ← exponentPart? cs
  let value ← number? negative whole fraction (!fraction.isEmpty) exponent
  some (value, cs)

/-- The rest of a text after a number at its front, whatever the size of the number. -/
def skipNumber (cs : List Char) : Option (List Char) := do
  let cs := match cs with
    | '-' :: cs => cs
    | cs => cs
  let (_, cs) ← integerPart? cs
  let (_, cs) ← fractionPart? cs
  let (_, cs) ← exponentPart? cs
  some cs

end ChannelDirectory.Json

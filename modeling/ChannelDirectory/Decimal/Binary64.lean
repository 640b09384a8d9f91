/-!
# Binary floating point of 64 bits

A finite double is a 53-bit integer times a power of two. Doubles are kept as their bit
patterns, and all arithmetic on them is exact arithmetic of fractions followed by one
rounding: `ofRatio` gives the double nearest to a fraction, a tie going to the one with
the even last bit. `toParts` opens a bit pattern as an integer and an exponent of two.

Only magnitudes are handled here; a sign is a bit of its own (`signBit`).
-/

namespace ChannelDirectory.Decimal.Binary64

/-- The bit that makes a double negative. -/
def signBit : Nat := 0x8000000000000000

/-- The bits of positive infinity. -/
def infinity : Nat := 0x7FF0000000000000

/-- Two to the power `e`. -/
def twoPow (e : Nat) : Nat := 1 <<< e

/-- Ten to the power `e`. -/
def tenPow (e : Nat) : Nat := Nat.pow 10 e

/-- The quotient rounded to the nearest integer, ties to even. -/
def roundDiv (num den : Nat) : Nat :=
  let q := num / den
  let r := num % den
  if 2 * r < den then q
  else if den < 2 * r then q + 1
  else if q % 2 == 0 then q else q + 1

/-- `num / den` in units of two to the power `-scale`, as a fraction. -/
def scaled (num den : Nat) (scale : Int) : Nat × Nat :=
  if 0 ≤ scale then (num * twoPow scale.toNat, den) else (num, den * twoPow (-scale).toNat)

/-- The number of binary places at which `num / den` has an integer part of 53 bits, but
not more than the 1074 that a double has. -/
def placesFor (num den : Nat) : Int :=
  let guess : Int := 52 - ((num.log2 : Int) - (den.log2 : Int))
  let (n, d) := scaled num den guess
  let places := if n / d < twoPow 52 then guess + 1 else guess
  if 1074 < places then 1074 else places

/-- The bits of the double nearest to `num / den`, infinity if it is too large. -/
def ofRatio (num den : Nat) : Nat :=
  if num == 0 then 0
  else
    let places := placesFor num den
    let (n, d) := scaled num den places
    let significand := roundDiv n d
    let bits := (significand : Int) + (1074 - places) * (twoPow 52 : Int)
    if bits < infinity then bits.toNat else infinity

/-- The significand and the exponent of two of a finite magnitude. -/
def toParts (bits : Nat) : Nat × Int :=
  let fraction := bits % twoPow 52
  let exponent := bits / twoPow 52
  if exponent == 0 then (fraction, -1074)
  else (fraction + twoPow 52, (exponent : Int) - 1075)

/-- A finite magnitude as a fraction. -/
def toRatio (bits : Nat) : Nat × Nat :=
  let (m, e) := toParts bits
  if 0 ≤ e then (m * twoPow e.toNat, 1) else (m, twoPow (-e).toNat)

/-- The nearest double to the product. -/
def mul (a b : Nat) : Nat :=
  let (an, ad) := toRatio a
  let (bn, bd) := toRatio b
  ofRatio (an * bn) (ad * bd)

/-- The nearest double to the quotient. -/
def div (a b : Nat) : Nat :=
  let (an, ad) := toRatio a
  let (bn, bd) := toRatio b
  ofRatio (an * bd) (ad * bn)

/-- The double nearest to `significand` times ten to the power `exponent`, computed the
way number texts are read: the significand is rounded to a double first, then multiplied
or divided by a double power of ten, in steps of 308 below. `none` if it is too large.
`steps` bounds the number of those steps. -/
def scaleByTen (magnitude : Nat) (exponent : Int) : Nat → Option Nat
  | 0 => some 0
  | steps + 1 =>
    if exponent.natAbs ≤ 308 then
      let power := ofRatio (tenPow exponent.natAbs) 1
      if 0 ≤ exponent then
        let product := mul magnitude power
        if product < infinity then some product else none
      else some (div magnitude power)
    else if magnitude == 0 then some 0
    else if 0 ≤ exponent then none
    else scaleByTen (div magnitude (ofRatio (tenPow 308) 1)) (exponent + 308) steps

/-- The bits of the number with these decimal digits and exponent. Four steps of 308 take
any significand of 64 bits to zero. -/
def ofDecimal (significand : Nat) (exponent : Int) : Option Nat :=
  scaleByTen (ofRatio significand 1) exponent 8

end ChannelDirectory.Decimal.Binary64

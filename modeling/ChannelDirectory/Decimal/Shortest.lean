import ChannelDirectory.Decimal.Binary64

/-!
# The fewest digits that read back

`shortest` gives the decimal with the fewest digits among those that round to a given
double, and of two with equally many the nearer one, an exact tie going to the even
digit. The decimals are tried grid by grid, from one digit to seventeen; on a grid only
the two neighbours of the double can be the answer.

`scientific` lays the digits out with a point among them if the exponent is small, and with an
`e` otherwise. A number that would show no point ends in `.0`.
-/

namespace ChannelDirectory.Decimal

open Binary64

/-- Digits and the power of ten they are multiplied with. -/
structure Digits where
  value : Nat
  exponent : Int

/-- The ends of the interval of fractions that round to a magnitude `m * 2 ^ e`, in units
of two to the power `e - 2`. Below a power of two the next double is half as far away. -/
def interval (bits : Nat) : Nat × Nat :=
  let (m, _) := toParts bits
  let below := if bits % twoPow 52 == 0 && twoPow 52 < bits then 1 else 2
  (4 * m - below, 4 * m + 2)

/-- `value` times ten to the power `exponent` lies in the interval of the magnitude. The
ends belong to it if the significand is even. -/
def Digits.readsBack (d : Digits) (bits : Nat) : Bool :=
  let (m, e) := toParts bits
  let (low, high) := interval bits
  let e := e - 2
  let num := d.value * (if 0 ≤ d.exponent then tenPow d.exponent.toNat else 1)
  let den := if 0 ≤ d.exponent then 1 else tenPow (-d.exponent).toNat
  let up := if 0 ≤ e then twoPow e.toNat else 1
  let down := if 0 ≤ e then 1 else twoPow (-e).toNat
  let x := num * down
  let lowEnd := low * up * den
  let highEnd := high * up * den
  if m % 2 == 0 then lowEnd ≤ x && x ≤ highEnd else lowEnd < x && x < highEnd

/-- The exponent of ten of the first digit of a fraction: the greatest `k` with ten to
the power `k` not above it. `fuel` bounds the search from `guess` downwards. -/
def leadingExponent (num den : Nat) (guess : Int) : Nat → Int
  | 0 => guess
  | fuel + 1 =>
    let fits := if 0 ≤ guess then tenPow guess.toNat * den ≤ num
      else den ≤ num * tenPow (-guess).toNat
    if fits then guess else leadingExponent num den (guess - 1) fuel

/-- The two neighbours of a fraction on the grid with the given exponent of ten, the
nearer one first and of two equally near ones the even one. -/
def neighbours (num den : Nat) (exponent : Int) : Digits × Digits :=
  let n := if 0 ≤ exponent then num else num * tenPow (-exponent).toNat
  let d := if 0 ≤ exponent then den * tenPow exponent.toNat else den
  let q := n / d
  let r := n % d
  let below := Digits.mk q exponent
  let above := Digits.mk (q + 1) exponent
  if 2 * r < d then (below, above)
  else if d < 2 * r then (above, below)
  else if q % 2 == 0 then (below, above) else (above, below)

/-- Tries the grids from `count` digits on. -/
def shortestFrom (bits num den : Nat) (leading : Int) (count : Nat) : Nat → Digits
  | 0 => (neighbours num den (leading - 16)).1
  | fuel + 1 =>
    let (near, far) := neighbours num den (leading - (count : Int) + 1)
    if near.readsBack bits then near
    else if far.readsBack bits then far
    else shortestFrom bits num den leading (count + 1) fuel

/-- The shortest digits of a finite magnitude. -/
def shortest (bits : Nat) : Digits :=
  if bits == 0 then ⟨0, 0⟩
  else
    let (num, den) := toRatio bits
    let guess := ((num.log2 : Int) - (den.log2 : Int) + 1) * 30103 / 100000 + 1
    let leading := leadingExponent num den guess 8
    shortestFrom bits num den leading 1 17

/-- Without zeros at the end, a power of ten being moved to the exponent. -/
def Digits.normalize (d : Digits) : Nat → Digits
  | 0 => d
  | fuel + 1 =>
    if d.value != 0 && d.value % 10 == 0 then
      Digits.normalize ⟨d.value / 10, d.exponent + 1⟩ fuel
    else d

/-- The digits with a point among them, and zeros where the point lies outside. -/
def pointed (digits : List Char) (exponent : Int) : List Char :=
  let place : Int := digits.length + exponent
  if 0 ≤ exponent then digits ++ List.replicate exponent.toNat '0' ++ ['.', '0']
  else if 0 < place then digits.take place.toNat ++ '.' :: digits.drop place.toNat
  else ['0', '.'] ++ List.replicate (-place).toNat '0' ++ digits

/-- The sign of a double. -/
def sign (bits : Nat) : List Char :=
  if bits < signBit then [] else ['-']

/-- The digits of a finite double and their exponent. -/
def digitsOf (bits : Nat) : List Char × Int :=
  let d := (shortest (bits % signBit)).normalize 400
  (Nat.toDigits 10 d.value, d.exponent)

/-- A finite double, with an exponent if its point would lie more than sixteen places
after the first digit or more than five before it: `123.5`, `0.00001`, `1e+16`, `1.5e-7`. -/
def scientific (bits : Nat) : String :=
  let (digits, exponent) := digitsOf bits
  let place : Int := digits.length + exponent
  let body :=
    if digits == ['0'] then ['0', '.', '0']
    else if -5 < place && place ≤ 16 then pointed digits exponent
    else
      let mantissa := match digits with
        | [d] => [d]
        | d :: ds => d :: '.' :: ds
        | [] => []
      let power := place - 1
      mantissa ++ 'e' :: (if power < 0 then '-' else '+') :: Nat.toDigits 10 power.natAbs
  String.ofList (sign bits ++ body)

end ChannelDirectory.Decimal

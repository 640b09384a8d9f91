import ChannelDirectory.Decimal.Binary64
import ChannelDirectory.Json

/-!
# JSON values that mean the same

Zero and negative zero are written differently and are kept apart, but they are the same
number. `Json.sameValue` compares values as what they mean: two values are the same when
only signs of zeros tell them apart. An integer and a double are never the same, whatever
they are worth.

Infinities and what is not a number do not occur in JSON, so the bits of two doubles that
are not zero are equal exactly when the numbers are.
-/

namespace ChannelDirectory.Json

mutual

/-- The value with zero in place of each negative zero in it. -/
def unsignZeros : Json → Json
  | .double bits => .double (if bits = Decimal.Binary64.signBit then 0 else bits)
  | .array items => .array (unsignItems items)
  | .object members => .object (unsignMembers members)
  | value => value

/-- The items with zero in place of each negative zero in them. -/
def unsignItems : List Json → List Json
  | [] => []
  | item :: items => item.unsignZeros :: unsignItems items

/-- The members with zero in place of each negative zero in their values. -/
def unsignMembers : List (String × Json) → List (String × Json)
  | [] => []
  | (name, value) :: members => (name, value.unsignZeros) :: unsignMembers members

end

/-- The two values differ in nothing but signs of zeros. -/
def sameValue (a b : Json) : Bool := a.unsignZeros == b.unsignZeros

end ChannelDirectory.Json

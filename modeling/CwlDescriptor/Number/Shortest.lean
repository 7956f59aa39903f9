import CwlDescriptor.Number.Binary64
set_option autoImplicit false

/-!
# The shortest decimal that reads back

Of all decimals that round to a given floating point number the shortest is chosen, and of the
shortest ones the nearest.

## Main definitions

* `Decimal`: a number `digits * 10 ^ exponent`.
* `Decimal.shortest`: the shortest decimal that rounds to `mantissa * 2 ^ exponent`.
-/

namespace CwlDescriptor

/-- The number `digits * 10 ^ exponent`. -/
structure Decimal where
  digits : Nat
  exponent : Int
deriving DecidableEq, Repr

namespace Decimal

/-- The number of decimal digits before the point of `mantissa * 2 ^ exponent`; it is zero or
negative for numbers below a tenth. -/
def magnitude (mantissa : Nat) (exponent : Int) : Int :=
  if 0 ≤ exponent then (Nat.toDigits 10 (mantissa * Nat.pow 2 exponent.toNat)).length
  else
    let places := (-exponent).toNat
    ((Nat.toDigits 10 (mantissa * Nat.pow 5 places)).length : Int) - places

/-- The multiple of `10 ^ place` nearest to `m * 2 ^ exponent` among those that round to
this number, if one of its two neighbours does. The numbers that round to it lie between the
middles to the next ones, which count if `m` is even. -/
def onGrid? (m : Nat) (exponent place : Int) : Option Decimal :=
  -- a grid point `a` is `a * gridUnit`, and a quarter of the last binary place is `unit`
  let gridUnit := Nat.pow 10 place.toNat * Nat.pow 2 (2 - exponent).toNat
  let unit := Nat.pow 2 (exponent - 2).toNat * Nat.pow 10 (-place).toNat
  let value := 4 * m * unit
  let low := (4 * m - (if m = Nat.pow 2 52 && -1074 < exponent then 1 else 2)) * unit
  let high := (4 * m + 2) * unit
  let reads (a : Nat) : Bool :=
    let point := a * gridUnit
    if m % 2 = 0 then low ≤ point && point ≤ high else low < point && point < high
  let below := value / gridUnit
  let above := below + 1
  let nearer : Nat :=
    let toBelow := value - below * gridUnit
    let toAbove := above * gridUnit - value
    if toBelow < toAbove then below
    else if toAbove < toBelow then above
    else if below % 2 = 0 then below else above
  if reads nearer && nearer ≠ 0 then some ⟨nearer, place⟩
  else if reads below && below ≠ 0 then some ⟨below, place⟩
  else if reads above then some ⟨above, place⟩
  else none

/-- The decimal with the fewest digits that rounds to `mantissa * 2 ^ exponent`; seventeen digits
always suffice. -/
def shortest (mantissa : Nat) (exponent : Int) : Decimal :=
  let size := magnitude mantissa exponent
  ((List.range 17).findSome? fun (n : Nat) => onGrid? mantissa exponent (size - (n + 1))).getD
    ⟨mantissa, exponent⟩

end Decimal

end CwlDescriptor

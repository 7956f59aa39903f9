set_option autoImplicit false

/-!
# Floating point numbers by their bits

A floating point number of the documents is a 64 bit word of the interchange format. All
conversions are exact arithmetic on natural numbers.

## Main definitions

* `Binary64`: a word of 64 bits.
* `Binary64.decode`: what a word stands for, as a signed multiple of a power of two.
* `Binary64.ofRatio`: the word nearest to a quotient, of two equally near ones the even one.
* `Binary64.ofDecimal`: the word nearest to a decimal number.
* `Binary64.integer?`: the integer that a word stands for, if it is one.
-/

namespace CwlDescriptor

/-- A floating point number, given by the word that encodes it. -/
structure Binary64 where
  bits : UInt64
deriving DecidableEq, Repr, Inhabited

namespace Binary64

/-- What a word stands for. -/
inductive Decoded where
  | notANumber
  | infinite (negative : Bool)
  /-- The number `mantissa * 2 ^ exponent` with its sign; zero has two signs. -/
  | finite (negative : Bool) (mantissa : Nat) (exponent : Int)
deriving DecidableEq, Repr

/-- The decoded word: a sign bit, eleven bits of exponent and fifty-two bits of fraction. -/
def decode (x : Binary64) : Decoded :=
  let n : Nat := x.bits.toNat
  let negative := n / Nat.pow 2 63 % 2 == 1
  let biased : Nat := n / Nat.pow 2 52 % 2048
  let fraction : Nat := n % Nat.pow 2 52
  if biased = 2047 then
    if fraction = 0 then .infinite negative else .notANumber
  else if biased = 0 then .finite negative fraction (-1074)
  else .finite negative (Nat.pow 2 52 + fraction) ((biased : Int) - 1075)

/-- The word with the given sign and the given lower 63 bits. -/
def ofMagnitude (negative : Bool) (magnitude : Nat) : Binary64 :=
  ⟨UInt64.ofNat ((if negative then Nat.pow 2 63 else 0) + magnitude)⟩

/-- The lower 63 bits of the two infinities. -/
def infinityMagnitude : Nat := 2047 * Nat.pow 2 52

/-- The infinity of the given sign. -/
def infinity (negative : Bool) : Binary64 := ofMagnitude negative infinityMagnitude

/-- The one value used for what is not a number. -/
def nan : Binary64 := ofMagnitude false (infinityMagnitude + Nat.pow 2 51)

/-- The zero of the given sign. -/
def zero (negative : Bool) : Binary64 := ofMagnitude negative 0

/-- The quotient rounded to the nearest integer; a half goes to the even neighbour. -/
def roundHalfEven (num den : Nat) : Nat :=
  let quotient := num / den
  let double := 2 * (num % den)
  if double < den then quotient
  else if den < double then quotient + 1
  else quotient + quotient % 2

/-- The numerator and denominator of `num / den` in units of `2 ^ exponent`. -/
def inUnits (num den : Nat) (exponent : Int) : Nat × Nat :=
  if 0 ≤ exponent then (num, den * Nat.pow 2 exponent.toNat)
  else (num * Nat.pow 2 (-exponent).toNat, den)

/-- The word nearest to `num / den` with the given sign. The exponent is chosen so that the
mantissa has 53 bits, or is the least one; a quotient beyond the largest number is infinite. -/
def ofRatio (negative : Bool) (num den : Nat) : Binary64 :=
  if num = 0 then zero negative else
  let size : Int := (num.log2 : Int) - den.log2
  let least := max (size - 53) (-1074)
  let (num₀, den₀) := inUnits num den least
  let exponent := if Nat.pow 2 53 ≤ num₀ / den₀ then least + 1 else least
  let (num₁, den₁) := inUnits num den exponent
  let mantissa := roundHalfEven num₁ den₁
  let magnitude :=
    if mantissa < Nat.pow 2 52 then mantissa
    else (exponent + 1075).toNat * Nat.pow 2 52 + (mantissa - Nat.pow 2 52)
  ofMagnitude negative (min magnitude infinityMagnitude)

/-- The word nearest to `digits * 10 ^ exponent` with the given sign. -/
def ofDecimal (negative : Bool) (digits : Nat) (exponent : Int) : Binary64 :=
  let size := exponent + (Nat.toDigits 10 digits).length
  if digits = 0 || size < -400 then zero negative
  else if 400 < size then infinity negative
  else if 0 ≤ exponent then ofRatio negative (digits * Nat.pow 10 exponent.toNat) 1
  else ofRatio negative digits (Nat.pow 10 (-exponent).toNat)

/-- The word nearest to an integer, unless that word is infinite. -/
def ofInt? (i : Int) : Option Binary64 :=
  let x := ofRatio (i < 0) i.natAbs 1
  match x.decode with
  | .finite .. => some x
  | _ => none

/-- The integer that a word stands for, if it is one. -/
def integer? (x : Binary64) : Option Int :=
  match x.decode with
  | .finite negative mantissa exponent =>
    let signed : Int := if negative then -mantissa else mantissa
    if 0 ≤ exponent then some (signed * Nat.pow 2 exponent.toNat)
    else
      let unit := Nat.pow 2 (-exponent).toNat
      if mantissa % unit = 0 then some (signed / unit) else none
  | _ => none

/-- The number with the other sign. -/
def negate (x : Binary64) : Binary64 :=
  if x = nan then nan else ⟨x.bits ^^^ 0x8000000000000000⟩

/-- The sum, rounded to the nearest word. -/
def add (x y : Binary64) : Binary64 :=
  let sum := (Float.ofBits x.bits + Float.ofBits y.bits)
  if sum.isNaN then nan else ⟨sum.toBits⟩

/-- The product, rounded to the nearest word. -/
def mul (x y : Binary64) : Binary64 :=
  let product := (Float.ofBits x.bits * Float.ofBits y.bits)
  if product.isNaN then nan else ⟨product.toBits⟩

end Binary64

end CwlDescriptor

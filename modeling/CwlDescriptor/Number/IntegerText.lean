import CwlDescriptor.Number.FloatText
set_option autoImplicit false

/-!
# The text of integers

Integers of more than `Integer.maxDigits` decimal digits are neither read nor written in decimal
notation; the bound keeps the cost of a conversion small. Bases that are powers of two have no
such bound.

## Main definitions

* `Integer.text?`: the decimal text of an integer.
* `Integer.read?`: the integer that a text names in a base.
-/

namespace CwlDescriptor.Integer

open CwlDescriptor.Text

/-- The greatest number of decimal digits that are converted. -/
def maxDigits : Nat := 4300

/-- The decimal digits of a number. -/
def digits (n : Nat) : List Char := Nat.toDigits 10 n

/-- The decimal text of an integer, whatever its length. -/
def text (i : Int) : String :=
  String.ofList (if i < 0 then '-' :: digits i.natAbs else digits i.natAbs)

/-- The decimal text of an integer, if it does not have too many digits. -/
def text? (i : Int) : Option String :=
  if maxDigits < (digits i.natAbs).length then none else some (text i)

/-- The letter that marks a number of the base, behind a leading zero. -/
def marker? (base : Nat) : Option Char :=
  if base = 2 then some 'b' else if base = 8 then some 'o' else if base = 16 then some 'x' else none

/-- The text behind the mark of the base, if it has one: a zero and a letter. One underscore may
follow the mark. -/
def dropMarker (base : Nat) : List Char → List Char
  | zero :: c :: rest =>
    if decimalDigit? zero = some 0 && marker? base = some c.toLower then
      match rest with
      | '_' :: rest => rest
      | rest => rest
    else zero :: c :: rest
  | s => s

/-- The values of the digits of a text that consists of digits, single underscores being allowed
between them; `afterDigit` says whether a digit was just read. -/
def readDigits? (base : Nat) (afterDigit : Bool) : List Char → Option (List Nat)
  | [] => if afterDigit then some [] else none
  | '_' :: rest => if afterDigit then readDigits? base false rest else none
  | c :: rest =>
    match digit? base c with
    | none => none
    | some d => (readDigits? base true rest).map (d :: ·)

/-- The number with the given digits in a base. -/
def ofDigits (base : Nat) (digits : List Nat) : Nat :=
  digits.foldl (fun n d => base * n + d) 0

/-- The integer that a text names in a base; blanks may surround it, a sign may lead, and the mark
of the base may follow the sign. -/
def read? (base : Nat) (s : List Char) : Option Int := do
  let (negative, magnitude) := Binary64.cutSign (trim isNumberBlank s)
  let digits ← readDigits? base false (dropMarker base magnitude)
  if base = 10 && maxDigits < digits.length then none
  let n : Int := ofDigits base digits
  return if negative then -n else n

end CwlDescriptor.Integer

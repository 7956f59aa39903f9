import CwlDescriptor.Number.Shortest
import CwlDescriptor.Text.Blank
import CwlDescriptor.Text.Cut
import CwlDescriptor.Text.Digit
set_option autoImplicit false

/-!
# The text of floating point numbers

## Main definitions

* `Binary64.text`: the shortest digits that read back, positional from `1e-4` to below `1e16`.
* `Binary64.read?`: the number that a decimal text names.
-/

namespace CwlDescriptor.Binary64

open CwlDescriptor.Text

/-- The digits with a point at place `point`, counted from the left, and at least one digit on
each side of it. -/
def positional (digits : List Char) (point : Int) : List Char :=
  if point ≤ 0 then '0' :: '.' :: List.replicate (-point).toNat '0' ++ digits
  else if (digits.length : Int) ≤ point then
    digits ++ List.replicate (point.toNat - digits.length) '0' ++ ['.', '0']
  else digits.take point.toNat ++ '.' :: digits.drop point.toNat

/-- One digit before the point, the others behind it, and the exponent with its sign and at least
two digits. -/
def scientific (digits : List Char) (exponent : Int) : List Char :=
  let mantissa := match digits with
    | [] => []
    | [d] => [d]
    | d :: ds => d :: '.' :: ds
  let places := Nat.toDigits 10 exponent.natAbs
  let places := if places.length < 2 then '0' :: places else places
  mantissa ++ 'e' :: (if exponent < 0 then '-' else '+') :: places

/-- The text of a positive number: positional notation begins at `1e-4` and ends below `1e16`. -/
def magnitudeText (mantissa : Nat) (exponent : Int) : List Char :=
  let decimal := Decimal.shortest mantissa exponent
  let all := Nat.toDigits 10 decimal.digits
  let digits := (all.reverse.dropWhile (· = '0')).reverse
  let point := decimal.exponent + all.length
  if -4 < point && point ≤ 16 then positional digits point else scientific digits (point - 1)

/-- The text of a number. -/
def text (x : Binary64) : String :=
  match x.decode with
  | .notANumber => "nan"
  | .infinite negative => if negative then "-inf" else "inf"
  | .finite negative mantissa exponent =>
    let magnitude := if mantissa = 0 then ['0', '.', '0'] else magnitudeText mantissa exponent
    String.ofList (if negative then '-' :: magnitude else magnitude)

/-- A leading sign, true for minus, and the text behind it. -/
def cutSign : List Char → Bool × List Char
  | '-' :: rest => (true, rest)
  | '+' :: rest => (false, rest)
  | rest => (false, rest)

/-- The values of the leading decimal digits, and the text behind them. -/
def cutDigits : List Char → List Nat × List Char
  | [] => ([], [])
  | c :: rest =>
    match decimalDigit? c with
    | none => ([], c :: rest)
    | some d =>
      let (ds, rest) := cutDigits rest
      (d :: ds, rest)

/-- The number with the given decimal digits. -/
def ofDigits (digits : List Nat) : Nat :=
  digits.foldl (fun n d => 10 * n + d) 0

/-- The exponent at the end of a decimal text: nothing, or a letter, a sign and digits. -/
def readExponent? : List Char → Option Int
  | [] => some 0
  | c :: rest =>
    if c = 'e' || c = 'E' then
      let (negative, rest) := cutSign rest
      match cutDigits rest with
      | ([], _) => none
      | (digits, []) =>
        let exponent : Int := ofDigits digits
        some (if negative then -exponent else exponent)
      | _ => none
    else none

/-- The number named by a text without sign: a word for infinity or for what is not a number, in
any case, or digits with an optional point and an optional exponent. -/
def readMagnitude? (negative : Bool) (s : List Char) : Option Binary64 :=
  if lower s = "inf".toList || lower s = "infinity".toList then some (infinity negative)
  else if lower s = "nan".toList then some nan
  else
    let (whole, rest) := cutDigits s
    let (fraction, rest) := match rest with
      | '.' :: rest => cutDigits rest
      | rest => ([], rest)
    if whole.isEmpty && fraction.isEmpty then none
    else (readExponent? rest).map fun exponent =>
      ofDecimal negative (ofDigits (whole ++ fraction)) (exponent - fraction.length)

/-- The number that a text names; blanks may surround it, and a sign may lead. -/
def read? (s : List Char) : Option Binary64 :=
  let (negative, magnitude) := cutSign (trim isNumberBlank s)
  readMagnitude? negative magnitude

end CwlDescriptor.Binary64

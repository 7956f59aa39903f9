import CwlDescriptor.Text.Half
import CwlDescriptor.Text.Printable
set_option autoImplicit false

/-!
# Quoted texts

How a text or a string of bytes is shown inside a message: between single quotes, or between
double quotes if that saves escaping, with escapes for everything that cannot be printed.

## Main definitions

* `Text.hexDigits`: a number in lower case hexadecimal digits of a fixed width.
* `Text.quote`: a text between quotes.
* `Text.quoteBytes`: a string of bytes between quotes, marked by a leading letter.
-/

namespace CwlDescriptor.Text

/-- The lower case digit with the given value below sixteen. -/
def hexDigit (n : Nat) : Char :=
  Char.ofNat (if n < 10 then 48 + n else 87 + n)

/-- The last `width` hexadecimal digits of a number. -/
def hexDigits : Nat → Nat → List Char
  | 0, _ => []
  | width + 1, n => hexDigits width (n / 16) ++ [hexDigit (n % 16)]

/-- The quote around a text: the double one only if it saves escaping a single one. -/
def quoteSign (s : List Char) : Char :=
  if s.contains '\'' && !s.contains '"' then '"' else '\''

/-- A code point between two quotes: the quote and the backslash are escaped, the usual control
characters have letters, and other unprintable code points have two, four or eight hexadecimal
digits. -/
def quoteCode (sign : Char) (code : Nat) : List Char :=
  if code = sign.toNat || code = '\\'.toNat then ['\\', Char.ofNat code]
  else if code = '\n'.toNat then ['\\', 'n']
  else if code = '\t'.toNat then ['\\', 't']
  else if code = '\r'.toNat then ['\\', 'r']
  else if isPrintable code then [Char.ofNat code]
  else if code < 0x100 then '\\' :: 'x' :: hexDigits 2 code
  else if code < 0x10000 then '\\' :: 'u' :: hexDigits 4 code
  else '\\' :: 'U' :: hexDigits 8 code

/-- The text between quotes. -/
def quote (s : String) : String :=
  let sign := quoteSign s.toList
  String.ofList (sign :: (codes s).flatMap (quoteCode sign) ++ [sign])

/-- The bytes between quotes behind the letter b; the bytes of the printable characters of ASCII
stand for these characters, all others have two hexadecimal digits. -/
def quoteBytes (bytes : List UInt8) : String :=
  let sign := quoteSign (bytes.map fun b => Char.ofNat b.toNat)
  let body := bytes.flatMap fun b =>
    if b.toNat < 127 then quoteCode sign b.toNat else '\\' :: 'x' :: hexDigits 2 b.toNat
  String.ofList ('b' :: sign :: body ++ [sign])

end CwlDescriptor.Text

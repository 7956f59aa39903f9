set_option autoImplicit false

/-!
# Bytes written as text

Four characters of an alphabet of 64 stand for three bytes, and equals signs fill up the last
group. Other characters are passed over.

## Main definitions

* `Text.decodeBase64?`: the bytes that a text stands for.
-/

namespace CwlDescriptor.Text

/-- The value of a character of the alphabet. -/
def sextet? (c : Char) : Option Nat :=
  if c.isUpper then some (c.toNat - 65)
  else if c.isLower then some (c.toNat - 71)
  else if c.isDigit then some (c.toNat + 4)
  else if c = '+' then some 62
  else if c = '/' then some 63
  else none

/-- The bytes of the rest of a text. `place` is the number of characters of the present group,
`carry` the bits of them that are not in a byte yet, and `pads` the number of equals signs since the
last character. A group that is filled up ends the text; the text must not end within a group. -/
def decodeSextets (place carry pads : Nat) : List Char → Option (List UInt8)
  | [] => if place = 0 then some [] else none
  | '=' :: rest =>
    if place < 2 then decodeSextets place carry pads rest
    else if 4 ≤ place + pads + 1 then some []
    else decodeSextets place carry (pads + 1) rest
  | c :: rest =>
    match sextet? c with
    | none => decodeSextets place carry pads rest
    | some d =>
      match place with
      | 0 => decodeSextets 1 d 0 rest
      | 1 => (decodeSextets 2 (d % 16) 0 rest).map (UInt8.ofNat (carry * 4 + d / 16) :: ·)
      | 2 => (decodeSextets 3 (d % 4) 0 rest).map (UInt8.ofNat (carry * 16 + d / 4) :: ·)
      | _ => (decodeSextets 0 0 0 rest).map (UInt8.ofNat (carry * 64 + d) :: ·)

/-- The bytes that a text stands for. -/
def decodeBase64? (s : List Char) : Option (List UInt8) :=
  decodeSextets 0 0 0 s

end CwlDescriptor.Text

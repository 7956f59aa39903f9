import CwlDescriptor.Expansion.Basic
import CwlDescriptor.Json.Reading
set_option autoImplicit false

/-!
# The configuration

The limits of an expansion are configured by a JSON object. Missing limits have their default
values, and unknown fields are ignored. A limit may be overridden.

## Main definitions

* `ConfigurationFault`: why a configuration is refused.
* `Json.integer?`: the integer that a value stands for.
* `Limits.ofJson`, `Limits.read`: the configured limits.
* `LimitOverrides`, `Limits.override`: limits that are given otherwise.
-/

namespace CwlDescriptor

/-- Why a configuration is refused. -/
inductive ConfigurationFault where
  /-- The text is not JSON. -/
  | misread (reason : Json.Misread)
  | notAnObject
  /-- A limit is no positive integer. -/
  | notALimit
deriving DecidableEq, Repr

/-! ## Integers -/

/-- The text before a point that nothing but zeros follow, or the whole text. -/
def withoutZeroFraction (s : List Char) : List Char :=
  match Text.cutFirst '.' s with
  | some (whole, fraction) => if fraction.all (· = '0') then whole else s
  | none => s

/-- The digits without the zeros in front of them. Any number of underscores may stand behind each
of these zeros. -/
def withoutLeadingZeros (s : List Char) : List Char :=
  if s.head? = some '0' then
    match s.dropWhile fun c => c = '0' || c = '_' with
    | [] => s.getLast?.toList
    | rest => rest
  else s

/-- The integer that a text names: blanks may surround it, a sign may lead, single underscores may
separate digits, and a point and zeros may follow. -/
def integerOfText? (s : List Char) : Option Int := do
  let (negative, magnitude) := Binary64.cutSign (Text.trim Text.isNumberBlank s)
  let whole := withoutLeadingZeros (withoutZeroFraction magnitude)
  if whole.any (128 ≤ ·.toNat) then none
  let digits ← Integer.readDigits? 10 false whole
  if Integer.maxDigits < digits.length then none
  let n : Int := Integer.ofDigits 10 digits
  return if negative then -n else n

/-- The integer that a value stands for. Beside integers these are truth values, floating point
numbers without fraction that fit into a word of 64 bits with sign, and texts of digits. -/
def Json.integer? : Json → Option Int
  | .int i => some i
  | .bool b => some (if b then 1 else 0)
  | .float x => x.integer?.filter fun i => -0x8000000000000000 ≤ i && i < 0x8000000000000000
  | .str s => integerOfText? s.toList
  | _ => none

/-! ## Limits -/

/-- An integer as a limit. -/
def limitOfInt (i : Int) : Except ConfigurationFault Nat :=
  if 0 < i then .ok i.toNat else .error .notALimit

/-- A value as a limit. -/
def limitOf (value : Json) : Except ConfigurationFault Nat :=
  match value.integer? with
  | some i => limitOfInt i
  | none => .error .notALimit

/-- The limit in a field of an object, or its default value. -/
def limitIn (fields : List (String × Json)) (name : String) (default : Nat) :
    Except ConfigurationFault Nat :=
  match Table.get? fields name with
  | none => .ok default
  | some value => limitOf value

namespace Limits

/-- The limits in an object. -/
def ofJson : Json → Except ConfigurationFault Limits
  | .obj fields => do
    let default : Limits := {}
    return {
      maxDepth := ← limitIn fields "max_depth" default.maxDepth
      maxCharacters := ← limitIn fields "max_char_count" default.maxCharacters
      maxFiles := ← limitIn fields "max_file_count" default.maxFiles }
  | _ => .error .notAnObject

/-- The limits in the text of a configuration. -/
def read (text : String) : Except ConfigurationFault Limits := do
  ofJson (← (Json.read text).mapError .misread)

end Limits

/-- Limits that take the place of configured ones, unless they are null. -/
structure LimitOverrides where
  maxDepth : Json := .null
  maxCharacters : Json := .null
  maxFiles : Json := .null
deriving Repr

/-- The limits with some of them replaced. -/
def Limits.override (l : Limits) (o : LimitOverrides) : Except ConfigurationFault Limits := do
  let replaced (old : Nat) : Json → Except ConfigurationFault Nat
    | .null => .ok old
    | new => limitOf new
  return {
    maxDepth := ← replaced l.maxDepth o.maxDepth
    maxCharacters := ← replaced l.maxCharacters o.maxCharacters
    maxFiles := ← replaced l.maxFiles o.maxFiles }

end CwlDescriptor

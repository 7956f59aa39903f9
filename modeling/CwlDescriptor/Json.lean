import CwlDescriptor.Number.Binary64
import CwlDescriptor.Number.FloatText
import CwlDescriptor.Number.IntegerText
import CwlDescriptor.Table
import CwlDescriptor.Text.Quoted
set_option autoImplicit false

/-!
# JSON

Results are written as JSON, in ASCII and with an indentation of two spaces.

## Main definitions

* `Json`: values.
* `Json.render`, `Json.text`: the text of a value.
-/

namespace CwlDescriptor

/-- A value. The fields of an object are in order. -/
inductive Json where
  | null
  | bool (b : Bool)
  | int (i : Int)
  | float (x : Binary64)
  | str (s : String)
  | arr (items : List Json)
  | obj (fields : List (String × Json))
deriving Repr, Inhabited

namespace Json

/-- A text, or null. -/
def ofOption : Option String → Json
  | none => .null
  | some s => .str s

/-! ## Writing -/

/-- The letter that stands for a control character behind a backslash. -/
def controlLetter? (code : Nat) : Option Char :=
  [(8, 'b'), (9, 't'), (10, 'n'), (12, 'f'), (13, 'r')].lookup code

/-- A code point between quotes. Code points beyond ASCII are written as one or two units of sixteen
bits. -/
def escapeCode (code : Nat) : List Char :=
  let unit (n : Nat) : List Char := '\\' :: 'u' :: Text.hexDigits 4 n
  if code = '"'.toNat || code = '\\'.toNat then ['\\', Char.ofNat code]
  else match controlLetter? code with
    | some letter => ['\\', letter]
    | none =>
      if 0x20 ≤ code && code < 0x7f then [Char.ofNat code]
      else if code < 0x10000 then unit code
      else unit (0xd800 + (code - 0x10000) / 0x400) ++ unit (0xdc00 + (code - 0x10000) % 0x400)

/-- A text between quotes. -/
def quoted (s : String) : List Char :=
  '"' :: (Text.codes s).flatMap escapeCode ++ ['"']

/-- A floating point number; those that are not finite are words. -/
def floatText (x : Binary64) : List Char :=
  match x.decode with
  | .notANumber => "NaN".toList
  | .infinite negative => (if negative then "-Infinity" else "Infinity").toList
  | .finite .. => x.text.toList

/-- The beginning of a line at a level of indentation. -/
def newLine (level : Nat) : List Char :=
  '\n' :: List.replicate (2 * level) ' '

mutual

/-- The text of a value at a level of indentation. -/
def render (level : Nat) : Json → List Char
  | .null => "null".toList
  | .bool b => (if b then "true" else "false").toList
  | .int i => (Integer.text i).toList
  | .float x => floatText x
  | .str s => quoted s
  | .arr [] => ['[', ']']
  | .arr (item :: items) =>
    '[' :: newLine (level + 1) ++ render (level + 1) item ++ renderItems (level + 1) items ++
      newLine level ++ [']']
  | .obj [] => ['\x7b', '\x7d']
  | .obj ((key, value) :: fields) =>
    '\x7b' :: newLine (level + 1) ++ quoted key ++ ':' :: ' ' :: render (level + 1) value ++
      renderFields (level + 1) fields ++ newLine level ++ ['\x7d']

/-- The texts of the further items of a list, each behind a comma. -/
def renderItems (level : Nat) : List Json → List Char
  | [] => []
  | item :: items => ',' :: newLine level ++ render level item ++ renderItems level items

/-- The texts of the further fields of an object, each behind a comma. -/
def renderFields (level : Nat) : List (String × Json) → List Char
  | [] => []
  | (key, value) :: fields =>
    ',' :: newLine level ++ quoted key ++ ':' :: ' ' :: render level value ++
      renderFields level fields

end

/-- The text of a value. -/
def text (j : Json) : String := String.ofList (render 0 j)

end Json

end CwlDescriptor

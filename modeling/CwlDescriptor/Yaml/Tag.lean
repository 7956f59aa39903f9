import CwlDescriptor.Number.FloatText
import CwlDescriptor.Text.Cut
set_option autoImplicit false

/-!
# Tags

The tag of a node names the kind of its value. A scalar that is written without a tag and without
quotes gets it from its content. Dates have no form of their own here: without a tag they are
texts.

## Main definitions

* `Yaml.Tag`: the tags with a meaning.
* `Yaml.Tag.ofName`: the tag with a given name.
* `Yaml.Tag.ofContent`: the tag of a scalar with a given content.
-/

namespace CwlDescriptor.Yaml

/-- The tags with a meaning. -/
inductive Tag where
  | null
  | bool
  | int
  | float
  | binary
  | timestamp
  | omap
  | pairs
  | set
  | str
  | seq
  | map
  /-- The key of a map whose value is merged into the map. -/
  | merge
  /-- The key of the value that stands for a whole map. -/
  | value
  /-- Any tag without a meaning. -/
  | other
deriving DecidableEq, Repr

namespace Tag

/-- What the names of tags with a meaning start with. -/
def namespaceName : String := "tag:yaml.org,2002:"

/-- The tags with a meaning and the ends of their names. -/
def names : List (String × Tag) :=
  [("null", .null), ("bool", .bool), ("int", .int), ("float", .float), ("binary", .binary),
   ("timestamp", .timestamp), ("omap", .omap), ("pairs", .pairs), ("set", .set), ("str", .str),
   ("seq", .seq), ("map", .map), ("merge", .merge), ("value", .value)]

/-- The tag with a given name. -/
def ofName (name : String) : Tag :=
  ((names.find? fun (ending, _) => name = namespaceName ++ ending).map (·.2)).getD .other

/-- The tag is that of a list, a map or a set. -/
def isCollection : Tag → Bool
  | .omap | .pairs | .set | .seq | .map => true
  | _ => false

/-! ## The forms of scalars -/

/-- The words for truth values. -/
def boolWords : List String :=
  ["yes", "Yes", "YES", "no", "No", "NO", "true", "True", "TRUE", "false", "False", "FALSE",
   "on", "On", "ON", "off", "Off", "OFF"]

/-- The words for null. -/
def nullWords : List String :=
  ["~", "null", "Null", "NULL"]

/-- A decimal digit of ASCII, or an underscore. -/
def isDigitOrUnderscore (c : Char) : Bool :=
  c.isDigit || c = '_'

/-- A digit followed by digits and underscores. -/
def isDigits : List Char → Bool
  | [] => false
  | c :: rest => c.isDigit && rest.all isDigitOrUnderscore

/-- One or two digits below sixty. -/
def isSexagesimalDigit : List Char → Bool
  | [d] => d.isDigit
  | [t, d] => '0' ≤ t && t ≤ '5' && d.isDigit
  | _ => false

/-- Digits, and behind at least one colon digits below sixty. -/
def isSexagesimal (s : List Char) : Bool :=
  match Text.splitOn ':' s with
  | first :: second :: rest => isDigits first && (second :: rest).all isSexagesimalDigit
  | _ => false

/-- The form of an integer without its sign: binary, octal, decimal, hexadecimal or in groups of
sixty. -/
def isIntMagnitude (s : List Char) : Bool :=
  (match s with
    | '0' :: 'b' :: digits =>
      !digits.isEmpty && digits.all fun c => c = '0' || c = '1' || c = '_'
    | '0' :: 'x' :: digits =>
      !digits.isEmpty && digits.all fun c =>
        isDigitOrUnderscore c || ('a' ≤ c && c ≤ 'f') || ('A' ≤ c && c ≤ 'F')
    | _ => false) ||
  (match s with
    | '0' :: digits => digits.all fun c => ('0' ≤ c && c ≤ '7') || c = '_'
    | _ => isDigits s || isSexagesimal s)

/-- The form of an integer. -/
def isInt (s : List Char) : Bool :=
  isIntMagnitude (Binary64.cutSign s).2

/-- The form of an exponent with its sign, or nothing. -/
def isExponent : List Char → Bool
  | [] => true
  | e :: sign :: digits =>
    (e = 'e' || e = 'E') && (sign = '-' || sign = '+') && !digits.isEmpty && digits.all Char.isDigit
  | _ => false

/-- The form of a number with a point, without its sign. -/
def isFloatMagnitude (s : List Char) : Bool :=
  match Text.cutFirst '.' s with
  | none => false
  | some (whole, rest) =>
    (isDigits whole && isExponent (rest.dropWhile isDigitOrUnderscore)) ||
      (isSexagesimal whole && rest.all isDigitOrUnderscore) ||
      (whole.isEmpty && ["inf", "Inf", "INF"].contains (String.ofList rest))

/-- The form of a floating point number. A number that begins with the point has no sign. -/
def isFloat (s : List Char) : Bool :=
  isFloatMagnitude (Binary64.cutSign s).2 ||
    match s with
    | '.' :: rest =>
      ["nan", "NaN", "NAN"].contains (String.ofList rest) ||
        (rest.head?.any Char.isDigit && isExponent (rest.dropWhile isDigitOrUnderscore))
    | _ => false

/-- The tag of a scalar with the given content, which is not empty. -/
def ofWord (s : List Char) : Tag :=
  let word := String.ofList s
  if boolWords.contains word then .bool
  else if isFloat s then .float
  else if isInt s then .int
  else if word = "<<" then .merge
  else if nullWords.contains word then .null
  else if word = "=" then .value
  else if word = "!" || word = "&" || word = "*" then .other
  else .str

/-- The tag of a scalar with the given content. A line feed at the end does not count, unless it is
all that there is. -/
def ofContent (s : List Char) : Tag :=
  if s.isEmpty then .null
  else
    let word := if s.getLast? = some '\n' then s.dropLast else s
    if word.isEmpty then .str else ofWord word

end Tag

end CwlDescriptor.Yaml

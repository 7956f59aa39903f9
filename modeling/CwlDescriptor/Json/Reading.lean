import CwlDescriptor.Json
set_option autoImplicit false

/-!
# Reading JSON

A text is read from left to right. Beside the standard notation, three words stand for the floating
point numbers that have none. Of several fields of an object with the same name the last one counts.

## Main definitions

* `Json.Misread`: why a text is not read.
* `Json.readText`: the rest of a text between quotes.
* `Json.readNumber`: a number.
* `Json.readValue`: a value.
* `Json.readWithin`, `Json.read`: the value of a text.
-/

namespace CwlDescriptor.Json

/-- Why a text is not read as a value. -/
inductive Misread where
  /-- The text is not well formed. -/
  | malformed
  /-- An integer has too many digits. -/
  | tooManyDigits
  /-- Lists and objects are nested in too many levels. -/
  | tooDeep
deriving DecidableEq, Repr

/-- What was read, and the text behind it. -/
abbrev Front (α : Type) := α × List Char

/-- The text without the blanks that it begins with. -/
def skipBlanks (s : List Char) : List Char :=
  s.dropWhile fun c => c = ' ' || c = '\t' || c = '\n' || c = '\r'

/-! ## Texts -/

/-- The value of a hexadecimal digit. -/
def hexDigit? (c : Char) : Option Nat :=
  if c.toNat < 128 then Text.digit? 16 c else none

/-- The unit of sixteen bits with the given four digits. -/
def unit? (a b c d : Char) : Option Nat := do
  let high := (← hexDigit? a) * 16 + (← hexDigit? b)
  return high * 256 + (← hexDigit? c) * 16 + (← hexDigit? d)

/-- The character that a letter behind a backslash stands for. -/
def escaped? (c : Char) : Option Char :=
  [('"', '"'), ('\\', '\\'), ('/', '/'), ('b', '\u0008'), ('f', '\u000c'), ('n', '\n'), ('r', '\r'),
    ('t', '\t')].lookup c

/-- The units up to the closing quote: the code points of characters, and units of sixteen bits that
are written with digits. Those in front of the text are given with the last one first. -/
def readUnits (passed : List Nat) : List Char → Except Misread (Front (List Nat))
  | [] => .error .malformed
  | '"' :: rest => .ok (passed.reverse, rest)
  | '\\' :: 'u' :: a :: b :: c :: d :: rest =>
    match unit? a b c d with
    | some unit => readUnits (unit :: passed) rest
    | none => .error .malformed
  | '\\' :: c :: rest =>
    match escaped? c with
    | some e => readUnits (e.toNat :: passed) rest
    | none => .error .malformed
  | '\uffff' :: c :: rest => readUnits (Text.ofMarked c :: passed) rest
  | c :: rest =>
    if c.toNat < 0x20 then .error .malformed else readUnits (c.toNat :: passed) rest

/-- The text with the given units. Two halves of a character that follow each other are joined. -/
def joinUnits : List Nat → List Char
  | high :: low :: rest =>
    if 0xd800 ≤ high && high < 0xdc00 && 0xdc00 ≤ low && low < 0xe000 then
      Char.ofNat (0x10000 + (high - 0xd800) * 0x400 + (low - 0xdc00)) :: joinUnits rest
    else Text.ofCode high ++ joinUnits (low :: rest)
  | [unit] => Text.ofCode unit
  | [] => []

/-- The text up to the closing quote. -/
def readText (s : List Char) : Except Misread (Front String) := do
  let (units, rest) ← readUnits [] s
  return (String.ofList (joinUnits units), rest)

/-! ## Numbers -/

/-- The digits at the beginning of a text, of which there must be one at least. -/
def readDigits (s : List Char) : Except Misread (Front (List Char)) :=
  match s.span Char.isDigit with
  | ([], _) => .error .malformed
  | (digits, rest) => .ok (digits, rest)

/-- The digits behind a point, if there is a point. -/
def readFraction : List Char → Except Misread (Front (Option (List Char)))
  | '.' :: rest => do
    let (digits, rest) ← readDigits rest
    return (some digits, rest)
  | rest => .ok (none, rest)

/-- The exponent behind its letter, if there is one. -/
def readExponent (s : List Char) : Except Misread (Front (Option Int)) :=
  match s with
  | c :: rest =>
    if c = 'e' || c = 'E' then do
      let (negative, rest) := Binary64.cutSign rest
      let (digits, rest) ← readDigits rest
      let exponent : Int := Integer.ofDigits 10 (digits.filterMap Text.decimalDigit?)
      return (some (if negative then -exponent else exponent), rest)
    else .ok (none, s)
  | [] => .ok (none, s)

/-- A number: an integer unless it has a fraction or an exponent. There are no zeros in front of
other digits. -/
def readNumber (s : List Char) : Except Misread (Front Json) := do
  let (negative, s) := match s with
    | '-' :: rest => (true, rest)
    | s => (false, s)
  let (whole, s) ← readDigits s
  if whole.head? = some '0' && whole ≠ ['0'] then throw .malformed
  let (fraction, s) ← readFraction s
  let (exponent, s) ← readExponent s
  let digits := (whole ++ fraction.getD []).filterMap Text.decimalDigit?
  let n := Integer.ofDigits 10 digits
  if fraction.isNone && exponent.isNone then
    if Integer.maxDigits < whole.length then throw .tooManyDigits
    return (.int (if negative then -n else n), s)
  else
    let places : Int := (fraction.getD []).length
    return (.float (Binary64.ofDecimal negative n (exponent.getD 0 - places)), s)

/-! ## Values -/

/-- The words that stand for values. -/
def words : List (String × Json) :=
  [("null", .null), ("true", .bool true), ("false", .bool false), ("NaN", .float Binary64.nan),
    ("Infinity", .float (Binary64.infinity false)), ("-Infinity", .float (Binary64.infinity true))]

/-- The word at the beginning of a text. -/
def readWord? (s : List Char) : Option (Json × List Char) :=
  words.findSome? fun (word, value) => (word.toList.isPrefixOf? s).map (value, ·)

/-- The greatest number of levels of lists and objects. -/
def maxLevels : Nat := 980

mutual

/-- The value at the beginning of a text, with at most `levels` levels of lists and objects. The
first argument bounds the number of steps. -/
def readValue : Nat → Nat → List Char → Except Misread (Front Json)
  | 0, _, _ => .error .malformed
  | steps + 1, levels, s =>
    match s with
    | '"' :: rest => do
      let (text, rest) ← readText rest
      return (.str text, rest)
    | '[' :: rest =>
      if levels = 0 then .error .tooDeep
      else match skipBlanks rest with
        | ']' :: rest => .ok (.arr [], rest)
        | rest => do
          let (items, rest) ← readItems steps (levels - 1) rest
          return (.arr items, rest)
    | '\x7b' :: rest =>
      if levels = 0 then .error .tooDeep
      else match skipBlanks rest with
        | '\x7d' :: rest => .ok (.obj [], rest)
        | rest => do
          let (fields, rest) ← readFields steps (levels - 1) rest
          return (.obj (Table.ofList fields), rest)
    | s =>
      match readWord? s with
      | some word => .ok word
      | none => readNumber s

/-- The items up to the closing bracket, of which there is one at least. -/
def readItems : Nat → Nat → List Char → Except Misread (Front (List Json))
  | 0, _, _ => .error .malformed
  | steps + 1, levels, s => do
    let (item, rest) ← readValue steps levels s
    match skipBlanks rest with
    | ']' :: rest => return ([item], rest)
    | ',' :: rest =>
      let (items, rest) ← readItems steps levels (skipBlanks rest)
      return (item :: items, rest)
    | _ => throw .malformed

/-- The fields up to the closing brace, of which there is one at least. -/
def readFields : Nat → Nat → List Char → Except Misread (Front (List (String × Json)))
  | 0, _, _ => .error .malformed
  | steps + 1, levels, '"' :: s => do
    let (key, rest) ← readText s
    match skipBlanks rest with
    | ':' :: rest =>
      let (value, rest) ← readValue steps levels (skipBlanks rest)
      match skipBlanks rest with
      | '\x7d' :: rest => return ([(key, value)], rest)
      | ',' :: rest =>
        let (fields, rest) ← readFields steps levels (skipBlanks rest)
        return ((key, value) :: fields, rest)
      | _ => throw .malformed
    | _ => throw .malformed
  | _, _, _ => .error .malformed

end

/-- The value of a text with a bound on the levels, which may be surrounded by blanks. Each
character is the first of two steps at most. -/
def readWithin (levels : Nat) (s : String) : Except Misread Json := do
  let chars := s.toList
  let (value, rest) ← readValue (2 * chars.length + 2) levels (skipBlanks chars)
  if skipBlanks rest = [] then return value else throw .malformed

/-- The value of a text. -/
def read (s : String) : Except Misread Json :=
  readWithin maxLevels s

end CwlDescriptor.Json

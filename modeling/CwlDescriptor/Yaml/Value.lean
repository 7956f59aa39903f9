import CwlDescriptor.Document.Node
import CwlDescriptor.Text.Base64
import CwlDescriptor.Yaml.Tree
set_option autoImplicit false

/-!
# The values of scalars

The content of a scalar is converted as its tag demands. Underscores in numbers are passed over,
and digits separated by colons are those of a number in base sixty.

## Main definitions

* `Yaml.readInteger`, `Yaml.readFloat`, `Yaml.readBool`, `Yaml.readMoment`: the conversions.
* `Yaml.readScalar`: the value of a scalar with a tag.
-/

namespace CwlDescriptor.Yaml

/-- A conversion that fails. -/
def fail {α : Type} (fault : Fault) : Except LoadError α := .error (.fault fault)

/-- The number that a text names, or a fault. -/
def number {α : Type} : Option α → Except LoadError α
  | some a => .ok a
  | none => fail .notANumber

/-- The text without underscores. -/
def dropUnderscores (s : List Char) : List Char := s.filter (· ≠ '_')

/-! ## Numbers -/

/-- An integer without its sign: binary, hexadecimal, octal if it begins with a zero, in base sixty
if there are colons, or decimal. -/
def readIntegerMagnitude (s : List Char) : Except LoadError Int :=
  match s with
  | ['0'] => .ok 0
  | '0' :: 'b' :: digits => number (Integer.read? 2 digits)
  | '0' :: 'x' :: digits => number (Integer.read? 16 digits)
  | '0' :: _ => number (Integer.read? 8 s)
  | [] => fail .emptyNumber
  | _ =>
    if s.contains ':' then do
      let digits ← number ((Text.splitOn ':' s).mapM (Integer.read? 10))
      return digits.foldl (fun n d => 60 * n + d) 0
    else number (Integer.read? 10 s)

/-- The integer that the content of a scalar names. -/
def readInteger (text : String) : Except LoadError Int := do
  let s := dropUnderscores text.toList
  if s.isEmpty then fail .emptyNumber
  else
    let (negative, magnitude) := Binary64.cutSign s
    let i ← readIntegerMagnitude magnitude
    return if negative then -i else i

/-- The sum of digits in base sixty, the last digit first; `sum` is the sum of the digits before,
and `base` the value of the place. -/
def sumSexagesimal (sum : Binary64) (base : Int) : List Binary64 → Except LoadError Binary64
  | [] => .ok sum
  | digit :: digits =>
    match Binary64.ofInt? base with
    | none => fail .tooLarge
    | some place => sumSexagesimal (sum.add (digit.mul place)) (base * 60) digits

/-- The floating point number that the content of a scalar names. -/
def readFloat (text : String) : Except LoadError Scalar := do
  let s := Text.lower (dropUnderscores text.toList)
  if s.isEmpty then fail .emptyNumber
  else
    let (negative, magnitude) := Binary64.cutSign s
    if magnitude = ".nan".toList then return .notANumber
    let x ←
      if magnitude = ".inf".toList then pure (Binary64.infinity false)
      else if magnitude.contains ':' then do
        let digits ← number ((Text.splitOn ':' magnitude).mapM Binary64.read?)
        sumSexagesimal (.zero false) 1 digits.reverse
      else number (Binary64.read? magnitude)
    return .float (if negative then x.negate else x)

/-! ## Truth values -/

/-- The truth value that the content of a scalar names. -/
def readBool (text : String) : Except LoadError Bool :=
  let word := String.ofList (Text.lower text.toList)
  if word = "yes" || word = "true" || word = "on" then .ok true
  else if word = "no" || word = "false" || word = "off" then .ok false
  else fail .notABoolean

/-! ## Dates and times -/

/-- The number with the given digits of ASCII. -/
def decimal (digits : List Char) : Nat :=
  digits.foldl (fun n c => 10 * n + (c.toNat - 48)) 0

/-- Cuts a number of one or two digits off. -/
def cutShort : List Char → Option (Nat × List Char)
  | a :: b :: rest =>
    if a.isDigit then
      if b.isDigit then some (decimal [a, b], rest) else some (decimal [a], b :: rest)
    else none
  | [a] => if a.isDigit then some (decimal [a], []) else none
  | [] => none

/-- Cuts a number of two digits off. -/
def cutTwo : List Char → Option (Nat × List Char)
  | a :: b :: rest => if a.isDigit && b.isDigit then some (decimal [a, b], rest) else none
  | _ => none

/-- Cuts a character off. -/
def cutChar (c : Char) : List Char → Option (List Char)
  | a :: rest => if a = c then some rest else none
  | [] => none

/-- The end of the text, or a line feed at its end. -/
def isTextEnd (s : List Char) : Bool :=
  s = [] || s = ['\n']

/-- The offset at the end of a time: none, the letter Z, or a sign with hours and perhaps
minutes. -/
def readOffset? (s : List Char) : Option (Option Int) :=
  if isTextEnd s then some none
  else
    match s.dropWhile isSpaceOrTab with
    | 'Z' :: rest => if isTextEnd rest then some (some 0) else none
    | sign :: rest => do
      if sign ≠ '+' && sign ≠ '-' then none
      let (hours, rest) ← cutShort rest
      let (minutes, rest) ← match rest with
        | ':' :: rest => cutTwo rest
        | rest => some (0, rest)
      let offset : Int := 60 * hours + minutes
      if isTextEnd rest then some (some (if sign = '-' then -offset else offset)) else none
    | [] => none

/-- The time behind a date: a letter T or blanks, hour, minute and second, a fraction of which six
digits count, and an offset. -/
def readTime? (s : List Char) : Option TimeOfDay := do
  let rest ← match s with
    | c :: rest =>
      if c = 'T' || c = 't' then some rest
      else if isSpaceOrTab c then some (rest.dropWhile isSpaceOrTab)
      else none
    | [] => none
  let (hour, rest) ← cutShort rest
  let (minute, rest) ← cutTwo (← cutChar ':' rest)
  let (second, rest) ← cutTwo (← cutChar ':' rest)
  let (fraction, rest) := match rest with
    | '.' :: rest => rest.span Char.isDigit
    | rest => ([], rest)
  let digits := fraction.take 6
  let offset ← readOffset? rest
  return ⟨hour, minute, second, decimal digits * Nat.pow 10 (6 - digits.length), offset⟩

/-- A date of year, month and day, with an optional time. -/
def readParts? (s : List Char) : Option (Date × Option TimeOfDay) := do
  let year := s.take 4
  if year.length ≠ 4 || !year.all Char.isDigit then none
  let (month, rest) ← cutShort (← cutChar '-' (s.drop 4))
  let (day, rest) ← cutShort (← cutChar '-' rest)
  let date : Date := ⟨decimal year, month, day⟩
  if isTextEnd rest then return (date, none)
  else
    let time ← readTime? rest
    return (date, some time)

/-- The date or time that the content of a scalar names; it must exist. -/
def readMoment (text : String) : Except LoadError Scalar :=
  match readParts? text.toList with
  | none => fail .notADate
  | some (d, none) => if d.isValid then .ok (.date d) else fail .noSuchDate
  | some (d, some t) => if d.isValid && t.isValid then .ok (.time d t) else fail .noSuchDate

/-! ## Scalars -/

/-- The bytes that the content of a scalar stands for. -/
def readBytes (text : String) : Except LoadError (List UInt8) :=
  if text.toList.all (·.toNat < 128) then
    match Text.decodeBase64? text.toList with
    | some bytes => .ok bytes
    | none => .error .invalid
  else .error .invalid

/-- The value of a scalar with the given tag and content. -/
def readScalar : Tag → String → Except LoadError Scalar
  | .null, _ => .ok .null
  | .bool, text => (readBool text).map .bool
  | .int, text => (readInteger text).map .int
  | .float, text => readFloat text
  | .binary, text => (readBytes text).map .bytes
  | .timestamp, text => readMoment text
  | .str, text => .ok (.str text)
  | _, _ => .error .invalid

namespace Tree

mutual

/-- The content of a node as a scalar: its text, or in a map the content of the value whose key
stands for the whole map. -/
def content : Tree → Except LoadError String
  | .scalar _ text => .ok text
  | .sequence .. => .error .invalid
  | .mapping _ pairs => contentOfPairs pairs

/-- The content of the first value whose key stands for the whole map. -/
def contentOfPairs : List (Tree × Tree) → Except LoadError String
  | [] => .error .invalid
  | (k, v) :: pairs => if k.tag = .value then content v else contentOfPairs pairs

end

/-- The value of a node whose tag is that of a scalar. -/
def toScalar (t : Tree) : Except LoadError Scalar := do
  let text ← t.content
  match t with
  | .mapping .timestamp _ => fail .dateIsAMap
  | _ => readScalar t.tag text

end Tree

end CwlDescriptor.Yaml

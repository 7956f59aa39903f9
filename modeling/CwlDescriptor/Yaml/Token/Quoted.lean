import CwlDescriptor.Text.Half
import CwlDescriptor.Yaml.Token
set_option autoImplicit false

/-!
# Scalars between quotes

Single quotes are doubled inside single quotes; the backslash starts an escape inside double
quotes. A line break stands for a space, and further empty lines for line breaks.

## Main definitions

* `Yaml.joinLines`: what a line break and the empty lines after it stand for.
* `Yaml.readQuoted`: the scalar between quotes at a cursor.
-/

namespace CwlDescriptor.Yaml

/-- What a line break and the breaks of the empty lines behind it stand for: a line feed alone is a
space, and is nothing before empty lines; other breaks stay. -/
def joinLines (first : Char) (others : List Char) : List Char :=
  if first ≠ '\n' then first :: others
  else if others.isEmpty then [' '] else others

/-- The code point that a letter behind a backslash stands for. -/
def escapeLetter? (c : Char) : Option Nat :=
  match c with
  | '0' => some 0
  | 'a' => some 7
  | 'b' => some 8
  | 't' => some 9
  | '\t' => some 9
  | 'n' => some 10
  | 'v' => some 11
  | 'f' => some 12
  | 'r' => some 13
  | 'e' => some 27
  | ' ' => some 32
  | '"' => some 34
  | '\\' => some 92
  | '/' => some 47
  | 'N' => some 0x85
  | '_' => some 0xa0
  | 'L' => some 0x2028
  | 'P' => some 0x2029
  | _ => none

/-- The number of hexadecimal digits behind a letter that introduces a code point. -/
def escapeWidth? (c : Char) : Option Nat :=
  match c with
  | 'x' => some 2
  | 'u' => some 4
  | 'U' => some 8
  | _ => none

/-- The value of a hexadecimal digit of ASCII. -/
def hexValue? (c : Char) : Option Nat :=
  if c.isDigit then some (c.toNat - 48)
  else if 'a' ≤ c && c ≤ 'f' then some (c.toNat - 87)
  else if 'A' ≤ c && c ≤ 'F' then some (c.toNat - 55)
  else none

/-- The number with the given hexadecimal digits. -/
def hexNumber? (digits : List Char) : Option Nat :=
  (digits.mapM hexValue?).map (·.foldl (fun n d => 16 * n + d) 0)

/-- The breaks of the empty lines at the cursor, with the blanks around them; a mark of a document
must not be among them. The first argument bounds the number of lines. -/
def quotedBreaks : Nat → Cursor → List Char → Except LoadError (List Char × Cursor)
  | 0, _, _ => .error .invalid
  | n + 1, c, passed =>
    if c.atDocumentMark then .error .invalid
    else
      let c := c.dropWhile isSpaceOrTab
      match c.lineBreak with
      | some (b, c) => quotedBreaks n c (b :: passed)
      | none => .ok (passed.reverse, c)

/-- The characters that the escape behind a backslash stands for. -/
def readEscape (bound : Nat) (c : Cursor) : Except LoadError (List Char × Cursor) :=
  match c.peek with
  | none => .error .invalid
  | some letter =>
    match escapeLetter? letter, escapeWidth? letter with
    | some code, _ => .ok ([Char.ofNat code], c.next)
    | none, some width =>
      let digits := c.next.rest.take width
      if digits.length < width then .error .invalid
      else match hexNumber? digits with
        | none => .error .invalid
        | some code =>
          if 0x7fffffff < code then .error (.fault .tooLarge)
          else if 0x10ffff < code then .error (.fault .noSuchCharacter)
          else .ok (Text.ofCode code, c.next.skip width)
    | none, none =>
      match c.lineBreak with
      | none => .error .invalid
      | some (_, c) => quotedBreaks bound c []

/-- The text up to the closing quote, put in front of `passed` in reverse order, and the cursor
behind the quote. The first argument bounds the number of steps. -/
def quotedRest (double : Bool) : Nat → Cursor → List Char → Except LoadError (List Char × Cursor)
  | 0, _, _ => .error .invalid
  | n + 1, c, passed =>
    match c.peek with
    | none => .error .invalid
    | some ch =>
      if isSpaceOrTab ch || isBreak ch then
        let (blanks, c) := c.spanWhile isSpaceOrTab
        match c.lineBreak with
        | some (first, c) => do
          let (others, c) ← quotedBreaks n c []
          quotedRest double n c ((joinLines first others).reverse ++ passed)
        | none => quotedRest double n c (blanks.reverse ++ passed)
      else if ch = '"' && double then .ok (passed, c.next)
      else if ch = '\'' && !double then
        if c.peekAt 1 = some '\'' then quotedRest double n (c.skip 2) (ch :: passed)
        else .ok (passed, c.next)
      else if ch = '\\' && double then do
        let (chars, c) ← readEscape n c.next
        quotedRest double n c (chars.reverse ++ passed)
      else quotedRest double n c.next (ch :: passed)

/-- The scalar between the quotes at the cursor. -/
def readQuoted (double : Bool) (c : Cursor) : Except LoadError (String × Cursor) := do
  let (chars, stop) ← quotedRest double (c.rest.length + 1) c.next []
  return (String.ofList chars.reverse, stop)

end CwlDescriptor.Yaml

import CwlDescriptor.Number.IntegerText
import CwlDescriptor.Text.Utf8
import CwlDescriptor.Yaml.Token.Block
set_option autoImplicit false

/-!
# Names, tags and directives

## Main definitions

* `Yaml.readName`: the name behind the sign of an anchor or an alias.
* `Yaml.readTag`: the tag at a cursor.
* `Yaml.readDirective`: the directive at a cursor.
-/

namespace CwlDescriptor.Yaml

/-- The name behind the sign at the cursor, which must end there. -/
def readName (c : Cursor) : Except LoadError (String × Cursor) :=
  let (name, c) := c.next.spanWhile isWordChar
  if name.isEmpty then .error .invalid
  else if isGap c.peek || c.peek.any "?:,]\x7d%@\u0060".toList.contains then
    .ok (String.ofList name, c)
  else .error .invalid

/-- A character of a tag that stands for itself. -/
def isUriChar (c : Char) : Bool :=
  c.isAlphanum || "-;/?:@&=+$,_.!~*'()[]".toList.contains c

/-- The bytes of the escapes at the beginning of a text, each a percent sign and two hexadecimal
digits, and their number. -/
def uriEscapes : List Char → Option (List UInt8 × Nat)
  | '%' :: high :: low :: rest => do
    let h ← hexValue? high
    let l ← hexValue? low
    let (bytes, count) ← uriEscapes rest
    return (UInt8.ofNat (16 * h + l) :: bytes, count + 1)
  | '%' :: _ => none
  | _ => some ([], 0)

/-- The characters of a tag at the cursor, with the escapes replaced by the text that they encode.
The first argument bounds the number of steps. -/
def uriOnto : Nat → Cursor → List Char → Except LoadError (List Char × Cursor)
  | 0, _, _ => .error .invalid
  | n + 1, c, passed =>
    match c.peek with
    | some '%' =>
      match uriEscapes c.rest with
      | none => .error .invalid
      | some (bytes, count) =>
        match Text.decodeUtf8? bytes with
        | none => .error .invalid
        | some text => uriOnto n (c.skip (3 * count)) (text.toList.reverse ++ passed)
    | some ch => if isUriChar ch then uriOnto n c.next (ch :: passed) else .ok (passed, c)
    | none => .ok (passed, c)

/-- The characters of a tag at the cursor; there must be at least one. -/
def readUri (c : Cursor) : Except LoadError (String × Cursor) := do
  let (passed, stop) ← uriOnto (c.rest.length + 1) c []
  if passed.isEmpty then .error .invalid else return (String.ofList passed.reverse, stop)

/-- The handle at the cursor: an exclamation mark, followed by a space or by a word and another
exclamation mark. -/
def readHandle (c : Cursor) : Except LoadError (String × Cursor) :=
  if c.peek ≠ some '!' then .error .invalid
  else if c.peekAt 1 = some ' ' then .ok ("!", c.next)
  else
    let (word, stop) := c.next.spanWhile isWordChar
    if stop.peek = some '!' then .ok (String.ofList ('!' :: word ++ ['!']), stop.next)
    else .error .invalid

/-- The tag at the cursor: a whole one between angle brackets, an exclamation mark alone, or a
handle and a suffix. -/
def readTag (c : Cursor) : Except LoadError (Token × Cursor) := do
  let (token, c) ←
    if c.peekAt 1 = some '<' then do
      let (suffix, c) ← readUri (c.skip 2)
      if c.peek = some '>' then pure (Token.tag none suffix, c.next) else .error .invalid
    else if isGap (c.peekAt 1) then pure (Token.tag none "!", c.next)
    else do
      let word := c.next.rest.takeWhile (fun ch => !isSpaceOrEnd (some ch))
      let (handle, c) ← if word.contains '!' then readHandle c else pure ("!", c.next)
      let (suffix, c) ← readUri c
      pure (Token.tag (some handle) suffix, c)
  if isSpaceOrEnd c.peek then return (token, c) else .error .invalid

/-- The number at the cursor. -/
def readNumber (c : Cursor) : Except LoadError (Nat × Cursor) :=
  let (digits, c) := c.spanWhile Char.isDigit
  if digits.isEmpty then .error .invalid
  else match Integer.read? 10 digits with
    | none => .error (.fault .notANumber)
    | some i => .ok (i.toNat, c)

/-- The directive at the cursor: a version, the meaning of a handle, or a reserved one. -/
def readDirective (c : Cursor) : Except LoadError (Directive × Cursor) := do
  let (name, c) := c.next.spanWhile isWordChar
  if name.isEmpty || !isSpaceOrEnd c.peek then .error .invalid
  else
    let (directive, c) ←
      if name = "YAML".toList then do
        let (major, c) ← readNumber (c.dropWhile (· = ' '))
        if c.peek ≠ some '.' then .error .invalid
        else
          let (minor, c) ← readNumber c.next
          if isSpaceOrEnd c.peek then pure (Directive.version major minor, c) else .error .invalid
      else if name = "TAG".toList then do
        let (handle, c) ← readHandle (c.dropWhile (· = ' '))
        if c.peek ≠ some ' ' then .error .invalid
        else
          let (start, c) ← readUri (c.dropWhile (· = ' '))
          if isSpaceOrEnd c.peek then pure (Directive.tag handle start, c) else .error .invalid
      else pure (Directive.reserved, c.dropWhile (!isBreak ·))
    let c ← skipIgnoredLine c
    return (directive, c)

end CwlDescriptor.Yaml

import CwlDescriptor.Error
set_option autoImplicit false

/-!
# Reading a text character by character

A cursor is the rest of a text together with the position of its first character, counted in
characters, lines and columns.

## Main definitions

* `Yaml.isBreak`, `Yaml.isGap` and others: the classes of characters that the notation is
  made of. The end of the text is represented by `none`.
* `Yaml.Cursor`: the rest of a text and its position.
* `Yaml.Cursor.next`, `Yaml.Cursor.spanWhile`, `Yaml.Cursor.lineBreak`: steps of a cursor.
* `Yaml.Position.place`: a position as it is reported, with an excerpt of the text.
-/

namespace CwlDescriptor.Yaml

/-! ## Classes of characters -/

/-- A line break: line feed, carriage return, next line, line separator, paragraph separator. -/
def isBreak (c : Char) : Bool :=
  c = '\n' || c = '\r' || c = '\u0085' || c = '\u2028' || c = '\u2029'

/-- A space or a tab. -/
def isSpaceOrTab (c : Char) : Bool :=
  c = ' ' || c = '\t'

/-- The end of the text, or a line break. -/
def isLineEnd : Option Char → Bool
  | none => true
  | some c => isBreak c

/-- The end of the text, a line break, or a space. -/
def isSpaceOrEnd : Option Char → Bool
  | none => true
  | some c => isBreak c || c = ' '

/-- The end of the text, a line break, a space, or a tab. -/
def isGap : Option Char → Bool
  | none => true
  | some c => isBreak c || isSpaceOrTab c

/-- A letter or digit of ASCII, a hyphen, or an underscore. -/
def isWordChar (c : Char) : Bool :=
  c.isAlphanum || c = '-' || c = '_'

/-- A character that separates the items of flow collections. -/
def isFlowMark (c : Char) : Bool :=
  c = ',' || c = '[' || c = ']' || c = '\x7b' || c = '\x7d'

/-- The characters that a text may hold: the tab, the line breaks, and everything but the control
characters, surrogates and the last two of the basic plane. -/
def isAllowed (c : Char) : Bool :=
  let n := c.toNat
  n = 9 || n = 10 || n = 13 || (0x20 ≤ n && n ≤ 0x7e) || n = 0x85 || (0xa0 ≤ n && n ≤ 0xd7ff) ||
    (0xe000 ≤ n && n ≤ 0xfffd) || 0x10000 ≤ n

/-! ## Positions -/

/-- A position in a text: the number of characters and lines before it, and the column. -/
structure Position where
  index : Nat
  line : Nat
  column : Nat
deriving DecidableEq, Repr, Inhabited

namespace Position

/-- The first position of a text. -/
def start : Position := ⟨0, 0, 0⟩

/-- The position behind a character, given the text that follows. A carriage return before a line
feed is no line break of its own, and a byte order mark takes no column. -/
def after (p : Position) (c : Char) (following : List Char) : Position :=
  if isBreak c && !(c = '\r' && following.head? = some '\n') then ⟨p.index + 1, p.line + 1, 0⟩
  else if c = '\ufeff' then ⟨p.index + 1, p.line, p.column⟩
  else ⟨p.index + 1, p.line, p.column + 1⟩

/-- What is shown of one side of a position: the line up to its end, or thirty-two characters of
it if it goes on for more than thirty-six, and whether it was cut. -/
def excerptSide (s : List Char) : List Char × Bool :=
  let side := (s.take 37).takeWhile (!isBreak ·)
  if side.length = 37 then (side.take 32, true) else (side, false)

/-- The position as it is reported: counted from one, with an excerpt of the line. -/
def place (p : Position) (text : List Char) : Place :=
  let (before, cutBefore) := excerptSide (text.take p.index).reverse
  let (after, cutAfter) := excerptSide (text.drop p.index)
  let ellipsis (cut : Bool) : List Char := if cut then " ... ".toList else []
  let front := ellipsis cutBefore ++ before.reverse
  { line := p.line + 1
    column := p.column + 1
    excerpt := String.ofList (front ++ after ++ ellipsis cutAfter)
    before := front.length }

end Position

/-! ## Cursors -/

/-- The rest of a text, and the position of its first character. -/
structure Cursor where
  rest : List Char
  position : Position
deriving Repr, Inhabited

namespace Cursor

/-- The cursor at the beginning of a text. -/
def ofText (text : List Char) : Cursor := ⟨text, .start⟩

/-- The next character. -/
def peek (c : Cursor) : Option Char := c.rest.head?

/-- The character `n` places behind the next one. -/
def peekAt (c : Cursor) (n : Nat) : Option Char := c.rest[n]?

/-- The column of the next character. -/
def column (c : Cursor) : Nat := c.position.column

/-- The cursor behind the next character. -/
def next : Cursor → Cursor
  | ⟨[], p⟩ => ⟨[], p⟩
  | ⟨c :: rest, p⟩ => ⟨rest, p.after c rest⟩

/-- The cursor `n` characters further on. -/
def skip (c : Cursor) : Nat → Cursor
  | 0 => c
  | n + 1 => c.next.skip n

/-- Moves on while the characters satisfy `p`; the characters passed are put in front of `passed`,
the last one first. -/
def spanOnto (p : Char → Bool) (passed : List Char) : List Char → Position → List Char × Cursor
  | [], at' => (passed, ⟨[], at'⟩)
  | c :: rest, at' =>
    if p c then spanOnto p (c :: passed) rest (at'.after c rest)
    else (passed, ⟨c :: rest, at'⟩)

/-- The longest run of characters that satisfy `p`, and the cursor behind it. -/
def spanWhile (c : Cursor) (p : Char → Bool) : List Char × Cursor :=
  let (passed, c) := spanOnto p [] c.rest c.position
  (passed.reverse, c)

/-- The cursor behind the longest run of characters that satisfy `p`. -/
def dropWhile (c : Cursor) (p : Char → Bool) : Cursor :=
  (c.spanWhile p).2

/-- The character that a line break stands for: the separators of lines and paragraphs stand for
themselves, all others for a line feed. -/
def breakChar (c : Char) : Char :=
  if c = '\u2028' || c = '\u2029' then c else '\n'

/-- The line break at the cursor, if there is one; carriage return and line feed are one. -/
def lineBreak (c : Cursor) : Option (Char × Cursor) :=
  match c.rest with
  | '\r' :: '\n' :: _ => some ('\n', c.skip 2)
  | b :: _ => if isBreak b then some (breakChar b, c.next) else none
  | [] => none

/-- The cursor is at a line of three hyphens or three dots, followed by a gap. -/
def isDocumentMark (c : Cursor) (mark : Char) : Bool :=
  match c.rest with
  | a :: b :: d :: rest => a = mark && b = mark && d = mark && isGap rest.head?
  | _ => false

/-- The cursor is at the mark that begins or that ends a document. -/
def atDocumentMark (c : Cursor) : Bool :=
  c.isDocumentMark '-' || c.isDocumentMark '.'

end Cursor

end CwlDescriptor.Yaml

import CwlDescriptor.Yaml.Token.Quoted
set_option autoImplicit false

/-!
# Block scalars

A block scalar is a sequence of indented lines behind a header. Its lines are kept, or folded into
paragraphs; the header may give the indentation and what happens to the line breaks at the end.

## Main definitions

* `Yaml.Chomping`, `Yaml.BlockHeader`: the header of a block scalar.
* `Yaml.readBlock`: the block scalar at a cursor.
-/

namespace CwlDescriptor.Yaml

/-- What happens to the line breaks at the end of a block scalar. -/
inductive Chomping where
  /-- None is kept. -/
  | strip
  /-- The first one is kept. -/
  | clip
  /-- All are kept. -/
  | keep
deriving DecidableEq, Repr

/-- The header of a block scalar. -/
structure BlockHeader where
  chomping : Chomping
  /-- The indentation of the lines below that of the parent, if it is given. -/
  increment : Option Nat
deriving DecidableEq, Repr

/-- A sign of the header at the cursor. -/
def chomping? (c : Cursor) : Option Chomping :=
  match c.peek with
  | some '+' => some .keep
  | some '-' => some .strip
  | _ => none

/-- A digit of the header at the cursor; zero is an error. -/
def increment? (c : Cursor) : Except LoadError (Option Nat) :=
  match c.peek with
  | some d =>
    if d = '0' then .error .invalid
    else if d.isDigit then .ok (some (d.toNat - 48)) else .ok none
  | none => .ok none

/-- The rest of a line that may hold spaces and a comment, and the line break at its end. -/
def skipIgnoredLine (c : Cursor) : Except LoadError Cursor :=
  let c := c.dropWhile (· = ' ')
  let c := if c.peek = some '#' then c.dropWhile (!isBreak ·) else c
  if isLineEnd c.peek then
    .ok (match c.lineBreak with
      | some (_, c) => c
      | none => c)
  else .error .invalid

/-- The header of the block scalar: a sign and a digit in either order, both optional, a comment,
and the end of the line. -/
def readHeader (c : Cursor) : Except LoadError (BlockHeader × Cursor) := do
  let (header, c) ← match chomping? c with
    | some chomping => do
      let c := c.next
      match ← increment? c with
      | some d => pure (⟨chomping, some d⟩, c.next)
      | none => pure (⟨chomping, none⟩, c)
    | none => do
      match ← increment? c with
      | some d =>
        match chomping? c.next with
        | some chomping => pure (⟨chomping, some d⟩, c.next.next)
        | none => pure (⟨.clip, some d⟩, c.next)
      | none => pure ((⟨.clip, none⟩ : BlockHeader), c)
  if isSpaceOrEnd c.peek then
    let c ← skipIgnoredLine c
    return (header, c)
  else .error .invalid

/-- The breaks of the empty lines at the cursor, the greatest column that their spaces reach, and
the cursor behind the spaces of the first line with text. The first argument bounds the number of
lines. -/
def blockIndentation : Nat → Cursor → List Char → Nat → List Char × Nat × Cursor
  | 0, c, passed, greatest => (passed.reverse, greatest, c)
  | n + 1, c, passed, greatest =>
    let (spaces, c) := c.spanWhile (· = ' ')
    let greatest := if spaces.isEmpty then greatest else max greatest c.column
    match c.lineBreak with
    | some (b, c) => blockIndentation n c (b :: passed) greatest
    | none => (passed.reverse, greatest, c)

/-- Skips spaces as far as the given column. -/
def skipIndent (indent : Nat) : List Char → Position → Cursor
  | ' ' :: rest, position =>
    if position.column < indent then skipIndent indent rest (position.after ' ' rest)
    else ⟨' ' :: rest, position⟩
  | rest, position => ⟨rest, position⟩

/-- The breaks of the lines at the cursor that have no text, up to the given indentation, and the
cursor behind the indentation of the next line. The first argument bounds the number of lines. -/
def blockBreaks (indent : Nat) : Nat → Cursor → List Char → List Char × Cursor
  | 0, c, passed => (passed.reverse, c)
  | n + 1, c, passed =>
    let c := skipIndent indent c.rest c.position
    match c.lineBreak with
    | some (b, c) => blockBreaks indent n c (b :: passed)
    | none => (passed.reverse, c)

/-- The cursor is at a line of a block scalar with the given indentation. -/
def atBlockLine (indent : Nat) (c : Cursor) : Bool :=
  c.column = indent && !c.rest.isEmpty

/-- The lines at the cursor, `breaks` being the breaks of the empty lines before it: the characters
in reverse order, the break behind the last line if there is one, the breaks of the empty lines
after it, and the cursor behind these. The first argument bounds the number of lines. -/
def blockLines (folded : Bool) (indent : Nat) :
    Nat → Cursor → List Char → List Char → List Char × List Char × List Char × Cursor
  | 0, c, breaks, passed => (passed, [], breaks, c)
  | n + 1, c, breaks, passed =>
    let startsWithText := !c.peek.any isSpaceOrTab
    let (line, c) := c.spanWhile (!isBreak ·)
    let passed := line.reverse ++ (breaks.reverse ++ passed)
    let (lineBreak, c) := match c.lineBreak with
      | some (b, c) => ([b], c)
      | none => ([], c)
    let (breaks, c) := blockBreaks indent (c.rest.length + 1) c []
    if atBlockLine indent c then
      if folded && lineBreak = ['\n'] && startsWithText && !c.peek.any isSpaceOrTab then
        blockLines folded indent n c breaks (if breaks.isEmpty then ' ' :: passed else passed)
      else blockLines folded indent n c breaks (lineBreak ++ passed)
    else (passed, lineBreak, breaks, c)

/-- The block scalar at the cursor; the lines of its parent are indented by `parent` columns. -/
def readBlock (folded : Bool) (parent : Nat) (c : Cursor) :
    Except LoadError (String × Cursor) := do
  let (header, c) ← readHeader c.next
  let least := max parent 1
  let (breaks, indent, c) := match header.increment with
    | none =>
      let (breaks, greatest, c) := blockIndentation (c.rest.length + 1) c [] 0
      (breaks, max least greatest, c)
    | some increment =>
      let indent := least + increment - 1
      let (breaks, c) := blockBreaks indent (c.rest.length + 1) c []
      (breaks, indent, c)
  let (passed, lineBreak, breaks, c) :=
    if atBlockLine indent c then blockLines folded indent (c.rest.length + 1) c breaks []
    else ([], [], breaks, c)
  let ending := match header.chomping with
    | .strip => []
    | .clip => lineBreak
    | .keep => lineBreak ++ breaks
  return (String.ofList (passed.reverse ++ ending), c)

end CwlDescriptor.Yaml

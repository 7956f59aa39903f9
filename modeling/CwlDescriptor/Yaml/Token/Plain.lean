import CwlDescriptor.Yaml.Token.Quoted
set_option autoImplicit false

/-!
# Scalars without quotes

A plain scalar goes on until a character that means something else, over several lines if these
are indented.

## Main definitions

* `Yaml.startsPlain`: whether a plain scalar begins at a cursor.
* `Yaml.readPlain`: the plain scalar at a cursor.
-/

namespace CwlDescriptor.Yaml

/-- The characters that never begin a plain scalar, apart from three that do in front of text. -/
def isIndicator (c : Char) : Bool :=
  isBreak c || isSpaceOrTab c || "-?:,[]\x7b\x7d#&*!|>'\"%@\u0060".toList.contains c

/-- A plain scalar begins at the cursor: with a character that has no other meaning, or with a
hyphen, and outside of flow collections a question mark or colon, in front of text. -/
def startsPlain (inFlow : Bool) (c : Cursor) : Bool :=
  match c.peek with
  | none => false
  | some ch =>
    !isIndicator ch ||
      (!isGap (c.peekAt 1) && (ch = '-' || (!inFlow && (ch = '?' || ch = ':'))))

/-- A colon in front of the given character ends a plain scalar. -/
def endsKey (inFlow : Bool) (following : Option Char) : Bool :=
  isGap following || (inFlow && following.any isFlowMark)

/-- A character in front of the given text ends a run of a plain scalar. -/
def endsRun (inFlow : Bool) (c : Char) (following : List Char) : Bool :=
  isSpaceOrTab c || isBreak c || (c = ':' && endsKey inFlow following.head?) ||
    (inFlow && (c = '?' || isFlowMark c))

/-- The run of a plain scalar without blanks, put in front of `passed` in reverse order. -/
def plainRun (inFlow : Bool) (passed : List Char) :
    List Char → Position → List Char × Cursor
  | [], position => (passed, ⟨[], position⟩)
  | c :: rest, position =>
    if endsRun inFlow c rest then (passed, ⟨c :: rest, position⟩)
    else plainRun inFlow (c :: passed) rest (position.after c rest)

/-- The breaks of the empty lines at the cursor and the spaces before text, or nothing if the mark
of a document is met. The first argument bounds the number of lines. -/
def plainBreaks : Nat → Cursor → List Char → Option (List Char) × Cursor
  | 0, c, passed => (some passed.reverse, c)
  | n + 1, c, passed =>
    let c := c.dropWhile (· = ' ')
    match c.lineBreak with
    | none => (some passed.reverse, c)
    | some (b, c) => if c.atDocumentMark then (none, c) else plainBreaks n c (b :: passed)

/-- The blanks behind a run: what they stand for if the scalar goes on, the cursor behind them, and
whether there was a line break. -/
def plainBlanks (c : Cursor) : List Char × Cursor × Bool :=
  let (spaces, c) := c.spanWhile (· = ' ')
  match c.lineBreak with
  | none => (spaces, c, false)
  | some (first, c) =>
    if c.atDocumentMark then ([], c, true)
    else match plainBreaks (c.rest.length + 1) c [] with
      | (none, c) => ([], c, true)
      | (some others, c) => (joinLines first others, c, true)

/-- A plain scalar as it is read so far. -/
structure PlainScalar where
  /-- The characters, the last one first. -/
  passed : List Char
  /-- The end of the last run. -/
  stop : Position
  /-- The cursor behind the blanks after the last run. -/
  cursor : Cursor
  /-- There is a line break among these blanks. -/
  newLine : Bool
deriving Inhabited

/-- Reads further runs, `blanks` being what the blanks before the cursor stand for. The first
argument bounds the number of runs. -/
def plainRuns (inFlow : Bool) (indent : Nat) : Nat → List Char → PlainScalar → PlainScalar
  | 0, _, s => s
  | n + 1, blanks, s =>
    if s.cursor.peek = some '#' then s
    else
      match plainRun inFlow [] s.cursor.rest s.cursor.position with
      | ([], _) => s
      | (run, c) =>
        let (after, next, newLine) := plainBlanks c
        let s' := ⟨run ++ (blanks.reverse ++ s.passed), c.position, next, newLine⟩
        if after.isEmpty || next.peek = some '#' || (!inFlow && next.column < indent) then s'
        else plainRuns inFlow indent n after s'

/-- The plain scalar at the cursor; its further lines are indented by `indent` columns. -/
def readPlain (inFlow : Bool) (indent : Nat) (c : Cursor) : PlainScalar :=
  plainRuns inFlow indent (c.rest.length + 1) [] ⟨[], c.position, c, false⟩

/-- The text of a plain scalar. -/
def PlainScalar.text (s : PlainScalar) : String :=
  String.ofList s.passed.reverse

end CwlDescriptor.Yaml

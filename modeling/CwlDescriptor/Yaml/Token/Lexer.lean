import CwlDescriptor.Yaml.Token.Plain
import CwlDescriptor.Yaml.Token.Property
set_option autoImplicit false

/-!
# From a text to tokens

The indentation of blocks becomes tokens for their beginnings and ends. A key without a question
mark is recognised only by the colon behind it, so every token that may begin a key is remembered
until a colon is found, and the token for the key is then put in front of it.

A token is delivered only when it is certain that no token will be put in front of it. If the text
becomes invalid, the tokens that were certain before are delivered, followed by the error.

## Main definitions

* `Yaml.PossibleKey`, `Yaml.Lexer`: the state between two tokens.
* `Yaml.Lexer.fetch`: reads the next token.
* `Yaml.tokens`: the tokens of a text.
-/

namespace CwlDescriptor.Yaml

/-- A token that becomes the beginning of a key if a colon follows. -/
structure PossibleKey where
  /-- The number of tokens before it. -/
  number : Nat
  /-- The indentation of the block allows nothing but a key. -/
  required : Bool
  position : Position
deriving DecidableEq, Repr

/-- The state between two tokens. -/
structure Lexer where
  cursor : Cursor
  /-- The columns of the open blocks, the innermost first. -/
  indents : List Nat
  /-- The number of open flow collections. -/
  flow : Nat
  /-- A key without question mark may begin here. -/
  keyAllowed : Bool
  /-- The possible keys, at most one for each number of open flow collections. -/
  keys : List (Nat × PossibleKey)
  /-- The tokens so far, the last one first. -/
  lexemes : List Lexeme
  /-- The number of tokens so far. -/
  count : Nat
  /-- The end of the text was reached. -/
  finished : Bool

namespace Lexer

/-- The state at the beginning of a text. -/
def ofText (text : List Char) : Lexer :=
  ⟨.ofText text, [], 0, true, [], [], 0, false⟩

/-- There are open flow collections. -/
def inFlow (l : Lexer) : Bool := 0 < l.flow

/-- The least indentation of what belongs to the innermost block. -/
def innerIndent (l : Lexer) : Nat :=
  match l.indents with
  | [] => 0
  | column :: _ => column + 1

/-- Adds a token. -/
def add (l : Lexer) (token : Token) (start stop : Position) : Lexer :=
  { l with lexemes := ⟨token, start, stop⟩ :: l.lexemes, count := l.count + 1 }

/-- Adds a token that takes no place. -/
def mark (l : Lexer) (token : Token) : Lexer :=
  l.add token l.cursor.position l.cursor.position

/-- Adds a token of `width` characters and moves behind it. -/
def take (l : Lexer) (token : Token) (width : Nat) : Lexer :=
  let stop := l.cursor.skip width
  { l.add token l.cursor.position stop.position with cursor := stop }

/-- Puts a token in front of the last ones, so that `number` tokens are before it. -/
def insertAt (l : Lexer) (number : Nat) (lexeme : Lexeme) : Lexer :=
  let later := l.count - number
  { l with
    lexemes := l.lexemes.take later ++ lexeme :: l.lexemes.drop later
    count := l.count + 1 }

/-! ## Possible keys -/

/-- A possible key is out of date on another line, or after more than 1024 characters. -/
def isStale (l : Lexer) (key : PossibleKey) : Bool :=
  key.position.line ≠ l.cursor.position.line || key.position.index + 1024 < l.cursor.position.index

/-- Forgets the possible keys that are out of date; a required one must not be. -/
def dropStale (l : Lexer) : Except LoadError Lexer :=
  if l.keys.any fun (_, key) => l.isStale key && key.required then .error .invalid
  else .ok { l with keys := l.keys.filter fun (_, key) => !l.isStale key }

/-- The possible key for the present number of open flow collections. -/
def currentKey? (l : Lexer) : Option PossibleKey :=
  l.keys.lookup l.flow

/-- Forgets the present possible key; it must not be required. -/
def dropKey (l : Lexer) : Except LoadError Lexer :=
  if (l.currentKey?.map (·.required)).getD false then .error .invalid
  else .ok { l with keys := l.keys.filter (·.1 ≠ l.flow) }

/-- Remembers that the next token may begin a key. -/
def saveKey (l : Lexer) : Except LoadError Lexer :=
  if l.keyAllowed then do
    let required := !l.inFlow && l.indents.head? = some l.cursor.column
    let l ← l.dropKey
    return { l with keys := (l.flow, ⟨l.count, required, l.cursor.position⟩) :: l.keys }
  else .ok l

/-- The number of tokens that no other token will be put in front of. -/
def certain (l : Lexer) : Nat :=
  l.keys.foldl (fun n (_, key) => min n key.number) l.count

/-! ## Indentation -/

/-- Ends the blocks for which `p` holds of the column. -/
def closeBlocks (l : Lexer) (p : Nat → Bool) : Lexer :=
  let closed := (l.indents.takeWhile p).length
  let l' := { l with indents := l.indents.dropWhile p }
  closed.fold (fun _ _ l => l.mark .blockEnd) l'

/-- Ends the blocks to the right of the given column, outside of flow collections. -/
def unwind (l : Lexer) (column : Nat) : Lexer :=
  if l.inFlow then l else l.closeBlocks (column < ·)

/-- Ends all blocks, outside of flow collections. -/
def unwindAll (l : Lexer) : Lexer :=
  if l.inFlow then l else l.closeBlocks fun _ => true

/-- The column lies to the right of the innermost block. -/
def opensBlock (l : Lexer) (column : Nat) : Bool :=
  l.innerIndent ≤ column

/-- Begins a block at the cursor if the cursor lies to the right of the innermost one. -/
def openBlock (l : Lexer) (token : Token) : Lexer :=
  let column := l.cursor.column
  if l.opensBlock column then
    { l with indents := column :: l.indents }.mark token
  else l

/-! ## Single tokens -/

/-- Skips spaces, comments and line breaks; behind a line break a key may begin, outside of flow
collections. -/
def skipGap (inFlow : Bool) : Bool → Bool → List Char → Position → Bool × Cursor
  | _, keyAllowed, [], position => (keyAllowed, ⟨[], position⟩)
  | inComment, keyAllowed, c :: rest, position =>
    if isBreak c then
      skipGap inFlow false (keyAllowed || !inFlow) rest (position.after c rest)
    else if inComment || c = ' ' then
      skipGap inFlow inComment keyAllowed rest (position.after c rest)
    else if c = '#' then skipGap inFlow true keyAllowed rest (position.after c rest)
    else (keyAllowed, ⟨c :: rest, position⟩)

/-- Moves to the next token. A byte order mark at the beginning of the text is skipped. -/
def toNextToken (l : Lexer) : Lexer :=
  let c :=
    if l.cursor.position.index = 0 && l.cursor.peek = some '\ufeff' then l.cursor.next
    else l.cursor
  let (keyAllowed, c) := skipGap l.inFlow false l.keyAllowed c.rest c.position
  { l with cursor := c, keyAllowed := keyAllowed }

/-- The end of the text. -/
def fetchEnd (l : Lexer) : Except LoadError Lexer := do
  let l ← l.unwindAll.dropKey
  return { l.mark .streamEnd with keyAllowed := false, keys := [], finished := true }

/-- A directive. -/
def fetchDirective (l : Lexer) : Except LoadError Lexer := do
  let l ← l.unwindAll.dropKey
  let (directive, stop) ← readDirective l.cursor
  return { l.add (.directive directive) l.cursor.position stop.position with
    cursor := stop, keyAllowed := false }

/-- The mark at the beginning or at the end of a document. -/
def fetchDocumentMark (l : Lexer) (token : Token) : Except LoadError Lexer := do
  let l ← l.unwindAll.dropKey
  return { l.take token 3 with keyAllowed := false }

/-- The beginning of a flow collection, which may begin a key. -/
def fetchFlowStart (l : Lexer) (token : Token) : Except LoadError Lexer := do
  let l ← l.saveKey
  return { l with flow := l.flow + 1, keyAllowed := true }.take token 1

/-- The end of a flow collection. -/
def fetchFlowEnd (l : Lexer) (token : Token) : Except LoadError Lexer := do
  let l ← l.dropKey
  return { l with flow := l.flow - 1, keyAllowed := false }.take token 1

/-- The comma in a flow collection. -/
def fetchFlowEntry (l : Lexer) : Except LoadError Lexer := do
  let l ← { l with keyAllowed := true }.dropKey
  return l.take .flowEntry 1

/-- The hyphen in front of an item. -/
def fetchBlockEntry (l : Lexer) : Except LoadError Lexer :=
  if !l.inFlow && !l.keyAllowed then .error .invalid
  else do
    let l := if l.inFlow then l else l.openBlock .blockSequenceStart
    let l ← { l with keyAllowed := true }.dropKey
    return l.take .blockEntry 1

/-- The question mark in front of a key. -/
def fetchKey (l : Lexer) : Except LoadError Lexer :=
  if !l.inFlow && !l.keyAllowed then .error .invalid
  else do
    let l := if l.inFlow then l else l.openBlock .blockMappingStart
    let l ← { l with keyAllowed := !l.inFlow }.dropKey
    return l.take .key 1

/-- The colon in front of a value. If there is a possible key, the token for a key is put in front
of it, and the token for the beginning of a map if the key is the first of a block. -/
def fetchValue (l : Lexer) : Except LoadError Lexer :=
  match l.currentKey? with
  | some key =>
    let l := { l with keys := l.keys.filter (·.1 ≠ l.flow) }
    let l := l.insertAt key.number ⟨.key, key.position, key.position⟩
    let l :=
      if !l.inFlow && l.opensBlock key.position.column then
        { l with indents := key.position.column :: l.indents }.insertAt key.number
          ⟨.blockMappingStart, key.position, key.position⟩
      else l
    .ok ({ l with keyAllowed := false }.take .value 1)
  | none =>
    if !l.inFlow && !l.keyAllowed then .error .invalid
    else do
      let l := if l.inFlow then l else l.openBlock .blockMappingStart
      let l ← { l with keyAllowed := !l.inFlow }.dropKey
      return l.take .value 1

/-- A token that is read by `read` and may begin a key. -/
def fetchKeyStart (l : Lexer) (read : Cursor → Except LoadError (Token × Cursor)) :
    Except LoadError Lexer := do
  let l ← l.saveKey
  let (token, stop) ← read l.cursor
  return { l.add token l.cursor.position stop.position with cursor := stop, keyAllowed := false }

/-- A block scalar. -/
def fetchBlockScalar (l : Lexer) (folded : Bool) : Except LoadError Lexer := do
  let l ← { l with keyAllowed := true }.dropKey
  let (text, stop) ← readBlock folded l.innerIndent l.cursor
  return { l.add (.scalar text false) l.cursor.position stop.position with cursor := stop }

/-- A plain scalar; behind a line break at its end a key may begin. -/
def fetchPlain (l : Lexer) : Except LoadError Lexer := do
  let l ← l.saveKey
  let scalar := readPlain l.inFlow l.innerIndent l.cursor
  return { l.add (.scalar scalar.text true) l.cursor.position scalar.stop with
    cursor := scalar.cursor, keyAllowed := scalar.newLine }

/-- The token that the given character begins. -/
def fetchAt (l : Lexer) (ch : Char) : Except LoadError Lexer :=
  let c := l.cursor
  let beforeGap := isGap (c.peekAt 1)
  if ch = '%' && c.column = 0 then l.fetchDirective
  else if c.column = 0 && c.isDocumentMark '-' then l.fetchDocumentMark .documentStart
  else if c.column = 0 && c.isDocumentMark '.' then l.fetchDocumentMark .documentEnd
  else if ch = '[' then l.fetchFlowStart .flowSequenceStart
  else if ch = '\x7b' then l.fetchFlowStart .flowMappingStart
  else if ch = ']' then l.fetchFlowEnd .flowSequenceEnd
  else if ch = '\x7d' then l.fetchFlowEnd .flowMappingEnd
  else if ch = ',' then l.fetchFlowEntry
  else if ch = '-' && beforeGap then l.fetchBlockEntry
  else if ch = '?' && (l.inFlow || beforeGap) then l.fetchKey
  else if ch = ':' && (l.inFlow || beforeGap) then l.fetchValue
  else if ch = '*' then
    l.fetchKeyStart fun c => (readName c).map fun (name, stop) => (.alias name, stop)
  else if ch = '&' then
    l.fetchKeyStart fun c => (readName c).map fun (name, stop) => (.anchor name, stop)
  else if ch = '!' then l.fetchKeyStart readTag
  else if ch = '|' && !l.inFlow then l.fetchBlockScalar false
  else if ch = '>' && !l.inFlow then l.fetchBlockScalar true
  else if ch = '\'' then
    l.fetchKeyStart fun c => (readQuoted false c).map fun (text, stop) => (.scalar text false, stop)
  else if ch = '"' then
    l.fetchKeyStart fun c => (readQuoted true c).map fun (text, stop) => (.scalar text false, stop)
  else if startsPlain l.inFlow c then l.fetchPlain
  else .error .invalid

/-- Reads the next token. -/
def fetch (l : Lexer) : Except LoadError Lexer := do
  let l ← l.toNextToken.dropStale
  let l := l.unwind l.cursor.column
  match l.cursor.peek with
  | none => l.fetchEnd
  | some ch => l.fetchAt ch

/-- Reads all tokens; `certain` of the tokens so far are delivered if the next one cannot be read.
The first argument bounds the number of tokens. -/
def run : Nat → Lexer → Nat → Feed Lexeme
  | 0, l, certain => ⟨l.lexemes.reverse.take certain, some .invalid⟩
  | n + 1, l, certain =>
    match l.fetch with
    | .error e => ⟨l.lexemes.reverse.take certain, some e⟩
    | .ok next =>
      if next.finished then ⟨next.lexemes.reverse, none⟩
      else match next.dropStale with
        | .error e => ⟨l.lexemes.reverse.take certain, some e⟩
        | .ok next => run n next next.certain

end Lexer

/-- The tokens of a text. Each token but the last takes at least one character. -/
def tokens (text : List Char) : Feed Lexeme :=
  Lexer.run (text.length + 1) (.ofText text) 0

end CwlDescriptor.Yaml

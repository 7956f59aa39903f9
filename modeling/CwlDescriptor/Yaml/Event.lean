import CwlDescriptor.Yaml.Token.Lexer
set_option autoImplicit false

/-!
# Events

The nodes of a document in the order of their beginnings, each collection with an event at its
beginning and one at its end. The events are found by a machine with a stack of what is expected
after the present node; it looks one token ahead.

## Main definitions

* `Yaml.Properties`, `Yaml.Event`: the events.
* `Yaml.Expected`, `Yaml.Machine`: the state between two events.
* `Yaml.events`: the events of a sequence of tokens.
-/

namespace CwlDescriptor.Yaml

/-- What may be written in front of a node, and where the node begins. -/
structure Properties where
  anchor : Option String
  /-- The tag, unless it is left to the content of the node. -/
  tag : Option String
  start : Position
deriving DecidableEq, Repr

/-- The beginning or the end of a document or of a node. -/
inductive Event where
  | documentStart
  | documentEnd
  | streamEnd
  | alias (name : String) (start : Position)
  /-- A scalar; `byContent` says that its content decides on the tag if none is given. -/
  | scalar (properties : Properties) (byContent : Bool) (text : String)
  | sequenceStart (properties : Properties)
  | sequenceEnd
  | mappingStart (properties : Properties)
  | mappingEnd
deriving DecidableEq, Repr

/-- A node that is left out at a position. -/
def Event.empty (start : Position) : Event :=
  .scalar ⟨none, none, start⟩ true ""

/-- What comes next in a sequence of tokens. -/
inductive Expected where
  /-- A document that may begin without a mark. -/
  | firstDocument
  /-- A document that begins with a mark, or the end. -/
  | document
  /-- The root of a document, which may be left out. -/
  | content
  | documentEnd
  /-- A node; `compact` allows a sequence that is not indented below its key. -/
  | node (block compact : Bool)
  | blockItem
  | compactItem
  | blockKey
  | blockValue
  | flowItem (first : Bool)
  /-- The key, the value and the end of a pair that stands for a map in a flow sequence. -/
  | pairKey
  | pairValue
  | pairEnd
  | flowKey (first : Bool)
  | flowValue
  /-- The value of a key in a flow map without a colon. -/
  | flowNoValue
  /-- Nothing. -/
  | nothing
deriving DecidableEq, Repr

/-- The state between two events. -/
structure Machine where
  lexemes : List Lexeme
  /-- What happens when a token behind the last one is needed. -/
  error : LoadError
  expected : Expected
  /-- What is expected after the present node, the innermost collection first. -/
  stack : List Expected
  /-- The meanings of the handles of tags. -/
  handles : List (String × String)
deriving Repr

namespace Machine

/-- The next token. -/
def peek (m : Machine) : Except LoadError Lexeme :=
  match m.lexemes with
  | [] => .error m.error
  | lexeme :: _ => .ok lexeme

/-- The machine behind the next token. -/
def drop (m : Machine) : Machine :=
  { m with lexemes := m.lexemes.tail }

/-- Expects `next`. -/
def expect (m : Machine) (next : Expected) : Machine :=
  { m with expected := next }

/-- Expects `later` after the present node. -/
def push (m : Machine) (later : Expected) : Machine :=
  { m with stack := later :: m.stack }

/-- Expects `next`, and `later` after it. -/
def expectThen (m : Machine) (next later : Expected) : Machine :=
  (m.push later).expect next

/-- Expects what was put on the stack last. -/
def pop (m : Machine) : Machine :=
  match m.stack with
  | [] => { m with expected := .nothing }
  | next :: stack => { m with expected := next, stack := stack }

/-- The handles that have a meaning without a directive. -/
def standardHandles : List (String × String) :=
  [("!", "!"), ("!!", "tag:yaml.org,2002:")]

/-! ## Documents -/

/-- Reads the directives in front of a document: `version` says that a version was given, and
`handles` are the handles with a given meaning. -/
def directives (version : Bool) (handles : List (String × String)) :
    List Lexeme → Except LoadError (List (String × String) × List Lexeme)
  | ⟨.directive (.version major _), _, _⟩ :: rest =>
    if version || major ≠ 1 then .error .invalid else directives true handles rest
  | ⟨.directive (.tag handle start), _, _⟩ :: rest =>
    if (handles.lookup handle).isSome then .error .invalid
    else directives version (handles ++ [(handle, start)]) rest
  | ⟨.directive .reserved, _, _⟩ :: rest => directives version handles rest
  | rest => .ok (handles ++ standardHandles, rest)

/-- Skips the marks at the end of a document. -/
def dropEnds : List Lexeme → List Lexeme
  | ⟨.documentEnd, _, _⟩ :: rest => dropEnds rest
  | rest => rest

/-- A document that begins with a mark, or the end. -/
def document (m : Machine) : Except LoadError (Event × Machine) := do
  let m := { m with lexemes := dropEnds m.lexemes }
  match (← m.peek).token with
  | .streamEnd => return (.streamEnd, m.drop.expect .nothing)
  | _ =>
    let (handles, rest) ← directives false [] m.lexemes
    let m := { m with lexemes := rest, handles := handles }
    match (← m.peek).token with
    | .documentStart => return (.documentStart, m.drop.expectThen .content .documentEnd)
    | _ => .error .invalid

/-- A document that may begin without a mark. -/
def firstDocument (m : Machine) : Except LoadError (Event × Machine) := do
  match (← m.peek).token with
  | .directive _ | .documentStart | .streamEnd => m.document
  | _ =>
    return (.documentStart,
      ({ m with handles := standardHandles } : Machine).expectThen (.node true false) .documentEnd)

/-- The end of a document. -/
def endDocument (m : Machine) : Except LoadError (Event × Machine) := do
  match (← m.peek).token with
  | .documentEnd => return (.documentEnd, m.drop.expect .document)
  | _ => return (.documentEnd, m.expect .document)

/-! ## Nodes -/

/-- The tag that a handle and a suffix stand for. -/
def resolveTag (m : Machine) : Option String → String → Except LoadError String
  | none, suffix => .ok suffix
  | some handle, suffix =>
    match m.handles.lookup handle with
    | some start => .ok (start ++ suffix)
    | none => .error .invalid

/-- The properties in front of a node: an anchor and a tag, in either order and both optional. The
tag `!` leaves the kind of a node to its content, even of a scalar between quotes. -/
structure Given where
  anchor : Option String
  tag : Option String
  start : Option Position

/-- Reads the properties in front of a node. -/
def properties (m : Machine) : Except LoadError (Given × Machine) := do
  let first ← m.peek
  match first.token with
  | .anchor name =>
    let m := m.drop
    match (← m.peek).token with
    | .tag handle suffix =>
      let tag ← m.resolveTag handle suffix
      return (⟨some name, some tag, some first.start⟩, m.drop)
    | _ => return (⟨some name, none, some first.start⟩, m)
  | .tag handle suffix =>
    let m := m.drop
    match (← m.peek).token with
    | .anchor name =>
      let tag ← m.resolveTag handle suffix
      return (⟨some name, some tag, some first.start⟩, m.drop)
    | _ =>
      let tag ← m.resolveTag handle suffix
      return (⟨none, some tag, some first.start⟩, m)
  | _ => return (⟨none, none, none⟩, m)

/-- A node: an alias, or properties and a scalar or collection; with properties the rest may be
left out. -/
def node (m : Machine) (block compact : Bool) : Except LoadError (Event × Machine) := do
  let first ← m.peek
  match first.token with
  | .alias name => return (.alias name first.start, m.drop.pop)
  | _ =>
    let (given, m) ← m.properties
    let lexeme ← m.peek
    let start := given.start.getD lexeme.start
    let unspecific := given.tag = some "!"
    let props : Properties := ⟨given.anchor, if unspecific then none else given.tag, start⟩
    match lexeme.token with
    | .scalar text plain =>
      let byContent := unspecific || (plain && given.tag.isNone)
      return (.scalar props byContent text, m.drop.pop)
    | .flowSequenceStart => return (.sequenceStart props, m.drop.expect (.flowItem true))
    | .flowMappingStart => return (.mappingStart props, m.drop.expect (.flowKey true))
    | .blockEntry =>
      if compact then return (.sequenceStart props, m.expect .compactItem)
      else absent given props m
    | .blockSequenceStart =>
      if block then return (.sequenceStart props, m.drop.expect .blockItem)
      else absent given props m
    | .blockMappingStart =>
      if block then return (.mappingStart props, m.drop.expect .blockKey)
      else absent given props m
    | _ => absent given props m
where
  /-- A node of which nothing but properties is written. -/
  absent (given : Given) (props : Properties) (m : Machine) :
      Except LoadError (Event × Machine) :=
    if given.anchor.isSome || given.tag.isSome then
      .ok (.scalar props (props.tag.isNone) "", m.pop)
    else .error .invalid

/-- The root of a document. -/
def content (m : Machine) : Except LoadError (Event × Machine) := do
  let lexeme ← m.peek
  match lexeme.token with
  | .directive _ | .documentStart | .documentEnd | .streamEnd =>
    return (.empty lexeme.start, m.pop)
  | _ => m.node true false

/-! ## The parts of collections -/

/-- The node behind the token `lexeme`, or the empty node if the token behind it is one of those
for which `absent` holds; then `later` is expected. -/
def partAfter (m : Machine) (lexeme : Lexeme) (absent : Token → Bool) (kind later : Expected) :
    Except LoadError (Event × Machine) := do
  let m := m.drop
  if absent (← m.peek).token then return (.empty lexeme.stop, m.expect later)
  else match kind with
    | .node block compact => (m.push later).node block compact
    | _ => .error .invalid

/-- The node in a block. -/
def blockNode : Expected := .node true false

/-- The node in a block map. -/
def compactNode : Expected := .node true true

/-- The node in a flow collection. -/
def flowNode : Expected := .node false false

/-- An item of a block sequence, or its end. -/
def blockItem (m : Machine) : Except LoadError (Event × Machine) := do
  let lexeme ← m.peek
  match lexeme.token with
  | .blockEntry =>
    m.partAfter lexeme (fun t => t = .blockEntry || t = .blockEnd) blockNode .blockItem
  | .blockEnd => return (.sequenceEnd, m.drop.pop)
  | _ => .error .invalid

/-- An item of a sequence that is not indented below its key, or its end. -/
def compactItem (m : Machine) : Except LoadError (Event × Machine) := do
  let lexeme ← m.peek
  match lexeme.token with
  | .blockEntry =>
    m.partAfter lexeme (fun t => t = .blockEntry || t = .key || t = .value || t = .blockEnd)
      blockNode .compactItem
  | _ => return (.sequenceEnd, m.pop)

/-- A token that stands where a key or a value of a block map is left out. -/
def endsBlockPart (t : Token) : Bool :=
  t = .key || t = .value || t = .blockEnd

/-- A key of a block map, or its end. -/
def blockKey (m : Machine) : Except LoadError (Event × Machine) := do
  let lexeme ← m.peek
  match lexeme.token with
  | .key => m.partAfter lexeme endsBlockPart compactNode .blockValue
  | .blockEnd => return (.mappingEnd, m.drop.pop)
  | _ => .error .invalid

/-- A value of a block map. -/
def blockValue (m : Machine) : Except LoadError (Event × Machine) := do
  let lexeme ← m.peek
  match lexeme.token with
  | .value => m.partAfter lexeme endsBlockPart compactNode .blockKey
  | _ => return (.empty lexeme.start, m.expect .blockKey)

/-- Skips the comma in front of a part of a flow collection, unless it is the first part. -/
def afterComma (m : Machine) (first : Bool) : Except LoadError Machine :=
  if first then .ok m
  else do
    match (← m.peek).token with
    | .flowEntry => return m.drop
    | _ => .error .invalid

/-- An item of a flow sequence, or its end. -/
def flowItem (m : Machine) (first : Bool) : Except LoadError (Event × Machine) := do
  match (← m.peek).token with
  | .flowSequenceEnd => return (.sequenceEnd, m.drop.pop)
  | _ =>
    let m ← m.afterComma first
    let lexeme ← m.peek
    match lexeme.token with
    | .key => return (.mappingStart ⟨none, none, lexeme.start⟩, m.expect .pairKey)
    | .flowSequenceEnd => return (.sequenceEnd, m.drop.pop)
    | _ => (m.push (.flowItem false)).node false false

/-- The key of a pair in a flow sequence. -/
def pairKey (m : Machine) : Except LoadError (Event × Machine) := do
  m.partAfter (← m.peek) (fun t => t = .value || t = .flowEntry || t = .flowSequenceEnd) flowNode
    .pairValue

/-- The value of a pair in a flow sequence. -/
def pairValue (m : Machine) : Except LoadError (Event × Machine) := do
  let lexeme ← m.peek
  match lexeme.token with
  | .value =>
    m.partAfter lexeme (fun t => t = .flowEntry || t = .flowSequenceEnd) flowNode .pairEnd
  | _ => return (.empty lexeme.start, m.expect .pairEnd)

/-- The end of a pair in a flow sequence. -/
def pairEnd (m : Machine) : Except LoadError (Event × Machine) := do
  let _ ← m.peek
  return (.mappingEnd, m.expect (.flowItem false))

/-- A key of a flow map, or its end. -/
def flowKey (m : Machine) (first : Bool) : Except LoadError (Event × Machine) := do
  match (← m.peek).token with
  | .flowMappingEnd => return (.mappingEnd, m.drop.pop)
  | _ =>
    let m ← m.afterComma first
    let lexeme ← m.peek
    match lexeme.token with
    | .key =>
      m.partAfter lexeme (fun t => t = .value || t = .flowEntry || t = .flowMappingEnd) flowNode
        .flowValue
    | .flowMappingEnd => return (.mappingEnd, m.drop.pop)
    | _ => (m.push .flowNoValue).node false false

/-- A value of a flow map. -/
def flowValue (m : Machine) : Except LoadError (Event × Machine) := do
  let lexeme ← m.peek
  match lexeme.token with
  | .value =>
    m.partAfter lexeme (fun t => t = .flowEntry || t = .flowMappingEnd) flowNode (.flowKey false)
  | _ => return (.empty lexeme.start, m.expect (.flowKey false))

/-- The value of a key of a flow map without a colon. -/
def flowNoValue (m : Machine) : Except LoadError (Event × Machine) := do
  return (.empty (← m.peek).start, m.expect (.flowKey false))

/-- The next event. -/
def step (m : Machine) : Except LoadError (Event × Machine) :=
  match m.expected with
  | .firstDocument => m.firstDocument
  | .document => m.document
  | .content => m.content
  | .documentEnd => m.endDocument
  | .node block compact => m.node block compact
  | .blockItem => m.blockItem
  | .compactItem => m.compactItem
  | .blockKey => m.blockKey
  | .blockValue => m.blockValue
  | .flowItem first => m.flowItem first
  | .pairKey => m.pairKey
  | .pairValue => m.pairValue
  | .pairEnd => m.pairEnd
  | .flowKey first => m.flowKey first
  | .flowValue => m.flowValue
  | .flowNoValue => m.flowNoValue
  | .nothing => .error .invalid

/-- The events up to the end of the text, `passed` being the events before in reverse order. The
first argument bounds their number. -/
def run : Nat → Machine → List Event → Feed Event
  | 0, _, passed => ⟨passed.reverse, some .invalid⟩
  | n + 1, m, passed =>
    match m.step with
    | .error e => ⟨passed.reverse, some e⟩
    | .ok (.streamEnd, _) => ⟨(Event.streamEnd :: passed).reverse, none⟩
    | .ok (event, m) => run n m (event :: passed)

end Machine

/-- The events of a sequence of tokens. No token gives rise to more than four events, and no
document to more than three without a token. -/
def events (lexemes : Feed Lexeme) : Feed Event :=
  Machine.run (4 * lexemes.items.length + 8)
    ⟨lexemes.items, lexemes.error.getD .invalid, .firstDocument, [], []⟩ []

end CwlDescriptor.Yaml

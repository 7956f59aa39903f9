import CwlDescriptor.Yaml.Event
import CwlDescriptor.Yaml.Tag
set_option autoImplicit false

/-!
# Trees of nodes

The events of one document are put together to the tree of its nodes. References between nodes are
refused, and so are more than `maxNesting` levels; every event that begins a node therefore gives
one node of the tree.

## Main definitions

* `Yaml.Tree`: nodes with their tags.
* `Yaml.Tree.ofEvents`: the tree of a sequence of events.
* `Yaml.Tree.levels`, `Yaml.Tree.count`: the number of levels and of nodes.
-/

namespace CwlDescriptor.Yaml

/-- The greatest number of levels of nodes. -/
def maxNesting : Nat := 256

/-- A node with its tag. -/
inductive Tree where
  | scalar (tag : Tag) (text : String)
  | sequence (tag : Tag) (items : List Tree)
  | mapping (tag : Tag) (pairs : List (Tree × Tree))
deriving Repr

namespace Tree

/-- The tag of a node. -/
def tag : Tree → Tag
  | .scalar tag _ => tag
  | .sequence tag _ => tag
  | .mapping tag _ => tag

mutual

/-- The number of levels. -/
def levels : Tree → Nat
  | .scalar .. => 1
  | .sequence _ items => 1 + levelsList items
  | .mapping _ pairs => 1 + levelsPairs pairs

/-- The greatest number of levels of an item. -/
def levelsList : List Tree → Nat
  | [] => 0
  | t :: ts => max (levels t) (levelsList ts)

/-- The greatest number of levels of a key or value. -/
def levelsPairs : List (Tree × Tree) → Nat
  | [] => 0
  | (k, v) :: ps => max (max (levels k) (levels v)) (levelsPairs ps)

end

mutual

/-- The number of nodes. -/
def count : Tree → Nat
  | .scalar .. => 1
  | .sequence _ items => 1 + countList items
  | .mapping _ pairs => 1 + countPairs pairs

/-- The number of nodes of the items. -/
def countList : List Tree → Nat
  | [] => 0
  | t :: ts => count t + countList ts

/-- The number of nodes of the keys and values. -/
def countPairs : List (Tree × Tree) → Nat
  | [] => 0
  | (k, v) :: ps => count k + count v + countPairs ps

end

/-! ## From events to trees -/

/-- A collection that is not complete. -/
inductive Open where
  /-- The items so far, the last one first. -/
  | sequence (tag : Tag) (items : List Tree)
  /-- The pairs so far, the last one first, and a key whose value is missing. -/
  | mapping (tag : Tag) (pairs : List (Tree × Tree)) (key : Option Tree)
deriving Repr

/-- Adds a node to a collection. -/
def Open.add (t : Tree) : Open → Open
  | .sequence tag items => .sequence tag (t :: items)
  | .mapping tag pairs none => .mapping tag pairs (some t)
  | .mapping tag pairs (some k) => .mapping tag ((k, t) :: pairs) none

/-- How far the events of a document were put together. -/
inductive Progress where
  /-- No event was read. -/
  | initial
  /-- The collections that are not complete, the innermost first, and the anchors so far. -/
  | inside (stack : List Open) (anchors : List String)
  /-- The root is complete. -/
  | complete (root : Tree)
  /-- The document is complete, or there is none. -/
  | closed (root : Option Tree)
deriving Repr

namespace Progress

/-- Adds a complete node to the innermost collection; without one it is the root. -/
def attach (t : Tree) (stack : List Open) (anchors : List String) : Progress :=
  match stack with
  | [] => .complete t
  | innermost :: outer => .inside (innermost.add t :: outer) anchors

/-- Checks the beginning of a node, and remembers its anchor: there must be room for one more level,
and no two nodes have the same anchor. -/
def enter (stack : List Open) (anchors : List String) (props : Properties) :
    Except LoadError (List String) :=
  if maxNesting ≤ stack.length then .error (.nesting props.start)
  else match props.anchor with
    | none => .ok anchors
    | some name => if anchors.contains name then .error .invalid else .ok (name :: anchors)

/-- The tag of a collection: the given one, or that of its kind. -/
def collectionTag (props : Properties) (kind : Tag) : Tag :=
  match props.tag with
  | some name => .ofName name
  | none => kind

/-- The tag of a scalar: the given one, or that of its content, or that of a text. -/
def scalarTag (props : Properties) (byContent : Bool) (text : String) : Tag :=
  match props.tag with
  | some name => .ofName name
  | none => if byContent then .ofContent text.toList else .str

/-- The progress made by one event. -/
def step : Progress → Event → Except LoadError Progress
  | .initial, .documentStart => .ok (.inside [] [])
  | .initial, .streamEnd => .ok (.closed none)
  | .inside _ _, .alias name start => .error (.alias name start)
  | .inside stack anchors, .scalar props byContent text => do
    let anchors ← enter stack anchors props
    return attach (.scalar (scalarTag props byContent text) text) stack anchors
  | .inside stack anchors, .sequenceStart props => do
    let anchors ← enter stack anchors props
    return .inside (.sequence (collectionTag props .seq) [] :: stack) anchors
  | .inside stack anchors, .mappingStart props => do
    let anchors ← enter stack anchors props
    return .inside (.mapping (collectionTag props .map) [] none :: stack) anchors
  | .inside (.sequence tag items :: stack) anchors, .sequenceEnd =>
    .ok (attach (.sequence tag items.reverse) stack anchors)
  | .inside (.mapping tag pairs none :: stack) anchors, .mappingEnd =>
    .ok (attach (.mapping tag pairs.reverse) stack anchors)
  | .complete root, .documentEnd => .ok (.closed (some root))
  | _, _ => .error .invalid

end Progress

/-- The tree of a document of which some events were read, given the events that follow; nothing may
follow the document. If the events end before that, the error behind them is met. -/
def compose (error : Option LoadError) : Progress → List Event → Except LoadError (Option Tree)
  | .closed (some root), .streamEnd :: _ => .ok (some root)
  | .closed none, _ => .ok none
  | _, [] => .error (error.getD .invalid)
  | progress, event :: events =>
    match progress.step event with
    | .error e => .error e
    | .ok progress => compose error progress events

/-- The tree of a sequence of events; there is none if they hold no document. -/
def ofEvents (events : Feed Event) : Except LoadError (Option Tree) :=
  compose events.error .initial events.items

end Tree

end CwlDescriptor.Yaml

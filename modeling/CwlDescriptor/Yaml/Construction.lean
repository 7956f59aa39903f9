import CwlDescriptor.Document.Entries
import CwlDescriptor.Yaml.Value
set_option autoImplicit false

/-!
# From trees of nodes to documents

Collections are filled in rounds: those that are found in one round are filled in the next one. So
of several errors in a tree the one in the earliest round is met, and of those in one round the
first.

## Main definitions

* `Yaml.Round`: a result, or an error with the number of rounds before it.
* `Yaml.Tree.flatten`: the pairs of a map after those of the maps that are merged into it.
* `Yaml.Tree.construct`: the document of a tree.
-/

namespace CwlDescriptor.Yaml

/-- A result, or an error with the number of rounds before it. -/
abbrev Round (α : Type) := Except (Nat × LoadError) α

namespace Round

/-- A result of the present round. -/
def now {α : Type} (r : Except LoadError α) : Round α := r.mapError fun e => (0, e)

/-- A result of the next round. -/
def later {α : Type} (r : Round α) : Round α := r.mapError fun (n, e) => (n + 1, e)

/-- Two results; the error of the earlier round counts, and of one round the first one. -/
def both {α β : Type} (a : Round α) (b : Round β) : Round (α × β) :=
  match a, b with
  | .ok a, .ok b => .ok (a, b)
  | .ok _, .error e => .error e
  | .error e, .ok _ => .error e
  | .error (n, e), .error (m, e') => if m < n then .error (m, e') else .error (n, e)

/-- A list of results; the first error of the earliest round counts. -/
def all {α : Type} : List (Round α) → Round (List α)
  | [] => .ok []
  | r :: rs => (both r (all rs)).map fun (a, as) => a :: as

end Round

namespace Tree

/-! ## Merged maps -/

/-- The node as a key of a map. -/
def asKey : Tree → Tree
  | .scalar .value text => .scalar .str text
  | .mapping .value pairs => .mapping .str pairs
  | t => t

mutual

/-- The pairs of maps that are merged into a map, and its own pairs. A key that stands for a whole
map is a text here. -/
def flattenPairs : List (Tree × Tree) →
    Except LoadError (List (Tree × Tree) × List (Tree × Tree))
  | [] => .ok ([], [])
  | (k, v) :: pairs => do
    if k.tag = .merge then
      let here ← merged v
      let (others, own) ← flattenPairs pairs
      return (here ++ others, own)
    else
      let (others, own) ← flattenPairs pairs
      return (others, (asKey k, v) :: own)

/-- The pairs that a map, or a list of maps, adds to the map into which it is merged; of a list the
last map comes first. -/
def merged : Tree → Except LoadError (List (Tree × Tree))
  | .mapping _ pairs => do
    let (others, own) ← flattenPairs pairs
    return others ++ own
  | .sequence _ items => mergedItems items
  | .scalar .. => .error .invalid

/-- The pairs of the maps of a list, those of the last map first. -/
def mergedItems : List Tree → Except LoadError (List (Tree × Tree))
  | [] => .ok []
  | .mapping _ pairs :: items => do
    let (others, own) ← flattenPairs pairs
    let rest ← mergedItems items
    return rest ++ (others ++ own)
  | _ :: _ => .error .invalid

end

/-- The pairs of a map after those of the maps that are merged into it. -/
def flatten (pairs : List (Tree × Tree)) : Except LoadError (List (Tree × Tree)) :=
  (flattenPairs pairs).map fun (others, own) => others ++ own

/-! ## Documents -/

/-- The value of a node as a key of a map, which must be a scalar. -/
def toKey (t : Tree) : Except LoadError Scalar :=
  if t.tag.isCollection then .error .invalid else t.toScalar

/-- The document of a part of a collection, where `fill` gives those of collections. -/
def part (fill : Tree → Round Node) (t : Tree) : Round Node :=
  if t.tag.isCollection then (fill t).later else (Round.now t.toScalar).map .scalar

/-- The entries of a map. -/
def entries (fill : Tree → Round Node) (pairs : List (Tree × Tree)) : Round Entries := do
  let pairs ← Round.now (flatten pairs)
  let entries ← Round.all (pairs.map fun (k, v) => (Round.now (toKey k)).both (part fill v))
  return Entries.ofList entries

/-- The pair that a map with one entry stands for. -/
def single (fill : Tree → Round Node) : Tree → Round Node
  | .mapping _ [(k, v)] => ((part fill k).both (part fill v)).map fun (k, v) => .pair k v
  | _ => .error (0, .invalid)

/-- The document of a collection, in the round in which it is filled. The first argument bounds the
number of levels of collections. -/
def fill : Nat → Tree → Round Node
  | 0, _ => .error (0, .invalid)
  | n + 1, .sequence tag items =>
    match tag with
    | .seq => (Round.all (items.map (part (fill n)))).map .list
    | .omap | .pairs => (Round.all (items.map (single (fill n)))).map .list
    | _ => .error (0, .invalid)
  | n + 1, .mapping tag pairs =>
    match tag with
    | .map => (entries (fill n) pairs).map .map
    | .set => (entries (fill n) pairs).map fun es => .set (es.map (·.1))
    | _ => .error (0, .invalid)
  | _, .scalar .. => .error (0, .invalid)

/-- The document of a tree with at most `levels` levels. -/
def construct (levels : Nat) (t : Tree) : Except LoadError Node :=
  (part (fill levels) t).mapError (·.2)

end Tree

end CwlDescriptor.Yaml

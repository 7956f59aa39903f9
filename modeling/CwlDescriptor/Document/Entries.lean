import CwlDescriptor.Document.Node
set_option autoImplicit false

/-!
# The entries of a map

Looking up, setting and removing entries. Setting an entry whose key is present keeps the first
spelling of the key and its position; a new key goes to the end.

## Main definitions

* `Entries.find?`: the value at a key.
* `Entries.get?`, `Entries.field`, `Node.field`: the value at a key that is a text.
* `Entries.insert`, `Entries.erase`, `Entries.addMissing`: changes of one entry.
* `Entries.ofList`: the map with the given entries, the last value of a key winning.
* `Entries.DistinctKeys`, `Node.DistinctKeys`: no two keys of a map stand for the same.
-/

namespace CwlDescriptor

namespace Entries

/-- The value at a key. -/
def find? : Entries → Scalar → Option Node
  | [], _ => none
  | (k', v') :: es, k => if k'.sameKey k then some v' else find? es k

/-- The value at a key that is a text. -/
def get? : Entries → String → Option Node
  | [], _ => none
  | (k, v) :: es, name => if k = .str name then some v else get? es name

/-- The value at a key that is a text, or null. -/
def field (es : Entries) (name : String) : Node :=
  (es.get? name).getD .null

/-- Sets the value at a key. -/
def insert : Entries → Scalar → Node → Entries
  | [], k, v => [(k, v)]
  | (k', v') :: es, k, v =>
    if k'.sameKey k then (k', v) :: es else (k', v') :: insert es k v

/-- Sets the value at a key that is a text. -/
def set (es : Entries) (name : String) (v : Node) : Entries :=
  es.insert (.str name) v

/-- Removes the entry at a key. -/
def erase : Entries → Scalar → Entries
  | [], _ => []
  | (k', v') :: es, k => if k'.sameKey k then es else (k', v') :: erase es k

/-- Adds the entries whose keys are missing, in their order. -/
def addMissing (es : Entries) : Entries → Entries
  | [] => es
  | (k, v) :: new =>
    match es.find? k with
    | some _ => addMissing es new
    | none => addMissing (es ++ [(k, v)]) new

/-- The map with the given entries. -/
def ofList (pairs : List (Scalar × Node)) : Entries :=
  pairs.foldl (fun es e => es.insert e.1 e.2) []

/-- No two keys stand for the same. -/
def DistinctKeys (es : Entries) : Prop :=
  (es.filterMap (·.1.key?)).Nodup

instance (es : Entries) : Decidable es.DistinctKeys :=
  inferInstanceAs (Decidable (es.filterMap _).Nodup)

end Entries

namespace Node

mutual

/-- In every map of the document, no two keys stand for the same. -/
def DistinctKeys : Node → Prop
  | .list items => DistinctKeysList items
  | .map entries => Entries.DistinctKeys entries ∧ DistinctKeysEntries entries
  | .pair k v => DistinctKeys k ∧ DistinctKeys v
  | _ => True

/-- In every map of the items, no two keys stand for the same. -/
def DistinctKeysList : List Node → Prop
  | [] => True
  | item :: items => DistinctKeys item ∧ DistinctKeysList items

/-- In every map of the values, no two keys stand for the same. -/
def DistinctKeysEntries : Entries → Prop
  | [] => True
  | (_, value) :: entries => DistinctKeys value ∧ DistinctKeysEntries entries

end

/-- The entries of a map. -/
def entries? : Node → Option Entries
  | .map es => some es
  | _ => none

/-- The value at a key of a map that is a text, or null. -/
def field (n : Node) (name : String) : Node :=
  match n.entries? with
  | some es => es.field name
  | none => .null

/-- The text of a text. -/
def text? : Node → Option String
  | .scalar (.str s) => some s
  | _ => none

/-- The node is null. -/
def isNull : Node → Bool
  | .scalar .null => true
  | _ => false

end Node

end CwlDescriptor

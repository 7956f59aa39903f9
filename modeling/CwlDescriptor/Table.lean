set_option autoImplicit false

/-!
# Tables in order of insertion

A table assigns values to texts. Setting the value of a present key keeps its position; a new key
goes to the end.

## Main definitions

* `Table`: tables.
* `Table.get?`, `Table.insert`, `Table.keys`: look up, set, and list the keys.
-/

namespace CwlDescriptor

/-- A table from texts to values, in the order in which the keys were set first. -/
abbrev Table (α : Type) := List (String × α)

namespace Table

variable {α : Type}

/-- The value of a key. -/
def get? : Table α → String → Option α
  | [], _ => none
  | (k, v) :: t, key => if k = key then some v else get? t key

/-- The table has the key. -/
def hasKey (t : Table α) (key : String) : Bool :=
  (get? t key).isSome

/-- Sets the value of a key. -/
def insert : Table α → String → α → Table α
  | [], key, value => [(key, value)]
  | (k, v) :: t, key, value =>
    if k = key then (k, value) :: t else (k, v) :: insert t key value

/-- The keys in their order. -/
def keys (t : Table α) : List String := t.map (·.1)

/-- The table with the given pairs; the last value of a key counts. -/
def ofList (pairs : List (String × α)) : Table α :=
  pairs.foldl (fun t (k, v) => insert t k v) []

end Table

end CwlDescriptor

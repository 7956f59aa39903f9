import CwlDescriptor.Document.Node
set_option autoImplicit false

/-!
# The order of the elements of a set

A set of numbers is shown in the order of the slots of a table, in which every number is put where
its hash points to. Equal numbers have equal hashes, whatever their kind. A set in which there is
another scalar is shown in the order in which it is written.

## Main definitions

* `SetOrder.hash?`: the hash of a number.
* `SetOrder.freeSlot`: the slot of a table to which a hash points.
* `SetOrder.sorted`: the elements of a set in the order in which they are shown.
-/

namespace CwlDescriptor.SetOrder

/-! ## Hashes -/

/-- The hashes of numbers are residues by this prime. -/
def modulus : Nat := Nat.pow 2 61 - 1

/-- The hash of an infinite number without its sign. -/
def infinityHash : Nat := 314159

/-- A residue with a sign as a word of 64 bits. Minus one is no hash; minus two stands for it. -/
def word (negative : Bool) (residue : Nat) : Nat :=
  if negative && residue ≠ 0 then Nat.pow 2 64 - (if residue = 1 then 2 else residue) else residue

/-- The hash of a number; the other scalars have none here. A power of two is its own inverse up to
a factor, since the order of two is 61. -/
def hash? : Scalar → Option Nat
  | .bool b => some (if b then 1 else 0)
  | .int i => some (word (i < 0) (i.natAbs % modulus))
  | .float x =>
    match x.decode with
    | .notANumber => none
    | .infinite negative => some (word negative infinityHash)
    | .finite negative mantissa exponent =>
      some (word negative (mantissa * Nat.pow 2 (exponent % 61).toNat % modulus))
  | _ => none

/-! ## Slots -/

/-- The least power of two from `size` on that is greater than a number. The first argument bounds
the number of doublings. -/
def doubled : Nat → Nat → Nat → Nat
  | 0, size, _ => size
  | n + 1, size, least => if size ≤ least then doubled n (2 * size) least else size

/-- The number of slots for a number of elements. -/
def slotCount (elements : Nat) : Nat :=
  if elements < 5 then 8 else doubled elements 8 (2 * elements)

/-- The first free slot among those that a hash points to in turn: up to ten slots from `slot` on,
and then those from a slot that depends on further bits of the hash. The first argument bounds the
number of turns. -/
def freeSlot (slots : Nat) (isTaken : Nat → Bool) : Nat → Nat → Nat → Nat
  | 0, slot, _ => slot
  | n + 1, slot, bits =>
    let run := if slot + 10 ≤ slots then 10 else 1
    match (List.range run).find? fun k => !isTaken (slot + k) with
    | some k => slot + k
    | none => freeSlot slots isTaken n ((5 * slot + 1 + bits / 32) % slots) (bits / 32)

/-- Puts an element with a hash into a table of slots. -/
def put (slots : Nat) (table : List (Nat × Scalar)) (hash : Nat) (element : Scalar) :
    List (Nat × Scalar) :=
  let isTaken (slot : Nat) : Bool := table.any (·.1 = slot)
  (freeSlot slots isTaken (2 * slots + 16) (hash % slots) hash, element) :: table

/-- The elements of a set in the order in which they are shown. -/
def sorted (elements : List Scalar) : List Scalar :=
  match elements.mapM fun element => (hash? element).map (·, element) with
  | none => elements
  | some hashed =>
    let slots := slotCount elements.length
    let table := hashed.foldl (fun table (hash, element) => put slots table hash element) []
    (table.mergeSort fun a b => Nat.ble a.1 b.1).map (·.2)

end CwlDescriptor.SetOrder

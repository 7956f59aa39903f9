import CwlDescriptor.Document.Moment
set_option autoImplicit false

/-!
# Documents

A document is a finite tree of scalars, lists and maps. Maps keep the order of their entries, and
their keys are scalars.

## Main definitions

* `Scalar`: the leaves of documents and the keys of maps.
* `Scalar.key?`: what a scalar stands for as a key; numbers of equal value are one key.
* `Scalar.sameKey`: two scalars stand for the same as keys.
* `Node`: documents and their parts.
* `Node.size`: the number of nodes in value position.
* `Node.depth`: the number of levels.
-/

namespace CwlDescriptor

/-- A leaf of a document. -/
inductive Scalar where
  | null
  | bool (b : Bool)
  | int (i : Int)
  | float (x : Binary64)
  /-- The value of the word for what is not a number. -/
  | notANumber
  | str (s : String)
  | bytes (b : List UInt8)
  | date (d : Date)
  | time (d : Date) (t : TimeOfDay)
deriving DecidableEq, Repr, Inhabited

/-- What a scalar stands for as a key of a map. -/
inductive Key where
  | null
  | integer (i : Int)
  | float (x : Binary64)
  | notANumber
  | str (s : String)
  | bytes (b : List UInt8)
  | date (d : Date)
  | localTime (d : Date) (t : TimeOfDay)
  | instant (microseconds : Int)
deriving DecidableEq, Repr

/-- Truth values count as one and zero, and a floating point number that is an integer counts as
this integer; times with an offset are compared in universal time. What is not a number stands for
nothing, since it equals nothing, unless it is the value of the word for it. -/
def Scalar.key? : Scalar → Option Key
  | .null => some .null
  | .bool b => some (.integer (if b then 1 else 0))
  | .int i => some (.integer i)
  | .float x => match x.decode, x.integer? with
    | .notANumber, _ => none
    | _, some i => some (.integer i)
    | _, none => some (.float x)
  | .notANumber => some .notANumber
  | .str s => some (.str s)
  | .bytes b => some (.bytes b)
  | .date d => some (.date d)
  | .time d t => match t.offset with
    | none => some (.localTime d t)
    | some offset => some (.instant (instant d t offset))

/-- Two scalars stand for the same as keys. -/
def Scalar.sameKey (a b : Scalar) : Bool :=
  a.key?.any fun key => b.key? = some key

/-- A document, or a part of one. -/
inductive Node where
  | scalar (value : Scalar)
  | list (items : List Node)
  /-- The entries in their order; no two keys stand for the same. -/
  | map (entries : List (Scalar × Node))
  | set (elements : List Scalar)
  /-- An element of an ordered map that is written as a list of pairs. -/
  | pair (key value : Node)
deriving Repr, Inhabited

/-- The entries of a map, in their order. -/
abbrev Entries := List (Scalar × Node)

namespace Node

/-- The empty document. -/
abbrev null : Node := .scalar .null

/-- A text as a document. -/
abbrev str (s : String) : Node := .scalar (.str s)

/-! ## Equality -/

mutual

/-- Whether two documents are equal. -/
def decEq : (a b : Node) → Decidable (a = b)
  | .scalar a, .scalar b =>
    if h : a = b then isTrue (by rw [h]) else isFalse fun e => h (by injection e)
  | .list a, .list b =>
    match decEqList a b with
    | isTrue h => isTrue (by rw [h])
    | isFalse h => isFalse fun e => h (by injection e)
  | .map a, .map b =>
    match decEqEntries a b with
    | isTrue h => isTrue (by rw [h])
    | isFalse h => isFalse fun e => h (by injection e)
  | .set a, .set b =>
    if h : a = b then isTrue (by rw [h]) else isFalse fun e => h (by injection e)
  | .pair a a', .pair b b' =>
    match decEq a b, decEq a' b' with
    | isTrue h, isTrue h' => isTrue (by rw [h, h'])
    | isFalse h, _ => isFalse fun e => h (by injection e)
    | _, isFalse h => isFalse fun e => h (by injection e)
  | .scalar _, .list _ | .scalar _, .map _ | .scalar _, .set _ | .scalar _, .pair ..
  | .list _, .scalar _ | .list _, .map _ | .list _, .set _ | .list _, .pair ..
  | .map _, .scalar _ | .map _, .list _ | .map _, .set _ | .map _, .pair ..
  | .set _, .scalar _ | .set _, .list _ | .set _, .map _ | .set _, .pair ..
  | .pair .., .scalar _ | .pair .., .list _ | .pair .., .map _ | .pair .., .set _ =>
    isFalse fun e => by injection e

/-- Whether two lists of documents are equal. -/
def decEqList : (a b : List Node) → Decidable (a = b)
  | [], [] => isTrue rfl
  | a :: as, b :: bs =>
    match decEq a b, decEqList as bs with
    | isTrue h, isTrue h' => isTrue (by rw [h, h'])
    | isFalse h, _ => isFalse fun e => h (by injection e)
    | _, isFalse h => isFalse fun e => h (by injection e)
  | [], _ :: _ | _ :: _, [] => isFalse fun e => by injection e

/-- Whether two lists of entries are equal. -/
def decEqEntries : (a b : Entries) → Decidable (a = b)
  | [], [] => isTrue rfl
  | (k, v) :: as, (k', v') :: bs =>
    if hk : k = k' then
      match decEq v v', decEqEntries as bs with
      | isTrue h, isTrue h' => isTrue (by rw [hk, h, h'])
      | isFalse h, _ => isFalse fun e => h (by injection e with e; injection e)
      | _, isFalse h => isFalse fun e => h (by injection e)
    else isFalse fun e => hk (by injection e with e; injection e)
  | [], _ :: _ | _ :: _, [] => isFalse fun e => by injection e

end

instance : DecidableEq Node := decEq

/-! ## Measures -/

mutual

/-- The number of maps, lists and other values of a document. Keys are not counted, and sets and
pairs count as one. -/
def size : Node → Nat
  | .list items => 1 + sizeList items
  | .map entries => 1 + sizeEntries entries
  | _ => 1

/-- The number of values of the items of a list. -/
def sizeList : List Node → Nat
  | [] => 0
  | item :: items => size item + sizeList items

/-- The number of values of the entries of a map. -/
def sizeEntries : Entries → Nat
  | [] => 0
  | (_, value) :: entries => size value + sizeEntries entries

end

mutual

/-- The number of levels of lists and maps above the deepest leaf, that leaf included. -/
def depth : Node → Nat
  | .list items => 1 + depthList items
  | .map entries => 1 + depthEntries entries
  | _ => 1

/-- The greatest number of levels of an item. -/
def depthList : List Node → Nat
  | [] => 0
  | item :: items => max (depth item) (depthList items)

/-- The greatest number of levels of a value. -/
def depthEntries : Entries → Nat
  | [] => 0
  | (_, value) :: entries => max (depth value) (depthEntries entries)

end

end Node

end CwlDescriptor

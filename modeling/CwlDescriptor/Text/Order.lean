import CwlDescriptor.Text.Half
set_option autoImplicit false

/-!
# The order of texts

Texts are sorted by their code points, and lists of texts by their elements from left to right.

## Main definitions

* `Text.notAfter`: the order of lists by their elements.
* `Text.sorted`, `Text.before`: the order of texts, and the strict one.
-/

namespace CwlDescriptor.Text

/-- A list comes before another one or is equal to it, if single elements are compared by a strict
order. -/
def notAfter {α : Type} (before : α → α → Bool) : List α → List α → Bool
  | [], _ => true
  | _ :: _, [] => false
  | a :: as, b :: bs => before a b || (!before b a && notAfter before as bs)

/-- A text comes before another one or is equal to it. -/
def sorted (s t : String) : Bool :=
  notAfter (fun m n => Nat.blt m n) (codes s) (codes t)

/-- A text comes before another one. -/
def before (s t : String) : Bool :=
  !sorted t s

end CwlDescriptor.Text

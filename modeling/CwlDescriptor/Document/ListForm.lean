import CwlDescriptor.Document.Entries
set_option autoImplicit false

/-!
# The list form of a map

Many fields of a descriptor may be written as a list of maps or as one map from a distinguished
field to the rest. This module turns the second form into the first.

## Main definitions

* `Node.listForm`: the items of a field in list form.
-/

namespace CwlDescriptor.Node

/-- One entry in list form: a map gets its key as the field `keyName`, and any other value becomes
the field `valueName` beside the key. -/
def itemOfEntry (keyName valueName : String) : Scalar × Node → Node
  | (k, .map es) => .map (Entries.set es keyName (.scalar k))
  | (k, v) => .map (Entries.set [(.str keyName, .scalar k)] valueName v)

/-- The items of a list, the entries of a map in list form, and no items for any other value. -/
def listForm (keyName valueName : String) : Node → List Node
  | .list items => items
  | .map entries => entries.map (itemOfEntry keyName valueName)
  | _ => []

end CwlDescriptor.Node

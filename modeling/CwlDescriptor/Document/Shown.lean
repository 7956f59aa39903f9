import CwlDescriptor.Document.Entries
import CwlDescriptor.Document.SetOrder
import CwlDescriptor.Text.Quoted
set_option autoImplicit false

/-!
# Documents inside messages

How a document is shown in the running text of a message: scalars by their text, lists in brackets
and maps in braces, with texts between quotes inside them. A document that holds an integer of too
many digits cannot be shown.

## Main definitions

* `Node.quoted?`: the form inside a list or a map.
* `Node.shown?`: the form on its own, where a text stands for itself.
* `Node.kindName`: the name of the kind of a document.
-/

namespace CwlDescriptor

/-- A scalar inside a list or a map. -/
def Scalar.quoted? : Scalar → Option String
  | .null => some "None"
  | .bool b => some (if b then "True" else "False")
  | .int i => Integer.text? i
  | .float x => some x.text
  | .notANumber => some Binary64.nan.text
  | .str s => some (Text.quote s)
  | .bytes b => some (Text.quoteBytes b)
  | .date d => some d.call
  | .time d t => some (t.call d)

/-- A scalar on its own. -/
def Scalar.shown? : Scalar → Option String
  | .str s => some s
  | .date d => some (String.ofList d.iso)
  | .time d t => some (String.ofList (d.iso ++ ' ' :: t.iso))
  | s => s.quoted?

namespace Node

/-- The elements of a set, or a call without arguments for the empty one. -/
def quotedSet? (elements : List Scalar) : Option String :=
  if elements.isEmpty then some "set()"
  else ((SetOrder.sorted elements).mapM Scalar.quoted?).map fun texts =>
    "\x7b" ++ ", ".intercalate texts ++ "\x7d"

mutual

/-- A document inside a list or a map. -/
def quoted? : Node → Option String
  | .scalar s => s.quoted?
  | .list items => (quotedList? items).map fun texts => "[" ++ ", ".intercalate texts ++ "]"
  | .map entries =>
    (quotedEntries? entries).map fun texts => "\x7b" ++ ", ".intercalate texts ++ "\x7d"
  | .set elements => quotedSet? elements
  | .pair k v => do
    let k ← quoted? k
    let v ← quoted? v
    return "(" ++ k ++ ", " ++ v ++ ")"

/-- The items of a list. -/
def quotedList? : List Node → Option (List String)
  | [] => some []
  | item :: items => do
    let text ← quoted? item
    let texts ← quotedList? items
    return text :: texts

/-- The entries of a map, key and value separated by a colon. -/
def quotedEntries? : Entries → Option (List String)
  | [] => some []
  | (k, value) :: entries => do
    let key ← k.quoted?
    let text ← quoted? value
    let texts ← quotedEntries? entries
    return (key ++ ": " ++ text) :: texts

end

/-- A document on its own. -/
def shown? : Node → Option String
  | .scalar s => s.shown?
  | n => n.quoted?

/-- The name of the kind of a document. -/
def kindName : Node → String
  | .scalar .null => "NoneType"
  | .scalar (.bool _) => "bool"
  | .scalar (.int _) => "int"
  | .scalar (.float _) | .scalar .notANumber => "float"
  | .scalar (.str _) => "str"
  | .scalar (.bytes _) => "bytes"
  | .scalar (.date _) => "date"
  | .scalar (.time ..) => "datetime"
  | .list _ => "list"
  | .map _ => "dict"
  | .set _ => "set"
  | .pair .. => "tuple"

end Node

end CwlDescriptor

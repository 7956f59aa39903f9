import CwlDescriptor.Document.Shown
import CwlDescriptor.Error
set_option autoImplicit false

/-!
# Entries of a descriptor

An entry is a map whose class is that of a workflow, of a tool, or of an expression. The class alone
decides.

## Main definitions

* `EntryClass`: the classes of entries.
* `Node.entryClass?`: the class of a document.
* `Node.requireEntries`: the entries of a map, or a fault.
* `Node.shown`: a document in a message, or a fault.
* `Node.cwlVersion`: the version of a document, which must be a supported one.
-/

namespace CwlDescriptor

/-- The classes of entries. -/
inductive EntryClass where
  | workflow
  | commandLineTool
  | expressionTool
deriving DecidableEq, Repr

namespace EntryClass

/-- The name of a class in a descriptor. -/
def name : EntryClass → String
  | .workflow => "Workflow"
  | .commandLineTool => "CommandLineTool"
  | .expressionTool => "ExpressionTool"

/-- All classes. -/
def all : List EntryClass := [.workflow, .commandLineTool, .expressionTool]

/-- The class with a name. -/
def ofName? (name : String) : Option EntryClass :=
  all.find? (·.name = name)

end EntryClass

/-- The class of a map. -/
def Entries.entryClass? (es : Entries) : Option EntryClass :=
  (es.field "class").text?.bind EntryClass.ofName?

namespace Node

/-- The class of a document. -/
def entryClass? (n : Node) : Option EntryClass :=
  n.entries?.bind Entries.entryClass?

/-- The entries of a document that must be a map. -/
def requireEntries (n : Node) : Except Failure Entries :=
  match n.entries? with
  | some es => .ok es
  | none => .error (.fault .notAMap)

/-- The document as it is shown in a message. -/
def shown (n : Node) : Except Failure String :=
  match n.shown? with
  | some text => .ok text
  | none => .error (.fault .tooManyDigits)

/-- The version of the language that a document is written in; it must begin with `v1`. -/
def cwlVersion (n : Node) (path : Option String) : Except Failure String := do
  let version := n.field "cwlVersion"
  if version.isNull then .error (.refuse .missingVersion path)
  else
    let text ← version.shown
    if "v1".toList.isPrefixOf text.toList then return text
    else .error (.refuse (.unsupportedVersion text) path)

/-- A document has a supported version; a version that cannot be shown is a fault. -/
def hasValidVersion (n : Node) : Except Failure Bool :=
  match n.cwlVersion none with
  | .ok _ => .ok true
  | .error (.refused _) => .ok false
  | .error e => .error e

end Node

end CwlDescriptor

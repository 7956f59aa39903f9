import CwlDescriptor.Text.Order
import CwlDescriptor.Workflow.Walk
set_option autoImplicit false

/-!
# The table of tools

One row for each step at any depth that runs a tool, in the order of the ids.

## Main definitions

* `ToolRow`: a row.
* `toolTable`: the table of a walk.
-/

namespace CwlDescriptor

/-- A row of the table of tools; what is not known is empty. -/
structure ToolRow where
  id : String
  file : String
  image : String
  link : String
  specifier : String
  version : String
deriving DecidableEq, Repr

/-- The name of a node without what the names of nodes of steps start with. -/
def displayName (node : String) : String :=
  match nodePrefix.toList.isPrefixOf? node.toList with
  | some rest => String.ofList rest
  | none => node

/-- The row of a step. -/
def toolRow (node : String) (info : ImageInfo) : Except Failure ToolRow := do
  let image := info.image.getD ""
  let version ← match info.specifier with
    | none => pure []
    | some s => (Image.version image.toList s).mapError .fault
  return {
    id := displayName node
    file := info.runPath
    image := image
    link := info.url.getD ""
    specifier := (info.specifier.map Image.Specifier.text).getD ""
    version := String.ofList version }

/-- The rows of the steps that run a tool, in the order of the code points of their ids. -/
def toolTable (r : WalkResult) : Except Failure (List ToolRow) := do
  let tools := r.images.filter fun (node, _) => Table.get? r.types node = some .tool
  let rows ← tools.mapM fun (node, info) => toolRow node info
  return rows.mergeSort fun a b => Text.sorted a.id b.id

end CwlDescriptor

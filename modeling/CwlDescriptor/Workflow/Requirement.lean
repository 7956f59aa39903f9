import CwlDescriptor.Document.ListForm
import CwlDescriptor.Entry
set_option autoImplicit false

/-!
# The image that something runs in

Workflows, steps and tools name an image among their requirements or their hints. Where none is
named, the image of what is around them is taken.

## Main definitions

* `Requirement.image?`: the image that a requirement names.
* `dockerPull`: the first image among requirements.
* `effectiveImage`: the image of a workflow, a step, or a tool.
-/

namespace CwlDescriptor

/-- The image that a requirement names. -/
def Requirement.image? (requirement : Node) : Option Node :=
  if requirement.field "class" = .str "DockerRequirement" &&
      !(requirement.field "dockerPull").isNull then
    some (requirement.field "dockerPull")
  else none

/-- The first image among requirements, which are in list form or in map form. -/
def dockerPull (requirements : Node) : Except Failure (Option String) :=
  match (requirements.listForm "class" "value").findSome? Requirement.image? with
  | some image => image.shown.map some
  | none => .ok none

/-- The image of a workflow, a step, or a tool: the first one among its requirements, then the first
one among its hints, then the given one. -/
def effectiveImage (es : Entries) (inherited : Option String) : Except Failure (Option String) := do
  match ← dockerPull (es.field "requirements") with
  | some image => return some image
  | none =>
    match ← dockerPull (es.field "hints") with
    | some image => return some image
    | none => return inherited

end CwlDescriptor

import CwlDescriptor.Expansion.Basic
import CwlDescriptor.Image.Link
import CwlDescriptor.Workflow.Requirement
import CwlDescriptor.Workflow.Step
set_option autoImplicit false

/-!
# Walking a workflow

The steps of an expanded workflow are visited in their order, and those of a workflow that a step
runs within the visit of that step. What is found is recorded by the name of the node of each step;
names of inner steps are joined to that of the outer step by a dot.

## Main definitions

* `TargetType`: what a step runs.
* `ImageInfo`, `WalkResult`: what is recorded.
* `Walker`: what a walk is given.
* `Walker.visit`, `Walker.walkWithin`, `Walker.walk`: the visit of a step and of a workflow.
* `addSyntheticNodes`: the nodes before and after all steps.
-/

namespace CwlDescriptor

/-- What a step runs. -/
inductive TargetType where
  | workflow
  | tool
  | expressionTool
  /-- A file that does not exist. -/
  | notApplicable
deriving DecidableEq, Repr

namespace TargetType

/-- The name of a type in a graph. -/
def name : TargetType → String
  | .workflow => "workflow"
  | .tool => "tool"
  | .expressionTool => "expressionTool"
  | .notApplicable => "n/a"

/-- What a step with an entry of the given class runs. -/
def ofClass : EntryClass → TargetType
  | .workflow => .workflow
  | .commandLineTool => .tool
  | .expressionTool => .expressionTool

/-- Something runs in an image. -/
def usesImage : TargetType → Bool
  | .workflow | .tool => true
  | _ => false

end TargetType

/-- What is recorded of the image of a step. -/
structure ImageInfo where
  /-- The path of the file of what the step runs. -/
  runPath : String
  image : Option String
  url : Option String
  specifier : Option Image.Specifier
deriving DecidableEq, Repr

/-- What is recorded by a walk. -/
structure WalkResult where
  /-- The nodes that a step depends on. -/
  dependencies : Table (List String) := []
  images : Table ImageInfo := []
  types : Table TargetType := []
  /-- The nodes of the graph and the links of their images, in the order of the visits. -/
  nodes : List (String × Option String) := []
deriving DecidableEq, Repr

/-- What a walk is for. -/
inductive OutputMode where
  /-- The graph of the steps. -/
  | dag
  /-- The table of the tools. -/
  | tools
deriving DecidableEq, Repr

/-- What a walk is given. -/
structure Walker where
  /-- The files from which the entries come, by their ids. -/
  pathOfId : Node → Except Failure (Option String)
  mode : OutputMode := .dag
  lookup : Image.ToolLookup := Image.noTools

/-- A computation with a record, which is also known when the computation fails. -/
abbrev Walk := EStateM Failure WalkResult

namespace Walker

/-- A result that does not depend on the record. -/
def lift {α : Type} : Except Failure α → Walk α
  | .ok a => pure a
  | .error e => throw e

/-- The name of the node of a step. -/
def nodeName (parent : Option String) (key : String) : String :=
  match parent with
  | none => nodePrefix ++ key
  | some parent => parent ++ "." ++ key

/-- The specifier and the link of an image. There are none if the tool could not be looked up. -/
def classify (w : Walker) (image : String) : Option (Image.Specifier × Option String) :=
  let chars := image.toList
  let specifier := Image.specifier chars
  match (Image.linkWith chars specifier).resolve w.lookup with
  | .ok url => some (specifier, url)
  | .error _ => none

/-- What is recorded of the image of something of the given type. -/
def imageInfo (w : Walker) (type : Option TargetType) (runPath : String) (image : Option String) :
    ImageInfo :=
  let classified :=
    if type.any TargetType.usesImage then
      image.bind fun text => if text = "" then none else w.classify text
    else none
  match classified with
  | some (specifier, url) => ⟨runPath, image, url, some specifier⟩
  | none => ⟨runPath, image, none, none⟩

/-- Records the dependencies of a step, if it has any. -/
def addDependencies (node : String) (step : Entries) : Walk Unit :=
  match stepDependencies step with
  | [] => pure ()
  | new => modify fun r =>
    let old := (Table.get? r.dependencies node).getD []
    { r with dependencies := Table.insert r.dependencies node (old ++ new) }

/-- Records what a step runs. -/
def setType (node : String) (type : TargetType) : Walk Unit :=
  modify fun r => { r with types := Table.insert r.types node type }

/-- The visit of a workflow inside of a step, given its entries, the image around it, and the name
of the node of the step. -/
abbrev Inner := Entries → Option String → String → Walk Unit

/-- Visits what a step runs, given the image around it: the path of the file it comes from, and its
image. -/
def visitTarget (w : Walker) (inner : Inner) (workflowPath : Option String) (node : String)
    (image : Option String) (target : Node) : Walk (Option String × Option String) := do
  match target with
  | .map run =>
    match Entries.entryClass? run with
    | none => throw (.refuse (.unhandledRun (← lift target.shown)) workflowPath)
    | some c =>
      let image ← lift (effectiveImage run image)
      setType node (.ofClass c)
      if c = .workflow then inner run image node
      let path ← lift (w.pathOfId (target.field "id"))
      return (path, image)
  | .scalar (.str path) =>
    setType node .notApplicable
    return (some path, image)
  | _ => throw (.refuse (.unhandledRun (← lift target.shown)) workflowPath)

/-- Visits a step, given the image around it. Only the steps of the outermost workflow are nodes of
the graph. -/
def visit (w : Walker) (inner : Inner) (workflowPath : Option String) (image : Option String)
    (depth : Int) (parent : Option String) (key : String) (step : Entries) : Walk Unit := do
  let node := nodeName parent key
  if depth = 0 then addDependencies node step
  let image ← lift (effectiveImage step image)
  let (path, image) ← w.visitTarget inner workflowPath node image (step.field "run")
  let info := w.imageInfo (Table.get? (← get).types node) (path.getD "") image
  if depth = 0 && w.mode = .dag then
    modify fun r => { r with nodes := r.nodes ++ [(node, info.url)] }
  modify fun r => { r with images := Table.insert r.images node info }

/-- Visits the steps of a workflow, given the image around it. -/
def visitAll (w : Walker) (inner : Inner) (workflow : Entries) (inherited : Option String)
    (depth : Int) (parent : Option String) : Walk Unit := do
  let image ← lift (effectiveImage workflow inherited)
  let path ← lift (w.pathOfId (workflow.field "id"))
  let table ← lift (steps workflow path)
  table.forM fun (key, step) => w.visit inner path image depth parent key step

/-- Visits a workflow in which no more than `levels` workflows are nested in each other. -/
def walkWithin (w : Walker) :
    Nat → Entries → Option String → Int → Option String → Walk Unit
  | 0, _, _, _, _ => throw .exhausted
  | levels + 1, workflow, inherited, depth, parent =>
    w.visitAll (fun run image node => w.walkWithin levels run image (depth + 1) (some node))
      workflow inherited depth parent

/-- Visits a workflow; each workflow in it lies on a deeper level of the document. -/
def walk (w : Walker) (workflow : Entries) (inherited : Option String) (depth : Int)
    (parent : Option String) : Walk Unit :=
  w.walkWithin (Node.depth (.map workflow)) workflow inherited depth parent

end Walker

/-- Adds the nodes before and after all steps. The node at the end depends on the steps that the
outputs come from, and a node without dependencies depends on the node at the beginning. -/
def addSyntheticNodes (workflow : Entries) (r : WalkResult) : WalkResult :=
  let dependencies := Table.insert r.dependencies endKey (outputDependencies workflow)
  let nodes := r.nodes ++ [(endKey, some "")]
  let dependencies := nodes.foldl (fun table (node, _) =>
    if Table.hasKey table node then table else Table.insert table node [beginKey]) dependencies
  { r with dependencies := dependencies, nodes := nodes ++ [(beginKey, some "")] }

end CwlDescriptor

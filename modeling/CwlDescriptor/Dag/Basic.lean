import CwlDescriptor.Workflow.ToolTable
set_option autoImplicit false

/-!
# The graph of the steps

The nodes of the graph are the steps of a workflow and the nodes before and after them. An edge goes
from a step to each step that depends on it. A step without an edge to it gets one from the node at
the beginning, and a step without an edge from it gets one to the node at the end.

## Main definitions

* `Digraph`: graphs with nodes and edges in order of insertion.
* `NodeInfo`, `Dag`: the graph of the steps.
* `buildDag`: the graph of a walk.
-/

namespace CwlDescriptor

/-- A directed graph without multiple edges. Nodes may carry information. -/
structure Digraph (α : Type) where
  nodes : Table (Option α) := []
  /-- The edges in the order in which they were added. -/
  edges : List (String × String) := []
deriving Repr

namespace Digraph

variable {α : Type}

/-- The graph has a node. -/
def hasNode (g : Digraph α) (node : String) : Bool :=
  Table.hasKey g.nodes node

/-- Adds a node with information, or sets the information of a node. -/
def addNode (g : Digraph α) (node : String) (info : α) : Digraph α :=
  { g with nodes := Table.insert g.nodes node (some info) }

/-- Adds a node without information, if it is missing. -/
def requireNode (g : Digraph α) (node : String) : Digraph α :=
  if g.hasNode node then g else { g with nodes := g.nodes ++ [(node, none)] }

/-- Adds an edge, and its ends if they are missing. -/
def addEdge (g : Digraph α) (source target : String) : Digraph α :=
  let g := (g.requireNode source).requireNode target
  if g.edges.contains (source, target) then g
  else { g with edges := g.edges ++ [(source, target)] }

/-- No edge leads to a node. -/
def isSource (g : Digraph α) (node : String) : Bool :=
  g.edges.all (·.2 ≠ node)

/-- No edge leads from a node. -/
def isSink (g : Digraph α) (node : String) : Bool :=
  g.edges.all (·.1 ≠ node)

/-- The edges by the nodes that they lead from, in the order of the nodes. -/
def edgesBySource (g : Digraph α) : List (String × String) :=
  (Table.keys g.nodes).flatMap fun node => g.edges.filter (·.1 = node)

end Digraph

/-- What is known of a node of the graph of the steps. -/
structure NodeInfo where
  name : String
  run : String
  type : TargetType
  image : String
  link : String
deriving DecidableEq, Repr

/-- The graph of the steps of a workflow. -/
abbrev Dag := Digraph NodeInfo

/-- What is known of a node after a walk. -/
def nodeInfo (r : WalkResult) (node : String) (link : Option String) : NodeInfo :=
  let info := Table.get? r.images node
  { name := displayName node
    run := (info.map (·.runPath)).getD ""
    type := (Table.get? r.types node).getD .notApplicable
    image := (info.bind (·.image)).getD ""
    link := link.getD "" }

/-- The graph of the nodes without edges. -/
def dagNodes (r : WalkResult) : Dag :=
  r.nodes.foldl (fun g (node, link) => g.addNode node (nodeInfo r node link)) {}

/-- Adds the edges to a node from those that it depends on. Nodes that do not exist are passed
over. -/
def addDependencyEdges (g : Dag) (node : String) (dependencies : List String) : Dag :=
  if g.hasNode node then
    dependencies.foldl (fun g d => if g.hasNode d then g.addEdge d node else g) g
  else g

/-- Adds an edge from the beginning and one to the end where a node has no edge. -/
def stitch (g : Dag) (node : String) : Dag :=
  let g := if g.isSource node then g.addEdge beginKey node else g
  if g.isSink node then g.addEdge node endKey else g

/-- The graph of a walk to which the nodes before and after all steps were added. -/
def buildDag (r : WalkResult) : Dag :=
  let g := r.dependencies.foldl (fun g (node, ds) => addDependencyEdges g node ds) (dagNodes r)
  let steps := (Table.keys g.nodes).filter fun node => node ≠ beginKey && node ≠ endKey
  steps.foldl stitch g

end CwlDescriptor

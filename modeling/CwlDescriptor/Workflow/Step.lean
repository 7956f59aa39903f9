import CwlDescriptor.Document.ListForm
import CwlDescriptor.Entry
import CwlDescriptor.Table
set_option autoImplicit false

/-!
# Steps and their dependencies

## Main definitions

* `nodePrefix`, `beginKey`, `endKey`: the names of the nodes of a graph.
* `stepIds`: the steps that sources come from.
* `steps`: the steps of a workflow by their ids.
-/

namespace CwlDescriptor

/-- What the name of the node of a step starts with. -/
def nodePrefix : String := "dockstore_"

/-- The name of the node before all steps. -/
def beginKey : String := "UniqueBeginKey"

/-- The name of the node after all steps. -/
def endKey : String := "UniqueEndKey"

/-- The step that a source comes from: the text before its first slash, without its first number
sign. A source without slash is no output of a step. -/
def sourceStep? (source : String) : Option String :=
  (Text.cutFirst '/' source.toList).map fun (step, _) => String.ofList (step.erase '#')

/-- The texts of a source, which is one text or a list of texts. -/
def sourceTexts : Node → List String
  | .scalar (.str source) => [source]
  | .list sources => sources.filterMap Node.text?
  | _ => []

/-- The names of the nodes of the steps that sources come from. -/
def sourceNodes (sources : Node) (start : String) : List String :=
  ((sourceTexts sources).filterMap sourceStep?).map (start ++ ·)

/-- The names of the nodes that a step depends on by its inputs. -/
def stepDependencies (step : Entries) : List String :=
  ((step.field "in").listForm "id" "source").flatMap fun input =>
    sourceNodes (input.field "source") nodePrefix

/-- The names of the nodes that the outputs of a workflow come from. -/
def outputDependencies (workflow : Entries) : List String :=
  ((workflow.field "outputs").listForm "id" "type").flatMap fun output =>
    sourceNodes (output.field "outputSource") nodePrefix

/-- The id of a step in list form, without the number signs that it begins with. -/
def stepId (id : Node) : Except Failure String := do
  let text ← id.shown
  return String.ofList (text.toList.dropWhile (· = '#'))

/-- Adds the steps of a list; each must be a map with an id. -/
def addListedSteps (path : Option String) :
    Table Entries → List Node → Except Failure (Table Entries)
  | table, [] => .ok table
  | table, step :: rest => do
    let id := step.field "id"
    if id.isNull then .error (.refuse (.stepWithoutId (← step.shown)) path)
    else
      addListedSteps path (Table.insert table (← stepId id) (step.entries?.getD [])) rest

/-- Adds the steps of a map; a step that is no map is empty. -/
def addNamedSteps : Table Entries → Entries → Except Failure (Table Entries)
  | table, [] => .ok table
  | table, (key, step) :: rest => do
    let key ← (Node.scalar key).shown
    addNamedSteps (Table.insert table key (step.entries?.getD [])) rest

/-- The steps of a workflow by their ids; the last one of several with the same id counts. The path
is that of the file of the workflow. -/
def steps (workflow : Entries) (path : Option String) : Except Failure (Table Entries) :=
  match workflow.field "steps" with
  | .map es => addNamedSteps [] es
  | .list items => addListedSteps path [] items
  | _ => .ok []

end CwlDescriptor

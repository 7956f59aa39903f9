import CwlDescriptor.Dag.Dot
import CwlDescriptor.Imports
import CwlDescriptor.Json
import CwlDescriptor.Metadata
set_option autoImplicit false

/-!
# Analysing a descriptor

The graph of the steps, the table of the tools, the metadata and the imported files of a root
descriptor among the files of a repository.

## Main definitions

* `Analyzer`: what an analysis is given.
* `entryId`: the ids of entries that have none of their own.
* `Analyzer.expandRoot`, `Analyzer.walkRoot`, `Analyzer.dag`, `Analyzer.content`: the analyses.
* `Dag.toJson`, `toolTableJson`, `Metadata.toJson`, `Discovery.toJson`: the results as JSON.
-/

namespace CwlDescriptor

/-- The id for an entry that has none of its own, by the number of such ids including it. -/
def entryId (number : Nat) : String :=
  "00000000-0000-4000-8000-" ++ String.ofList (Text.hexDigits 12 number)

/-- What an analysis is given. -/
structure Analyzer where
  store : SourceStore
  limits : Limits := {}
  lookup : Image.ToolLookup := Image.noTools
  /-- The id that is made for an entry, by the number of ids that were made before. -/
  newId : Nat → String := fun made => entryId (made + 1)

namespace Analyzer

/-- The expansion of descriptors. -/
def expander (a : Analyzer) : Expander :=
  { store := a.store, limits := a.limits, newId := a.newId }

/-- The expanded root, which must be a map with a supported version, and the state after the
expansion. -/
def expandRoot (a : Analyzer) (root : SourceFile) : Except Failure (Entries × ExpansionState) :=
  match (expandText a.expander root.path root.content).run {} with
  | .error e _ => .error e
  | .ok document s =>
    match document.entries? with
    | none => .error (.refuse .notAMap (some root.path))
    | some es => do
      let _ ← document.cwlVersion (some root.path)
      return (es, s)

/-- The result of walking the expanded root. -/
def walkRoot (a : Analyzer) (root : SourceFile) (mode : OutputMode) :
    Except Failure WalkResult := do
  let (es, s) ← a.expandRoot root
  let walker : Walker := { pathOfId := s.pathOfId, mode := mode, lookup := a.lookup }
  match (walker.walk es none 0 none).run {} with
  | .error e _ => .error e
  | .ok _ r => return if mode = .dag then addSyntheticNodes es r else r

/-- The graph of the steps of the root. -/
def dag (a : Analyzer) (root : SourceFile) : Except Failure Dag := do
  let r ← a.walkRoot root .dag
  return buildDag r

end Analyzer

/-! ## Results as JSON -/

/-- What is known of a node, with its id. -/
def nodeJson (node : String) (info : Option NodeInfo) : Json :=
  .obj [("data", .obj (("id", .str node) :: match info with
    | none => []
    | some info =>
      [("name", .str info.name), ("run", .str info.run), ("type", .str info.type.name),
       ("docker", .str info.image), ("tool", .str info.link)]))]

/-- An edge, with an id made from its ends. -/
def edgeJson (edge : String × String) : Json :=
  .obj [("data", .obj [("source", .str edge.1), ("target", .str edge.2),
    ("id", .str (edge.1 ++ "_" ++ edge.2))])]

/-- The elements of a graph for a program that draws it. -/
def Dag.toJson (g : Dag) : Json :=
  .obj [("nodes", .arr (g.nodes.map fun (node, info) => nodeJson node info)),
    ("edges", .arr (g.edgesBySource.map edgeJson))]

/-- A row of the table of tools. -/
def ToolRow.toJson (row : ToolRow) : Json :=
  .obj [("id", .str row.id), ("file", .str row.file), ("docker", .str row.image),
    ("link", .str row.link), ("specifier", .str row.specifier), ("version", .str row.version)]

/-- An author. -/
def Author.toJson (a : Author) : Json :=
  .obj [("name", .ofOption a.name), ("email", .ofOption a.email)]

/-- The metadata of a descriptor. -/
def Metadata.toJson (m : Metadata) : Json :=
  .obj [("description", .ofOption m.description),
    ("author", (m.author.map Author.toJson).getD .null),
    ("validation_messages", .obj (m.messages.map fun (path, text) => (path, .str text)))]

/-- The paths of the imported files, and what kinds of references there are. -/
def Discovery.toJson (d : Discovery) : Json :=
  .obj [("imports", .arr (d.found.map fun file => .str file.path)),
    ("has_http_imports", .bool d.hasHttpImports), ("has_local_imports", .bool d.hasLocalImports)]

/-- The graph or the table of a root. -/
def Analyzer.content (a : Analyzer) (root : SourceFile) (mode : OutputMode) :
    Except Failure Json := do
  let r ← a.walkRoot root mode
  match mode with
  | .dag => return Dag.toJson (buildDag r)
  | .tools => return .arr ((← toolTable r).map ToolRow.toJson)

end CwlDescriptor

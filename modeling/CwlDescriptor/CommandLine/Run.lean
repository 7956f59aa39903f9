import CwlDescriptor.Analysis
import CwlDescriptor.CommandLine.Arguments
import CwlDescriptor.Files.Repository
set_option autoImplicit false

/-!
# Running a command

A command reads the configuration, the root and the other files of the repository, and prints an
analysis of the root. A refused root is no breakdown: nothing is printed then.

## Main definitions

* `Breakdown`: why a command cannot be run.
* `Site`: where a command is run.
* `Outcome`: what a command leaves behind.
* `Site.limits`, `Invocation.run`, `runCommand`: the steps of a command.
-/

namespace CwlDescriptor

/-- Why a command cannot be run. -/
inductive Breakdown where
  | file (fault : FileFault)
  | configuration (fault : ConfigurationFault)
  | fault (fault : Fault)
  /-- The levels of nesting that were allowed for are used up. -/
  | exhausted
deriving DecidableEq, Repr

/-- What is to be said about a breakdown. -/
def Breakdown.text : Breakdown → String
  | .file .missing => "there is no such file"
  | .file .isADirectory => "a file is a directory"
  | .file .notADirectory | .file .alreadyThere => "a directory is a file"
  | .file .notText => "a file is not encoded in UTF-8"
  | .file .notEncodable => "a text cannot be encoded in UTF-8"
  | .file .outside => "the root is not in the directory of the repository"
  | .file .unusablePath => "a path holds a character that no name may hold"
  | .file .nameTooLong => "the name of a file is too long"
  | .configuration (.misread _) => "the configuration is not JSON"
  | .configuration .notAnObject => "the configuration is not an object"
  | .configuration .notALimit => "a limit is not a positive integer"
  | .fault _ => "a value of the descriptor has no meaning"
  | .exhausted => "the descriptor is nested too deeply"

/-- Where a command is run. -/
structure Site where
  files : FileTree
  /-- The directory at which relative paths begin. -/
  directory : Location
  /-- The configuration that is used if no other one is named. -/
  configFile : Option String := none
deriving DecidableEq, Repr

/-- What a command leaves behind. -/
structure Outcome where
  /-- Zero for success, one for a refused descriptor, and two for misused options. -/
  status : Nat
  output : String := ""
  /-- What is to be said about a failure. -/
  complaint : Option String := none
  files : FileTree
deriving DecidableEq, Repr

/-- The version of the program. -/
def programVersion : String := "0.1.0"

namespace Site

/-- The names on the way to a path. -/
def names (site : Site) (path : String) : List String :=
  Location.names site.directory path

/-- The limits in the file where names lead, or the default ones if there is no such file. -/
def limitsIn (site : Site) (names : List String) : Except Breakdown Limits := do
  if ← (site.files.isPresent names).mapError .file then
    let text ← (site.files.readText names).mapError .file
    (Limits.read text).mapError .configuration
  else return {}

/-- The configured limits, and what overrides them. -/
def limits (site : Site) (file : Option String) (overrides : LimitOverrides) :
    Except Breakdown Limits := do
  let configured ← match file with
    | none => pure {}
    | some path => site.limitsIn (site.names path)
  (configured.override overrides).mapError .configuration

end Site

namespace Invocation

/-- The names on the way to the directory of the repository. -/
def directory (i : Invocation) (site : Site) (root : String) : List String :=
  match i.dir with
  | none | some "" => (site.names root).dropLast
  | some dir => site.names dir

/-- The name of the graph of a root: the name of the file without its last extension. -/
def graphName (root : List String) : String :=
  let name := (root.getLast?.getD "").toList
  let stem := (Text.throughLast '.' name).dropLast
  if stem = [] || stem.length + 1 = name.length then String.ofList name else String.ofList stem

/-- The result of the analysis of a root, and the files after it. -/
def analyze (i : Invocation) (site : Site) (a : Analyzer) (root : SourceFile) (name : String) :
    Except Failure (Json × Except FileFault FileTree) := do
  match i.output with
  | .metadata =>
    let metadata ← readMetadata a.expander root.path root.content
    return (metadata.toJson, .ok site.files)
  | .imports =>
    let discovery ← discover root a.store
    return (discovery.toJson, .ok site.files)
  | .tools =>
    return (← a.content root .tools, .ok site.files)
  | .dag =>
    let dag ← a.dag root
    match i.graphviz with
    | none | some "" => return (dag.toJson, .ok site.files)
    | some file =>
      return (dag.toJson, site.files.writeText site.directory file (Dot.source dag name))

/-- Does what a command is to do. -/
def run (i : Invocation) (site : Site) : Except Breakdown Outcome := do
  let limits ← site.limits (i.configFile <|> site.configFile) i.overrides
  let root := i.root.getD ""
  let directory := i.directory site root
  let file ← (Repository.readRoot site.files (site.names root) directory).mapError .file
  let analyzer : Analyzer :=
    { store := .ofFiles (← (Repository.files site.files directory).mapError .file)
      limits := limits }
  match i.analyze site analyzer file (graphName (site.names root)) with
  | .ok (json, files) =>
    return { status := 0, output := json.text ++ "\n", files := ← files.mapError .file }
  | .error (.refused refusal) =>
    return { status := 1, complaint := some refusal.text, files := site.files }
  | .error (.fault fault) => throw (.fault fault)
  | .error .exhausted => throw .exhausted

end Invocation

/-- Runs the command with the given arguments. -/
def runCommand (site : Site) (arguments : List String) : Except Breakdown Outcome :=
  match Invocation.ofArguments arguments with
  | .ok i => i.run site
  | .error .version => .ok { status := 0, output := programVersion ++ "\n", files := site.files }
  | .error .help => .ok { status := 0, output := usage ++ "\n", files := site.files }
  | .error .misuse => .ok { status := 2, complaint := some usage, files := site.files }
where
  /-- The options in short. -/
  usage : String :=
    "options: --root FILE [--dir DIRECTORY] [--mode dag|tools|metadata|imports] " ++
      "[--config_file FILE] [--max_depth N] [--max_char_count N] [--max_file_count N] " ++
      "[--graphviz FILE] [--quiet] [--version]"

end CwlDescriptor

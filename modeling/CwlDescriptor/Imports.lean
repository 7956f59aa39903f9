import CwlDescriptor.Load
import CwlDescriptor.Reference
import CwlDescriptor.SourceStore
set_option autoImplicit false

/-!
# Discovering imported files

The files that a descriptor refers to are found without expanding it: breadth first, and each file
once. A file that cannot be read as a document refers to no other file; only the root must be
readable.

## Main definitions

* `Node.references`: the references in a document.
* `Discovery`: what was found.
* `discover`: the files that can be reached from a root.
-/

namespace CwlDescriptor

/-- The keys in lower case whose values are references. -/
def referenceKeys : List String :=
  DirectiveKind.importing.names ++ DirectiveKind.including.names ++ DirectiveKind.mixing.names ++
    ["run"]

/-- The reference of an entry: a text at one of the keys of references. -/
def reference? : Scalar × Node → Option String
  | (.str key, .scalar (.str value)) =>
    if referenceKeys.contains (lowerText key) then some value else none
  | _ => none

namespace Node

mutual

/-- The references in a document, in their order. -/
def references : Node → List String
  | .map es => referencesEntries es
  | .list items => referencesList items
  | _ => []

/-- The references in the items of a list. -/
def referencesList : List Node → List String
  | [] => []
  | item :: items => references item ++ referencesList items

/-- The references in the entries of a map. -/
def referencesEntries : Entries → List String
  | [] => []
  | (key, value) :: es =>
    match reference? (key, value) with
    | some reference => reference :: referencesEntries es
    | none => references value ++ referencesEntries es

end

end Node

/-- What was found, and what is still to be read. -/
structure Discovery where
  /-- The files that were found, in their order. -/
  found : List SourceFile := []
  /-- There is a reference to the web. -/
  hasHttpImports : Bool := false
  /-- There is a reference to a file, whether it exists or not. -/
  hasLocalImports : Bool := false
  /-- The paths that were looked up. -/
  visited : List String
  /-- The files that were found and not read. -/
  queue : List SourceFile
deriving DecidableEq, Repr

namespace Discovery

/-- Follows one reference of the file at `path`. -/
def follow (store : SourceStore) (path : String) (d : Discovery) (reference : String) :
    Discovery :=
  if Reference.isUrl reference then { d with hasHttpImports := true }
  else
    let d := { d with hasLocalImports := true }
    let target := Path.resolve path (Reference.asPath reference)
    if d.visited.contains target then d
    else
      let d := { d with visited := d.visited ++ [target] }
      match store.file? target with
      | none => d
      | some file => { d with found := d.found ++ [file], queue := d.queue ++ [file] }

/-- Reads the next file and follows its references. A file that is no document is passed over,
unless it has the path of the root. -/
def step (store : SourceStore) (root : String) (file : SourceFile) (d : Discovery) :
    Except Failure Discovery :=
  match load file.content (some file.path) with
  | .ok document => .ok (document.references.foldl (follow store file.path) d)
  | .error (.refused refusal) =>
    if file.path = root then .error (.refused refusal) else .ok d
  | .error e => .error e

/-- Reads all files of the queue, and those that are found meanwhile. The first argument bounds the
number of files. -/
def run (store : SourceStore) (root : String) : Nat → Discovery → Except Failure Discovery
  | 0, d => .ok d
  | n + 1, d =>
    match d.queue with
    | [] => .ok d
    | file :: queue => do
      let d ← step store root file { d with queue := queue }
      run store root n d

end Discovery

/-- The files that can be reached from a root. The root and each file of the store are read once at
most. -/
def discover (root : SourceFile) (store : SourceStore) : Except Failure Discovery :=
  Discovery.run store root.path (store.size + 1)
    { visited := [Path.normalize root.path], queue := [root] }

end CwlDescriptor

import CwlDescriptor.Path
import CwlDescriptor.Table
set_option autoImplicit false

/-!
# The files of a repository

All spellings of a path name the same file. If several files have one path, the last one counts.

## Main definitions

* `SourceFile`: a file with its path.
* `SourceStore`: the files of a repository, by the normal forms of their paths.
* `SourceStore.ofFiles`, `SourceStore.get?`, `SourceStore.file?`, `SourceStore.contains`,
  `SourceStore.toFiles`: construction and look-up.
-/

namespace CwlDescriptor

/-- A file with its path. -/
structure SourceFile where
  path : String
  content : String
deriving DecidableEq, Repr

/-- The files of a repository, by the normal forms of their paths. -/
structure SourceStore where
  table : Table String
deriving DecidableEq, Repr

namespace SourceStore

/-- The store of a list of files. -/
def ofFiles (files : List SourceFile) : SourceStore :=
  ⟨Table.ofList (files.map fun f => (Path.normalize f.path, f.content))⟩

/-- The content of the file at a path. -/
def get? (store : SourceStore) (path : String) : Option String :=
  Table.get? store.table (Path.normalize path)

/-- The file at a path, with the normal form of the path. -/
def file? (store : SourceStore) (path : String) : Option SourceFile :=
  (store.get? path).map fun content => ⟨Path.normalize path, content⟩

/-- There is a file at a path. -/
def contains (store : SourceStore) (path : String) : Bool :=
  Table.hasKey store.table (Path.normalize path)

/-- The number of files. -/
def size (store : SourceStore) : Nat := store.table.length

/-- The files in the order in which their paths occurred first. -/
def toFiles (store : SourceStore) : List SourceFile :=
  store.table.map fun (path, content) => ⟨path, content⟩

end SourceStore

end CwlDescriptor

import CwlDescriptor.Files.Tree
import CwlDescriptor.SourceStore
import CwlDescriptor.Text.Order
set_option autoImplicit false

/-!
# Repositories

A repository is a directory; the paths of its files begin at that directory.

## Main definitions

* `Repository.files`: the text files of a repository.
* `Repository.readRoot`: the root descriptor in a repository.
-/

namespace CwlDescriptor.Repository

/-- The names of files and directories that do not belong to a repository. -/
def skipped : List String := [".git", "__pycache__", "node_modules"]

/-- The path of the file that names lead to from the directory of a repository. -/
def path (names : List String) : String :=
  if names = [] then "/." else "/" ++ "/".intercalate names

/-- The text files below a location that do not have to be skipped, in the order of their names. -/
def filesBelow (t : FileTree) (l : Location) : List SourceFile :=
  let found := (t.filesBelow l).filter fun (names, _) => !names.any skipped.contains
  let inOrder := found.mergeSort fun a b => Text.notAfter Text.before a.1 b.1
  inOrder.filterMap fun (names, bytes) =>
    (FileTree.text? bytes).map fun text => ⟨path names, text⟩

/-- The text files of the repository in the directory where names lead. There are none if there is
no such directory. -/
def files (t : FileTree) (dir : List String) : Except FileFault (List SourceFile) := do
  if ← t.isPresent dir then return filesBelow t (Location.ofNames dir) else return []

/-- The file where names lead, with its path in the repository in a directory. -/
def readRoot (t : FileTree) (root dir : List String) : Except FileFault SourceFile := do
  let text ← t.readText root
  if !FileTree.areUsable dir then throw .unusablePath
  match (Location.ofNames dir).isPrefixOf? (Location.ofNames root) with
  | some names => return ⟨path names, text⟩
  | none => throw .outside

end CwlDescriptor.Repository

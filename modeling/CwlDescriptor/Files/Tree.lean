import CwlDescriptor.Path
import CwlDescriptor.Text.Utf8
set_option autoImplicit false

/-!
# Files and directories

## Main definitions

* `Location`: the names on the way from the root to a file or a directory.
* `Location.names`, `Location.ofNames`: the names in a path, and where they lead.
* `FileTree`: the files and directories at their locations.
* `FileTree.follow`: the location that names lead to, every step of which must exist.
* `FileTree.readText`, `FileTree.writeText`: the text of a file.
-/

namespace CwlDescriptor

/-- The names on the way from the root to a file or a directory. -/
abbrev Location := List String

namespace Location

/-- The names in a path, two dots for a parent included. A relative path begins at `start`. -/
def names (start : Location) (path : String) : List String :=
  let names := (Path.segments path.toList).map String.ofList
  let names := names.filter fun name => name ≠ "" && name ≠ "."
  if path.toList.head? = some '/' then names else start ++ names

/-- One step from a directory. -/
def step (l : Location) (name : String) : Location :=
  if name = ".." then l.dropLast else l ++ [name]

/-- Where names lead, whether it exists or not. -/
def ofNames (names : List String) : Location :=
  names.foldl step []

end Location

/-- Why a file cannot be used. -/
inductive FileFault where
  | missing
  | isADirectory
  | notADirectory
  /-- A file is where a directory should be made. -/
  | alreadyThere
  /-- The bytes do not encode a text. -/
  | notText
  /-- A text holds half of a character, which no bytes encode. -/
  | notEncodable
  /-- A file is not in the directory of its repository. -/
  | outside
  /-- A path holds the character with the number zero. -/
  | unusablePath
  /-- A name on the way to a file has too many bytes. -/
  | nameTooLong
deriving DecidableEq, Repr

/-- What is at a location. -/
inductive FileContent where
  | file (bytes : List UInt8)
  | directory
deriving DecidableEq, Repr

/-- The files and directories at their locations. -/
structure FileTree where
  contents : List (Location × FileContent) := []
deriving DecidableEq, Repr

namespace FileTree

/-- What is at a location; the root is a directory. -/
def at? (t : FileTree) (l : Location) : Option FileContent :=
  if l = [] then some .directory else t.contents.lookup l

/-- Puts something at a location. -/
def put (t : FileTree) (l : Location) (content : FileContent) : FileTree :=
  ⟨t.contents.filter (·.1 ≠ l) ++ [(l, content)]⟩

/-- The greatest number of bytes of a name. -/
def maxNameSize : Nat := 255

/-- A name has too many bytes. -/
def isTooLong (name : String) : Bool :=
  maxNameSize < ((Text.encodeUtf8? name).getD []).length

/-- Names can be those of files: none of them holds the character with the number zero. -/
def areUsable (names : List String) : Bool :=
  names.all fun name => !name.toList.contains (Char.ofNat 0)

/-- Makes the directories that are missing on the way that names lead; the result is the location of
the last one. -/
def makeDirectories (t : FileTree) (l : Location) :
    List String → Except FileFault (FileTree × Location)
  | [] => .ok (t, l)
  | name :: names =>
    let next := l.step name
    if !areUsable [name] then .error .unusablePath
    else if isTooLong name then .error .nameTooLong
    else match t.at? next with
    | none => makeDirectories (t.put next .directory) next names
    | some .directory => makeDirectories t next names
    | some (.file _) => .error (if names = [] then .alreadyThere else .notADirectory)

/-- The tree with a file and the directories above it. -/
def addFile (t : FileTree) (l : Location) (bytes : List UInt8) : Except FileFault FileTree := do
  let (t, _) ← t.makeDirectories [] l.dropLast
  return t.put l (.file bytes)

/-- One step from a directory that must exist. -/
def enter (t : FileTree) (l : Location) (name : String) : Except FileFault Location :=
  match t.at? l with
  | none => .error .missing
  | some (.file _) => .error .notADirectory
  | some .directory => if isTooLong name then .error .nameTooLong else .ok (l.step name)

/-- The location that names lead to. All directories on the way must exist. -/
def follow (t : FileTree) (names : List String) : Except FileFault Location :=
  if areUsable names then names.foldlM t.enter [] else .error .unusablePath

/-- There is something where names lead. It is not known if a name is too long. -/
def isPresent (t : FileTree) (names : List String) : Except FileFault Bool :=
  match t.follow names with
  | .ok l => .ok (t.at? l).isSome
  | .error .nameTooLong => .error .nameTooLong
  | .error _ => .ok false

/-- The text that bytes encode, with unified line breaks. -/
def text? (bytes : List UInt8) : Option String :=
  (Text.decodeUtf8? bytes).map fun s => String.ofList (Text.unifyLineBreaks s.toList)

/-- The text of the file where names lead. -/
def readText (t : FileTree) (names : List String) : Except FileFault String := do
  let l ← t.follow names
  match t.at? l with
  | none => throw .missing
  | some .directory => throw .isADirectory
  | some (.file bytes) =>
    match text? bytes with
    | some text => return text
    | none => throw .notText

/-- The last name in a path is that of a file. -/
def namesFile (path : String) : Bool :=
  let last := String.ofList (Text.afterLast '/' path.toList)
  last ≠ "" && last ≠ "." && last ≠ ".."

/-- Writes a text to the file at a path, and makes the directories on the way. -/
def writeText (t : FileTree) (start : Location) (path text : String) :
    Except FileFault FileTree := do
  let names := Location.names start path
  if namesFile path then
    let (t, l) ← t.makeDirectories [] names.dropLast
    let file := l ++ names.getLast?.toList
    if !areUsable file then throw .unusablePath
    if file.any isTooLong then throw .nameTooLong
    if t.at? file = some .directory then throw .isADirectory
    match Text.encodeUtf8? text with
    | some bytes => return t.put file (.file bytes)
    | none => throw .notEncodable
  else throw .isADirectory

/-- The files below a directory, with the names on the way from there. -/
def filesBelow (t : FileTree) (l : Location) : List (List String × List UInt8) :=
  t.contents.filterMap fun (file, content) =>
    match l.isPrefixOf? file, content with
    | some [], _ => none
    | some names, .file bytes => some (names, bytes)
    | _, _ => none

end FileTree

end CwlDescriptor

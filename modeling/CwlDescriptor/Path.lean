import CwlDescriptor.Text.Cut
set_option autoImplicit false

/-!
# Paths

Paths of the files of a repository are written with slashes. Every path has one normal form, which
begins with a slash and never leaves the root of the repository.

## Main definitions

* `Path.segments`: the parts of a path between its slashes.
* `Path.simplify`: a path without detours, relative or from a root.
* `Path.normalize`: the normal form of a path.
* `Path.directory`, `Path.join`: the directory of a file, and a path below a directory.
* `Path.resolve`: the path that a file refers to.
-/

namespace CwlDescriptor.Path

/-- The parts of a path between its slashes. -/
def segments (p : List Char) : List (List Char) :=
  Text.splitOn '/' p

/-- The number of slashes that stand for the root in front of a path. Two slashes are a root of
their own; more than two count as one. -/
def rootSlashes (p : List Char) : Nat :=
  let slashes := (p.takeWhile (· = '/')).length
  if slashes = 2 then 2 else min slashes 1

/-- One more segment of a path without detours, which is given by its segments with the last one
first. The empty segment and the dot change nothing, and two dots take the last name away. Where
there is none, two dots have to stay, unless the path begins at a root. -/
def shorten (fromRoot : Bool) (path : List (List Char)) (segment : List Char) : List (List Char) :=
  if segment = [] || segment = ['.'] then path
  else if segment ≠ ['.', '.'] || (!fromRoot && path.isEmpty) || path.head? = some ['.', '.'] then
    segment :: path
  else path.tail

/-- A path without detours: no segment of it can be left out. The path that leads nowhere is a
dot. -/
def simplify (p : List Char) : List Char :=
  let slashes := rootSlashes p
  let path := (segments p).foldl (shorten (slashes ≠ 0)) []
  let short := List.replicate slashes '/' ++ List.intercalate ['/'] path.reverse
  if short = [] then ['.'] else short

/-- The normal form of a path as a list of characters: it begins at the root, whether there are
slashes in front of it or not. -/
def normalizeChars (p : List Char) : List Char :=
  simplify ('/' :: p.dropWhile (· = '/'))

/-- The normal form of a path. -/
def normalize (p : String) : String :=
  String.ofList (normalizeChars p.toList)

/-- The path without the slashes that it begins with. -/
def stripSlashes (p : String) : String :=
  String.ofList (p.toList.dropWhile (· = '/'))

/-- The part of a path up to its last slash, without the slashes at its end unless there is nothing
else. -/
def directory (p : List Char) : List Char :=
  let head := Text.throughLast '/' p
  if head.all (· = '/') then head else (head.reverse.dropWhile (· = '/')).reverse

/-- A path below a directory, or a path from the root as it stands. -/
def join (dir p : List Char) : List Char :=
  if p.head? = some '/' then p
  else if dir = [] || dir.getLast? = some '/' then dir ++ p else dir ++ '/' :: p

/-- The path that the file `parent` refers to by `child`, as lists of characters. -/
def resolveChars (parent child : List Char) : List Char :=
  if child.head? = some '/' then normalizeChars child
  else
    let dir := directory parent
    normalizeChars (join (if dir = [] then ['/'] else dir) child)

/-- The path that the file `parent` refers to by `child`: a path from the root if it begins with a
slash, and from the directory of the file otherwise. -/
def resolve (parent child : String) : String :=
  String.ofList (resolveChars parent.toList child.toList)

end CwlDescriptor.Path

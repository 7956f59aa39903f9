import CwlDescriptor.Document.Entries
import CwlDescriptor.Path
import CwlDescriptor.Text.Blank
set_option autoImplicit false

/-!
# References to other files

A map refers to another file by a directive, which is a key with a text as its value. The key may be
written in any case, and with or without a dollar sign.

## Main definitions

* `DirectiveKind`: import, include and mixin.
* `Entries.directiveKey?`, `Entries.directive?`, `Entries.eraseDirective`: the directives of a map.
* `Reference.target?`: the path that a reference names.
* `Reference.isUrl`: whether a reference is an address of the web.
-/

namespace CwlDescriptor

/-- The directives that refer to other files. -/
inductive DirectiveKind where
  | importing
  | including
  | mixing
deriving DecidableEq, Repr

/-- The keys of a directive in lower case. -/
def DirectiveKind.names : DirectiveKind → List String
  | .importing => ["$import", "import"]
  | .including => ["$include", "include"]
  | .mixing => ["$mixin", "mixin"]

/-- The text in lower case. -/
def lowerText (s : String) : String :=
  String.ofList (Text.lower s.toList)

namespace Entries

/-- The first key that is one of `names` if its case is ignored. -/
def keyAmong? (names : List String) : Entries → Option String
  | [] => none
  | (.str key, _) :: es => if names.contains (lowerText key) then some key else keyAmong? names es
  | _ :: es => keyAmong? names es

/-- The first key of a directive. -/
def directiveKey? (kind : DirectiveKind) (es : Entries) : Option String :=
  es.keyAmong? kind.names

/-- The reference of a directive: the value of its first key, if that is a text. -/
def directive? (kind : DirectiveKind) (es : Entries) : Option String := do
  let key ← es.directiveKey? kind
  (← es.get? key).text?

/-- Removes the first key of a directive. -/
def eraseDirective (kind : DirectiveKind) (es : Entries) : Entries :=
  match es.directiveKey? kind with
  | none => es
  | some key => es.erase (.str key)

end Entries

namespace Reference

/-- The text behind a beginning. -/
def dropStart? (start s : String) : Option (List Char) :=
  start.toList.isPrefixOf? s.toList

/-- The reference as a path: behind the scheme of a file the path begins at the root. -/
def asPath (reference : String) : String :=
  match dropStart? "file:" reference with
  | some rest => String.ofList ('/' :: rest.dropWhile (· = '/'))
  | none => reference

/-- The path that the file `parent` names by a reference, unless it is an address of the web. -/
def target? (reference parent : String) : Option String :=
  if (dropStart? "http://" reference).isSome || (dropStart? "https://" reference).isSome then none
  else some (Path.resolve parent (asPath reference))

/-- The letter in lower case; the long s is an s. -/
def foldLetter (c : Char) : Char :=
  if c = '\u017f' then 's' else c.toLower

/-- The text behind the scheme of an address of the web, whose case is ignored. -/
def dropScheme? (s : List Char) : Option (List Char) :=
  let matchesStart (start : String) : Bool := (s.take start.length).map foldLetter = start.toList
  if matchesStart "http://" then some (s.drop 7)
  else if matchesStart "https://" then some (s.drop 8)
  else none

/-- A reference is an address of the web if it begins with one of two schemes, and has no blanks
behind it but perhaps a line feed at its end; the first character behind the scheme must not be one
of those that end a host. -/
def isUrl (reference : String) : Bool :=
  match dropScheme? reference.toList with
  | none => false
  | some rest =>
    let address := if rest.getLast? = some '\n' then rest.dropLast else rest
    match address with
    | [] => false
    | first :: _ => !"/$.?#".toList.contains first && address.all (!Text.isBlank ·)

end Reference

end CwlDescriptor

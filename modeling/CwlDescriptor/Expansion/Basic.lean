import CwlDescriptor.Entry
import CwlDescriptor.Load
import CwlDescriptor.Reference
import CwlDescriptor.SourceStore
set_option autoImplicit false

/-!
# The state of an expansion

An expansion replaces the references of a document by what they refer to. Its cost is bounded by
three limits: the depth of files below the root, the number of characters of all files, and the
number of files that are asked for. Files that are asked for count whether they are found or not.

## Main definitions

* `Limits`: the three limits.
* `Expander`: what an expansion is given.
* `ExpansionState`: the ids of entries, the counters, and the record of what was asked for.
* `Expansion`: computations that change the state, also if they fail.
* `Expander.loadFile`, `Expander.claimId`: asking for a file, and giving an id to an entry.
-/

namespace CwlDescriptor

/-- The bounds on the cost of an expansion. -/
structure Limits where
  /-- The greatest depth of a file; the root has depth zero. -/
  maxDepth : Nat := 10
  /-- The greatest number of characters of all files. -/
  maxCharacters : Nat := 4194304
  /-- The greatest number of files that are asked for. -/
  maxFiles : Nat := 1000
deriving DecidableEq, Repr

namespace Limits

/-- The bound on what a limit counts. -/
def bound (l : Limits) : Limit → Nat
  | .depth => l.maxDepth
  | .characters => l.maxCharacters
  | .files => l.maxFiles

/-- All bounds are positive. -/
def Positive (l : Limits) : Prop :=
  0 < l.maxDepth ∧ 0 < l.maxCharacters ∧ 0 < l.maxFiles

instance (l : Limits) : Decidable l.Positive :=
  inferInstanceAs (Decidable (_ ∧ _ ∧ _))

end Limits

/-- What an expansion is given. -/
structure Expander where
  store : SourceStore
  limits : Limits
  /-- The ids for entries that have none of their own, by the number of such ids before. -/
  newId : Nat → String
  /-- Reads the document of a text with a path. -/
  read : String → Option String → Except Failure Node := load
  /-- An exceeded limit ends the expansion; otherwise a warning is recorded. -/
  strict : Bool := true

/-- A file that was asked for. -/
structure Request where
  /-- The path of the file, or none for an address of the web. -/
  path : Option String
  /-- The document of the file was wanted, and not its text. -/
  asDocument : Bool
deriving DecidableEq, Repr

/-- A limit that was exceeded, the file in which it was, and what was recorded by then. -/
structure Warning where
  limit : Limit
  path : Option String
  idPaths : Table String
  fileCount : Nat
  charCount : Nat
deriving DecidableEq, Repr

/-- What an expansion has done so far. -/
structure ExpansionState where
  /-- The ids of the entries, and the paths of the files that they come from. -/
  idPaths : Table String := []
  /-- The number of files that were asked for. -/
  fileCount : Nat := 0
  /-- The number of characters of the files that were found. -/
  charCount : Nat := 0
  /-- The number of ids that were made. -/
  idCount : Nat := 0
  /-- The number of ids that were made and were those of other entries already. -/
  clashes : Nat := 0
  /-- The number of documents that were merged into maps. -/
  merges : Nat := 0
  /-- The files that were asked for, in their order. -/
  requests : List Request := []
  /-- The limits that were exceeded, in their order. -/
  warnings : List Warning := []
deriving DecidableEq, Repr

/-- The warning of a limit that is exceeded in a file. -/
def ExpansionState.warning (s : ExpansionState) (limit : Limit) (path : Option String) : Warning :=
  ⟨limit, path, s.idPaths, s.fileCount, s.charCount⟩

/-- A computation with a state, which is also known when the computation fails. -/
abbrev Expansion := EStateM Failure ExpansionState

namespace ExpansionState

/-- The path of the file from which the entry with an id comes; anything that could be a key can be
looked up, and only texts are found. -/
def pathOfId (s : ExpansionState) (id : Node) : Except Failure (Option String) :=
  match id with
  | .scalar (.str text) => .ok (Table.get? s.idPaths text)
  | .scalar _ => .ok none
  | _ => .error (.fault .idNotScalar)

end ExpansionState

/-- The place from which a document is read. -/
structure Frame where
  /-- The path of the file. -/
  path : String
  /-- The version of the language of the innermost entry around the document, if it has one. -/
  version : Option String
  /-- The number of files between the root and this file. -/
  depth : Int
deriving DecidableEq, Repr

/-- The place at the root of a document. -/
def Frame.root (path : String) : Frame := ⟨path, none, 0⟩

/-- Only the first version of the language has mixins. -/
def supportsMixin (version : Option String) : Bool :=
  version.any fun v => "v1.0".toList.isPrefixOf v.toList

namespace Expander

/-- A result that does not depend on the state. -/
def lift {α : Type} : Except Failure α → Expansion α
  | .ok a => pure a
  | .error e => throw e

/-- Reports that a limit is exceeded in a file. -/
def exceed (x : Expander) (limit : Limit) (path : Option String) : Expansion Unit :=
  if x.strict then throw (.refuse (.limitExceeded limit (x.limits.bound limit)) path)
  else modify fun s => { s with warnings := s.warnings ++ [s.warning limit path] }

/-- Checks the depth of a place. -/
def checkDepth (x : Expander) (frame : Frame) : Expansion Unit :=
  if x.limits.maxDepth < frame.depth then x.exceed .depth (some frame.path) else pure ()

/-- Checks what was counted so far against a limit. -/
def checkCount (x : Expander) (limit : Limit) (count : ExpansionState → Nat)
    (path : Option String) : Expansion Unit := do
  if x.limits.bound limit < count (← get) then x.exceed limit path

/-- Asks for a file. -/
def loadFile (x : Expander) (asDocument : Bool) (path : Option String) :
    Expansion (Option String) := do
  modify fun s =>
    { s with fileCount := s.fileCount + 1, requests := s.requests ++ [⟨path, asDocument⟩] }
  x.checkCount .files (·.fileCount) path
  match path.bind x.store.get? with
  | none => return none
  | some content =>
    modify fun s => { s with charCount := s.charCount + Text.length content }
    x.checkCount .characters (·.charCount) path
    return some content

/-- A new id. -/
def makeId (x : Expander) : Expansion String := do
  let s ← get
  let id := x.newId s.idCount
  let clashes := if Table.hasKey s.idPaths id then s.clashes + 1 else s.clashes
  set { s with idCount := s.idCount + 1, clashes := clashes }
  return id

/-- The new id that a map needs, if its own id is no text or is that of another entry. -/
def neededId (x : Expander) (es : Entries) : Expansion (Option String) := do
  match (es.field "id").text? with
  | some id => if Table.hasKey (← get).idPaths id then some <$> x.makeId else return none
  | none => some <$> x.makeId

/-- Records the file from which the entry with an id comes. -/
def recordId (id : String) (path : String) : Expansion Unit :=
  modify fun s => { s with idPaths := Table.insert s.idPaths id (Path.stripSlashes path) }

/-- Gives an id to an entry and records the file from which it comes. The result is the id, if it
differs from the one that the entry has. -/
def claimId (x : Expander) (es : Entries) (path : String) : Expansion (Option String) := do
  let new ← x.neededId es
  recordId ((new <|> (es.field "id").text?).getD "") path
  return new

/-- The version of the language in a map: its own one if it is an entry that has one, and that of
the map around it otherwise. -/
def versionIn (frame : Frame) (es : Entries) : Expansion (Option String) := do
  let version := es.field "cwlVersion"
  if version.isNull then return frame.version else some <$> lift version.shown

/-- Enters a map: an entry gets an id and may set the version. -/
def enter (x : Expander) (frame : Frame) (es : Entries) :
    Expansion (Option String × Frame) := do
  if es.entryClass?.isSome then
    let new ← x.claimId es frame.path
    let version ← versionIn frame es
    return (new, { frame with version := version })
  else return (none, frame)

end Expander

end CwlDescriptor

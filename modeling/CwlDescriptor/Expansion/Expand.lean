import CwlDescriptor.Expansion.Basic
set_option autoImplicit false

/-!
# Expanding a document

The references of a document are replaced as follows.

* An import is replaced by the expanded document of the file, or by the empty map if there is no
  such file. A file whose document is null counts as missing here and below.
* An include is replaced by the text of the file, or by the empty text.
* A mixin adds those keys of the expanded map of the file that are missing. The values of the
  resulting map are then expanded.
* A text at the key `run` is replaced by the expanded document of the file, and stays if there is no
  such file. An import as the value of `run` counts as such a text.

A document and the files it refers to are expanded by recursion on the document and on the number of
files that may still be nested in each other. As every nested file is asked for, and no more files
than the limit can be asked for, this number is bounded by the limit on files.

## Main definitions

* `Stage`: whether the directives of a map are still to be replaced.
* `Expander.expandNode`: the expansion of a document, given that of documents in other files.
* `Expander.expandWithin`: the expansion with a bound on the nesting of files.
* `Expander.expand`: the expansion.
-/

namespace CwlDescriptor

/-- How far a document is expanded before. -/
inductive Stage where
  /-- Not at all. -/
  | whole
  /-- It is a map whose directives are replaced, and only its values are left. -/
  | merged
deriving DecidableEq, Repr

/-- The text that an import as the value of `run` stands for. -/
def Entries.importedRun? (es : Entries) : Option String :=
  (es.field "run").entries?.bind (Entries.directive? .importing)

/-- The texts that take the place of values before these are expanded. -/
structure Replacements where
  /-- A new id. -/
  id : Option String
  /-- What an import as the value of `run` stands for. -/
  run : Option String

/-- The text that takes the place of the value of a key. -/
def Replacements.at? (r : Replacements) (key : Scalar) : Option String :=
  if key = .str "id" then r.id else if key = .str "run" then r.run else none

/-- The entry for a new id, if there is no key whose value it can take the place of. -/
def Replacements.missing (r : Replacements) (es : Entries) : Entries :=
  match r.id, es.get? "id" with
  | some id, none => [(.str "id", .str id)]
  | _, _ => []

namespace Expander

/-- The expansion of documents in other files, and of maps into which such documents were merged. -/
abbrev Below := Stage → Frame → Node → Expansion Node

/-- The expanded document of the file that is referred to, if there is one and it is not empty. -/
def loadDocument (x : Expander) (below : Below) (frame : Frame) (reference : String) :
    Expansion (Option Node) := do
  let path := Reference.target? reference frame.path
  match path, ← x.loadFile true path with
  | some path, some text =>
    let document ← lift (x.read text (some path))
    let document ← below .whole { frame with path := path, depth := frame.depth + 1 } document
    return if document.isNull then none else some document
  | _, _ => return none

/-- The text of the file that is referred to, if there is one. -/
def loadText (x : Expander) (frame : Frame) (reference : String) : Expansion (Option String) :=
  x.loadFile false (Reference.target? reference frame.path)

/-- Replaces a text at the key `run` by the expanded document of the file. -/
def expandRun (x : Expander) (below : Below) (frame : Frame) (es : Entries) :
    Expansion Entries := do
  match (es.field "run").text? with
  | none => return es
  | some reference =>
    match ← x.loadDocument below frame reference with
    | none => return es
    | some document => return es.set "run" document

/-- What the directives of a map make of it. -/
inductive Directed where
  /-- It is replaced by a document. -/
  | replaced (document : Node)
  /-- A map was merged into it. -/
  | merged (entries : Entries)
  /-- It stays as it is. -/
  | unchanged

/-- Follows a mixin: the missing keys of the map are added. A document that is no map is not
merged. -/
def mixIn (x : Expander) (below : Below) (frame : Frame) (es : Entries) (reference : String) :
    Expansion Directed := do
  match ← x.loadDocument below frame reference with
  | none => return .merged (es.eraseDirective .mixing)
  | some (.map added) =>
    modify fun s => { s with merges := s.merges + 1 }
    return .merged ((es.eraseDirective .mixing).addMissing added)
  | some _ => return .unchanged

/-- Follows the directives of a map; an import counts before an include, and this before a mixin. -/
def direct (x : Expander) (below : Below) (frame : Frame) (es : Entries) : Expansion Directed := do
  match es.directive? .importing, es.directive? .including, es.directive? .mixing with
  | some reference, _, _ =>
    return .replaced ((← x.loadDocument below frame reference).getD (.map []))
  | none, some reference, _ => return .replaced (.str ((← x.loadText frame reference).getD ""))
  | none, none, some reference =>
    if supportsMixin frame.version then x.mixIn below frame es reference else return .unchanged
  | none, none, none => return .unchanged

/-- The map with a new id. -/
def withId (es : Entries) : Option String → Entries
  | none => es
  | some id => es.set "id" (.str id)

mutual

/-- The expansion of a document, given that of documents in other files. -/
def expandNode (x : Expander) (below : Below) (stage : Stage) (frame : Frame) :
    Node → Expansion Node
  | .map es => do
    match stage with
    | .merged =>
      let values ← expandEntries x below frame ⟨none, Entries.importedRun? es⟩ es
      .map <$> x.expandRun below frame values
    | .whole =>
      x.checkDepth frame
      let (newId, frame) ← x.enter frame es
      match ← x.direct below frame (withId es newId) with
      | .replaced document => return document
      | .merged entries => below .merged frame (.map entries)
      | .unchanged =>
        let replacements : Replacements := ⟨newId, Entries.importedRun? es⟩
        let values ← expandEntries x below frame replacements es
        match replacements.missing es with
        | [] => .map <$> x.expandRun below frame values
        | missing =>
          x.checkDepth frame
          .map <$> x.expandRun below frame (values ++ missing)
  | .list items => do
    x.checkDepth frame
    .list <$> expandItems x below frame items
  | leaf => do
    x.checkDepth frame
    return leaf

/-- The expansion of the items of a list. -/
def expandItems (x : Expander) (below : Below) (frame : Frame) :
    List Node → Expansion (List Node)
  | [] => return []
  | item :: items => do
    let item ← expandNode x below .whole frame item
    let items ← expandItems x below frame items
    return item :: items

/-- The expansion of the values of a map, some of which are replaced by texts before. -/
def expandEntries (x : Expander) (below : Below) (frame : Frame) (replacements : Replacements) :
    Entries → Expansion Entries
  | [] => return []
  | (key, value) :: es => do
    let value ← match replacements.at? key with
      | some text => x.checkDepth frame *> pure (Node.str text)
      | none => expandNode x below .whole frame value
    let es ← expandEntries x below frame replacements es
    return (key, value) :: es

end

/-- The expansion of a document in which no more than `levels` files may be nested in each other,
maps into which a document was merged being counted as well. -/
def expandWithin (x : Expander) : Nat → Below
  | 0, stage, frame, n => x.expandNode (fun _ _ _ => throw .exhausted) stage frame n
  | levels + 1, stage, frame, n => x.expandNode (x.expandWithin levels) stage frame n

/-- The expansion of a document. -/
def expand (x : Expander) (frame : Frame) (document : Node) : Expansion Node :=
  x.expandWithin x.limits.maxFiles .whole frame document


end Expander

end CwlDescriptor

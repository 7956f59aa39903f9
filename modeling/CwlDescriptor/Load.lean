import CwlDescriptor.Yaml.Construction
set_option autoImplicit false

/-!
# Loading descriptors

A descriptor is written in the YAML notation, of which JSON is a part.

## Main definitions

* `Yaml.load`: the document of a text.
* `load`: the document of a text, with errors as they are reported.
-/

namespace CwlDescriptor

/-- The document of a text. An empty text is null. -/
def Yaml.load (text : List Char) : Except LoadError Node :=
  if text.all isAllowed then do
    match ← Tree.ofEvents (events (tokens text)) with
    | none => return .null
    | some root => root.construct maxNesting
  else .error .invalid

/-- An error of a text as it is reported, with the path of the text if it is known. -/
def Yaml.LoadError.toFailure (text : List Char) (path : Option String) : LoadError → Failure
  | .invalid => .refuse (.unreadable .notYaml) path
  | .alias name position => .refuse (.unreadable (.alias name (position.place text))) path
  | .nesting position => .refuse (.unreadable (.nesting maxNesting (position.place text))) path
  | .fault f => .fault f

/-- The document of a text, with errors as they are reported. -/
def load (text : String) (path : Option String) : Except Failure Node :=
  (Yaml.load text.toList).mapError (·.toFailure text.toList path)

end CwlDescriptor

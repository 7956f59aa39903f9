import CwlDescriptor.Document.ListForm
import CwlDescriptor.Expansion.Expand
import CwlDescriptor.Text.Order
set_option autoImplicit false

/-!
# The metadata of a descriptor

## Main definitions

* `description`, `author`: what an expanded descriptor says about itself.
* `Metadata`: the metadata, or the reason why there is none.
* `readMetadata`: the metadata of the text of a descriptor.
* `fileFormats`: the formats of the parameters of a descriptor.
-/

namespace CwlDescriptor

/-- The first text that is not empty. -/
def firstNonEmpty : List (Option String) → Option String
  | [] => none
  | some text :: rest => if text = "" then firstNonEmpty rest else some text
  | none :: rest => firstNonEmpty rest

/-- The text of a field that may be a list of lines. -/
def joinedText (field : Node) : Except Failure (Option String) :=
  match field with
  | .list lines => do
    let texts ← lines.mapM Node.shown
    return some ("\n".intercalate texts)
  | field => .ok field.text?

/-- The description of an entry: the first of three fields that is a text and not empty. -/
def description (es : Entries) : Except Failure (Option String) := do
  let doc ← joinedText (es.field "doc")
  return firstNonEmpty [doc, (es.field "description").text?, (es.field "label").text?]

/-- An author. -/
structure Author where
  name : Option String
  email : Option String
deriving DecidableEq, Repr

/-- An address of electronic mail without the scheme in front of it. -/
def stripMailto (email : String) : String :=
  match "mailto:".toList.isPrefixOf? email.toList with
  | some rest => String.ofList rest
  | none => email

/-- The keys under which a vocabulary has the author, the name and the address. -/
structure AuthorKeys where
  author : String
  name : String
  email : String

/-- The vocabulary of a widespread schema of structured data. -/
def schemaKeys : AuthorKeys := ⟨"s:author", "s:name", "s:email"⟩

/-- The vocabulary for resources and people. -/
def resourceKeys : AuthorKeys := ⟨"dct:creator", "foaf:name", "foaf:mbox"⟩

/-- The author in one vocabulary; of several authors the first one counts. -/
def authorIn (es : Entries) (keys : AuthorKeys) : Except Failure (Option Author) :=
  let author := match es.field keys.author with
    | .list (first :: _) => first
    | author => author
  match author.entries? with
  | none => .ok none
  | some fields => do
    let name := fields.field keys.name
    let name ← if name.isNull then pure none else some <$> name.shown
    return some ⟨name, (fields.field keys.email).text?.map stripMailto⟩

/-- The author of an entry. The second vocabulary is used only if the first one is absent. -/
def author (es : Entries) : Except Failure (Option Author) := do
  match ← authorIn es schemaKeys with
  | some author => return some author
  | none =>
    if (es.get? schemaKeys.author).isSome then return none else authorIn es resourceKeys

/-- The metadata of a descriptor. -/
structure Metadata where
  description : Option String := none
  author : Option Author := none
  /-- The reasons why there is no metadata, by the paths of the files. -/
  messages : Table String := []
deriving DecidableEq, Repr

/-- There is no reason against the metadata. -/
def Metadata.isValid (m : Metadata) : Bool := m.messages.isEmpty

/-- What a message about missing metadata starts with. -/
def metadataError : String := "CWL file is malformed or missing, cannot extract metadata: "

/-- The expanded document of the text of a root. -/
def expandText (x : Expander) (path text : String) : Expansion Node := do
  let document ← Expander.lift (load text (some path))
  x.expand (.root path) document

/-- The metadata of the text of a descriptor, which is expanded first. An empty text has no
metadata, and a text that cannot be read has a message instead. -/
def readMetadata (x : Expander) (path text : String) : Except Failure Metadata :=
  if text = "" then .ok {}
  else
    match (expandText x path text).run {} with
    | .error (.refused refusal) _ =>
      if refusal.cause.kind = .parseError then
        .ok { messages := [(path, metadataError ++ refusal.message)] }
      else .error (.refused refusal)
    | .error e _ => .error e
    | .ok document _ =>
      match document.entries? with
      | none =>
        .ok { messages := [(path, metadataError ++ "expected a map, found " ++ document.kindName)] }
      | some es => do
        let description ← description es
        let author ← author es
        return { description := description, author := author }

/-- The formats that a parameter has. -/
def parameterFormats (parameter : Node) : List String :=
  match parameter.field "format" with
  | .list formats => formats.filterMap Node.text?
  | format => format.text?.toList

/-- The formats of the parameters at a key of a descriptor, in order and each one once. There are
none if the text cannot be read. -/
def fileFormats (text key : String) : Except Failure (List String) :=
  match load text none with
  | .error (.refused _) => .ok []
  | .error e => .error e
  | .ok document =>
    let parameters := (document.field key).listForm "id" "type"
    .ok ((parameters.flatMap parameterFormats).mergeSort Text.sorted).eraseDups

end CwlDescriptor

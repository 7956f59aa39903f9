import CwlDescriptor.Metadata
import CwlDescriptor.Text.Blank
set_option autoImplicit false

/-!
# Validating descriptors

Whether a file can be registered as a workflow or as a tool, and whether files of test parameters
can be read. Problems are given as messages.

## Main definitions

* `Validation`: the messages, by the paths of the files.
* `Subject`: what a descriptor is to be registered as.
* `validateDescriptor`, `validateParameters`: the validations.
-/

namespace CwlDescriptor

/-- The result of a validation. -/
structure Validation where
  valid : Bool
  messages : Table String
deriving DecidableEq, Repr

namespace Validation

/-- Nothing is wrong. -/
def passed : Validation := ⟨true, []⟩

/-- One file has a problem. -/
def failed (path message : String) : Validation := ⟨false, [(path, message)]⟩

end Validation

/-- What a descriptor is to be registered as. -/
inductive Subject where
  | workflow
  | tool
deriving DecidableEq, Repr

namespace Subject

/-- The subject that a class of entries is registered as. -/
def ofClass : EntryClass → Subject
  | .workflow => .workflow
  | _ => .tool

/-- The name of a subject in a message. -/
def name : Subject → String
  | .workflow => "workflow"
  | .tool => "tool"

/-- The message for an empty descriptor. -/
def emptyMessage : Subject → String
  | .workflow => "Primary descriptor is empty."
  | .tool => "Primary CWL descriptor is empty."

/-- The message for a descriptor of another class. -/
def classMessage : Subject → String
  | .workflow => "A CWL workflow requires 'class: Workflow'."
  | .tool => "A CWL tool requires 'class: CommandLineTool' or 'class: ExpressionTool'."

end Subject

/-- The message for a descriptor that has another class, or none. -/
def wrongClassMessage (subject : Subject) (found : Option EntryClass) : String :=
  match found with
  | none => subject.classMessage
  | some c =>
    subject.classMessage ++ " This file contains 'class: " ++ c.name ++
      "'. Did you mean to register a " ++ (Subject.ofClass c).name ++ "?"

/-- Whether the file at a path is a descriptor of the given subject with a supported version. -/
def validateDescriptor (subject : Subject) (store : SourceStore) (path : String) :
    Except Failure Validation :=
  match store.get? path with
  | none => .ok (.failed path "Primary CWL descriptor is not present.")
  | some text =>
    if Text.isBlankText text then .ok (.failed path subject.emptyMessage)
    else match load text (some path) with
      | .error (.refused refusal) => .ok (.failed path (metadataError ++ refusal.message))
      | .error e => .error e
      | .ok document =>
        if document.entryClass?.map Subject.ofClass = some subject then do
          if ← document.hasValidVersion then return .passed
          else return .failed path "Invalid CWL version."
        else .ok (.failed path (wrongClassMessage subject document.entryClass?))

/-- The messages for the files that cannot be read, added to a table. -/
def parameterMessages : Table String → List SourceFile → Except Failure (Table String)
  | messages, [] => .ok messages
  | messages, file :: files =>
    match load file.content (some file.path) with
    | .ok _ => parameterMessages messages files
    | .error (.refused refusal) =>
      let message := "Test parameter file is not valid JSON or YAML: " ++ refusal.message
      parameterMessages (Table.insert messages file.path message) files
    | .error e => .error e

/-- Whether all files of test parameters can be read. -/
def validateParameters (files : List SourceFile) : Except Failure Validation := do
  let messages ← parameterMessages [] files
  return ⟨messages.isEmpty, messages⟩

end CwlDescriptor

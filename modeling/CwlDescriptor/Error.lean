set_option autoImplicit false

/-!
# Why a descriptor is refused

Two kinds of failure are told apart. A *refusal* is a fact about a descriptor that its author can
act on; it has a cause and the path of a file. A *fault* is an input that an operation has no
answer for.

## Main definitions

* `Unreadable`, `Cause`, `Refusal`: refusals, with `Cause.message` and `Refusal.text`.
* `Fault`: faults.
* `Failure`: either of them, or a computation that was not given enough levels of nesting.
-/

namespace CwlDescriptor

/-- A place in a text: line and column counted from one, and the part of the line around it, with
the number of characters of this part before the place. -/
structure Place where
  line : Nat
  column : Nat
  excerpt : String
  before : Nat
deriving DecidableEq, Repr

/-- The place, followed by the excerpt and a mark below it. -/
def Place.text (p : Place) : String :=
  "  in \"<unicode string>\", line " ++ toString p.line ++ ", column " ++ toString p.column ++
    ":\n    " ++ p.excerpt ++ "\n" ++ String.ofList (List.replicate (4 + p.before) ' ') ++ "^"

/-- Why a text is not the text of a document. -/
inductive Unreadable where
  /-- The text is not well formed, or a value has no meaning. -/
  | notYaml
  /-- A node refers to another one. -/
  | alias (name : String) (place : Place)
  /-- The nodes are nested in too many levels. -/
  | nesting (levels : Nat) (place : Place)
deriving DecidableEq, Repr

/-- The reason in words. -/
def Unreadable.text : Unreadable → String
  | .notYaml => "<yaml error>"
  | .alias name place => "found alias *" ++ name ++ ", aliases are not allowed\n" ++ place.text
  | .nesting levels place => "nesting exceeds " ++ toString levels ++ " levels\n" ++ place.text

/-- The bounds on the cost of expanding a document. -/
inductive Limit where
  | depth
  | characters
  | files
deriving DecidableEq, Repr

/-- The name of a limit in a message. -/
def Limit.name : Limit → String
  | .depth => "file depth"
  | .characters => "character count"
  | .files => "file count"

/-- The kinds of refusal. -/
inductive Kind where
  | parseError
  | missingVersion
  | unsupportedVersion
  | recursionLimitExceeded
  | unhandledRunTarget
  | malformed
deriving DecidableEq, Repr

/-- Why a descriptor is refused. -/
inductive Cause where
  | unreadable (reason : Unreadable)
  /-- A step in list form has no id; the step is shown. -/
  | stepWithoutId (step : String)
  | missingVersion
  | unsupportedVersion (version : String)
  | limitExceeded (limit : Limit) (bound : Nat)
  /-- The target of a step is not an entry; it is shown. -/
  | unhandledRun (target : String)
  /-- The root of the expanded descriptor is not a map. -/
  | notAMap
deriving DecidableEq, Repr

namespace Cause

/-- The kind of a cause. -/
def kind : Cause → Kind
  | .unreadable _ => .parseError
  | .stepWithoutId _ => .parseError
  | .missingVersion => .missingVersion
  | .unsupportedVersion _ => .unsupportedVersion
  | .limitExceeded .. => .recursionLimitExceeded
  | .unhandledRun _ => .unhandledRunTarget
  | .notAMap => .malformed

/-- What is said when a limit is exceeded. -/
def limitText (limit : Limit) (bound : Nat) : String :=
  "maximum " ++ limit.name ++ " (" ++ toString bound ++ ") exceeded"

/-- The message for the author of the descriptor. -/
def message : Cause → String
  | .unreadable reason => "Unable to parse CWL workflow, " ++ reason.text
  | .stepWithoutId step => "Unable to parse CWL workflow, workflow step without an id: " ++ step
  | .missingVersion => "CWL descriptor should contain a cwlVersion"
  | .unsupportedVersion version =>
    "CWL descriptor should contain a cwlVersion starting with v1, detected version " ++ version
  | .limitExceeded limit bound => "CWL might be recursive: " ++ limitText limit bound
  | .unhandledRun target =>
    "Syntax incorrect. Could not ($)import or ($)include secondary file for run command: " ++ target
  | .notAMap => "CWL file is malformed"

end Cause

/-- A refused descriptor: the cause, and the file it was found in if that is known. -/
structure Refusal where
  cause : Cause
  path : Option String
deriving DecidableEq, Repr

namespace Refusal

/-- The message of the cause. -/
def message (r : Refusal) : String := r.cause.message

/-- The message, followed by the path in parentheses if there is one. -/
def text (r : Refusal) : String :=
  match r.path with
  | none => r.message
  | some path => r.message ++ " (" ++ path ++ ")"

end Refusal

/-- An input that an operation has no answer for. -/
inductive Fault where
  /-- A text is no number of the required kind. -/
  | notANumber
  /-- A number was required, and the text is empty. -/
  | emptyNumber
  /-- An integer has too many digits to be written. -/
  | tooManyDigits
  /-- An integer is too large for a floating point number. -/
  | tooLarge
  /-- A text is no truth value. -/
  | notABoolean
  /-- A text has not the form of a date. -/
  | notADate
  /-- A map was given for a date. -/
  | dateIsAMap
  /-- A date does not exist. -/
  | noSuchDate
  /-- An escape names no character. -/
  | noSuchCharacter
  /-- A map was required. -/
  | notAMap
  /-- A list, map or set was looked up as an id. -/
  | idNotScalar
  /-- The digest of an image was asked for, and the image has none. -/
  | noDigest
  /-- A tool could not be looked up. -/
  | lookupFailed
deriving DecidableEq, Repr

/-- Why a computation has no result. -/
inductive Failure where
  | refused (refusal : Refusal)
  | fault (fault : Fault)
  /-- The levels of nesting that were allowed for are used up. -/
  | exhausted
deriving DecidableEq, Repr

namespace Failure

/-- The refusal with the given cause and path. -/
def refuse (cause : Cause) (path : Option String) : Failure :=
  .refused ⟨cause, path⟩

end Failure

end CwlDescriptor

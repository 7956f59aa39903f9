import CwlDescriptor.Yaml.Cursor
set_option autoImplicit false

/-!
# Tokens

The smallest pieces of a text that have a meaning, each with its place in the text.

## Main definitions

* `Yaml.Token`, `Yaml.Lexeme`: tokens, and tokens with their places.
* `Yaml.LoadError`: why a text cannot be loaded.
* `Yaml.Feed`: items that are delivered one after the other until the end or an error.
-/

namespace CwlDescriptor.Yaml

/-- Why a text cannot be loaded. -/
inductive LoadError where
  /-- The text is not well formed, or a value has no meaning. -/
  | invalid
  /-- The node at the position refers to another one. -/
  | alias (name : String) (position : Position)
  /-- The node at the position is nested too deeply. -/
  | nesting (position : Position)
  /-- A value cannot be converted. -/
  | fault (fault : Fault)
deriving DecidableEq, Repr

/-- Items that are delivered one after the other. If there is an error, it is met as soon as an
item behind the last one is asked for. -/
structure Feed (α : Type) where
  items : List α
  error : Option LoadError
deriving Repr

/-- A line that tells how to read a document. -/
inductive Directive where
  | version (major minor : Nat)
  | tag (handle start : String)
  | reserved
deriving DecidableEq, Repr

/-- The smallest pieces of a text. -/
inductive Token where
  | streamEnd
  | directive (directive : Directive)
  | documentStart
  | documentEnd
  | blockSequenceStart
  | blockMappingStart
  | blockEnd
  | flowSequenceStart
  | flowSequenceEnd
  | flowMappingStart
  | flowMappingEnd
  | key
  | value
  | blockEntry
  | flowEntry
  | alias (name : String)
  | anchor (name : String)
  /-- A tag: a handle that a directive may have given a meaning, and what follows it. -/
  | tag (handle : Option String) (suffix : String)
  /-- A scalar, with the information whether it is written without quotes. -/
  | scalar (text : String) (plain : Bool)
deriving DecidableEq, Repr

/-- A token with its place in the text. -/
structure Lexeme where
  token : Token
  start : Position
  stop : Position
deriving DecidableEq, Repr

end CwlDescriptor.Yaml

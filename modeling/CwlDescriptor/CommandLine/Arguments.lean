import CwlDescriptor.Configuration
set_option autoImplicit false

/-!
# The arguments of a command

An option is written with two hyphens, and may be shortened as long as no other option begins in the
same way. Its value is the next argument, or the text behind an equals sign. The letter for help may
be repeated.

## Main definitions

* `OptionName`, `OptionName.named`: the options.
* `Argument`, `Argument.ofText`: what an argument stands for.
* `Invocation`: what a command is to do.
* `Ending`: why nothing is to be done.
* `Invocation.ofArguments`: the meaning of the arguments of a command.
-/

namespace CwlDescriptor

/-- What a command prints. -/
inductive OutputKind where
  | dag
  | tools
  | metadata
  | imports
deriving DecidableEq, Repr

/-- The name of a kind of output. -/
def OutputKind.name : OutputKind → String
  | .dag => "dag"
  | .tools => "tools"
  | .metadata => "metadata"
  | .imports => "imports"

/-- The kind of output with a name. -/
def OutputKind.ofName? (name : String) : Option OutputKind :=
  [OutputKind.dag, .tools, .metadata, .imports].find? (·.name = name)

/-- The options of a command. -/
inductive OptionName where
  | help
  | root
  | dir
  | mode
  | configFile
  | version
  | maxDepth
  | maxCharacters
  | maxFiles
  | graphviz
  | quiet
deriving DecidableEq, Repr

namespace OptionName

/-- An option must have a value; the others must not have one. -/
def takesValue : OptionName → Bool
  | .help | .version | .quiet => false
  | _ => true

/-- The options as they are written. -/
def spellings : List (List Char × OptionName) :=
  [("-h", help), ("--help", help), ("--root", root), ("--dir", dir), ("--mode", mode),
    ("--config_file", configFile), ("--version", version), ("--max_depth", maxDepth),
    ("--max_char_count", maxCharacters), ("--max_file_count", maxFiles), ("--graphviz", graphviz),
    ("--quiet", quiet)].map fun (spelling, option) => (spelling.toList, option)

/-- The options that a text may stand for, with a value that is written in the same text. -/
def named (s : List Char) : List (OptionName × Option (List Char)) :=
  let (name, value) := match Text.cutFirst '=' s with
    | some (name, value) => (name, some value)
    | none => (s, none)
  match spellings.lookup s, spellings.lookup name with
  | some option, _ => [(option, none)]
  | none, some option => [(option, value)]
  | none, none =>
    if "--".toList.isPrefixOf s then
      (spellings.filter fun (spelling, _) => name.isPrefixOf spelling).map fun (_, option) =>
        (option, value)
    else if s.drop 1 = List.replicate (s.length - 1) 'h' then [(help, none)]
    else ((spellings.lookup (s.take 2)).map fun option => (option, some (s.drop 2))).toList

end OptionName

/-- Why nothing is to be done. -/
inductive Ending where
  /-- The version is asked for. -/
  | version
  /-- An explanation of the options is asked for. -/
  | help
  /-- The arguments have no meaning. -/
  | misuse
deriving DecidableEq, Repr

/-- What an argument stands for. -/
inductive Argument where
  | value (text : String)
  /-- What follows are values. -/
  | separator
  | option (name : OptionName) (value : Option String)
  | unknown
deriving DecidableEq, Repr

namespace Argument

/-- The text is a number with a minus sign, perhaps with a line feed at its end. -/
def isNegativeNumber (s : List Char) : Bool :=
  let s := if s.getLast? = some '\n' then s.dropLast else s
  let isDigit (c : Char) : Bool := (Text.decimalDigit? c).isSome
  match s with
  | '-' :: s =>
    match s.span isDigit with
    | (whole, []) => !whole.isEmpty
    | (_, '.' :: fraction) => !fraction.isEmpty && fraction.all isDigit
    | _ => false
  | _ => false

/-- What an argument in front of the separator stands for. What begins with a hyphen is an option,
unless it is a single hyphen, a number, or a text with spaces. -/
def ofText (text : String) : Except Ending Argument :=
  match text.toList with
  | '-' :: c :: rest =>
    let s := '-' :: c :: rest
    match OptionName.named s with
    | [(name, attached)] => .ok (.option name (attached.map String.ofList))
    | [] =>
      if isNegativeNumber s || s.contains ' ' then .ok (.value text) else .ok .unknown
    | _ => .error .misuse
  | _ => .ok (.value text)

/-- What arguments stand for. -/
def ofTexts : List String → Except Ending (List Argument)
  | [] => .ok []
  | text :: texts =>
    if text = "--" then .ok (.separator :: texts.map .value)
    else do
      let argument ← ofText text
      let arguments ← ofTexts texts
      return argument :: arguments

end Argument

/-- What a command is to do. -/
structure Invocation where
  /-- The root descriptor. -/
  root : Option String := none
  /-- The directory of the repository, if it is not that of the root. -/
  dir : Option String := none
  output : OutputKind := .dag
  configFile : Option String := none
  overrides : LimitOverrides := {}
  /-- The file to which the graph is written. -/
  graphviz : Option String := none
  quiet : Bool := false
  /-- There are arguments that belong to no option. -/
  hasSurplus : Bool := false
deriving Repr

namespace Invocation

/-- The integer that a value stands for. -/
def integer (value : String) : Except Ending Json :=
  match Integer.read? 10 value.toList with
  | some i => .ok (.int i)
  | none => .error .misuse

/-- Sets an option that has a value. -/
def set (i : Invocation) (option : OptionName) (value : String) : Except Ending Invocation := do
  match option with
  | .root => return { i with root := some value }
  | .dir => return { i with dir := some value }
  | .configFile => return { i with configFile := some value }
  | .graphviz => return { i with graphviz := some value }
  | .mode =>
    match OutputKind.ofName? value with
    | some kind => return { i with output := kind }
    | none => throw .misuse
  | .maxDepth => return { i with overrides.maxDepth := ← integer value }
  | .maxCharacters => return { i with overrides.maxCharacters := ← integer value }
  | .maxFiles => return { i with overrides.maxFiles := ← integer value }
  | .help | .version | .quiet => throw .misuse

/-- Sets an option that has no value. -/
def turnOn (i : Invocation) (option : OptionName) : Except Ending Invocation :=
  match option with
  | .help => .error .help
  | .version => .error .version
  | .quiet => .ok { i with quiet := true }
  | _ => .error .misuse

/-- Follows arguments from left to right. -/
def follow (i : Invocation) : List Argument → Except Ending Invocation
  | [] => .ok i
  | .option option none :: .value value :: rest =>
    if option.takesValue then do
      let i ← i.set option value
      i.follow rest
    else do
      let i ← i.turnOn option
      { i with hasSurplus := true }.follow rest
  | .option option none :: rest => do
    let i ← i.turnOn option
    i.follow rest
  | .option option (some value) :: rest => do
    let i ← i.set option value
    i.follow rest
  | _ :: rest => { i with hasSurplus := true }.follow rest

/-- The meaning of the arguments of a command. A root is required. -/
def ofArguments (texts : List String) : Except Ending Invocation := do
  let i ← ({} : Invocation).follow (← Argument.ofTexts texts)
  if i.root.isNone || i.hasSurplus then throw .misuse else return i

end Invocation

end CwlDescriptor

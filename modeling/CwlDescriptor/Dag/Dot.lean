import CwlDescriptor.Dag.Basic
set_option autoImplicit false

/-!
# The graph in the DOT language

## Main definitions

* `Dot.isBare`, `Dot.quote`: identifiers of the language.
* `Dot.endpoint`: the end of an edge, which may name a place at its node.
* `Dot.source`: the text of a graph.
-/

namespace CwlDescriptor.Dot

/-- The keywords of the language, which are no identifiers in any case. -/
def keywords : List String := ["node", "edge", "graph", "digraph", "subgraph", "strict"]

/-- The text without a line feed at its end. -/
def dropLineFeed (s : List Char) : List Char :=
  if s.getLast? = some '\n' then s.dropLast else s

/-- A letter or an underscore, followed by such and digits. -/
def isName : List Char → Bool
  | [] => false
  | c :: rest => (c.isAlpha || c = '_') && rest.all fun c => c.isAlphanum || c = '_'

/-- Digits with or without a point, and perhaps a minus sign; no digits need be before the point. -/
def isNumeral (s : List Char) : Bool :=
  let s := match s with
    | '-' :: rest => rest
    | s => s
  let whole := s.takeWhile Char.isDigit
  match s.drop whole.length with
  | [] => !whole.isEmpty
  | '.' :: fraction => fraction.all Char.isDigit && (!whole.isEmpty || !fraction.isEmpty)
  | _ => false

/-- The text is between angle brackets. -/
def isMarkup (s : List Char) : Bool :=
  s.head? = some '<' && 2 ≤ (dropLineFeed s).length && (dropLineFeed s).getLast? = some '>'

/-- The text is an identifier as it stands. -/
def isBare (s : List Char) : Bool :=
  isMarkup s ||
    ((isName (dropLineFeed s) || isNumeral (dropLineFeed s)) &&
      !keywords.contains (String.ofList (Text.lower s)))

/-- The text with a backslash before each quote that has none; `slashes` is the number of
backslashes in front of the text. -/
def escapeQuotes (slashes : Nat) : List Char → List Char
  | [] => []
  | '"' :: rest =>
    if slashes % 2 = 0 then '\\' :: '"' :: escapeQuotes 0 rest else '"' :: escapeQuotes 0 rest
  | '\\' :: rest => '\\' :: escapeQuotes (slashes + 1) rest
  | c :: rest => c :: escapeQuotes 0 rest

/-- The text as an identifier, between quotes if it has to be. -/
def quote (s : List Char) : List Char :=
  if isBare s then s else '"' :: escapeQuotes 0 s ++ ['"']

/-- The end of an edge: the text up to its first colon names a node, and what follows a place at the
node and perhaps, behind another colon, a side. The language has names of its own for sides, so that
a side is written as it stands. -/
def endpoint (s : List Char) : List Char :=
  match Text.cutFirst ':' s with
  | none => quote s
  | some (node, rest) =>
    if rest = [] then quote node
    else match Text.cutFirst ':' rest with
      | none => quote node ++ ':' :: quote rest
      | some (place, side) =>
        if side = [] then quote node ++ ':' :: quote place
        else quote node ++ ':' :: quote place ++ ':' :: side

/-- An attribute of a node. -/
def assignment (key value : String) : List Char :=
  key.toList ++ '=' :: quote value.toList

/-- The color of the nodes of a type. -/
def color : TargetType → String
  | .tool => "lightblue"
  | .workflow => "lightyellow"
  | .expressionTool => "lightgreen"
  | .notApplicable => "lightgray"

/-- The attributes of a node. -/
def attributes (node : String) (info : Option NodeInfo) : List (List Char) :=
  if node = beginKey || node = endKey then
    [assignment "label" "", assignment "fillcolor" "black", assignment "shape" "circle",
      assignment "style" "filled", assignment "width" "0.2"]
  else
    [assignment "label" ((info.map (·.name)).getD ""),
      assignment "fillcolor" (color ((info.map (·.type)).getD .notApplicable)),
      assignment "shape" "box", assignment "style" "rounded, filled"]

/-- The line of a node. -/
def nodeLine (node : String) (info : Option NodeInfo) : List Char :=
  '\t' :: quote node.toList ++ " [".toList ++ List.intercalate [' '] (attributes node info) ++
    "]\n".toList

/-- The line of an edge. -/
def edgeLine (edge : String × String) : List Char :=
  '\t' :: endpoint edge.1.toList ++ " -> ".toList ++ endpoint edge.2.toList ++ ['\n']

/-- The text of a graph with a name, which may be empty. -/
def source (g : Dag) (name : String) : String :=
  let title := if name = "" then [] else quote name.toList ++ [' ']
  let settings := "\x7b\n\tbgcolor=transparent\n\trankdir=TB\n"
  String.ofList ("digraph ".toList ++ title ++ settings.toList ++
    g.nodes.flatMap (fun (node, info) => nodeLine node info) ++
    g.edgesBySource.flatMap edgeLine ++ "\x7d\n".toList)

end CwlDescriptor.Dot

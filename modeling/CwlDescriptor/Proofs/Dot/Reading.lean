import CwlDescriptor.Dag.Dot
import Mathlib.Tactic
set_option autoImplicit false

/-!
# Reading the DOT language

What a text in the DOT language says: the nodes that it declares and the edges between them. The
text is read character by character into tokens, and those one by one into the graph. Between quotes
a backslash hides a quote and a line feed and stands for itself elsewhere, the text between angle
brackets may have such brackets in pairs, and the words of the language are no names. Subgraphs,
comments, and names that are put together with a plus sign are not read.

## Main definitions

* `Token`, `Lexing.step`, `tokens?`: the tokens of a text.
* `Drawing`, `Phase.step`, `read`: the graph of a text.
* `Reads`, `Spells`: the tokens of a piece of a text.

## Main results

* `Reads.append`, `Spells.reads`: the tokens of a text are those of its pieces.
* `Phase.foldlM_append`: the graph of a text is read in pieces.
-/

namespace CwlDescriptor.Dot

/-! ## Tokens -/

/-- The tokens of the language. -/
inductive Token
  | name (text : String)
  | markup (text : String)
  | keyword (word : String)
  | arrow
  | symbol (c : Char)
deriving DecidableEq, Repr

/-- A token that is not complete. -/
inductive Lexing
  | between
  | word (seen : List Char)
  | numeral (seen : List Char) (dotted : Bool)
  /-- A point without digits before it. -/
  | point (seen : List Char)
  | minus
  | quoted (seen : List Char)
  /-- Behind a backslash between quotes. -/
  | escaped (seen : List Char)
  /-- Between angle brackets, with a number of others still open. -/
  | markup (depth : Nat) (seen : List Char)
deriving DecidableEq, Repr

/-- Characters that a word begins with. -/
def isLetter (c : Char) : Bool := c.isAlpha || c = '_' || 128 ≤ c.toNat

/-- Characters that separate tokens. -/
def isSpace (c : Char) : Bool := c = ' ' || c = '\t' || c = '\n' || c = '\r'

/-- Characters that are tokens of their own. -/
def symbols : List Char := ['\x7b', '\x7d', '[', ']', '=', ':', ';', ',']

/-- A word is a keyword, in any case, or a name. -/
def wordToken (seen : List Char) : Token :=
  if keywords.contains (String.ofList (Text.lower seen)) then
    .keyword (String.ofList (Text.lower seen))
  else .name (String.ofList seen)

namespace Lexing

/-- Reads the first character of a token or what is between two tokens. -/
def start (c : Char) : Option (List Token × Lexing) :=
  if isSpace c then some ([], .between)
  else if isLetter c then some ([], .word [c])
  else if c.isDigit then some ([], .numeral [c] false)
  else if c = '.' then some ([], .point [c])
  else if c = '-' then some ([], .minus)
  else if c = '"' then some ([], .quoted [])
  else if c = '<' then some ([], .markup 0 [c])
  else if symbols.contains c then some ([.symbol c], .between)
  else none

/-- Ends a token in front of a character. -/
def ending (t : Token) (c : Char) : Option (List Token × Lexing) :=
  (start c).map fun (ts, l) => (t :: ts, l)

/-- Reads a character: the tokens that are complete with it, and the one that is not. -/
def step : Lexing → Char → Option (List Token × Lexing)
  | .between, c => start c
  | .word seen, c =>
    if isLetter c || c.isDigit then some ([], .word (seen ++ [c])) else ending (wordToken seen) c
  | .numeral seen dotted, c =>
    if c.isDigit then some ([], .numeral (seen ++ [c]) dotted)
    else if c = '.' && !dotted then some ([], .numeral (seen ++ [c]) true)
    else ending (.name (String.ofList seen)) c
  | .point seen, c => if c.isDigit then some ([], .numeral (seen ++ [c]) true) else none
  | .minus, c =>
    if c = '>' then some ([.arrow], .between)
    else if c.isDigit then some ([], .numeral ['-', c] false)
    else if c = '.' then some ([], .point ['-', c])
    else none
  | .quoted seen, c =>
    if c = '"' then some ([.name (String.ofList seen)], .between)
    else if c = '\\' then some ([], .escaped seen)
    else some ([], .quoted (seen ++ [c]))
  | .escaped seen, c =>
    if c = '"' then some ([], .quoted (seen ++ ['"']))
    else if c = '\n' then some ([], .quoted seen)
    else some ([], .quoted (seen ++ ['\\', c]))
  | .markup depth seen, c =>
    if c = '<' then some ([], .markup (depth + 1) (seen ++ [c]))
    else if c = '>' then match depth with
      | 0 => some ([.markup (String.ofList (seen ++ [c]))], .between)
      | depth + 1 => some ([], .markup depth (seen ++ [c]))
    else some ([], .markup depth (seen ++ [c]))

/-- The token that ends with the text. -/
def finish : Lexing → Option (List Token)
  | .between => some []
  | .word seen => some [wordToken seen]
  | .numeral seen _ => some [.name (String.ofList seen)]
  | _ => none

end Lexing

/-- Reads the characters of a text one by one. -/
def Lexing.run : Lexing → List Char → Option (List Token × Lexing)
  | l, [] => some ([], l)
  | l, c :: rest => do
    let (ts, l') ← l.step c
    let (us, l'') ← l'.run rest
    return (ts ++ us, l'')

/-- The tokens of a text. -/
def tokens? (s : List Char) : Option (List Token) := do
  let (ts, l) ← Lexing.between.run s
  return ts ++ (← l.finish)

/-! ## Graphs -/

/-- The nodes of a graph in the order in which they are declared, and its edges. -/
structure Drawing where
  nodes : List String := []
  edges : List (String × String) := []
deriving DecidableEq, Repr

namespace Drawing

/-- Declares a node. -/
def addNode (d : Drawing) (node : String) : Drawing := { d with nodes := d.nodes ++ [node] }

/-- Draws an edge. -/
def addEdge (d : Drawing) (source target : String) : Drawing :=
  { d with edges := d.edges ++ [(source, target)] }

end Drawing

/-- What may come next. -/
inductive Phase
  | graph
  | digraph
  | title
  | opening
  | statement
  /-- Behind a name, with a number of parts behind colons; an edge leads to it, if there is a
  source. -/
  | term (source : Option String) (node : String) (ports : Nat)
  | port (source : Option String) (node : String) (ports : Nat)
  | target (source : String)
  /-- The value of an attribute of the graph. -/
  | setting
  /-- Attributes of all nodes, edges or graphs. -/
  | defaults
  | attribute
  | equals
  | value
  | separator
  /-- Behind a list of attributes, which may be followed by another one. -/
  | attributed
  | finished
deriving DecidableEq, Repr

namespace Phase

/-- Reads the first token of a statement. -/
def start (d : Drawing) : Token → Option (Drawing × Phase)
  | .name node => some (d, .term none node 0)
  | .keyword word => if ["node", "edge", "graph"].contains word then some (d, .defaults) else none
  | .symbol '\x7d' => some (d, .finished)
  | .symbol ';' => some (d, .statement)
  | _ => none

/-- Declares a node at the end of its statement, if it is one of a node. -/
def declare (d : Drawing) (source : Option String) (node : String) : Drawing :=
  if source.isNone then d.addNode node else d

/-- Reads a token. -/
def step : Drawing × Phase → Token → Option (Drawing × Phase)
  | (d, .graph), .keyword "strict" => some (d, .digraph)
  | (d, .graph), .keyword "digraph" => some (d, .title)
  | (d, .digraph), .keyword "digraph" => some (d, .title)
  | (d, .title), .name _ => some (d, .opening)
  | (d, .title), .markup _ => some (d, .opening)
  | (d, .title), .symbol '\x7b' => some (d, .statement)
  | (d, .opening), .symbol '\x7b' => some (d, .statement)
  | (d, .statement), t => start d t
  | (d, .term none _ 0), .symbol '=' => some (d, .setting)
  | (d, .term source node ports), .symbol ':' =>
    if ports < 2 then some (d, .port source node (ports + 1)) else none
  | (d, .term _ node _), .arrow => some (d, .target node)
  | (d, .term source node _), .symbol '[' => some (declare d source node, .attribute)
  | (d, .term source node _), t => start (declare d source node) t
  | (d, .port source node ports), .name _ => some (d, .term source node ports)
  | (d, .target source), .name node => some (d.addEdge source node, .term (some source) node 0)
  | (d, .setting), .name _ => some (d, .statement)
  | (d, .setting), .markup _ => some (d, .statement)
  | (d, .defaults), .symbol '[' => some (d, .attribute)
  | (d, .attribute), .name _ => some (d, .equals)
  | (d, .attribute), .symbol ']' => some (d, .attributed)
  | (d, .equals), .symbol '=' => some (d, .value)
  | (d, .value), .name _ => some (d, .separator)
  | (d, .value), .markup _ => some (d, .separator)
  | (d, .separator), .symbol ',' => some (d, .attribute)
  | (d, .separator), .symbol ';' => some (d, .attribute)
  | (d, .separator), .name _ => some (d, .equals)
  | (d, .separator), .symbol ']' => some (d, .attributed)
  | (d, .attributed), .symbol '[' => some (d, .attribute)
  | (d, .attributed), t => start d t
  | _, _ => none

end Phase

/-- The graph that a text draws. -/
def read (text : String) : Option Drawing := do
  let ts ← tokens? text.toList
  match ← ts.foldlM Phase.step ({}, .graph) with
  | (d, .finished) => some d
  | _ => none

/-! ## Pieces of a text -/

namespace Lexing

variable {l l' l'' : Lexing} {s s' : List Char} {ts ts' : List Token} {c : Char}

/-- A text is read in pieces. -/
lemma run_append (h : l.run s = some (ts, l')) (s' : List Char) :
    l.run (s ++ s') = (l'.run s').map fun (us, l'') => (ts ++ us, l'') := by
  induction s generalizing l ts with
  | nil =>
    obtain ⟨rfl, rfl⟩ := Prod.mk.inj (Option.some.inj h)
    simp
  | cons c s ih =>
    simp only [run, Option.bind_eq_bind, Option.bind_eq_some_iff, Option.pure_def] at h
    obtain ⟨⟨us, m⟩, hstep, ⟨vs, m'⟩, hrun, hsome⟩ := h
    obtain ⟨rfl, rfl⟩ := Prod.mk.inj (Option.some.inj hsome)
    cases hrest : m'.run s' <;> simp [run, hstep, ih hrun, hrest]

/-- One character is read by one step. -/
lemma run_singleton (l : Lexing) (c : Char) : l.run [c] = l.step c := by
  cases hstep : l.step c <;> simp [run, hstep]

/-- A character that completes no token changes the reading of the rest only. -/
lemma run_cons (h : l.step c = some ([], l')) (s : List Char) : l.run (c :: s) = l'.run s := by
  cases hrun : l'.run s <;> simp [run, h, hrun]

end Lexing

/-- A piece of a text that begins and ends between two tokens has certain tokens. -/
def Reads (s : List Char) (ts : List Token) : Prop :=
  Lexing.between.run s = some (ts, .between)

/-- A character that is neither part of a word nor of a number. -/
def Delimits (c : Char) : Prop := isLetter c = false ∧ c.isDigit = false ∧ c ≠ '.'

instance (c : Char) : Decidable (Delimits c) := inferInstanceAs (Decidable (_ ∧ _ ∧ _))

/-- A piece of a text has certain tokens, of which the last one ends in front of any character that
is not part of a word or number. -/
def Spells (s : List Char) (ts : List Token) : Prop :=
  ∀ c, Delimits c → Lexing.between.run (s ++ [c]) =
    (Lexing.start c).map fun (us, l) => (ts ++ us, l)

section Pieces

variable {s s' : List Char} {ts us : List Token} {c : Char}

/-- What is read as whole tokens does not change how the rest is read. -/
lemma Reads.run_append (h : Reads s ts) (s' : List Char) : Lexing.between.run (s ++ s') =
    (Lexing.between.run s').map fun (us, l) => (ts ++ us, l) :=
  Lexing.run_append h s'

/-- Two texts of whole tokens are read one after the other. -/
lemma Reads.append (h : Reads s ts) (h' : Reads s' us) : Reads (s ++ s') (ts ++ us) := by
  rw [Reads, h.run_append, show Lexing.between.run s' = some (us, .between) from h']
  rfl

/-- Texts of whole tokens are read one after another. -/
lemma Reads.flatMap {α : Type} {xs : List α} {f : α → List Char} {g : α → List Token}
    (h : ∀ x ∈ xs, Reads (f x) (g x)) : Reads (xs.flatMap f) (xs.flatMap g) := by
  induction xs with
  | nil => rfl
  | cons x xs ih =>
    exact (h x List.mem_cons_self).append (ih fun y hy => h y (List.mem_cons_of_mem x hy))

/-- A text of whole tokens has these tokens. -/
lemma Reads.tokens? (h : Reads s ts) : tokens? s = some ts := by
  simp [Dot.tokens?, show Lexing.between.run s = some (ts, .between) from h, Lexing.finish]

/-- A text of whole tokens spells them, whatever comes behind it. -/
lemma Reads.spells (h : Reads s ts) : Spells s ts := fun c _ => by
  rw [h.run_append, Lexing.run_singleton]
  rfl

/-- A text of whole tokens stands in front of what another one spells. -/
lemma Reads.append_spells (h : Reads s ts) (h' : Spells s' us) : Spells (s ++ s') (ts ++ us) := by
  intro c hc
  rw [List.append_assoc, h.run_append, h' c hc, Option.map_map]
  simp [Function.comp_def]

/-- A piece of a text that is closed by a character. -/
lemma Spells.reads (h : Spells s ts) (hc : Delimits c)
    (hstart : Lexing.start c = some (us, .between)) : Reads (s ++ [c]) (ts ++ us) := by
  rw [Reads, h c hc, hstart]
  rfl

end Pieces

/-! ## Graphs in pieces -/

/-- Tokens are read in pieces. -/
lemma Phase.foldlM_append {s s' : Drawing × Phase} {ts : List Token}
    (h : ts.foldlM Phase.step s = some s') (us : List Token) :
    (ts ++ us).foldlM Phase.step s = us.foldlM Phase.step s' := by
  rw [List.foldlM_append, h]
  rfl

/-- A text is drawn as its tokens are. -/
lemma read_ofList (s : List Char) : read (String.ofList s) = (do
    let ts ← tokens? s
    match ← ts.foldlM Phase.step ({}, .graph) with
    | (d, .finished) => some d
    | _ => none) := by
  rw [read, String.toList_ofList]

/-- A text is read as the graph that its tokens make. -/
lemma read_eq {s : List Char} {ts : List Token} {d : Drawing} (htokens : tokens? s = some ts)
    (hdrawn : ts.foldlM Phase.step ({}, .graph) = some (d, .finished)) :
    read (String.ofList s) = some d := by
  simp [read_ofList, htokens, hdrawn]

end CwlDescriptor.Dot

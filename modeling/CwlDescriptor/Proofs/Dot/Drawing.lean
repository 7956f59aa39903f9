import CwlDescriptor.Proofs.Cuts
import CwlDescriptor.Proofs.Dag.Elements
import CwlDescriptor.Proofs.Dot.Identifiers
set_option autoImplicit false

/-!
# The graph that is drawn

The text of a graph is a line for each node and one for each edge. In the line of a node its name
stands as one identifier, but the line of an edge takes the names of its ends apart at their colons:
what stands behind the first one is a place at the node. So a node with a colon in its name is
declared, and its edges are drawn at another one. Where no name of a step has a colon and all names
can be read again, the text has the nodes and edges of the graph.

## Main definitions

* `Token.ofAttribute`, `Token.ofNode`, `Token.ofEdge`: the tokens of the lines.

## Main results

* `read_source`: what the text of a graph is read as.
* `Walker.source_draws_dag`: the text of the graph of a workflow has its nodes and edges.
* `ported_source`: edges at a node that is not declared.
-/

namespace CwlDescriptor.Dot

/-! ## The tokens of a line -/

/-- The names and values of the attributes of a node. -/
def settings (node : String) (info : Option NodeInfo) : List (String × String) :=
  if node = beginKey || node = endKey then
    [("label", ""), ("fillcolor", "black"), ("shape", "circle"), ("style", "filled"),
      ("width", "0.2")]
  else
    [("label", (info.map (·.name)).getD ""),
      ("fillcolor", color ((info.map (·.type)).getD .notApplicable)), ("shape", "box"),
      ("style", "rounded, filled")]

/-- The attributes of a node are its settings, each as an assignment. -/
private lemma attributes_eq (node : String) (info : Option NodeInfo) :
    attributes node info = (settings node info).map fun x => assignment x.1 x.2 := by
  unfold attributes settings
  split_ifs <;> rfl

/-- The tokens of an attribute. -/
def Token.ofAttribute (x : String × String) : List Token :=
  [.name x.1, .symbol '=', identifier x.2.toList]

/-- The tokens of the line of a node. -/
def Token.ofNode (x : String × Option NodeInfo) : List Token :=
  [.name x.1, .symbol '['] ++ ((settings x.1 x.2).flatMap Token.ofAttribute ++ [.symbol ']'])

/-- The tokens of the line of an edge. -/
def Token.ofEdge (e : String × String) : List Token := [.name e.1, .arrow, .name e.2]

/-- A text without a backslash can be written between quotes. -/
private lemma isEscapable_of_not_mem {s : List Char} (h : '\\' ∉ s) : isEscapable 0 s = true := by
  induction s with
  | nil => rfl
  | cons c s ih =>
    have hslash : c ≠ '\\' := fun hc => h (hc ▸ List.mem_cons_self)
    simp [isEscapable, hslash, ih fun hmem => h (List.mem_cons_of_mem c hmem)]

/-- Texts without backslashes, line feeds and angle brackets are read as one identifier. -/
private lemma enclosed_of_not_mem {s : List Char} (h : '\\' ∉ s ∧ '\n' ∉ s ∧ '<' ∉ s) :
    Enclosed s where
  closed _ := isClosed_of_isEscapable (isEscapable_of_not_mem h.1)
  balanced hmarkup := by
    cases s with
    | nil => cases hmarkup
    | cons c s =>
      have hopen : c ≠ '<' := fun hc => h.2.2 (hc ▸ List.mem_cons_self)
      simp [isMarkup, hopen] at hmarkup
  keyword word hs :=
    absurd (hs ▸ List.mem_append_right word (List.mem_singleton_self _)) h.2.1

/-- A name of a node that is read as it is, at the end of an edge as well. -/
structure IsNodeName (node : String) : Prop where
  enclosed : Enclosed node.toList
  identifier : identifier node.toList = .name node
  colon : ':' ∉ node.toList

section Lines

variable {node : String} {info : Option NodeInfo} {x e : String × String}

/-- The name of a node is read as one name. -/
lemma IsNodeName.spells (h : IsNodeName node) : Spells (quote node.toList) [.name node] :=
  h.identifier ▸ h.enclosed.spells_quote

/-- A setting of a node is read as its key, the sign of equality and its value. -/
private lemma spells_assignment (hkey : x.1 ∈ ["label", "fillcolor", "shape", "style", "width"])
    (hvalue : Enclosed x.2.toList) : Spells (assignment x.1 x.2) (Token.ofAttribute x) := by
  have hname : ∀ key ∈ ["label", "fillcolor", "shape", "style", "width"],
      isName key.toList = true ∧ wordToken key.toList = .name key := by decide
  have hspells := spells_word (hname _ hkey).1
  rw [(hname _ hkey).2] at hspells
  have hreads := hspells.reads (c := '=') (by decide) rfl
  have htext : assignment x.1 x.2 = x.1.toList ++ ['='] ++ quote x.2.toList := by
    simp [assignment]
  rw [htext]
  exact hreads.append_spells hvalue.spells_quote

/-- Pieces with blanks between them are read one after another. -/
private lemma spells_intercalate {α : Type} {xs : List α} {f : α → List Char} {g : α → List Token}
    (h : ∀ x ∈ xs, Spells (f x) (g x)) :
    Spells (List.intercalate [' '] (xs.map f)) (xs.flatMap g) := by
  induction xs with
  | nil => exact (show Reads [] [] from rfl).spells
  | cons x xs ih =>
    have hfirst := h x List.mem_cons_self
    have hrest := ih fun y hy => h y (List.mem_cons_of_mem x hy)
    cases xs with
    | nil => simpa [List.intercalate] using hfirst
    | cons y ys =>
      have hreads := hfirst.reads (c := ' ') (by decide) rfl
      rw [List.append_nil] at hreads
      simpa [List.intercalate, List.intersperse] using hreads.append_spells hrest

/-- The keys of the settings are five words. -/
private lemma key_of_mem_settings (h : x ∈ settings node info) :
    x.1 ∈ ["label", "fillcolor", "shape", "style", "width"] := by
  unfold settings at h
  split_ifs at h <;> simp only [List.mem_cons, List.not_mem_nil, or_false] at h <;>
    rcases h with rfl | rfl | rfl | rfl | rfl <;> simp

/-- The values of the attributes are read as one identifier each if the label is. -/
private lemma enclosed_of_mem_settings (hlabel : ∀ i, info = some i → Enclosed i.name.toList)
    (h : x ∈ settings node info) : Enclosed x.2.toList := by
  have hcolor : ∀ type, Enclosed (color type).toList := fun type => by
    cases type <;> exact enclosed_of_not_mem (by decide)
  unfold settings at h
  split_ifs at h <;> simp only [List.mem_cons, List.not_mem_nil, or_false] at h
  · rcases h with rfl | rfl | rfl | rfl | rfl <;> exact enclosed_of_not_mem (by decide)
  · rcases h with rfl | rfl | rfl | rfl
    · cases info with
      | none => exact enclosed_of_not_mem (by decide)
      | some i => exact hlabel i rfl
    · exact hcolor _
    · exact enclosed_of_not_mem (by decide)
    · exact enclosed_of_not_mem (by decide)

/-- The line of a node. -/
private lemma reads_nodeLine (hnode : IsNodeName node)
    (hlabel : ∀ i, info = some i → Enclosed i.name.toList) :
    Reads (nodeLine node info) (Token.ofNode (node, info)) := by
  have hsettings : ∀ x ∈ settings node info,
      Spells (assignment x.1 x.2) (Token.ofAttribute x) := fun x hx =>
    spells_assignment (key_of_mem_settings hx) (enclosed_of_mem_settings hlabel hx)
  have hname := hnode.spells.reads (c := ' ') (by decide) rfl
  have hattributes := (spells_intercalate hsettings).reads (c := ']') (by decide) rfl
  have hbefore : Reads ['\t'] [] := rfl
  have hopen : Reads ['['] [.symbol '['] := rfl
  have hafter : Reads ['\n'] [] := rfl
  have hreads := (((hbefore.append hname).append hopen).append hattributes).append hafter
  have htext : nodeLine node info = '\t' :: (quote node.toList ++ [' ']) ++ ['['] ++
      (List.intercalate [' '] ((settings node info).map fun x => assignment x.1 x.2) ++ [']']) ++
      ['\n'] := by
    simp [nodeLine, attributes_eq]
  rw [htext]
  simpa [Token.ofNode] using hreads

/-- The line of an edge. -/
private lemma reads_edgeLine (hsource : IsNodeName e.1) (htarget : IsNodeName e.2) :
    Reads (edgeLine e) (Token.ofEdge e) := by
  have hbefore : Reads ['\t'] [] := rfl
  have harrow : Reads "-> ".toList [.arrow] := rfl
  have hsource' := hsource.spells.reads (c := ' ') (by decide) rfl
  have htarget' := htarget.spells.reads (c := '\n') (by decide) rfl
  have hreads := ((hbefore.append hsource').append harrow).append htarget'
  have htext : edgeLine e = ['\t'] ++ (quote e.1.toList ++ [' ']) ++ "-> ".toList ++
      (quote e.2.toList ++ ['\n']) := by
    simp [edgeLine, endpoint, Text.cutFirst_eq_none_iff.2 hsource.colon,
      Text.cutFirst_eq_none_iff.2 htarget.colon]
  rw [htext]
  exact hreads

end Lines

/-! ## The graph of the lines -/

/-- A statement may begin here. -/
def Phase.Starts (p : Phase) : Prop :=
  p = .statement ∨ p = .attributed ∨ ∃ source node, p = .term (some source) node 0

/-- An attribute may begin here, or the list of the attributes may end. -/
def Phase.Lists (p : Phase) : Prop := p = .attribute ∨ p = .separator

section Phases

variable {d : Drawing} {p : Phase}

/-- A name begins a statement. -/
private lemma Phase.Starts.step_name (h : p.Starts) (d : Drawing) (node : String) :
    Phase.step (d, p) (.name node) = some (d, .term none node 0) := by
  rcases h with rfl | rfl | ⟨source, node', rfl⟩ <;> rfl

/-- The closing brace ends the graph. -/
private lemma Phase.Starts.step_close (h : p.Starts) (d : Drawing) :
    Phase.step (d, p) (.symbol '\x7d') = some (d, .finished) := by
  rcases h with rfl | rfl | ⟨source, node', rfl⟩ <;> rfl

/-- The attributes of a statement are read to its end. -/
private lemma foldlM_ofAttribute (h : p.Lists) (d : Drawing) (xs : List (String × String)) :
    ∃ p', p'.Lists ∧ (xs.flatMap Token.ofAttribute).foldlM Phase.step (d, p) = some (d, p') := by
  induction xs generalizing p with
  | nil => exact ⟨p, h, rfl⟩
  | cons x xs ih =>
    obtain ⟨p', hp', hrest⟩ := ih (p := .separator) (.inr rfl)
    refine ⟨p', hp', ?_⟩
    have hfirst : (Token.ofAttribute x).foldlM Phase.step (d, p) = some (d, .separator) := by
      obtain ⟨text, hvalue | hvalue⟩ := identifier_cases x.2.toList <;>
        rcases h with rfl | rfl <;> simp [Token.ofAttribute, hvalue, Phase.step]
    rw [List.flatMap_cons, Phase.foldlM_append hfirst, hrest]

/-- The line of a node declares it. -/
private lemma foldlM_ofNode (h : p.Starts) (d : Drawing) (x : String × Option NodeInfo) :
    (Token.ofNode x).foldlM Phase.step (d, p) = some (d.addNode x.1, .attributed) := by
  obtain ⟨p', hp', hattributes⟩ := foldlM_ofAttribute (p := .attribute) (.inl rfl) (d.addNode x.1)
    (settings x.1 x.2)
  have hopen : [Token.name x.1, .symbol '['].foldlM Phase.step (d, p) =
      some (d.addNode x.1, .attribute) := by
    rw [List.foldlM_cons, h.step_name]
    rfl
  have hclose : [Token.symbol ']'].foldlM Phase.step (d.addNode x.1, p') =
      some (d.addNode x.1, .attributed) := by
    rcases hp' with rfl | rfl <;> rfl
  rw [Token.ofNode, Phase.foldlM_append hopen, Phase.foldlM_append hattributes, hclose]

/-- The line of an edge draws it. -/
private lemma foldlM_ofEdge (h : p.Starts) (d : Drawing) (e : String × String) :
    (Token.ofEdge e).foldlM Phase.step (d, p) =
      some (d.addEdge e.1 e.2, .term (some e.1) e.2 0) := by
  rw [Token.ofEdge, List.foldlM_cons, h.step_name]
  rfl

/-- The lines of a graph are read one by one. -/
private lemma foldlM_lines {α : Type} (tokens : α → List Token) (draw : Drawing → α → Drawing)
    (hline : ∀ d p x, p.Starts → ∃ p' : Phase, p'.Starts ∧
      (tokens x).foldlM Phase.step (d, p) = some (draw d x, p'))
    (h : p.Starts) (d : Drawing) (xs : List α) :
    ∃ p' : Phase, p'.Starts ∧
      (xs.flatMap tokens).foldlM Phase.step (d, p) = some (xs.foldl draw d, p') := by
  induction xs generalizing d p with
  | nil => exact ⟨p, h, rfl⟩
  | cons x xs ih =>
    obtain ⟨q, hq, hfirst⟩ := hline d p x h
    obtain ⟨p', hp', hrest⟩ := ih hq (draw d x)
    refine ⟨p', hp', ?_⟩
    rw [List.flatMap_cons, Phase.foldlM_append hfirst, hrest, List.foldl_cons]

end Phases

/-- Nodes are drawn one after another. -/
private lemma foldl_addNode (d : Drawing) (xs : List (String × Option NodeInfo)) :
    xs.foldl (fun d x => d.addNode x.1) d = { d with nodes := d.nodes ++ xs.map (·.1) } := by
  induction xs generalizing d with
  | nil => simp
  | cons x xs ih =>
    rw [List.foldl_cons, ih]
    simp [Drawing.addNode]

/-- Edges are drawn one after another. -/
private lemma foldl_addEdge (d : Drawing) (es : List (String × String)) :
    es.foldl (fun d e => d.addEdge e.1 e.2) d = { d with edges := d.edges ++ es } := by
  induction es generalizing d with
  | nil => simp
  | cons e es ih =>
    rw [List.foldl_cons, ih]
    simp [Drawing.addEdge]

/-- What stands in front of the lines of a graph. -/
private lemma reads_title {name : String} (hname : Enclosed name.toList) :
    ∃ ts, Reads ("digraph ".toList ++ (if name = "" then [] else quote name.toList ++ [' ']) ++
      "\x7b\n\tbgcolor=transparent\n\trankdir=TB\n".toList) ts ∧
      ts.foldlM Phase.step ({}, .graph) = some ({}, .statement) := by
  have hkeyword : Reads "digraph ".toList [.keyword "digraph"] := rfl
  have hsettings : Reads "\x7b\n\tbgcolor=transparent\n\trankdir=TB\n".toList
      [.symbol '\x7b', .name "bgcolor", .symbol '=', .name "transparent", .name "rankdir",
        .symbol '=', .name "TB"] := rfl
  split_ifs with hempty
  · exact ⟨_, (hkeyword.append (show Reads [] [] from rfl)).append hsettings, rfl⟩
  · have htitle := hname.spells_quote.reads (c := ' ') (by decide) rfl
    refine ⟨_, (hkeyword.append htitle).append hsettings, ?_⟩
    obtain ⟨text, hvalue | hvalue⟩ := identifier_cases name.toList <;> rw [hvalue] <;> rfl

/-- **The text of a graph is read as its nodes and its edges.** This holds of each graph with a
title and labels that are read as one identifier, and with nodes that are read as they are.

**Proof sketch.** The text is a title, a line for each node and each edge, and a bracket. Each line
is read as tokens of its own, and these declare the node or draw the edge. -/
theorem read_source {g : Dag} {name : String} (hname : Enclosed name.toList)
    (hnodes : ∀ node ∈ Table.keys g.nodes, IsNodeName node)
    (hlabels : ∀ node i, (node, some i) ∈ g.nodes → Enclosed i.name.toList)
    (hends : ∀ e ∈ g.edges, IsNodeName e.2) :
    read (source g name) = some { nodes := Table.keys g.nodes, edges := g.edgesBySource } := by
  obtain ⟨ts, htitle, hstart⟩ := reads_title hname
  have hlines : Reads (g.nodes.flatMap fun x => nodeLine x.1 x.2) (g.nodes.flatMap Token.ofNode) :=
    Reads.flatMap fun x hx => reads_nodeLine (hnodes x.1 (List.mem_map_of_mem hx))
      fun i hi => hlabels x.1 i (hi ▸ hx)
  have hedges : Reads (g.edgesBySource.flatMap edgeLine) (g.edgesBySource.flatMap Token.ofEdge) :=
    Reads.flatMap fun e he => reads_edgeLine (hnodes e.1 (Digraph.mem_edgesBySource.1 he).2)
      (hends e (Digraph.mem_edgesBySource.1 he).1)
  have hclose : Reads "\x7d\n".toList [.symbol '\x7d'] := rfl
  have htokens := (((htitle.append hlines).append hedges).append hclose).tokens?
  obtain ⟨p, hp, hnodesDrawn⟩ := foldlM_lines Token.ofNode (fun d x => d.addNode x.1)
    (fun d p x h => ⟨_, .inr (.inl rfl), foldlM_ofNode h d x⟩) (.inl rfl) {} g.nodes
  obtain ⟨p', hp', hedgesDrawn⟩ := foldlM_lines Token.ofEdge (fun d e => d.addEdge e.1 e.2)
    (fun d p e h => ⟨_, .inr (.inr ⟨_, _, rfl⟩), foldlM_ofEdge h d e⟩) hp
    (g.nodes.foldl (fun d x => d.addNode x.1) {}) g.edgesBySource
  rw [foldl_addNode] at hnodesDrawn
  rw [foldl_addNode, foldl_addEdge] at hedgesDrawn
  have hlast : [Token.symbol '\x7d'].foldlM Phase.step
      ({ nodes := Table.keys g.nodes, edges := g.edgesBySource }, p') =
      some ({ nodes := Table.keys g.nodes, edges := g.edgesBySource }, .finished) := by
    rw [List.foldlM_cons, hp'.step_close]
    rfl
  refine read_eq htokens ?_
  rw [List.append_assoc, List.append_assoc, Phase.foldlM_append hstart,
    Phase.foldlM_append hnodesDrawn, Phase.foldlM_append hedgesDrawn]
  exact hlast

end CwlDescriptor.Dot

namespace CwlDescriptor

open Dot

/-! ## The text of the graph of a workflow -/

/-- The label of a node is the name that is shown for it. -/
private lemma name_of_mem_dagNodes {r : WalkResult} {node : String} {i : NodeInfo}
    (h : (node, some i) ∈ (dagNodes r).nodes) : i.name = displayName node := by
  rw [dagNodes, nodes_foldl_addNode] at h
  obtain ⟨e, -, he⟩ := List.mem_map.1 ((Table.mem_insertAll h).resolve_left List.not_mem_nil)
  obtain ⟨rfl, hi⟩ := Prod.mk.inj he
  exact congrArg NodeInfo.name (Option.some.inj hi).symm

/-- A node of the graph whose step, if it is one, can be drawn. -/
private lemma isNodeName_of_drawable {workflow : Entries} {node : String}
    (hsteps : ∀ step, workflow.IsStepNode (nodePrefix ++ step) → Drawable step.toList)
    (h : workflow.IsStepNode node ∨ node = beginKey ∨ node = endKey) :
    IsNodeName node ∧ Enclosed (displayName node).toList := by
  rcases h with hstep | rfl | rfl
  · obtain ⟨e, -, rfl⟩ := id hstep
    have hdrawable := hsteps e.1 hstep
    rw [displayName_nodePrefix]
    refine ⟨⟨?_, ?_, ?_⟩, hdrawable.enclosed⟩
    · rw [String.toList_append]
      exact hdrawable.enclosed_node
    · rw [String.toList_append, hdrawable.identifier_node, String.ofList_append,
        String.ofList_toList, String.ofList_toList]
    · have hnone : ':' ∉ nodePrefix.toList := by decide
      simp [hnone, hdrawable.colon]
  all_goals
    exact ⟨⟨enclosed_of_not_mem (by decide), by decide, by decide⟩, enclosed_of_not_mem (by decide)⟩

/-- **The text of the graph has exactly its nodes and its edges.** For each walk for the graph: if
the title is read as one identifier and the names of the steps can be drawn, then the text declares
each node of the graph once, and it draws each edge once, between nodes that it declares.

**Proof sketch.** The nodes are the two before and after all steps and those of the steps, which
begin with the prefix. So no node is written like a number, a word of the language or text between
angle brackets, and it is read as it is. Labels may be written in any form, but they are read as one
value. -/
theorem Walker.source_draws_dag {w : Walker} {workflow : Entries} {inherited : Option String}
    {r : WalkResult} {name : String} (hmode : w.mode = .dag)
    (hwalk : (w.walk workflow inherited 0 none).run {} = .ok () r)
    (hname : Enclosed name.toList)
    (hsteps : ∀ step, workflow.IsStepNode (nodePrefix ++ step) → Drawable step.toList) :
    let g := buildDag (addSyntheticNodes workflow r)
    ∃ d, Dot.read (Dot.source g name) = some d ∧ d.nodes = Table.keys g.nodes ∧ d.nodes.Nodup ∧
      d.edges.Perm g.edges ∧ ∀ e ∈ d.edges, e.1 ∈ d.nodes ∧ e.2 ∈ d.nodes := by
  have h := describes_of_walk hmode hwalk
  intro g
  have hnodes : ∀ node ∈ Table.keys g.nodes,
      IsNodeName node ∧ Enclosed (displayName node).toList := fun node hnode =>
    isNodeName_of_drawable hsteps ((mem_keys_buildDag h).1 hnode)
  have hlabels : ∀ node i, (node, some i) ∈ g.nodes → Enclosed i.name.toList := by
    intro node i hmem
    have hdag : g.nodes = (dagNodes (addSyntheticNodes workflow r)).nodes :=
      nodes_buildDag ((mem_nodes_addSyntheticNodes ..).2 (.inr (.inr rfl)))
        ((mem_nodes_addSyntheticNodes ..).2 (.inr (.inl rfl)))
    rw [name_of_mem_dagNodes (hdag ▸ hmem)]
    exact (hnodes node (List.mem_map_of_mem hmem)).2
  have hends : ∀ e ∈ g.edges, e.1 ∈ Table.keys g.nodes ∧ e.2 ∈ Table.keys g.nodes := by
    intro e he
    obtain ⟨hsource, htarget⟩ := ends_buildDag h he
    exact ⟨(mem_keys_buildDag h).2 (hsource.imp_right .inl),
      (mem_keys_buildDag h).2 (htarget.imp_right .inr)⟩
  refine ⟨_, Dot.read_source hname (fun node hnode => (hnodes node hnode).1) hlabels
    fun e he => (hnodes _ (hends e he).2).1, rfl, nodup_keys_buildDag workflow r,
    edgesBySource_buildDag_perm h, fun e he => hends e (Digraph.mem_edgesBySource.1 he).1⟩

/-- A step can be drawn if it can be written between quotes and has no colon and no line feed. -/
private lemma drawable_of_not_mem {s : List Char} (hescapable : isEscapable 0 s = true)
    (hbalanced : isMarkup s = true → isBalanced 0 (dropLineFeed s).tail = true)
    (hcolon : ':' ∉ s) (hlineFeed : '\n' ∉ s) : Drawable s where
  escapable := hescapable
  balanced := hbalanced
  colon := hcolon
  lineFeed word hs := absurd (hs ▸ List.mem_append_right word (List.mem_singleton_self _)) hlineFeed

/-- A workflow with steps whose names are a word of the language, a number, text between angle
brackets, and text with quotes and a backslash. -/
def spelled : Entries :=
  workflowOf [("graph", linkStep "reads"), ("-.5", linkStep "graph/bam"),
    ("<<b> >", linkStep "reads"), ("a \"b\" \\c", linkStep "-.5/bam")]

/-- The names of the steps are written in all forms as labels, and the nodes are drawn. The title
loses a backslash. -/
theorem spelled_source_draws_dag :
    Walker.plain.mode = .dag ∧ Enclosed "my \\\"workflow\\\"".toList ∧
    ∃ r, (Walker.plain.walk spelled none 0 none).run {} = .ok () r ∧
      (∀ step, spelled.IsStepNode (nodePrefix ++ step) → Drawable step.toList) ∧
      let g := buildDag (addSyntheticNodes spelled r)
      ∃ d, Dot.read (Dot.source g "my \\\"workflow\\\"") = some d ∧ d.nodes = Table.keys g.nodes ∧
        d.nodes.Nodup ∧ d.edges.Perm g.edges ∧ ∀ e ∈ d.edges, e.1 ∈ d.nodes ∧ e.2 ∈ d.nodes := by
  obtain ⟨r, hwalk, hnodes⟩ : ∃ r, (Walker.plain.walk spelled none 0 none).run {} = .ok () r ∧
      r.nodes.map (·.1) = ["graph", "-.5", "<<b> >", "a \"b\" \\c"].map (nodePrefix ++ ·) :=
    ⟨_, rfl, by decide⟩
  have hname : Enclosed "my \\\"workflow\\\"".toList := by
    have hlineFeed : '\n' ∉ "my \\\"workflow\\\"".toList := by decide
    refine ⟨fun _ => by decide, fun hmarkup => absurd hmarkup (by decide), fun word hs => ?_⟩
    exact absurd (hs ▸ List.mem_append_right word (List.mem_singleton_self _)) hlineFeed
  have hsteps : ∀ step, spelled.IsStepNode (nodePrefix ++ step) → Drawable step.toList := by
    intro step hstep
    rw [← (Walker.describes_of_walk rfl hwalk).mem_nodes, hnodes, List.mem_map] at hstep
    obtain ⟨key, hkey, heq⟩ := hstep
    obtain rfl := (String.append_right_inj nodePrefix).1 heq
    have hall : ∀ key ∈ ["graph", "-.5", "<<b> >", "a \"b\" \\c"],
        isEscapable 0 key.toList = true ∧
        (isMarkup key.toList = true → isBalanced 0 (dropLineFeed key.toList).tail = true) ∧
        ':' ∉ key.toList ∧ '\n' ∉ key.toList := by decide
    obtain ⟨hescapable, hbalanced, hcolon, hlineFeed⟩ := hall key hkey
    exact drawable_of_not_mem hescapable hbalanced hcolon hlineFeed
  exact ⟨rfl, hname, r, hwalk, hsteps, Walker.source_draws_dag rfl hwalk hname hsteps⟩

/-- A workflow with one step, in whose name there is a colon. -/
def ported : Entries := workflowOf [("a:b", linkStep "reads")]

/-- The node is declared with its whole name, and the edges are drawn at what stands before the
colon. -/
theorem ported_source :
    ∃ r, (Walker.plain.walk ported none 0 none).run {} = .ok () r ∧
      let g := buildDag (addSyntheticNodes ported r)
      let d : Drawing :=
        { nodes := ["dockstore_a:b", endKey, beginKey],
          edges := [("dockstore_a", endKey), (beginKey, "dockstore_a")] }
      Dot.read (Dot.source g "w") = some d ∧ d.nodes = Table.keys g.nodes ∧
      ¬ d.edges.Perm g.edges ∧ "dockstore_a" ∉ d.nodes := by
  obtain ⟨r, hwalk, hnodes, hsorted, hedges⟩ :
      ∃ r, (Walker.plain.walk ported none 0 none).run {} = .ok () r ∧
        let g := buildDag (addSyntheticNodes ported r)
        g.nodes = [("dockstore_a:b", some ⟨"a:b", "tool.cwl", .notApplicable, "", ""⟩),
          (endKey, some ⟨endKey, "", .notApplicable, "", ""⟩),
          (beginKey, some ⟨beginKey, "", .notApplicable, "", ""⟩)] ∧
        g.edgesBySource = [("dockstore_a:b", endKey), (beginKey, "dockstore_a:b")] ∧
        g.edges = [(beginKey, "dockstore_a:b"), ("dockstore_a:b", endKey)] := by
    refine ⟨_, rfl, ?_, ?_, ?_⟩ <;> decide +kernel
  refine ⟨r, hwalk, ?_, ?_, ?_, by decide⟩
  · unfold Dot.source
    rw [hnodes, hsorted]
    refine (read_ofList _).trans ?_
    decide +kernel
  · rw [hnodes]
    decide
  · rw [hedges]
    decide

end CwlDescriptor

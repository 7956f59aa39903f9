import CwlDescriptor.Dag.Basic
import CwlDescriptor.Proofs.Tables
set_option autoImplicit false

/-!
# The edges of the graph of the steps

The graph is made in three passes: the nodes are added, then the edges from the dependencies of the
nodes, and then edges from the beginning and to the end where a node has none. The edges of the
second pass lie between nodes that are there, so no pass but the first one adds a node. The third
pass looks at the edges while it adds some, but what it adds for one node does not touch another.

## Main definitions

* `Digraph.Edge`: the relation of the edges.
* `Digraph.AddsEdges`: one graph has the edges of another, and certain new ones.
* `linkedDag`: the graph after the second pass.

## Main results

* `mem_keys_dagNodes`: the nodes of the first pass.
* `addsEdges_linkedDag`: the edges of the second pass.
* `addsEdges_buildDag`: the edges of the third pass.
-/

namespace CwlDescriptor

namespace Digraph

variable {α : Type}

/-- The graph has an edge from one node to another. -/
def Edge (g : Digraph α) (source target : String) : Prop :=
  (source, target) ∈ g.edges

/-- A graph has the nodes and the edges of another one, and the new edges. -/
structure AddsEdges (new : String → String → Prop) (g g' : Digraph α) : Prop where
  nodes : g'.nodes = g.nodes
  nodup : g.edges.Nodup → g'.edges.Nodup
  edge_iff : ∀ a b, g'.Edge a b ↔ g.Edge a b ∨ new a b

variable {g g' g'' : Digraph α} {new new' : String → String → Prop} {a b : String}

/-- A graph has a node if it is among its keys. -/
private lemma hasNode_iff : g.hasNode a = true ↔ a ∈ Table.keys g.nodes := Table.hasKey_iff

/-- A node is a source if no edge leads to it. -/
private lemma isSource_iff : g.isSource b = true ↔ ∀ a, ¬ g.Edge a b := by
  simp only [isSource, List.all_eq_true, Prod.forall, decide_eq_true_iff, Edge]
  exact ⟨fun h a hab => h a b hab rfl, fun h a b' hab heq => h a (heq ▸ hab)⟩

/-- A node is a sink if no edge leads from it. -/
private lemma isSink_iff : g.isSink a = true ↔ ∀ b, ¬ g.Edge a b := by
  simp only [isSink, List.all_eq_true, Prod.forall, decide_eq_true_iff, Edge]
  exact ⟨fun h b hab => h a b hab rfl, fun h a' b hab heq => h b (heq ▸ hab)⟩

namespace AddsEdges

/-- A graph that is not changed has no new edges. -/
lemma refl (g : Digraph α) : AddsEdges (fun _ _ => False) g g :=
  ⟨rfl, id, fun _ _ => (or_false _).symm.to_iff⟩

/-- New edges after new edges are those of both steps. -/
lemma trans (h : AddsEdges new g g') (h' : AddsEdges new' g' g'') :
    AddsEdges (fun a b => new a b ∨ new' a b) g g'' where
  nodes := h'.nodes.trans h.nodes
  nodup := fun hnodup => h'.nodup (h.nodup hnodup)
  edge_iff := fun a b => by rw [h'.edge_iff, h.edge_iff, or_assoc]

/-- What the new edges are may be said in another way. -/
lemma congr (h : AddsEdges new g g') (hnew : ∀ a b, new a b ↔ new' a b) : AddsEdges new' g g' where
  nodes := h.nodes
  nodup := h.nodup
  edge_iff := fun a b => by rw [h.edge_iff, hnew]

/-- An edge between nodes that are there. -/
lemma addEdge (ha : a ∈ Table.keys g.nodes) (hb : b ∈ Table.keys g.nodes) :
    AddsEdges (fun a' b' => a' = a ∧ b' = b) g (g.addEdge a b) := by
  have hrequire : (g.requireNode a).requireNode b = g := by
    rw [requireNode, requireNode, if_pos (hasNode_iff.2 ha), if_pos (hasNode_iff.2 hb)]
  unfold Digraph.addEdge
  simp only [hrequire, List.contains_iff_mem]
  split_ifs with hmem
  · refine ⟨rfl, id, fun a' b' => ⟨.inl, ?_⟩⟩
    rintro (h | ⟨rfl, rfl⟩)
    · exact h
    · exact hmem
  · refine ⟨rfl, fun hnodup => ?_, fun a' b' => ?_⟩
    · rw [← List.concat_eq_append]
      exact hnodup.concat hmem
    · simp [Edge]

/-- Edges that are added on a condition. -/
lemma ite {c : Prop} [Decidable c] (h : c → AddsEdges new g g') :
    AddsEdges (fun a b => c ∧ new a b) g (if c then g' else g) := by
  split_ifs with hc
  · exact (h hc).congr fun a b => (and_iff_right hc).symm
  · exact (refl g).congr fun a b => (false_and (new a b) ▸ by simp [hc])

/-- Edges that are added one after the other, each between nodes that are there. -/
lemma foldl {β : Type} (new : β → String → String → Prop) {f : Digraph α → β → Digraph α}
    {items : List β}
    (h : ∀ g', g'.nodes = g.nodes → ∀ item ∈ items, AddsEdges (new item) g' (f g' item)) :
    AddsEdges (fun a b => ∃ item ∈ items, new item a b) g (items.foldl f g) := by
  induction items generalizing g with
  | nil => exact (refl g).congr (by simp)
  | cons item items ih =>
    have hfirst := h g rfl item List.mem_cons_self
    have hrest := ih (g := f g item) fun g' hg' item' hitem' =>
      h g' (hg'.trans hfirst.nodes) item' (List.mem_cons_of_mem _ hitem')
    exact (hfirst.trans hrest).congr (by simp)

end AddsEdges

end Digraph

open CwlDescriptor.Digraph

/-! ## The nodes -/

section Passes

variable {r : WalkResult}

/-- After the names of all nodes have been added, these are the nodes, each of them once. -/
private lemma keys_foldl_addNode (r : WalkResult) (nodes : List (String × Option String)) (g : Dag)
    (hg : (Table.keys g.nodes).Nodup) :
    let g' := nodes.foldl (fun g (node, link) => g.addNode node (nodeInfo r node link)) g
    (Table.keys g'.nodes).Nodup ∧ g'.edges = g.edges ∧
      ∀ node, node ∈ Table.keys g'.nodes ↔ node ∈ Table.keys g.nodes ∨ node ∈ nodes.map (·.1) := by
  induction nodes generalizing g with
  | nil => exact ⟨hg, rfl, by simp⟩
  | cons e nodes ih =>
    obtain ⟨hnodup, hedges, hmem⟩ := ih (g.addNode e.1 (nodeInfo r e.1 e.2))
      (Table.nodup_keys_insert hg)
    refine ⟨hnodup, hedges, fun node => (hmem node).trans ?_⟩
    rw [Digraph.addNode, Table.mem_keys_insert]
    simp only [List.map_cons, List.mem_cons]
    tauto

/-- No node stands twice. -/
lemma nodup_keys_dagNodes (r : WalkResult) : (Table.keys (dagNodes r).nodes).Nodup :=
  (keys_foldl_addNode r r.nodes {} List.nodup_nil).1

/-- The nodes are those of the walk. -/
lemma mem_keys_dagNodes (r : WalkResult) (node : String) :
    node ∈ Table.keys (dagNodes r).nodes ↔ node ∈ r.nodes.map (·.1) :=
  ((keys_foldl_addNode r r.nodes {} List.nodup_nil).2.2 node).trans (by simp [Table.keys])

/-- The graph of the nodes has no edges yet. -/
private lemma edges_dagNodes (r : WalkResult) : (dagNodes r).edges = [] :=
  (keys_foldl_addNode r r.nodes {} List.nodup_nil).2.1

/-! ## The edges from the dependencies -/

/-- The graph with the edges from the dependencies. -/
def linkedDag (r : WalkResult) : Dag :=
  r.dependencies.foldl (fun g e => addDependencyEdges g e.1 e.2) (dagNodes r)

/-- The dependencies of a node are drawn as edges to it, from those of them that are nodes. -/
private lemma addsEdges_addDependencyEdges (g : Dag) (node : String) (dependencies : List String) :
    AddsEdges (fun a b => b = node ∧ node ∈ Table.keys g.nodes ∧ a ∈ dependencies ∧
      a ∈ Table.keys g.nodes) g (addDependencyEdges g node dependencies) := by
  refine (AddsEdges.ite fun hnode => AddsEdges.foldl
    (fun d a b => d ∈ Table.keys g.nodes ∧ a = d ∧ b = node) fun g' hg' d _ => ?_).congr ?_
  · rw [hasNode_iff, ← hg'] at hnode
    refine (AddsEdges.ite fun hd => .addEdge (hasNode_iff.1 hd) hnode).congr fun a b => ?_
    rw [hasNode_iff, hg']
  · intro a b
    rw [hasNode_iff]
    constructor
    · rintro ⟨hnode, d, hd, hmem, rfl, rfl⟩
      exact ⟨rfl, hnode, hd, hmem⟩
    · rintro ⟨rfl, hnode, ha, hmem⟩
      exact ⟨hnode, a, ha, hmem, rfl, rfl⟩

/-- The edges from the dependencies are those between nodes of the walk. -/
lemma addsEdges_linkedDag (r : WalkResult) :
    AddsEdges (fun a b => a ∈ r.nodes.map (·.1) ∧ b ∈ r.nodes.map (·.1) ∧
      ∃ ds, (b, ds) ∈ r.dependencies ∧ a ∈ ds) (dagNodes r) (linkedDag r) := by
  refine (AddsEdges.foldl (fun e a b => b = e.1 ∧ e.1 ∈ Table.keys (dagNodes r).nodes ∧
    a ∈ e.2 ∧ a ∈ Table.keys (dagNodes r).nodes) fun g' hg' e _ => ?_).congr fun a b => ?_
  · rw [← hg']
    exact addsEdges_addDependencyEdges g' e.1 e.2
  · simp only [mem_keys_dagNodes]
    constructor
    · rintro ⟨⟨node, ds⟩, he, rfl, hnode, ha, hmem⟩
      exact ⟨hmem, hnode, ds, he, ha⟩
    · rintro ⟨hmem, hnode, ds, he, ha⟩
      exact ⟨(b, ds), he, rfl, hnode, ha, hmem⟩

/-! ## The edges from the beginning and to the end -/

/-- A node gets an edge from the beginning if it is a source, and one to the end if it is a sink. -/
private lemma addsEdges_stitch {g : Dag} {node : String} (hbegin : beginKey ∈ Table.keys g.nodes)
    (hend : endKey ∈ Table.keys g.nodes) (hnode : node ∈ Table.keys g.nodes)
    (hne : node ≠ beginKey) :
    AddsEdges (fun a b => (a = beginKey ∧ b = node ∧ g.isSource b) ∨
      (b = endKey ∧ a = node ∧ g.isSink a)) g (stitch g node) := by
  have hsource : AddsEdges (fun a b => g.isSource node ∧ a = beginKey ∧ b = node) g
      (if g.isSource node then g.addEdge beginKey node else g) :=
    .ite fun _ => .addEdge hbegin hnode
  unfold stitch
  simp only
  set g' := if g.isSource node then g.addEdge beginKey node else g
  have hsink : AddsEdges (fun a b => g'.isSink node ∧ a = node ∧ b = endKey) g'
      (if g'.isSink node then g'.addEdge node endKey else g') :=
    .ite fun _ => .addEdge (hsource.nodes ▸ hnode) (hsource.nodes ▸ hend)
  have hsame : g'.isSink node = true ↔ g.isSink node = true := by
    simp only [isSink_iff, hsource.edge_iff, hne, false_and, and_false, or_false]
  refine (hsource.trans hsink).congr fun a b => or_congr ?_ ?_
  · constructor
    · rintro ⟨h, rfl, rfl⟩
      exact ⟨rfl, rfl, h⟩
    · rintro ⟨rfl, rfl, h⟩
      exact ⟨h, rfl, rfl⟩
  · rw [hsame]
    constructor
    · rintro ⟨h, rfl, rfl⟩
      exact ⟨rfl, rfl, h⟩
    · rintro ⟨rfl, rfl, h⟩
      exact ⟨h, rfl, rfl⟩

/-- What is added for one node leaves the other ones as they are. -/
private lemma addsEdges_foldl_stitch {g : Dag} {nodes : List String}
    (hbegin : beginKey ∈ Table.keys g.nodes) (hend : endKey ∈ Table.keys g.nodes)
    (hnodup : nodes.Nodup)
    (hnodes : ∀ node ∈ nodes, node ∈ Table.keys g.nodes ∧ node ≠ beginKey ∧ node ≠ endKey) :
    AddsEdges (fun a b => (a = beginKey ∧ b ∈ nodes ∧ g.isSource b) ∨
      (b = endKey ∧ a ∈ nodes ∧ g.isSink a)) g (nodes.foldl stitch g) := by
  induction nodes generalizing g with
  | nil => exact (AddsEdges.refl g).congr (by simp)
  | cons node nodes ih =>
    obtain ⟨hnot, hnodup⟩ := List.nodup_cons.1 hnodup
    obtain ⟨hnode, hneBegin, -⟩ := hnodes node List.mem_cons_self
    have hfirst := addsEdges_stitch hbegin hend hnode hneBegin
    have hrest := ih (hfirst.nodes ▸ hbegin) (hfirst.nodes ▸ hend) hnodup fun other hother =>
      hfirst.nodes ▸ hnodes other (List.mem_cons_of_mem _ hother)
    have hsource : ∀ b ∈ nodes, (stitch g node).isSource b = true ↔ g.isSource b = true := by
      intro b hb
      have hne : b ≠ node := fun heq => hnot (heq ▸ hb)
      have hneEnd := (hnodes b (List.mem_cons_of_mem _ hb)).2.2
      simp only [isSource_iff, hfirst.edge_iff, hne, hneEnd, false_and, and_false, or_false]
    have hsink : ∀ a ∈ nodes, (stitch g node).isSink a = true ↔ g.isSink a = true := by
      intro a ha
      have hne : a ≠ node := fun heq => hnot (heq ▸ ha)
      have hneBegin := (hnodes a (List.mem_cons_of_mem _ ha)).2.1
      simp only [isSink_iff, hfirst.edge_iff, hne, hneBegin, false_and, and_false, or_false]
    refine (hfirst.trans hrest).congr fun a b => ?_
    rw [and_congr_right (hsource b), and_congr_right (hsink a)]
    simp only [List.mem_cons]
    tauto

/-- A node that is neither the one before all steps nor the one after them. -/
def WalkResult.IsInner (r : WalkResult) (node : String) : Prop :=
  node ∈ r.nodes.map (·.1) ∧ node ≠ beginKey ∧ node ≠ endKey

/-- The third pass adds edges from the beginning and to the end where the second one has left a node
without edges. -/
lemma addsEdges_buildDag (hbegin : beginKey ∈ r.nodes.map (·.1))
    (hend : endKey ∈ r.nodes.map (·.1)) :
    AddsEdges (fun a b => (a = beginKey ∧ r.IsInner b ∧ ∀ a', ¬ (linkedDag r).Edge a' b) ∨
      (b = endKey ∧ r.IsInner a ∧ ∀ b', ¬ (linkedDag r).Edge a b')) (linkedDag r) (buildDag r) := by
  have hkeys := (addsEdges_linkedDag r).nodes
  set nodes := (Table.keys (linkedDag r).nodes).filter
    fun node => node ≠ beginKey && node ≠ endKey with hdef
  have hmem : ∀ node, node ∈ nodes ↔ r.IsInner node := fun node => by
    simp [hdef, hkeys, mem_keys_dagNodes, WalkResult.IsInner]
  have hnodup : nodes.Nodup := by
    rw [hdef, hkeys]
    exact (nodup_keys_dagNodes r).filter _
  have hthere : ∀ {node}, node ∈ r.nodes.map (·.1) → node ∈ Table.keys (linkedDag r).nodes :=
    fun h => hkeys ▸ (mem_keys_dagNodes r _).2 h
  have hstitch := addsEdges_foldl_stitch (hthere hbegin) (hthere hend) hnodup fun node hnode =>
    ⟨(List.mem_filter.1 hnode).1, ((hmem node).1 hnode).2⟩
  refine hstitch.congr fun a b => ?_
  rw [hmem, hmem, isSource_iff, isSink_iff]

/-- The nodes of the graph are those of the walk. -/
lemma nodes_buildDag (hbegin : beginKey ∈ r.nodes.map (·.1)) (hend : endKey ∈ r.nodes.map (·.1)) :
    (buildDag r).nodes = (dagNodes r).nodes :=
  (addsEdges_buildDag hbegin hend).nodes.trans (addsEdges_linkedDag r).nodes

/-- No edge stands twice in the graph. -/
lemma nodup_edges_buildDag (hbegin : beginKey ∈ r.nodes.map (·.1))
    (hend : endKey ∈ r.nodes.map (·.1)) : (buildDag r).edges.Nodup :=
  (addsEdges_buildDag hbegin hend).nodup ((addsEdges_linkedDag r).nodup (edges_dagNodes r ▸ .nil))

/-- The edges from the dependencies are those between two nodes, of which the second depends on the
first. -/
lemma edge_linkedDag_iff {a b : String} : (linkedDag r).Edge a b ↔
    a ∈ r.nodes.map (·.1) ∧ b ∈ r.nodes.map (·.1) ∧ ∃ ds, (b, ds) ∈ r.dependencies ∧ a ∈ ds := by
  rw [(addsEdges_linkedDag r).edge_iff, Edge, edges_dagNodes]
  simp

end Passes

end CwlDescriptor

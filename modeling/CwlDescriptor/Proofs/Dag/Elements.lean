import CwlDescriptor.Analysis
import CwlDescriptor.Proofs.Dag.Nodes
set_option autoImplicit false

/-!
# The ids of the elements of a drawing

For a program that draws the graph, each node and each edge is an element with an id. The id of a
node is its name, and that of an edge is put together from the names at its ends with an underscore
between them. Names may have underscores themselves, and so two edges, or an edge and a node, may
have one id. This takes two steps of which the name of one continues the name of the other in one of
two ways; where there are none, no two elements have the same id.

## Main definitions

* `Json.elements`, `Json.elementId?`: the elements of a drawing and their ids.
* `Continues`: the names of two steps for which ids may clash.

## Main results

* `elementIds_toJson`: the ids are the names of the nodes and those of the edges.
* `Digraph.edgesBySource_perm`: the edges by their sources are the edges of the graph.
* `Walker.nodup_elementIds`: when no two elements have the same id.
* `merging_elementIds`: an edge and a node with one id.
-/

namespace CwlDescriptor

/-! ## Elements -/

namespace Json

/-- The value of a field of an object. -/
def field? (name : String) : Json → Option Json
  | .obj fields => fields.lookup name
  | _ => none

/-- The items of a list. -/
def items : Json → List Json
  | .arr items => items
  | _ => []

/-- The elements of a drawing: its nodes and its edges. -/
def elements (drawing : Json) : List Json :=
  ["nodes", "edges"].flatMap fun kind => ((drawing.field? kind).map items).getD []

/-- The id of an element. -/
def elementId? (element : Json) : Option String :=
  match (element.field? "data").bind (field? "id") with
  | some (.str id) => some id
  | _ => none

end Json

/-- The id of an edge. -/
def edgeId (e : String × String) : String := e.1 ++ "_" ++ e.2

/-- The ids of the elements are the names of the nodes and the ids of the edges. -/
lemma elementIds_toJson (g : Dag) : (Dag.toJson g).elements.map Json.elementId? =
    (Table.keys g.nodes ++ g.edgesBySource.map edgeId).map some := by
  have helements : (Dag.toJson g).elements =
      (g.nodes.map fun e => nodeJson e.1 e.2) ++ g.edgesBySource.map edgeJson :=
    congrArg (_ ++ ·) (List.append_nil _)
  have hnode : Json.elementId? ∘ (fun e : String × Option NodeInfo => nodeJson e.1 e.2) =
      fun e => some e.1 := by
    funext e
    rfl
  have hedge : Json.elementId? ∘ edgeJson = fun e => some (edgeId e) := by
    funext e
    rfl
  rw [helements, List.map_append, List.map_map, List.map_map, hnode, hedge]
  simp [Table.keys, Function.comp_def]

/-! ## Edges by their sources -/

namespace Digraph

variable {α : Type} {g : Digraph α}

/-- The edges by their sources are those that start at a node. -/
lemma mem_edgesBySource {e : String × String} :
    e ∈ g.edgesBySource ↔ e ∈ g.edges ∧ e.1 ∈ Table.keys g.nodes := by
  simp only [edgesBySource, List.mem_flatMap, List.mem_filter, decide_eq_true_eq]
  constructor
  · rintro ⟨node, hnode, he, rfl⟩
    exact ⟨he, hnode⟩
  · rintro ⟨he, hnode⟩
    exact ⟨e.1, hnode, he, rfl⟩

/-- The edges by their sources are the edges of the graph. -/
lemma edgesBySource_perm (hnodes : (Table.keys g.nodes).Nodup) (hedges : g.edges.Nodup)
    (hsource : ∀ a b, g.Edge a b → a ∈ Table.keys g.nodes) : g.edgesBySource.Perm g.edges := by
  have hnodup : g.edgesBySource.Nodup := by
    unfold edgesBySource
    rw [List.nodup_flatMap]
    refine ⟨fun node _ => hedges.filter _, hnodes.imp fun {a b} hne e ha hb => hne ?_⟩
    rw [← of_decide_eq_true (List.mem_filter.1 ha).2, of_decide_eq_true (List.mem_filter.1 hb).2]
  refine (List.perm_ext_iff_of_nodup hnodup hedges).2 fun e => ?_
  rw [mem_edgesBySource]
  exact and_iff_left_of_imp fun he => hsource e.1 e.2 he

end Digraph

/-! ## Texts with two separators -/

/-- Two ways to cut a text at a separator: one of the first parts goes on behind the other one. -/
private lemma Text.append_cons_cases {sep : Char} {a a' r r' : List Char}
    (h : a ++ sep :: r = a' ++ sep :: r') :
    (a = a' ∧ r = r') ∨ (∃ u, a' = a ++ sep :: u ∧ r = u ++ sep :: r') ∨
      ∃ u, a = a' ++ sep :: u ∧ r' = u ++ sep :: r := by
  rcases List.append_eq_append_iff.1 h with ⟨u, ha, hr⟩ | ⟨u, ha, hr⟩
  · cases u with
    | nil => exact .inl ⟨(ha.trans (List.append_nil a)).symm, (List.cons.inj hr).2⟩
    | cons c u =>
      obtain ⟨rfl, hrest⟩ := List.cons.inj hr
      exact .inr (.inl ⟨u, ha, hrest⟩)
  · cases u with
    | nil => exact .inl ⟨ha.trans (List.append_nil a'), (List.cons.inj hr).2.symm⟩
    | cons c u =>
      obtain ⟨rfl, hrest⟩ := List.cons.inj hr
      exact .inr (.inr ⟨u, ha, hrest⟩)

/-! ## Ids that may clash -/

/-- The name of a step continues another one in such a way that the id of an edge from the step with
the shorter name may clash with the name of the step with the longer name, or with the id of an edge
from it. -/
inductive Continues (a : String) : String → Prop
  | word : Continues a (a ++ "_dockstore")
  | node (s : String) : Continues a (a ++ "_" ++ (nodePrefix ++ s))
  | endKey : Continues a (a ++ "_" ++ endKey)

/-- A name without underscores continues no other one. -/
private lemma Continues.underscore_mem {a b : String} (h : Continues a b) : '_' ∈ b.toList := by
  cases h <;> simp

section Ids

variable {isStep : String → Prop} {s s' t t' node : String} {u : List Char}

/-- If the name of a node goes on behind that of the source of an edge and an underscore, then both
are names of steps. -/
private lemma exists_steps_of_append (hstep : ∀ s, isStep s → ∃ a, nodePrefix ++ a = s)
    (hs : isStep s ∨ s = beginKey) (hnode : isStep node ∨ node = beginKey ∨ node = endKey)
    (h : node.toList = s.toList ++ '_' :: u) :
    ∃ a b, isStep (nodePrefix ++ a) ∧ isStep (nodePrefix ++ b) ∧
      b = a ++ "_" ++ String.ofList u := by
  rcases hnode with hnode | rfl | rfl
  · obtain ⟨b, rfl⟩ := hstep node hnode
    rcases hs with hs | rfl
    · obtain ⟨a, rfl⟩ := hstep s hs
      refine ⟨a, b, hs, hnode, String.toList_inj.1 ?_⟩
      rw [String.toList_append, String.toList_append, List.append_assoc] at h
      simpa using List.append_cancel_left h
    · rw [String.toList_append] at h
      cases h
  · have hmem : '_' ∈ beginKey.toList := h ▸ by simp
    exact absurd hmem (by decide)
  · have hmem : '_' ∈ endKey.toList := h ▸ by simp
    exact absurd hmem (by decide)

/-- What stands in front of an underscore in the target of an edge is the word of the prefix, or it
begins with the prefix. -/
private lemma exists_of_target (hstep : ∀ s, isStep s → ∃ a, nodePrefix ++ a = s)
    (ht : isStep t ∨ t = endKey) {r : List Char} (h : t.toList = u ++ '_' :: r) :
    u = "dockstore".toList ∨ ∃ v, u = nodePrefix.toList ++ v := by
  have hwritten : nodePrefix.toList = "dockstore".toList ++ '_' :: [] := by decide
  rcases ht with ht | rfl
  · obtain ⟨b, rfl⟩ := hstep t ht
    rw [String.toList_append, hwritten, List.append_assoc, List.cons_append, List.nil_append] at h
    rcases Text.append_cons_cases h with ⟨rfl, -⟩ | ⟨v, rfl, -⟩ | ⟨v, hword, -⟩
    · exact .inl rfl
    · exact .inr ⟨v, by rw [hwritten, List.append_assoc]; rfl⟩
    · have hmem : '_' ∈ "dockstore".toList := hword ▸ by simp
      exact absurd hmem (by decide)
  · have hmem : '_' ∈ endKey.toList := h ▸ by simp
    exact absurd hmem (by decide)

/-- A name that goes on with the beginning of a target continues the other one. -/
private lemma continues_of_target {a b : String}
    (hu : u = "dockstore".toList ∨ ∃ v, u = nodePrefix.toList ++ v)
    (h : b = a ++ "_" ++ String.ofList u) : Continues a b := by
  rcases hu with rfl | ⟨v, rfl⟩
  · have hword : a ++ "_" ++ String.ofList "dockstore".toList = a ++ "_dockstore" := by
      rw [String.ofList_toList, String.append_assoc]
      rfl
    rw [h, hword]
    exact .word
  · rw [h, String.ofList_append, String.ofList_toList]
    exact .node (String.ofList v)

variable (hstep : ∀ s, isStep s → ∃ a, nodePrefix ++ a = s)
  (hnames : ∀ a b, isStep (nodePrefix ++ a) → isStep (nodePrefix ++ b) → ¬ Continues a b)

include hstep hnames

/-- The id of an edge is not the name of a node. -/
private lemma edgeId_ne (hs : isStep s ∨ s = beginKey) (ht : isStep t ∨ t = endKey)
    (hnode : isStep node ∨ node = beginKey ∨ node = endKey) : edgeId (s, t) ≠ node := by
  intro heq
  have hcut : node.toList = s.toList ++ '_' :: t.toList := by
    rw [← heq]
    simp [edgeId]
  obtain ⟨a, b, ha, hb, hab⟩ := exists_steps_of_append hstep hs hnode hcut
  rw [String.ofList_toList] at hab
  refine hnames a b ha hb ?_
  rcases ht with ht | rfl
  · obtain ⟨c, rfl⟩ := hstep t ht
    exact hab ▸ .node c
  · exact hab ▸ .endKey

/-- Different edges have different ids. -/
private lemma edgeId_inj (hs : isStep s ∨ s = beginKey) (hs' : isStep s' ∨ s' = beginKey)
    (ht : isStep t ∨ t = endKey) (ht' : isStep t' ∨ t' = endKey)
    (h : edgeId (s, t) = edgeId (s', t')) : (s, t) = (s', t') := by
  have hcut : s.toList ++ '_' :: t.toList = s'.toList ++ '_' :: t'.toList := by
    simpa [edgeId] using congrArg String.toList h
  rcases Text.append_cons_cases hcut with ⟨hs, ht⟩ | ⟨u, hlonger, htarget⟩ | ⟨u, hlonger, htarget⟩
  · rw [String.toList_inj.1 hs, String.toList_inj.1 ht]
  · obtain ⟨a, b, ha, hb, hab⟩ := exists_steps_of_append hstep hs (hs'.imp_right .inl) hlonger
    exact absurd (continues_of_target (exists_of_target hstep ht htarget) hab) (hnames a b ha hb)
  · obtain ⟨a, b, ha, hb, hab⟩ := exists_steps_of_append hstep hs' (hs.imp_right .inl) hlonger
    exact absurd (continues_of_target (exists_of_target hstep ht' htarget) hab) (hnames a b ha hb)

end Ids

/-! ## The elements of a workflow -/

section Describes

variable {workflow : Entries} {r : WalkResult} (h : r.Describes workflow)

include h

/-- The nodes of the graph are those of the steps and the two before and after them. -/
lemma mem_keys_buildDag {node : String} :
    node ∈ Table.keys (buildDag (addSyntheticNodes workflow r)).nodes ↔
      workflow.IsStepNode node ∨ node = beginKey ∨ node = endKey := by
  rw [nodes_buildDag ((mem_nodes_addSyntheticNodes ..).2 (.inr (.inr rfl)))
    ((mem_nodes_addSyntheticNodes ..).2 (.inr (.inl rfl))), mem_keys_dagNodes,
    mem_nodes_addSyntheticNodes, h.mem_nodes, or_comm (a := _ = _)]

omit h in

/-- The names of the nodes of a graph are distinct. -/
lemma nodup_keys_buildDag (workflow : Entries) (r : WalkResult) :
    (Table.keys (buildDag (addSyntheticNodes workflow r)).nodes).Nodup := by
  rw [nodes_buildDag ((mem_nodes_addSyntheticNodes ..).2 (.inr (.inr rfl)))
    ((mem_nodes_addSyntheticNodes ..).2 (.inr (.inl rfl)))]
  exact nodup_keys_dagNodes _

/-- An edge leads from a step or the beginning to a step or the end. -/
lemma ends_buildDag {e : String × String}
    (he : e ∈ (buildDag (addSyntheticNodes workflow r)).edges) :
    (workflow.IsStepNode e.1 ∨ e.1 = beginKey) ∧ (workflow.IsStepNode e.2 ∨ e.2 = endKey) :=
  have hedge := (edge_buildDag_iff h).1 he
  ⟨hedge.source, hedge.target⟩

/-- The elements have the edges of the graph, each once. -/
lemma edgesBySource_buildDag_perm :
    (buildDag (addSyntheticNodes workflow r)).edgesBySource.Perm
      (buildDag (addSyntheticNodes workflow r)).edges := by
  refine Digraph.edgesBySource_perm (nodup_keys_buildDag workflow r) (nodup_edges_buildDag
    ((mem_nodes_addSyntheticNodes ..).2 (.inr (.inr rfl)))
    ((mem_nodes_addSyntheticNodes ..).2 (.inr (.inl rfl)))) fun a b hedge => ?_
  exact (mem_keys_buildDag h).2 ((ends_buildDag h hedge).1.imp_right .inl)

end Describes

/-- **Without continued names, the ids of the elements are pairwise distinct.** For each walk for
the graph: if there are no two steps of which the name of one is that of the other one followed by
`_dockstore`, by `_dockstore_` and perhaps more, or by `_UniqueEndKey`, then all nodes and edges
have different ids.

**Proof sketch.** An id that is put together in two ways has underscores at both seams, so that one
of the sources goes on behind the other one with an underscore, and what follows it is the beginning
of the other target: the word of the prefix, or the prefix and more. Nodes and edges have the same
id when a node goes on behind a source in this way, with the whole target. -/
theorem Walker.nodup_elementIds {w : Walker} {workflow : Entries} {inherited : Option String}
    {r : WalkResult} (hmode : w.mode = .dag)
    (hwalk : (w.walk workflow inherited 0 none).run {} = .ok () r)
    (hnames : ∀ a b, workflow.IsStepNode (nodePrefix ++ a) →
      workflow.IsStepNode (nodePrefix ++ b) → ¬ Continues a b) :
    ((Dag.toJson (buildDag (addSyntheticNodes workflow r))).elements.map
      Json.elementId?).Nodup := by
  have h := describes_of_walk hmode hwalk
  have hstep : ∀ s, workflow.IsStepNode s → ∃ a, nodePrefix ++ a = s := by
    rintro s ⟨e, -, rfl⟩
    exact ⟨e.1, rfl⟩
  set g := buildDag (addSyntheticNodes workflow r) with hg
  have hends : ∀ e ∈ g.edgesBySource,
      (workflow.IsStepNode e.1 ∨ e.1 = beginKey) ∧ (workflow.IsStepNode e.2 ∨ e.2 = endKey) :=
    fun e he => ends_buildDag h (Digraph.mem_edgesBySource.1 he).1
  have hedges : (g.edgesBySource.map edgeId).Nodup := by
    have hnodup : g.edgesBySource.Nodup := (edgesBySource_buildDag_perm h).nodup_iff.2
      (nodup_edges_buildDag ((mem_nodes_addSyntheticNodes ..).2 (.inr (.inr rfl)))
        ((mem_nodes_addSyntheticNodes ..).2 (.inr (.inl rfl))))
    refine (List.nodup_map_iff_inj_on hnodup).2 fun e he e' he' heq => ?_
    exact edgeId_inj hstep hnames (hends e he).1 (hends e' he').1 (hends e he).2
      (hends e' he').2 heq
  rw [elementIds_toJson]
  refine .map (Option.some_injective _) (List.nodup_append.2
    ⟨nodup_keys_buildDag workflow r, hedges, fun node hnode id hid heq => ?_⟩)
  obtain ⟨e, he, rfl⟩ := List.mem_map.1 hid
  exact edgeId_ne hstep hnames (hends e he).1 (hends e he).2 ((mem_keys_buildDag h).1 hnode)
    heq.symm

/-- No step of the pipeline has an underscore in its name. -/
theorem pipeline_nodup_elementIds :
    Walker.plain.mode = .dag ∧
    ∃ r, (Walker.plain.walk pipeline none 0 none).run {} = .ok () r ∧
      (∀ a b, pipeline.IsStepNode (nodePrefix ++ a) → pipeline.IsStepNode (nodePrefix ++ b) →
        ¬ Continues a b) ∧
      ((Dag.toJson (buildDag (addSyntheticNodes pipeline r))).elements.map
        Json.elementId?).Nodup := by
  obtain ⟨r, hwalk, hnodes⟩ : ∃ r, (Walker.plain.walk pipeline none 0 none).run {} = .ok () r ∧
      r.nodes.map (·.1) = ["align", "call", "check"].map (nodePrefix ++ ·) :=
    ⟨_, rfl, by decide⟩
  have hnames : ∀ a b, pipeline.IsStepNode (nodePrefix ++ a) →
      pipeline.IsStepNode (nodePrefix ++ b) → ¬ Continues a b := by
    intro a b _ hb hab
    rw [← (Walker.describes_of_walk rfl hwalk).mem_nodes, hnodes, List.mem_map] at hb
    obtain ⟨name, hname, heq⟩ := hb
    rw [← (String.append_right_inj nodePrefix).1 heq] at hab
    have hfree : ∀ name ∈ ["align", "call", "check"], '_' ∉ name.toList := by decide
    exact hfree name hname hab.underscore_mem
  exact ⟨rfl, r, hwalk, hnames, Walker.nodup_elementIds rfl hwalk hnames⟩

/-- A workflow with a step that has the name of an edge between two other ones. -/
def merging : Entries :=
  workflowOf [("a", linkStep "reads"), ("b", linkStep "a/bam"), ("a_dockstore_b", linkStep "reads")]

/-- The edge between the first two steps has the id of the node of the third one. -/
theorem merging_elementIds :
    ∃ r, (Walker.plain.walk merging none 0 none).run {} = .ok () r ∧
      let g := buildDag (addSyntheticNodes merging r)
      "dockstore_a_dockstore_b" ∈ Table.keys g.nodes ∧
      ("dockstore_a", "dockstore_b") ∈ g.edges ∧
      edgeId ("dockstore_a", "dockstore_b") = "dockstore_a_dockstore_b" ∧
      ¬ ((Dag.toJson g).elements.map Json.elementId?).Nodup := by
  refine ⟨_, rfl, ?_, ?_, rfl, ?_⟩ <;> decide +kernel

end CwlDescriptor

import CwlDescriptor.Proofs.Dag.Edges
import CwlDescriptor.Proofs.Workflow.Recording
set_option autoImplicit false

/-!
# The nodes and edges of the graph of a workflow

A walk leaves the nodes of the outermost steps and the steps that each of them depends on. With the
nodes before and after all steps, the edges of the graph are of four kinds: from a step to one that
depends on it, from a step to the end if an output comes from it, from the beginning to a step that
depends on no step, and from a step to the end if nothing else comes from it.

## Main definitions

* `Entries.IsStepNode`: the nodes of the outermost steps.
* `WalkResult.dependenciesOf`: the recorded dependencies of a node.
* `StitchedEdge`: the edges of the four kinds.
* `WalkResult.Describes`: what a walk leaves for the graph.

## Main results

* `Walker.describes_of_walk`: a walk leaves the nodes and dependencies of the steps.
* `edge_buildDag_iff`: the edges of the graph are those of the four kinds.
* `Walker.buildDag_exact`: the nodes and edges of the graph.
-/

namespace CwlDescriptor

/-! ## Nodes and edges of a workflow -/

/-- The name of the node of an outermost step. -/
def Entries.IsStepNode (workflow : Entries) (node : String) : Prop :=
  ∃ e : String × Entries, workflow.HasStep [e] ∧ nodePrefix ++ e.1 = node

/-- The recorded dependencies of a node. -/
def WalkResult.dependenciesOf (r : WalkResult) (node : String) : List String :=
  (Table.get? r.dependencies node).getD []

/-- The edges of the graph of the steps, given the nodes of the steps, their dependencies, and the
dependencies of the outputs. -/
inductive StitchedEdge (isStep : String → Prop) (dependencies : String → List String)
    (outputs : List String) : String → String → Prop
  /-- An edge from a step to one that depends on it. -/
  | dependency {d s : String} (hs : isStep s) (hd : isStep d) (hmem : d ∈ dependencies s) :
    StitchedEdge isStep dependencies outputs d s
  /-- An edge to the end from a step that an output comes from. -/
  | output {s : String} (hs : isStep s) (hmem : s ∈ outputs) :
    StitchedEdge isStep dependencies outputs s endKey
  /-- An edge from the beginning to a step that depends on no step. -/
  | first {s : String} (hs : isStep s) (hnone : ∀ d, isStep d → d ∉ dependencies s) :
    StitchedEdge isStep dependencies outputs beginKey s
  /-- An edge to the end from a step on which neither a step nor an output depends. -/
  | last {s : String} (hs : isStep s) (hnone : ∀ s', isStep s' → s ∉ dependencies s')
    (hout : s ∉ outputs) : StitchedEdge isStep dependencies outputs s endKey

/-! ## Names -/

/-- The node of a step is neither the beginning nor the end. -/
private lemma nodePrefix_append_ne (s : String) :
    nodePrefix ++ s ≠ beginKey ∧ nodePrefix ++ s ≠ endKey := by
  have hne : ∀ key : String, key.toList.head? = some 'U' → nodePrefix ++ s ≠ key := by
    intro key hkey heq
    rw [← heq] at hkey
    have hprefix : nodePrefix.toList = 'd' :: "ockstore_".toList := rfl
    rw [String.toList_append, hprefix] at hkey
    cases hkey
  exact ⟨hne _ rfl, hne _ rfl⟩

/-- What a source comes from is neither the node before all steps nor the one after them. -/
private lemma ne_of_mem_sourceNodes {sources : Node} {d : String}
    (h : d ∈ sourceNodes sources nodePrefix) :
    d ≠ beginKey ∧ d ≠ endKey := by
  obtain ⟨s, -, rfl⟩ := List.mem_map.1 h
  exact nodePrefix_append_ne s

/-- No dependency of a step is the beginning or the end. -/
private lemma ne_of_mem_stepDependencies {step : Entries} {d : String}
    (h : d ∈ stepDependencies step) :
    d ≠ beginKey ∧ d ≠ endKey := by
  obtain ⟨input, -, h⟩ := List.mem_flatMap.1 h
  exact ne_of_mem_sourceNodes h

/-- No dependency of an output is the beginning or the end. -/
private lemma ne_of_mem_outputDependencies {workflow : Entries} {d : String}
    (h : d ∈ outputDependencies workflow) : d ≠ beginKey ∧ d ≠ endKey := by
  obtain ⟨output, -, h⟩ := List.mem_flatMap.1 h
  exact ne_of_mem_sourceNodes h

/-- The node of a step of a workflow is neither the beginning nor the end. -/
lemma Entries.IsStepNode.ne {workflow : Entries} {node : String} (h : workflow.IsStepNode node) :
    node ≠ beginKey ∧ node ≠ endKey := by
  obtain ⟨e, -, rfl⟩ := h
  exact nodePrefix_append_ne e.1

/-! ## What a walk leaves for the graph -/

/-- What a walk leaves for the graph: the nodes of the steps, and for some of them dependencies. -/
structure WalkResult.Describes (r : WalkResult) (workflow : Entries) : Prop where
  mem_nodes : ∀ node, node ∈ r.nodes.map (·.1) ↔ workflow.IsStepNode node
  nodup : (Table.keys r.dependencies).Nodup
  isStepNode : ∀ e ∈ r.dependencies, workflow.IsStepNode e.1
  ne_nil : ∀ e ∈ r.dependencies, e.2 ≠ []
  ne : ∀ e ∈ r.dependencies, ∀ d ∈ e.2, d ≠ beginKey ∧ d ≠ endKey

namespace WalkResult.Describes

variable {workflow : Entries} {r : WalkResult} {node d : String}

/-- The dependencies of a node are those that are recorded for it. -/
private lemma mem_dependenciesOf (h : r.Describes workflow) :
    d ∈ r.dependenciesOf node ↔ ∃ ds, (node, ds) ∈ r.dependencies ∧ d ∈ ds := by
  simp only [← Table.get?_eq_some_iff h.nodup, dependenciesOf]
  cases Table.get? r.dependencies node <;> simp

/-- A node without dependencies is one for which none are recorded. -/
private lemma dependenciesOf_eq_nil (h : r.Describes workflow) :
    r.dependenciesOf node = [] ↔ node ∉ Table.keys r.dependencies := by
  rw [← Table.get?_eq_none_iff, dependenciesOf]
  cases hget : Table.get? r.dependencies node with
  | none => simp
  | some ds => simpa using h.ne_nil _ (Table.mem_of_get? hget)

end WalkResult.Describes

namespace Walker

variable {w : Walker} {workflow : Entries} {inherited : Option String} {r : WalkResult}

/-- Dependencies that are recorded for different nodes stand in the order of the nodes. -/
private lemma foldl_addTo {vs : List Visit} {t : Table (List String)}
    (hnodup : (Table.keys t ++ vs.map fun v => nodePrefix ++ v.key).Nodup) :
    vs.foldl (fun t v => Table.addTo t (nodePrefix ++ v.key) (stepDependencies v.step)) t =
      t ++ (vs.map fun v => (nodePrefix ++ v.key, stepDependencies v.step)).filter (·.2 ≠ []) := by
  induction vs generalizing t with
  | nil => simp
  | cons v vs ih =>
    have hnot : nodePrefix ++ v.key ∉ Table.keys t := fun hmem =>
      List.disjoint_of_nodup_append hnodup hmem List.mem_cons_self
    rw [List.foldl_cons]
    cases hdeps : stepDependencies v.step with
    | nil =>
      rw [Table.addTo, ih (hnodup.sublist ((List.sublist_cons_self _ _).append_left _))]
      simp [hdeps]
    | cons d ds =>
      have hadd : Table.addTo t (nodePrefix ++ v.key) (d :: ds) =
          t ++ [(nodePrefix ++ v.key, d :: ds)] := by
        show Table.insert t _ ((Table.get? t (nodePrefix ++ v.key)).getD [] ++ d :: ds) = _
        rw [Table.get?_eq_none_iff.2 hnot, Table.insert_of_not_mem hnot]
        rfl
      rw [hadd, ih (by simpa [Table.keys] using hnodup)]
      simp [hdeps]

section Visits

variable {vs : List Visit}

/-- The nodes of the steps are those of the visits. -/
lemma isStepNode_iff (h : visits w.pathOfId workflow inherited = .ok vs) {node : String} :
    workflow.IsStepNode node ↔ node ∈ vs.map fun v => nodePrefix ++ v.key := by
  obtain ⟨_, _, -, hsteps, -⟩ := visits_eq_ok h
  rw [List.mem_map]
  constructor
  · rintro ⟨e, he, rfl⟩
    obtain ⟨v, hv, rfl⟩ := List.mem_map.1 (he.mem_of_singleton hsteps)
    exact ⟨v, hv, rfl⟩
  · rintro ⟨v, hv, rfl⟩
    exact ⟨v.entry, .own hsteps (List.mem_map_of_mem hv), rfl⟩

/-- No two visits have the same node. -/
lemma nodup_stepNodes (h : visits w.pathOfId workflow inherited = .ok vs) :
    (vs.map fun v => nodePrefix ++ v.key).Nodup := by
  obtain ⟨_, _, -, hsteps, -⟩ := visits_eq_ok h
  have hkeys := (nodup_keys_steps hsteps).map fun _ _ => (String.append_right_inj nodePrefix).1
  rwa [Table.keys, List.map_map, List.map_map] at hkeys

/-- The dependencies of the outermost steps that have some. -/
lemma dependencies_record (h : visits w.pathOfId workflow inherited = .ok vs) :
    (w.record 0 none {} vs).dependencies =
      (vs.map fun v => (nodePrefix ++ v.key, stepDependencies v.step)).filter (·.2 ≠ []) :=
  (foldl_addTo (t := []) (nodup_stepNodes h)).trans (List.nil_append _)

end Visits

/-- A walk for the graph leaves the nodes and the dependencies of the outermost steps. -/
lemma describes_of_walk (hmode : w.mode = .dag)
    (hwalk : (w.walk workflow inherited 0 none).run {} = .ok () r) : r.Describes workflow := by
  obtain ⟨vs, hvs, rfl⟩ := walk_eq_ok_iff.1 hwalk
  have hnames : (w.record 0 none {} vs).nodes.map (·.1) = vs.map fun v => nodePrefix ++ v.key := by
    simp [record, hmode, nodeName]
  have hmem : ∀ e ∈ (w.record 0 none {} vs).dependencies,
      e.2 ≠ [] ∧ ∃ v ∈ vs, e = (nodePrefix ++ v.key, stepDependencies v.step) := by
    intro e he
    rw [dependencies_record hvs, List.mem_filter, List.mem_map, decide_eq_true_iff] at he
    obtain ⟨⟨v, hv, rfl⟩, hne⟩ := he
    exact ⟨hne, v, hv, rfl⟩
  refine ⟨fun node => ?mem_nodes, ?nodup, fun e he => ?isStepNode, fun e he => (hmem e he).1,
    fun e he d hd => ?ne⟩
  case mem_nodes => rw [hnames, isStepNode_iff hvs]
  case nodup =>
    rw [dependencies_record hvs]
    refine List.Nodup.sublist (List.filter_sublist.map _) ?_
    rw [List.map_map]
    exact nodup_stepNodes hvs
  case isStepNode =>
    obtain ⟨-, v, hv, rfl⟩ := hmem e he
    exact (isStepNode_iff hvs).2 (List.mem_map_of_mem hv)
  case ne =>
    obtain ⟨-, v, hv, rfl⟩ := hmem e he
    exact ne_of_mem_stepDependencies hd

end Walker

/-! ## The nodes before and after all steps -/

section Synthetic

variable {workflow : Entries} {r : WalkResult}

/-- The nodes of a walk get the beginning and the end as two more. -/
lemma mem_nodes_addSyntheticNodes (workflow : Entries) (r : WalkResult) (node : String) :
    node ∈ (addSyntheticNodes workflow r).nodes.map (·.1) ↔
      node ∈ r.nodes.map (·.1) ∨ node = endKey ∨ node = beginKey := by
  simp [addSyntheticNodes]

/-- Nodes without dependencies get the given ones. -/
private lemma mem_foldl_insert {t : Table (List String)} {nodes : List (String × Option String)}
    {node : String} {new ds : List String} :
    (node, ds) ∈ nodes.foldl (fun table (node, _) =>
        if Table.hasKey table node then table else Table.insert table node new) t ↔
      (node, ds) ∈ t ∨ (node ∈ nodes.map (·.1) ∧ node ∉ Table.keys t ∧ ds = new) := by
  induction nodes generalizing t with
  | nil => simp
  | cons e nodes ih =>
    rw [List.foldl_cons, ih]
    simp only [List.map_cons, List.mem_cons]
    split_ifs with hkey
    · have hmem := Table.hasKey_iff.1 hkey
      constructor
      · tauto
      · rintro (h | ⟨rfl | h, hnot, hds⟩)
        · exact .inl h
        · exact absurd hmem hnot
        · exact .inr ⟨h, hnot, hds⟩
    · have hmem := mt Table.hasKey_iff.2 hkey
      rw [Table.insert_of_not_mem hmem, List.mem_append, List.mem_singleton, Prod.mk.injEq]
      have hkeys : Table.keys (t ++ [(e.1, new)]) = Table.keys t ++ [e.1] := by simp [Table.keys]
      rw [hkeys, List.mem_append, List.mem_singleton]
      by_cases heq : node = e.1
      · subst heq
        have hnot : (e.1, ds) ∉ t := fun h => hmem (List.mem_map_of_mem h)
        simp [hmem, hnot]
      · simp [heq]

/-- The dependencies with the nodes before and after all steps. -/
private lemma mem_dependencies_addSyntheticNodes (h : r.Describes workflow) {node : String}
    {ds : List String} :
    (node, ds) ∈ (addSyntheticNodes workflow r).dependencies ↔
      (node, ds) ∈ r.dependencies ∨ (node = endKey ∧ ds = outputDependencies workflow) ∨
        (workflow.IsStepNode node ∧ r.dependenciesOf node = [] ∧ ds = [beginKey]) := by
  have hend : endKey ∉ Table.keys r.dependencies := by
    intro hmem
    obtain ⟨e, he, heq⟩ := List.mem_map.1 hmem
    exact (h.isStepNode e he).ne.2 heq
  have hkeys : Table.keys (r.dependencies ++ [(endKey, outputDependencies workflow)]) =
      Table.keys r.dependencies ++ [endKey] := by
    simp [Table.keys]
  unfold addSyntheticNodes
  simp only [Table.insert_of_not_mem hend, mem_foldl_insert, hkeys, h.dependenciesOf_eq_nil,
    List.map_append, List.mem_append, h.mem_nodes, List.map_singleton, List.mem_singleton,
    Prod.mk.injEq]
  have hne := fun hstep : workflow.IsStepNode node => hstep.ne.2
  tauto

end Synthetic

/-! ## The four kinds of edges -/

section Edges

variable {workflow : Entries} {r : WalkResult} {a b : String}

/-- The edges from the dependencies: a step without dependencies depends on the beginning, but one
with dependencies that are no steps has no edge yet. -/
private lemma edge_linkedDag_addSyntheticNodes (h : r.Describes workflow) :
    (linkedDag (addSyntheticNodes workflow r)).Edge a b ↔
      (workflow.IsStepNode b ∧ workflow.IsStepNode a ∧ a ∈ r.dependenciesOf b) ∨
      (b = endKey ∧ workflow.IsStepNode a ∧ a ∈ outputDependencies workflow) ∨
      (a = beginKey ∧ workflow.IsStepNode b ∧ r.dependenciesOf b = []) := by
  rw [edge_linkedDag_iff]
  simp only [mem_nodes_addSyntheticNodes, mem_dependencies_addSyntheticNodes h, h.mem_nodes]
  constructor
  · rintro ⟨ha, -, ds, ⟨hds⟩ | ⟨rfl, rfl⟩ | ⟨hb, hnil, rfl⟩, hmem⟩
    · have hne := h.ne _ hds a hmem
      exact .inl ⟨h.isStepNode _ hds, by tauto, h.mem_dependenciesOf.2 ⟨ds, hds, hmem⟩⟩
    · have hne := ne_of_mem_outputDependencies hmem
      exact .inr (.inl ⟨rfl, by tauto, hmem⟩)
    · exact .inr (.inr ⟨List.mem_singleton.1 hmem, hb, hnil⟩)
  · rintro (⟨hb, ha, hmem⟩ | ⟨rfl, ha, hmem⟩ | ⟨rfl, hb, hnil⟩)
    · obtain ⟨ds, hds, hmem⟩ := h.mem_dependenciesOf.1 hmem
      exact ⟨.inl ha, .inl hb, ds, .inl hds, hmem⟩
    · exact ⟨.inl ha, .inr (.inl rfl), _, .inr (.inl ⟨rfl, rfl⟩), hmem⟩
    · exact ⟨.inr (.inr rfl), .inl hb, _, .inr (.inr ⟨hb, hnil, rfl⟩), List.mem_singleton_self _⟩

/-- The inner nodes are those of the steps. -/
private lemma isInner_addSyntheticNodes (h : r.Describes workflow) :
    (addSyntheticNodes workflow r).IsInner a ↔ workflow.IsStepNode a := by
  rw [WalkResult.IsInner, mem_nodes_addSyntheticNodes, h.mem_nodes]
  have hne := fun hstep : workflow.IsStepNode a => hstep.ne
  tauto

/-- The edges of the graph are those of the four kinds. -/
lemma edge_buildDag_iff (h : r.Describes workflow) :
    (buildDag (addSyntheticNodes workflow r)).Edge a b ↔
      StitchedEdge workflow.IsStepNode r.dependenciesOf (outputDependencies workflow) a b := by
  have hbegin := (mem_nodes_addSyntheticNodes workflow r beginKey).2 (.inr (.inr rfl))
  have hend := (mem_nodes_addSyntheticNodes workflow r endKey).2 (.inr (.inl rfl))
  rw [(addsEdges_buildDag hbegin hend).edge_iff]
  simp only [edge_linkedDag_addSyntheticNodes h, isInner_addSyntheticNodes h]
  constructor
  · rintro ((⟨hb, ha, hmem⟩ | ⟨rfl, ha, hmem⟩ | ⟨rfl, hb, hnil⟩) | ⟨rfl, hb, hnone⟩ |
      ⟨rfl, ha, hnone⟩)
    · exact .dependency hb ha hmem
    · exact .output ha hmem
    · exact .first hb (by simp [hnil])
    · exact .first hb fun d hd hmem => hnone d (.inl ⟨hb, hd, hmem⟩)
    · exact .last ha (fun s hs hmem => hnone s (.inl ⟨hs, ha, hmem⟩))
        fun hout => hnone endKey (.inr (.inl ⟨rfl, ha, hout⟩))
  · intro hedge
    cases hedge with
    | dependency hs hd hmem => exact .inl (.inl ⟨hs, hd, hmem⟩)
    | output hs hmem => exact .inl (.inr (.inl ⟨rfl, hs, hmem⟩))
    | first hs hnone =>
      by_cases hnil : r.dependenciesOf b = []
      · exact .inl (.inr (.inr ⟨rfl, hs, hnil⟩))
      · refine .inr (.inl ⟨rfl, hs, fun a => ?_⟩)
        have hne := hs.ne
        have := hnone a
        tauto
    | last hs hnone hout =>
      refine .inr (.inr ⟨rfl, hs, fun b => ?_⟩)
      have hne := hs.ne
      have := hnone b
      tauto

end Edges

namespace StitchedEdge

variable {isStep : String → Prop} {dependencies : String → List String} {outputs : List String}
  {a b s : String}

/-- An edge leads to each step. -/
private lemma exists_to (hs : isStep s) : ∃ a, StitchedEdge isStep dependencies outputs a s := by
  by_cases hd : ∃ d, isStep d ∧ d ∈ dependencies s
  · obtain ⟨d, hd, hmem⟩ := hd
    exact ⟨d, .dependency hs hd hmem⟩
  · exact ⟨beginKey, .first hs fun d hstep hmem => hd ⟨d, hstep, hmem⟩⟩

/-- An edge leads from each step. -/
private lemma exists_from (hs : isStep s) : ∃ b, StitchedEdge isStep dependencies outputs s b := by
  by_cases hd : ∃ s', isStep s' ∧ s ∈ dependencies s'
  · obtain ⟨s', hs', hmem⟩ := hd
    exact ⟨s', .dependency hs' hs hmem⟩
  · by_cases hout : s ∈ outputs
    · exact ⟨endKey, .output hs hout⟩
    · exact ⟨endKey, .last hs (fun s' hstep hmem => hd ⟨s', hstep, hmem⟩) hout⟩

/-- Edges lead to steps or to the end. -/
lemma target (h : StitchedEdge isStep dependencies outputs a b) : isStep b ∨ b = endKey := by
  cases h with
  | dependency hs _ _ | first hs _ => exact .inl hs
  | output _ _ | last _ _ _ => exact .inr rfl

/-- Edges lead from steps or from the beginning. -/
lemma source (h : StitchedEdge isStep dependencies outputs a b) : isStep a ∨ a = beginKey := by
  cases h with
  | dependency _ hd _ => exact .inl hd
  | output hs _ | last hs _ _ => exact .inl hs
  | first _ _ => exact .inr rfl

end StitchedEdge

/-! ## The graph of a workflow -/

namespace Walker

variable {w : Walker} {workflow : Entries} {inherited : Option String} {r : WalkResult}

/-- **The graph has exactly the right nodes and edges.** Its nodes are those of the outermost steps
and the two nodes before and after them, each once, and its edges are those of the four kinds, each
once. So an edge leads to each step and one from it, none leads to the beginning and none from the
end.

**Proof sketch.** A walk leaves a node for each step, and dependencies for those that have some. The
second pass adds the edges from these dependencies, from those of the outputs, and from the
beginning to the steps without any. Where it leaves a step without an edge to it or from it, the
third pass adds one. -/
theorem buildDag_exact (hmode : w.mode = .dag)
    (hwalk : (w.walk workflow inherited 0 none).run {} = .ok () r) :
    let g := buildDag (addSyntheticNodes workflow r)
    (Table.keys g.nodes).Nodup ∧
    (∀ node, node ∈ Table.keys g.nodes ↔
      workflow.IsStepNode node ∨ node = beginKey ∨ node = endKey) ∧
    g.edges.Nodup ∧
    (∀ a b, g.Edge a b ↔
      StitchedEdge workflow.IsStepNode r.dependenciesOf (outputDependencies workflow) a b) ∧
    (∀ s, workflow.IsStepNode s → (∃ a, g.Edge a s) ∧ ∃ b, g.Edge s b) ∧
    (∀ a, ¬ g.Edge a beginKey) ∧ ∀ b, ¬ g.Edge endKey b := by
  have h := describes_of_walk hmode hwalk
  have hbegin := (mem_nodes_addSyntheticNodes workflow r beginKey).2 (.inr (.inr rfl))
  have hend := (mem_nodes_addSyntheticNodes workflow r endKey).2 (.inr (.inl rfl))
  have hne : beginKey ≠ endKey := by decide
  intro g
  have hedge : ∀ a b, g.Edge a b ↔ StitchedEdge workflow.IsStepNode r.dependenciesOf
      (outputDependencies workflow) a b := fun a b => edge_buildDag_iff h
  have hnodes : g.nodes = (dagNodes (addSyntheticNodes workflow r)).nodes :=
    nodes_buildDag hbegin hend
  refine ⟨?_, fun node => ?_, nodup_edges_buildDag hbegin hend, hedge, fun s hs => ⟨?_, ?_⟩,
    fun a ha => ?_, fun b hb => ?_⟩
  · rw [hnodes]
    exact nodup_keys_dagNodes _
  · rw [hnodes, mem_keys_dagNodes, mem_nodes_addSyntheticNodes, h.mem_nodes, or_comm (a := _ = _)]
  · simp only [hedge]
    exact StitchedEdge.exists_to hs
  · simp only [hedge]
    exact StitchedEdge.exists_from hs
  · exact ((hedge _ _).1 ha).target.elim (fun hs => hs.ne.1 rfl) hne
  · exact ((hedge _ _).1 hb).source.elim (fun hs => hs.ne.2 rfl) hne.symm

end Walker

/-! ## A graph with all kinds of edges -/

/-- A step that runs a file, with one input. -/
def linkStep (source : String) : Entries :=
  [(.str "in", .map [(.str "x", .str source)]), (.str "run", .str "tool.cwl")]

/-- A workflow with two steps in succession, of which the second one makes the output, and a step
that depends on a missing one. -/
def pipeline : Entries :=
  [(.str "class", .str "Workflow"),
    (.str "outputs", .map [(.str "o", .map [(.str "outputSource", .str "call/vcf")])]),
    (.str "steps", .map [(.str "align", .map (linkStep "reads")),
      (.str "call", .map (linkStep "align/bam")), (.str "check", .map (linkStep "ghost/bam"))])]

/-- The step that depends on a missing one is stitched in at either side. -/
theorem pipeline_buildDag_exact :
    Walker.plain.mode = .dag ∧
    ∃ r, (Walker.plain.walk pipeline none 0 none).run {} = .ok () r ∧
      let g := buildDag (addSyntheticNodes pipeline r)
      g.edges = [("dockstore_align", "dockstore_call"), ("dockstore_call", endKey),
        (beginKey, "dockstore_align"), (beginKey, "dockstore_check"), ("dockstore_check", endKey)] ∧
      ∀ a b, g.Edge a b ↔
        StitchedEdge pipeline.IsStepNode r.dependenciesOf (outputDependencies pipeline) a b := by
  obtain ⟨r, hwalk, hedges⟩ : ∃ r, (Walker.plain.walk pipeline none 0 none).run {} = .ok () r ∧
      (buildDag (addSyntheticNodes pipeline r)).edges = [("dockstore_align", "dockstore_call"),
        ("dockstore_call", endKey), (beginKey, "dockstore_align"), (beginKey, "dockstore_check"),
        ("dockstore_check", endKey)] := ⟨_, rfl, by decide⟩
  obtain ⟨-, -, -, hedge, -⟩ := Walker.buildDag_exact (w := Walker.plain) rfl hwalk
  exact ⟨rfl, r, hwalk, hedges, hedge⟩

end CwlDescriptor

import CwlDescriptor.Proofs.Dag.Stitching
import Mathlib.Data.Set.Finite.List
import Mathlib.Order.WellFoundedSet
set_option autoImplicit false

/-!
# Paths in the graph of a workflow

The graph of a workflow has a cycle only if steps depend on each other in a circle, since no edge
leads to the beginning and none from the end. The edges from the beginning and to the end are chosen
by looking at one step at a time; but where there is no circle, a step is reached from the beginning
because the steps that it depends on are, and the end is reached from it because it is from the
steps that depend on it.

## Main definitions

* `StepDependency`: a step is among the dependencies of another step.

## Main results

* `StitchedEdge.acyclic_iff`: the graph has a cycle only where the dependencies have one.
* `StitchedEdge.from_begin`, `StitchedEdge.to_end`: each step lies on a path from the beginning to
  the end.
* `Walker.buildDag_connects`: the same of the graph of a workflow.
-/

namespace CwlDescriptor

open Relation

/-- The first step is among the dependencies of the second one. -/
def StepDependency (isStep : String → Prop) (dependencies : String → List String) (d s : String) :
    Prop :=
  isStep d ∧ isStep s ∧ d ∈ dependencies s

namespace StitchedEdge

variable {isStep : String → Prop} {dependencies : String → List String} {outputs : List String}
  {a b s : String}

/-! ## Cycles -/

/-- An edge that touches neither the beginning nor the end is a dependency. -/
private lemma stepDependency (h : StitchedEdge isStep dependencies outputs a b) (ha : a ≠ beginKey)
    (hb : b ≠ endKey) : StepDependency isStep dependencies a b := by
  cases h with
  | dependency hs hd hmem => exact ⟨hd, hs, hmem⟩
  | output _ _ | last _ _ _ => exact absurd rfl hb
  | first _ _ => exact absurd rfl ha

/-- A dependency between two steps is an edge. -/
private lemma of_stepDependency (h : StepDependency isStep dependencies a b) :
    StitchedEdge isStep dependencies outputs a b :=
  .dependency h.2.1 h.1 h.2.2

section Cycles

variable (hne : ∀ s, isStep s → s ≠ beginKey ∧ s ≠ endKey)

include hne

/-- No edge leads to the beginning. -/
private lemma target_ne (h : StitchedEdge isStep dependencies outputs a b) : b ≠ beginKey := by
  rcases h.target with hs | rfl
  · exact (hne b hs).1
  · decide

/-- No edge leads from the end. -/
private lemma source_ne (h : StitchedEdge isStep dependencies outputs a b) : a ≠ endKey := by
  rcases h.source with hs | rfl
  · exact (hne a hs).2
  · decide

/-- A path that neither begins at the beginning nor ends at the end follows dependencies. -/
private lemma transGen_stepDependency (h : TransGen (StitchedEdge isStep dependencies outputs) a b)
    (ha : a ≠ beginKey) (hb : b ≠ endKey) : TransGen (StepDependency isStep dependencies) a b := by
  induction h with
  | single hab => exact .single (hab.stepDependency ha hb)
  | tail hac hcb ih =>
    obtain ⟨_, -, hc⟩ := TransGen.tail'_iff.1 hac
    exact (ih (source_ne hne hcb)).tail (hcb.stepDependency (target_ne hne hc) hb)

/-- The graph has a cycle only where the dependencies have one. -/
lemma acyclic_iff : (∀ a, ¬ TransGen (StitchedEdge isStep dependencies outputs) a a) ↔
    ∀ s, ¬ TransGen (StepDependency isStep dependencies) s s := by
  constructor
  · exact fun h s hs => h s (TransGen.mono (fun _ _ hab => of_stepDependency hab) _ _ hs)
  · intro h a ha
    obtain ⟨_, -, hto⟩ := TransGen.tail'_iff.1 ha
    obtain ⟨_, hfrom, -⟩ := TransGen.head'_iff.1 ha
    exact h a (transGen_stepDependency hne ha (target_ne hne hto) (source_ne hne hfrom))

end Cycles

/-! ## Paths from the beginning and to the end -/

/-- In a finite set, a relation without cycles can be followed backwards only finitely far. -/
private lemma wellFoundedOn_of_acyclic {α : Type} {R : α → α → Prop} {S : Set α} (hfin : S.Finite)
    (hacyclic : ∀ a, ¬ TransGen R a a) : S.WellFoundedOn R := by
  have hstrict : IsStrictOrder α (TransGen R) :=
    { irrefl := hacyclic, trans := fun _ _ _ => TransGen.trans }
  have hwf : S.WellFoundedOn (TransGen R) := hfin.wellFoundedOn
  exact hwf.mono (fun _ _ => TransGen.single) le_rfl

section Paths

variable (hfin : {s | isStep s}.Finite)
  (hacyclic : ∀ s, ¬ TransGen (StepDependency isStep dependencies) s s)

include hfin hacyclic

/-- Each step is reached from the beginning, as the steps are that it depends on. -/
lemma from_begin (hs : isStep s) :
    TransGen (StitchedEdge isStep dependencies outputs) beginKey s := by
  refine (wellFoundedOn_of_acyclic hfin hacyclic).induction hs fun s hs ih => ?_
  by_cases hd : ∃ d, isStep d ∧ d ∈ dependencies s
  · obtain ⟨d, hd, hmem⟩ := hd
    exact (ih d hd ⟨hd, hs, hmem⟩).tail (.dependency hs hd hmem)
  · exact .single (.first hs fun d hstep hmem => hd ⟨d, hstep, hmem⟩)

/-- The end is reached from each step, as it is from the steps that depend on it. -/
lemma to_end (hs : isStep s) : TransGen (StitchedEdge isStep dependencies outputs) s endKey := by
  have hswap : ∀ s, ¬ TransGen (Function.swap (StepDependency isStep dependencies)) s s :=
    fun s h => hacyclic s (transGen_swap.1 h)
  refine (wellFoundedOn_of_acyclic hfin hswap).induction hs
    (P := (TransGen (StitchedEdge isStep dependencies outputs) · endKey)) fun s hs ih => ?_
  by_cases hd : ∃ s', isStep s' ∧ s ∈ dependencies s'
  · obtain ⟨s', hs', hmem⟩ := hd
    exact (ih s' hs' ⟨hs, hs', hmem⟩).head (.dependency hs' hs hmem)
  · by_cases hout : s ∈ outputs
    · exact .single (.output hs hout)
    · exact .single (.last hs (fun s' hstep hmem => hd ⟨s', hstep, hmem⟩) hout)

end Paths

/-- The end is not reached from the beginning if there are no steps. -/
private lemma exists_step_of_path
    (h : ReflTransGen (StitchedEdge isStep dependencies outputs) beginKey endKey) :
    ∃ s, isStep s := by
  rcases reflTransGen_iff_eq_or_transGen.1 h with heq | h
  · exact absurd heq (by decide)
  · obtain ⟨s, hfirst, -⟩ := TransGen.head'_iff.1 h
    cases hfirst with
    | dependency hs _ _ | output hs _ | first hs _ | last hs _ _ => exact ⟨_, hs⟩

end StitchedEdge

/-! ## The graph of a workflow -/

namespace Walker

variable {w : Walker} {workflow : Entries} {inherited : Option String} {r : WalkResult}

/-- **The beginning and the end connect the graph.** It has a cycle only where steps depend on each
other in a circle, and where it has none, each step lies on a path from the beginning to the end,
and the end is reached from the beginning if there is a step.

**Proof sketch.** A cycle runs neither through the beginning nor through the end, so all of its
edges are dependencies. Without a cycle, the finitely many steps are well-founded under their
dependencies in either direction. A step that depends on no step has an edge from the beginning, and
one on which none depends has an edge to the end. -/
theorem buildDag_connects (hmode : w.mode = .dag)
    (hwalk : (w.walk workflow inherited 0 none).run {} = .ok () r) :
    let g := buildDag (addSyntheticNodes workflow r)
    ((∀ a, ¬ TransGen g.Edge a a) ↔
      ∀ s, ¬ TransGen (StepDependency workflow.IsStepNode r.dependenciesOf) s s) ∧
    ((∀ a, ¬ TransGen g.Edge a a) →
      (∀ s, workflow.IsStepNode s →
        TransGen g.Edge beginKey s ∧ TransGen g.Edge s endKey) ∧
      (ReflTransGen g.Edge beginKey endKey ↔ ∃ s, workflow.IsStepNode s)) := by
  have h := describes_of_walk hmode hwalk
  have hne : ∀ s, workflow.IsStepNode s → s ≠ beginKey ∧ s ≠ endKey := fun s hs => hs.ne
  have hfin : {s | workflow.IsStepNode s}.Finite :=
    (r.nodes.map Prod.fst).finite_toSet.subset fun s hs => (h.mem_nodes s).2 hs
  intro g
  have hedge : g.Edge = StitchedEdge workflow.IsStepNode r.dependenciesOf
      (outputDependencies workflow) := by
    funext a b
    exact propext (edge_buildDag_iff h)
  have hcycles : (∀ a, ¬ TransGen g.Edge a a) ↔
      ∀ s, ¬ TransGen (StepDependency workflow.IsStepNode r.dependenciesOf) s s := by
    rw [hedge]
    exact StitchedEdge.acyclic_iff hne
  refine ⟨hcycles, fun hacyclic => ?_⟩
  have hdeps := hcycles.1 hacyclic
  have hpaths : ∀ s, workflow.IsStepNode s →
      TransGen g.Edge beginKey s ∧ TransGen g.Edge s endKey := by
    intro s hs
    rw [hedge]
    exact ⟨StitchedEdge.from_begin hfin hdeps hs, StitchedEdge.to_end hfin hdeps hs⟩
  refine ⟨hpaths, fun hpath => ?_, ?_⟩
  · rw [hedge] at hpath
    exact StitchedEdge.exists_step_of_path hpath
  · rintro ⟨s, hs⟩
    exact ((hpaths s hs).1.trans (hpaths s hs).2).to_reflTransGen

end Walker

/-! ## The paths through a graph -/

/-- A relation along which a rank grows has no cycles. -/
private lemma acyclic_of_rank {α : Type} {R : α → α → Prop} (rank : α → ℕ)
    (h : ∀ a b, R a b → rank a < rank b) (a : α) : ¬ TransGen R a a := by
  intro hcycle
  have hlt : TransGen (· < ·) (rank a) (rank a) := TransGen.lift rank h _ _ hcycle
  rw [transGen_eq_self] at hlt
  exact lt_irrefl _ hlt

/-- How far a node of the graph of `pipeline` is from the beginning. -/
def pipelineRank (node : String) : ℕ :=
  if node = beginKey then 0 else if node = "dockstore_align" then 1 else if node = endKey then 3
  else 2

/-- The second step lies on a path from the beginning to the end. -/
theorem pipeline_buildDag_connects :
    Walker.plain.mode = .dag ∧
    ∃ r, (Walker.plain.walk pipeline none 0 none).run {} = .ok () r ∧
      let g := buildDag (addSyntheticNodes pipeline r)
      (∀ a, ¬ TransGen g.Edge a a) ∧
      (∀ s, ¬ TransGen (StepDependency pipeline.IsStepNode r.dependenciesOf) s s) ∧
      TransGen g.Edge beginKey "dockstore_call" ∧ TransGen g.Edge "dockstore_call" endKey ∧
      ReflTransGen g.Edge beginKey endKey := by
  obtain ⟨r, hwalk, hrank⟩ : ∃ r, (Walker.plain.walk pipeline none 0 none).run {} = .ok () r ∧
      ∀ e ∈ (buildDag (addSyntheticNodes pipeline r)).edges,
        pipelineRank e.1 < pipelineRank e.2 := ⟨_, rfl, by decide⟩
  have hacyclic := acyclic_of_rank pipelineRank fun a b hab => hrank (a, b) hab
  have hcall : pipeline.IsStepNode "dockstore_call" := by
    obtain ⟨table, hsteps, hmem⟩ : ∃ table, steps pipeline none = .ok table ∧
        ("call", linkStep "align/bam") ∈ table := ⟨_, rfl, by decide⟩
    exact ⟨("call", linkStep "align/bam"), .own hsteps hmem, by decide⟩
  obtain ⟨hcycles, hconnects⟩ := Walker.buildDag_connects (w := Walker.plain) rfl hwalk
  obtain ⟨hpaths, hreached⟩ := hconnects hacyclic
  exact ⟨rfl, r, hwalk, hacyclic, hcycles.1 hacyclic, (hpaths _ hcall).1, (hpaths _ hcall).2,
    hreached.2 ⟨_, hcall⟩⟩

end CwlDescriptor

import CwlDescriptor.Proofs.Entries
import CwlDescriptor.Proofs.Tables
import CwlDescriptor.Proofs.Workflow.Outcome
set_option autoImplicit false

/-!
# The steps of a workflow

The steps of a workflow are read from a list or from a map, and each of them from a node in it. No
two steps of a workflow have the same key, and what a step runs is nested less deeply than the
workflow. Steps are followed into the workflows that they run: a *trail* leads from a workflow to a
step of it, or to a step of a workflow inside.

## Main definitions

* `Entries.stepNodes`: the nodes that the steps are read from.
* `Trail`: the steps on the way to a step, with their keys, that step being the last.
* `Entries.HasStep`: a trail leads to a step of a workflow, at any depth.

## Main results

* `steps_induction`: what the changes that make up the table of the steps keep.
* `nodup_keys_steps`: no two steps have the same key.
* `depth_run_lt`: what a step runs is nested less deeply than the workflow.
* `Entries.HasStep.eq_of_keys`: a trail is determined by its keys.
-/

namespace CwlDescriptor

/-! ## The nodes of the steps -/

/-- The nodes that the steps of a workflow are read from. -/
def Entries.stepNodes (workflow : Entries) : List Node :=
  match workflow.field "steps" with
  | .map es => es.map (·.2)
  | .list items => items
  | _ => []

section Tables

variable {P : Table Entries → Prop} {table table' : Table Entries}

/-- What holds before and behind every step of a map holds behind all of them. -/
private lemma addNamedSteps_induction {es : Entries}
    (hinsert : ∀ t key, ∀ n ∈ es.map (·.2), P t → P (Table.insert t key (n.entries?.getD [])))
    (hP : P table) (h : addNamedSteps table es = .ok table') : P table' := by
  induction es generalizing table with
  | nil =>
    cases h
    exact hP
  | cons e es ih =>
    obtain ⟨k, n⟩ := e
    obtain ⟨key, -, h⟩ := Except.bind_eq_ok.1 h
    exact ih (fun t key n hn => hinsert t key n (List.mem_cons_of_mem _ hn))
      (hinsert table key n List.mem_cons_self hP) h

/-- What holds before and behind every step of a list holds behind all of them. -/
private lemma addListedSteps_induction {path : Option String} {items : List Node}
    (hinsert : ∀ t key, ∀ n ∈ items, P t → P (Table.insert t key (n.entries?.getD [])))
    (hP : P table) (h : addListedSteps path table items = .ok table') : P table' := by
  induction items generalizing table with
  | nil =>
    cases h
    exact hP
  | cons n items ih =>
    simp only [addListedSteps] at h
    split at h
    · obtain ⟨text, -, h⟩ := Except.bind_eq_ok.1 h
      cases h
    · obtain ⟨key, -, h⟩ := Except.bind_eq_ok.1 h
      exact ih (fun t key n hn => hinsert t key n (List.mem_cons_of_mem _ hn))
        (hinsert table key n List.mem_cons_self hP) h

/-- What holds of the empty table and is kept when a step is set holds of the table of the steps of
a workflow. -/
lemma steps_induction {workflow : Entries} {path : Option String} (hnil : P [])
    (hinsert : ∀ t key, ∀ n ∈ workflow.stepNodes, P t →
      P (Table.insert t key (n.entries?.getD [])))
    (h : steps workflow path = .ok table) : P table := by
  unfold steps at h
  unfold Entries.stepNodes at hinsert
  cases hfield : workflow.field "steps" with
  | map es =>
    rw [hfield] at h hinsert
    exact addNamedSteps_induction hinsert hnil h
  | list items =>
    rw [hfield] at h hinsert
    exact addListedSteps_induction hinsert hnil h
  | scalar _ | set _ | pair _ _ =>
    rw [hfield] at h
    cases h
    exact hnil

end Tables

section Steps

variable {workflow : Entries} {path : Option String} {table : Table Entries}

/-- No two steps of a workflow have the same key. -/
lemma nodup_keys_steps (h : steps workflow path = .ok table) : (Table.keys table).Nodup :=
  steps_induction (P := fun t => (Table.keys t).Nodup) List.nodup_nil
    (fun _ _ _ _ ht => Table.nodup_keys_insert ht) h

/-- Each step is read from a node. -/
lemma exists_node_of_mem_steps (h : steps workflow path = .ok table) {e : String × Entries}
    (he : e ∈ table) : ∃ n ∈ workflow.stepNodes, e.2 = n.entries?.getD [] := by
  refine steps_induction (P := fun t => ∀ e ∈ t, ∃ n ∈ workflow.stepNodes, e.2 = n.entries?.getD [])
    (by simp) ?_ h e he
  intro t key n hn ht e he
  rcases Table.mem_insert he with rfl | he
  · exact ⟨n, hn, rfl⟩
  · exact ht e he

/-- The steps of a list do not depend on the path. -/
private lemma addListedSteps_path {items : List Node} {t : Table Entries} (path' : Option String)
    (h : addListedSteps path t items = .ok table) : addListedSteps path' t items = .ok table := by
  induction items generalizing t with
  | nil => exact h
  | cons n items ih =>
    simp only [addListedSteps] at h ⊢
    split at h
    · obtain ⟨text, -, h⟩ := Except.bind_eq_ok.1 h
      cases h
    · next hid =>
      obtain ⟨key, hkey, h⟩ := Except.bind_eq_ok.1 h
      rw [if_neg hid, Except.bind_eq_ok]
      exact ⟨key, hkey, ih h⟩

/-- The path of a workflow matters only for what is said when it is refused. -/
private lemma steps_path (path' : Option String) (h : steps workflow path = .ok table) :
    steps workflow path' = .ok table := by
  unfold steps at h ⊢
  cases hfield : workflow.field "steps" with
  | list items =>
    rw [hfield] at h
    exact addListedSteps_path path' h
  | scalar _ | map _ | set _ | pair _ _ =>
    rw [hfield] at h
    exact h

/-- The steps of a workflow do not depend on the path. -/
lemma steps_eq {path' : Option String} {table' : Table Entries}
    (h : steps workflow path = .ok table) (h' : steps workflow path' = .ok table') :
    table = table' := by
  have := (steps_path path' h).symm.trans h'
  cases this
  rfl

/-- Two steps with the same key are the same. -/
private lemma eq_of_key_eq (h : steps workflow path = .ok table) {e e' : String × Entries}
    (he : e ∈ table) (he' : e' ∈ table) (hkey : e.1 = e'.1) : e = e' := by
  have hget := (Table.get?_eq_some_iff (nodup_keys_steps h)).2 he
  rw [hkey, (Table.get?_eq_some_iff (nodup_keys_steps h)).2 he'] at hget
  exact Prod.ext hkey (Option.some.inj hget).symm

end Steps

/-! ## The depth of what a step runs -/

namespace Node

/-- An item of a list has no more levels than the items together. -/
private lemma depth_le_depthList {items : List Node} {n : Node} (h : n ∈ items) :
    n.depth ≤ depthList items := by
  induction items with
  | nil => cases h
  | cons item items ih =>
    rw [depthList]
    rcases List.mem_cons.1 h with rfl | h
    · exact Nat.le_max_left _ _
    · exact (ih h).trans (Nat.le_max_right _ _)

/-- A value of a map has no more levels than the values together. -/
private lemma depth_le_depthEntries {es : Entries} {e : Scalar × Node} (h : e ∈ es) :
    e.2.depth ≤ depthEntries es := by
  induction es with
  | nil => cases h
  | cons e' es ih =>
    obtain ⟨k, n⟩ := e'
    rw [depthEntries]
    rcases List.mem_cons.1 h with rfl | h
    · exact Nat.le_max_left _ _
    · exact (ih h).trans (Nat.le_max_right _ _)

/-- A field of a map is nested less deeply than the map. -/
private lemma depth_field_lt (es : Entries) (name : String) (h : ¬ (es.field name).isNull) :
    (es.field name).depth < (map es).depth := by
  unfold Entries.field at h ⊢
  cases hget : es.get? name with
  | none =>
    rw [hget] at h
    exact absurd rfl h
  | some n =>
    have hle : n.depth ≤ depthEntries es := depth_le_depthEntries (Entries.mem_of_get? hget)
    rw [Option.getD_some, depth]
    omega

end Node

/-- A step is nested less deeply than the workflow. -/
private lemma depth_stepNode_lt {workflow : Entries} {n : Node} (h : n ∈ workflow.stepNodes) :
    n.depth < (Node.map workflow).depth := by
  unfold Entries.stepNodes at h
  split at h
  · next es hs =>
    obtain ⟨e, he, rfl⟩ := List.mem_map.1 h
    have hstep := Node.depth_le_depthEntries he
    have hfield := Node.depth_field_lt workflow "steps" (by simp [hs, Node.isNull])
    rw [hs, Node.depth] at hfield
    omega
  · next items hs =>
    have hstep := Node.depth_le_depthList h
    have hfield := Node.depth_field_lt workflow "steps" (by simp [hs, Node.isNull])
    rw [hs, Node.depth] at hfield
    omega
  · cases h

/-- What a step runs is nested less deeply than the workflow. -/
lemma depth_run_lt {workflow : Entries} {path : Option String} {table : Table Entries}
    (h : steps workflow path = .ok table) {e : String × Entries} (he : e ∈ table) {run : Entries}
    (hrun : e.2.field "run" = .map run) : (Node.map run).depth < (Node.map workflow).depth := by
  obtain ⟨n, hn, hstep⟩ := exists_node_of_mem_steps h he
  obtain ⟨step, rfl⟩ : ∃ step, n = .map step := by
    cases n with
    | map step => exact ⟨step, rfl⟩
    | scalar _ | list _ | set _ | pair _ _ =>
      rw [hstep] at hrun
      cases hrun
  have hstep : e.2 = step := hstep
  have hlt := Node.depth_field_lt e.2 "run" (by simp [hrun, Node.isNull])
  rw [hrun, hstep] at hlt
  exact hlt.trans (depth_stepNode_lt hn)

/-! ## Steps at any depth -/

/-- The steps on the way to a step, with their keys, that step being the last one. -/
abbrev Trail := List (String × Entries)

/-- A trail leads to a step of a workflow, or to one of a workflow that a step runs, and so on. -/
inductive Entries.HasStep : Entries → Trail → Prop
  | own {workflow : Entries} {path : Option String} {table : Table Entries}
    {e : String × Entries} (hsteps : steps workflow path = .ok table) (hmem : e ∈ table) :
    HasStep workflow [e]
  | inner {workflow : Entries} {path : Option String} {table : Table Entries}
    {e : String × Entries} {run : Entries} {trail : Trail}
    (hsteps : steps workflow path = .ok table) (hmem : e ∈ table)
    (hrun : e.2.field "run" = .map run) (hclass : run.entryClass? = some .workflow)
    (h : HasStep run trail) : HasStep workflow (e :: trail)

namespace Entries.HasStep

variable {workflow : Entries} {trail trail' : Trail}

/-- A trail has a step. -/
lemma ne_nil (h : workflow.HasStep trail) : trail ≠ [] := by
  cases h <;> exact List.cons_ne_nil _ _

/-- A trail of one step is a step of the workflow. -/
lemma mem_of_singleton {path : Option String} {table : Table Entries} {e : String × Entries}
    (h : workflow.HasStep [e]) (hsteps : steps workflow path = .ok table) : e ∈ table := by
  cases h with
  | own hsteps' hmem => exact steps_eq hsteps' hsteps ▸ hmem
  | inner _ _ _ _ h => exact absurd rfl h.ne_nil

/-- A trail is determined by its keys. -/
lemma eq_of_keys (h : workflow.HasStep trail) (h' : workflow.HasStep trail')
    (hkeys : trail.map (·.1) = trail'.map (·.1)) : trail = trail' := by
  induction h generalizing trail' with
  | own hsteps hmem =>
    cases h' with
    | own hsteps' hmem' =>
      rw [steps_eq hsteps' hsteps] at hmem'
      rw [eq_of_key_eq hsteps hmem hmem' (List.cons.inj hkeys).1]
    | inner _ _ _ _ h' => exact absurd (List.cons.inj hkeys).2.symm (by simp [h'.ne_nil])
  | inner hsteps hmem hrun hclass h ih =>
    cases h' with
    | own _ _ => exact absurd (List.cons.inj hkeys).2 (by simp [h.ne_nil])
    | inner hsteps' hmem' hrun' hclass' h' =>
      rw [steps_eq hsteps' hsteps] at hmem'
      obtain rfl := eq_of_key_eq hsteps hmem hmem' (List.cons.inj hkeys).1
      rw [hrun] at hrun'
      cases hrun'
      rw [ih h' (List.cons.inj hkeys).2]

end Entries.HasStep

end CwlDescriptor

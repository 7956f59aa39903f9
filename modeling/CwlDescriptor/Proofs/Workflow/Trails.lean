import CwlDescriptor.Proofs.Workflow.Visits
set_option autoImplicit false

/-!
# The trails of visits

The visits of a workflow are listed with the trails to their steps, in two orders: the visits inside
of a visit come behind it, as the types of steps are recorded, or before it, as their images are. In
either order these are the trails to all steps, and none stands twice. The name of the node of a
step has the keys of its trail joined by dots; as long as no key has a dot, it determines the trail.

## Main definitions

* `Trail.label`, `Trail.node`: the keys of a trail joined by dots, and the name of the node.
* `Trail.Dotless`: no key of a trail has a dot.
* `Visit.trails`, `Visit.trailsAll`: the visits with their trails.

## Main results

* `Trail.node_inj`: dotless trails to steps of one workflow have different nodes.
* `visits_hasStep_iff`: the trails of the visits are the trails to the steps.
* `nodup_trailsAll`, `nodup_nodes`: no trail and no name stands twice.
-/

namespace CwlDescriptor

/-! ## Names -/

namespace Trail

variable {workflow : Entries} {t t' : Trail}

/-- The keys of a trail, joined by dots. -/
def label (t : Trail) : String := ".".intercalate (t.map (·.1))

/-- The name of the node of the step that a trail leads to. -/
def node (t : Trail) : String := nodePrefix ++ t.label

/-- No key of the trail has a dot. -/
def Dotless (t : Trail) : Prop := ∀ e ∈ t, '.' ∉ e.1.toList

instance (t : Trail) : Decidable t.Dotless :=
  inferInstanceAs (Decidable (∀ e ∈ t, '.' ∉ e.1.toList))

/-- The label of one step is its key. -/
@[simp] lemma label_singleton (e : String × Entries) : label [e] = e.1 :=
  String.intercalate_singleton

/-- The label of a trail begins with the key of its first step. -/
lemma label_cons (e : String × Entries) (h : t ≠ []) : label (e :: t) = e.1 ++ "." ++ label t :=
  String.intercalate_cons_of_ne_nil (by simpa using h)

/-- Dotless trails with the same label have the same keys. -/
private lemma keys_eq_of_label_eq (ht : t ≠ []) (ht' : t' ≠ []) (hdot : t.Dotless)
    (hdot' : t'.Dotless) (h : t.label = t'.label) : t.map (·.1) = t'.map (·.1) := by
  have hsplit : ∀ {s : Trail}, s ≠ [] → s.Dotless →
      s.label.toList.splitOn '.' = (s.map (·.1)).map String.toList := by
    intro s hs hdot
    rw [label, String.toList_intercalate]
    refine List.splitOn_intercalate '.' ?_ (by simpa using hs)
    intro chars hchars
    obtain ⟨key, hkey, rfl⟩ := List.mem_map.1 hchars
    obtain ⟨e, he, rfl⟩ := List.mem_map.1 hkey
    exact hdot e he
  have heq := hsplit ht hdot
  rw [h, hsplit ht' hdot'] at heq
  exact (List.map_injective_iff.2 (fun _ _ => String.toList_inj.1) heq).symm

/-- Dotless trails to steps of one workflow are the same if their nodes are. -/
lemma node_inj (ht : workflow.HasStep t) (ht' : workflow.HasStep t') (hdot : t.Dotless)
    (hdot' : t'.Dotless) (h : t.node = t'.node) : t = t' :=
  ht.eq_of_keys ht' <| keys_eq_of_label_eq ht.ne_nil ht'.ne_nil hdot hdot'
    ((String.append_right_inj _).1 h)

end Trail

/-! ## Visits with their trails -/

namespace Visit

mutual

/-- A visit and those inside of it, with the trails to their steps; the visits inside of one stand
behind it or before it. -/
def trails (outerFirst : Bool) : Visit → List (Trail × Visit)
  | ⟨key, step, type, path, image, inner⟩ =>
    let own := ([(key, step)], ⟨key, step, type, path, image, inner⟩)
    let within := (trailsAll outerFirst inner).map fun e => ((key, step) :: e.1, e.2)
    if outerFirst then own :: within else within ++ [own]

/-- Visits and those inside of them, with the trails to their steps. -/
def trailsAll (outerFirst : Bool) : List Visit → List (Trail × Visit)
  | [] => []
  | v :: vs => trails outerFirst v ++ trailsAll outerFirst vs

end

variable {outerFirst : Bool} {v : Visit} {vs : List Visit} {t : Trail} {u : Visit}

/-- The visits inside of a visit, with their trails. -/
def within (outerFirst : Bool) (v : Visit) : List (Trail × Visit) :=
  (trailsAll outerFirst v.inner).map fun e => (v.entry :: e.1, e.2)

/-- The trail of a visit stands in front of those inside it. -/
lemma trails_true (v : Visit) : v.trails true = ([v.entry], v) :: v.within true := by
  cases v
  rfl

/-- The trail of a visit stands behind those inside it. -/
lemma trails_false (v : Visit) : v.trails false = v.within false ++ [([v.entry], v)] := by
  cases v
  rfl

/-- The trails of visits are taken one after another. -/
lemma trailsAll_eq_flatMap (outerFirst : Bool) (vs : List Visit) :
    trailsAll outerFirst vs = vs.flatMap (trails outerFirst) := by
  induction vs with
  | nil => rfl
  | cons v vs ih => rw [trailsAll, ih, List.flatMap_cons]

/-- In either order there are the visit and those inside of it. -/
private lemma trails_perm (outerFirst : Bool) (v : Visit) :
    (v.trails outerFirst).Perm (([v.entry], v) :: v.within outerFirst) := by
  cases outerFirst with
  | true => rw [trails_true]
  | false =>
    rw [trails_false]
    exact List.perm_append_singleton _ _

/-- A trail of a visit is that of the visit itself, or one inside it behind its step. -/
lemma mem_trails : (t, u) ∈ v.trails outerFirst ↔
    t = [v.entry] ∧ u = v ∨ ∃ t', t = v.entry :: t' ∧ (t', u) ∈ trailsAll outerFirst v.inner := by
  rw [(trails_perm outerFirst v).mem_iff, List.mem_cons, Prod.mk.injEq, within, List.mem_map]
  refine or_congr_right ⟨?_, ?_⟩
  · rintro ⟨⟨t', u'⟩, hmem, h⟩
    cases h
    exact ⟨t', rfl, hmem⟩
  · rintro ⟨t', rfl, hmem⟩
    exact ⟨(t', u), hmem, rfl⟩

/-- A trail of visits is one of a visit among them. -/
lemma mem_trailsAll :
    (t, u) ∈ trailsAll outerFirst vs ↔ ∃ v ∈ vs, (t, u) ∈ v.trails outerFirst := by
  rw [trailsAll_eq_flatMap, List.mem_flatMap]

/-- A trail of a visit begins with its step. -/
lemma exists_cons_of_mem_trails (h : (t, u) ∈ v.trails outerFirst) : ∃ t', t = v.entry :: t' := by
  rcases mem_trails.1 h with ⟨rfl, -⟩ | ⟨t', rfl, -⟩
  · exact ⟨[], rfl⟩
  · exact ⟨t', rfl⟩

/-- A trail of visits has a step. -/
lemma ne_nil_of_mem_trailsAll (h : (t, u) ∈ trailsAll outerFirst vs) : t ≠ [] := by
  obtain ⟨v, -, hv⟩ := mem_trailsAll.1 h
  obtain ⟨t', rfl⟩ := exists_cons_of_mem_trails hv
  exact List.cons_ne_nil _ _

end Visit

section Steps

open Visit

variable {pathOfId : Node → Except Failure (Option String)} {workflow : Entries}
  {inherited : Option String} {vs : List Visit} {t : Trail}

/-- The trails of the visits are the trails to the steps. -/
lemma visits_hasStep_iff (h : visits pathOfId workflow inherited = .ok vs) (outerFirst : Bool) :
    workflow.HasStep t ↔ ∃ u, (t, u) ∈ trailsAll outerFirst vs := by
  refine visits_induction
    (P := fun workflow _ vs => ∀ t, workflow.HasStep t ↔ ∃ u, (t, u) ∈ trailsAll outerFirst vs)
    ?_ h t
  intro workflow _ _ path vs _ hsteps _ hinner t
  constructor
  · intro ht
    cases ht with
    | own hsteps' hmem =>
      rw [steps_eq hsteps' hsteps] at hmem
      obtain ⟨v, hv, rfl⟩ := List.mem_map.1 hmem
      exact ⟨v, mem_trailsAll.2 ⟨v, hv, mem_trails.2 (.inl ⟨rfl, rfl⟩)⟩⟩
    | inner hsteps' hmem hrun hclass ht =>
      rw [steps_eq hsteps' hsteps] at hmem
      obtain ⟨v, hv, rfl⟩ := List.mem_map.1 hmem
      rcases hinner v hv with ⟨run, hrun', -, hP⟩ | ⟨-, hno⟩
      · cases hrun'.symm.trans hrun
        obtain ⟨u, hu⟩ := (hP _).1 ht
        exact ⟨u, mem_trailsAll.2 ⟨v, hv, mem_trails.2 (.inr ⟨_, rfl, hu⟩)⟩⟩
      · exact absurd hclass (hno _ hrun)
  · rintro ⟨u, hu⟩
    obtain ⟨v, hv, hu⟩ := mem_trailsAll.1 hu
    have hmem : v.entry ∈ vs.map Visit.entry := List.mem_map_of_mem hv
    rcases mem_trails.1 hu with ⟨rfl, -⟩ | ⟨t', rfl, hbelow⟩
    · exact .own hsteps hmem
    · rcases hinner v hv with ⟨run, hrun, hclass, hP⟩ | ⟨hnil, -⟩
      · exact .inner hsteps hmem hrun hclass ((hP _).2 ⟨u, hbelow⟩)
      · rw [hnil] at hbelow
        cases hbelow

/-- Whether a key has a dot can be seen from the visits. -/
lemma dotless_of_visits (h : visits pathOfId workflow inherited = .ok vs) {outerFirst : Bool}
    (hdot : ∀ e ∈ trailsAll outerFirst vs, e.1.Dotless) (t : Trail) (ht : workflow.HasStep t) :
    t.Dotless := by
  obtain ⟨u, hu⟩ := (visits_hasStep_iff h outerFirst).1 ht
  exact hdot (t, u) hu

/-- No trail stands twice. -/
lemma nodup_trailsAll (h : visits pathOfId workflow inherited = .ok vs) (outerFirst : Bool) :
    ((trailsAll outerFirst vs).map (·.1)).Nodup := by
  refine visits_induction (P := fun _ _ vs => ((trailsAll outerFirst vs).map (·.1)).Nodup) ?_ h
  intro _ _ _ path vs _ hsteps _ hinner
  rw [trailsAll_eq_flatMap, List.map_flatMap, List.nodup_flatMap]
  refine ⟨fun v hv => ?_, ?_⟩
  · refine ((trails_perm outerFirst v).map _).nodup_iff.2 ?_
    rw [List.map_cons, List.nodup_cons]
    constructor
    · intro hmem
      obtain ⟨e, he, ht⟩ := List.mem_map.1 hmem
      obtain ⟨e', he', rfl⟩ := List.mem_map.1 he
      exact ne_nil_of_mem_trailsAll he' (List.cons.inj ht).2
    · have hnodup : ((trailsAll outerFirst v.inner).map (·.1)).Nodup := by
        rcases hinner v hv with ⟨_, -, -, hP⟩ | ⟨hnil, -⟩
        · exact hP
        · rw [hnil]
          exact List.nodup_nil
      have hmap : (v.within outerFirst).map (·.1) =
          ((trailsAll outerFirst v.inner).map (·.1)).map (v.entry :: ·) := by
        simp [within]
      rw [hmap]
      exact hnodup.map (List.cons_injective)
  · have hkeys : (vs.map Visit.entry).Nodup := (nodup_keys_steps hsteps).of_map
    rw [List.Nodup, List.pairwise_map] at hkeys
    refine hkeys.imp fun {v v'} hne => ?_
    intro t ht ht'
    obtain ⟨⟨_, u⟩, hmem, rfl⟩ := List.mem_map.1 ht
    obtain ⟨⟨_, u'⟩, hmem', heq⟩ := List.mem_map.1 ht'
    obtain ⟨t', rfl⟩ := exists_cons_of_mem_trails hmem
    obtain ⟨t'', rfl⟩ := exists_cons_of_mem_trails hmem'
    exact hne (List.cons.inj heq).1.symm

/-- If no key has a dot, then no two steps have the same node. -/
lemma nodup_nodes (h : visits pathOfId workflow inherited = .ok vs)
    (hdot : ∀ t, workflow.HasStep t → t.Dotless) (outerFirst : Bool) :
    ((trailsAll outerFirst vs).map (·.1.node)).Nodup := by
  have hmap : (trailsAll outerFirst vs).map (·.1.node) =
      ((trailsAll outerFirst vs).map (·.1)).map Trail.node := by
    simp
  have hstep : ∀ t ∈ (trailsAll outerFirst vs).map (·.1), workflow.HasStep t := by
    intro t ht
    obtain ⟨⟨_, u⟩, hmem, rfl⟩ := List.mem_map.1 ht
    exact (visits_hasStep_iff h outerFirst).2 ⟨u, hmem⟩
  rw [hmap]
  refine (nodup_trailsAll h outerFirst).map_on fun t ht t' ht' => ?_
  exact Trail.node_inj (hstep t ht) (hstep t' ht') (hdot t (hstep t ht)) (hdot t' (hstep t' ht'))

end Steps

end CwlDescriptor

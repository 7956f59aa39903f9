import CwlDescriptor.Proofs.Workflow.Encodings
import CwlDescriptor.Proofs.Workflow.Recording
set_option autoImplicit false

/-!
# Walks of workflows that say the same

Whether fields are written as lists or as maps makes no difference for a walk: two workflows that
say the same have the same record, or they are refused with the same kind of refusal and the same
path. Only the text of a refusal may differ, as it shows a part of the document.

## Main definitions

* `Failure.SameKind`: failures that differ at most in what is shown.
* `Except.Agrees`, `Walk.Agrees`: computations with related results, or with failures of one kind.

## Main results

* `steps_agrees`: the steps of workflows that say the same.
* `Walker.walkWithin_agrees`: walks of workflows that say the same, level by level.
* `Walker.walk_recoded`: the whole walk, and the nodes before and after all steps.
-/

namespace CwlDescriptor

/-! ## Failures of one kind -/

/-- Two failures are refusals of one kind with the same path, or they are the same. -/
inductive Failure.SameKind : Failure → Failure → Prop
  | refused {r r' : Refusal} (hkind : r.cause.kind = r'.cause.kind) (hpath : r.path = r'.path) :
    SameKind (.refused r) (.refused r')
  | same (e : Failure) : SameKind e e

namespace Except

variable {α α' β β' : Type} {P : α → α' → Prop} {Q : β → β' → Prop}

/-- Two computations have related results, or they fail with failures of one kind. -/
inductive Agrees (P : α → α' → Prop) : Except Failure α → Except Failure α' → Prop
  | ok {a : α} {a' : α'} (h : P a a') : Agrees P (.ok a) (.ok a')
  | error {e e' : Failure} (h : e.SameKind e') : Agrees P (.error e) (.error e')

/-- A result agrees with itself. -/
lemma Agrees.refl {P : α → α → Prop} (hP : ∀ a, P a a) (x : Except Failure α) : Agrees P x x := by
  cases x with
  | ok a => exact .ok (hP a)
  | error e => exact .error (.same e)

/-- Sequences agree if their first parts do and their second parts do for results that agree. -/
lemma Agrees.bind {x : Except Failure α} {x' : Except Failure α'} {f : α → Except Failure β}
    {f' : α' → Except Failure β'} (hx : Agrees P x x')
    (hf : ∀ a a', P a a' → Agrees Q (f a) (f' a')) : Agrees Q (x >>= f) (x' >>= f') := by
  cases hx with
  | ok h => exact hf _ _ h
  | error h => exact .error h

/-- Functions agree for results that agree. -/
lemma Agrees.map {x : Except Failure α} {x' : Except Failure α'} {f : α → β} {f' : α' → β'}
    (hx : Agrees P x x') (hf : ∀ a a', P a a' → Q (f a) (f' a')) :
    Agrees Q (f <$> x) (f' <$> x') := by
  cases hx with
  | ok h => exact .ok (hf _ _ h)
  | error h => exact .error h

end Except

open CwlDescriptor.Except

/-- What is shown of two maps that say the same may differ, but the refusal is of one kind. -/
private lemma agrees_refuse_shown {es es' : Entries} (h : es.Recodes es') {cause : String → Cause}
    (hkind : ∀ text text', (cause text).kind = (cause text').kind) {α α' : Type}
    {P : α → α' → Prop} (path : Option String) :
    Agrees P ((Node.map es).shown >>= fun text => .error (.refuse (cause text) path))
      ((Node.map es').shown >>= fun text => .error (.refuse (cause text) path)) := by
  have hlegible : (Node.map es).quoted?.isSome ↔ (Node.map es').quoted?.isSome :=
    (Node.RecodesAt.run h).legible
  cases hes : (Node.map es).shown with
  | ok text =>
    obtain ⟨text', hes', -⟩ := Node.shown_of_quoted id id hlegible.1 hes
    rw [hes']
    exact .error (.refused (hkind text text') rfl)
  | error e =>
    cases hes' : (Node.map es').shown with
    | ok text' =>
      obtain ⟨text, htext, -⟩ := Node.shown_of_quoted id id hlegible.2 hes'
      cases hes.symm.trans htext
    | error e' =>
      rw [Node.shown_eq_error hes, Node.shown_eq_error hes']
      exact .error (.same _)

/-! ## Steps -/

/-- Steps with the same keys that say the same, except perhaps for their ids. -/
def TablesRecode : Table Entries → Table Entries → Prop :=
  List.Forall₂ fun e e' => e.1 = e'.1 ∧ e.2.FieldsRecode e'.2

/-- An id that begins with no number sign is its own normal form. -/
private lemma stepId_eq_self {key : String} (h : key.toList.head? ≠ some '#') :
    stepId (.str key) = .ok key := by
  have hdrop : key.toList.dropWhile (· = '#') = key.toList := by
    cases hkey : key.toList with
    | nil => rfl
    | cons c chars =>
      have hc : c ≠ '#' := by
        rintro rfl
        exact h (by rw [hkey]; rfl)
      simp [hc]
  have hstep : stepId (.str key) = .ok (String.ofList (key.toList.dropWhile (· = '#'))) := rfl
  rw [hstep, hdrop, String.ofList_toList]

/-- A step with an id without a mark is read under this id. -/
private lemma FieldRow.step_of_id {step : Entries} {key : String} (hid : step.field "id" = .str key)
    (hmark : key.toList.head? ≠ some '#') (path : Option String) :
    FieldRow.step path (none, .map step) = .ok (key, step) := by
  have hfield : (Node.map step).field "id" = .str key := hid
  rw [FieldRow.step, hfield, stepId_eq_self hmark]
  rfl

/-- The fields of a map say the same as themselves. -/
lemma Entries.FieldsRecode.refl (es : Entries) : es.FieldsRecode es := fun _ _ => .same _ _

/-- Rows that say the same have the same key, or they are refused with one kind of refusal. -/
private lemma StepRecodes.step_agrees {row row' : FieldRow} (h : StepRecodes row row')
    (path : Option String) :
    Agrees (fun e e' => e.1 = e'.1 ∧ e.2.FieldsRecode e'.2) (row.step path) (row'.step path) := by
  cases h with
  | same row => exact .refl (fun e => ⟨rfl, .refl e.2⟩) _
  | @inner k step step' h =>
    cases k with
    | none =>
      have hid : (Node.map step).field "id" = (Node.map step').field "id" := h.id_eq
      rw [FieldRow.step, FieldRow.step, hid]
      split_ifs
      · exact agrees_refuse_shown h (fun _ _ => rfl) path
      · exact (Agrees.refl (fun _ => rfl) _).map fun _ _ hkey => ⟨hkey, h.fieldsRecode⟩
    | some key =>
      exact (Agrees.refl (fun _ => rfl) _).map fun _ _ hkey => ⟨hkey, h.fieldsRecode⟩
  | named hid hmark _ h =>
    rw [FieldRow.step_of_id hid hmark]
    exact .ok ⟨rfl, h.fieldsRecode_of_erase⟩
  | listed hid hmark _ h =>
    rw [FieldRow.step_of_id hid hmark]
    exact .ok ⟨rfl, h.fieldsRecode_of_erase⟩

/-- Steps row by row say the same in both forms, or fail alike. -/
private lemma StepsRecode.mapM_agrees {rows rows' : List FieldRow} (h : StepsRecode rows rows')
    (path : Option String) :
    Agrees TablesRecode (rows.mapM (FieldRow.step path)) (rows'.mapM (FieldRow.step path)) := by
  induction rows generalizing rows' with
  | nil =>
    cases h
    exact .ok .nil
  | cons row rows ih =>
    cases h with
    | cons hrow hrows =>
      rw [List.mapM_cons, List.mapM_cons]
      refine (hrow.step_agrees path).bind fun e e' he => ?_
      exact (ih hrows).map fun _ _ htable => .cons he htable

/-- The steps of workflows that say the same have the same keys and say the same, or both are
refused with one kind of refusal. -/
lemma steps_agrees {es es' : Entries} (h : es.Recodes es') (path : Option String) :
    Agrees TablesRecode (steps es path) (steps es' path) := by
  rcases (h.field "steps").steps_cases rfl with heq | ⟨rows, rows', hn, hn', hrows⟩
  · have hsteps : steps es path = steps es' path := by
      unfold steps
      rw [heq]
    rw [hsteps]
    exact .refl (fun table => List.forall₂_same.2 fun e _ => ⟨rfl, .refl e.2⟩) _
  · rw [steps_eq_mapM hn, steps_eq_mapM hn']
    exact (hrows.mapM_agrees path).map fun _ _ htable =>
      Table.Related.insertAll (R := Entries.FieldsRecode) htable .nil

/-! ## Walks -/

namespace Walk

variable {α β : Type}

/-- Two computations that begin with the same record end with the same result and the same record,
or they fail with failures of one kind. -/
def Agrees (m m' : Walk α) : Prop := ∀ r, Except.Agrees Eq (m.outcome r) (m'.outcome r)

/-- A walk agrees with itself. -/
lemma Agrees.refl (m : Walk α) : m.Agrees m := fun _ => .refl (fun _ => rfl) _

/-- Walks in sequence agree if both of their parts do. -/
lemma Agrees.bind {m m' : Walk α} {f f' : α → Walk β} (hm : m.Agrees m')
    (hf : ∀ a, (f a).Agrees (f' a)) : (m >>= f).Agrees (m' >>= f') := by
  intro r
  rw [outcome_bind, outcome_bind]
  refine (hm r).bind ?_
  rintro ⟨a, r'⟩ _ rfl
  exact hf a r'

/-- Walks agree behind results that agree. -/
private lemma Agrees.bind_lift {α' : Type} {P : α → α' → Prop} {x : Except Failure α}
    {x' : Except Failure α'} {f : α → Walk β} {f' : α' → Walk β} (hx : Except.Agrees P x x')
    (hf : ∀ a a', P a a' → (f a).Agrees (f' a')) :
    (Walker.lift x >>= f).Agrees (Walker.lift x' >>= f') := by
  intro r
  rw [outcome_bind, outcome_bind, outcome_lift, outcome_lift, bind_map_left, bind_map_left]
  exact hx.bind fun a a' h => hf a a' h r

/-- Walks over lists agree if they do for the items in turn. -/
lemma Agrees.forM {α' : Type} {P : α → α' → Prop} {f : α → Walk Unit} {f' : α' → Walk Unit}
    {items : List α} {items' : List α'} (h : List.Forall₂ P items items')
    (hf : ∀ a a', P a a' → (f a).Agrees (f' a')) : Agrees (items.forM f) (items'.forM f') := by
  induction h with
  | nil => exact .refl _
  | cons ha _ ih => exact (hf _ _ ha).bind fun _ => ih

/-- Computations that agree end with the same record, or both fail. -/
lemma Agrees.run_cases {m m' : Walk α} (h : m.Agrees m') (r : WalkResult) :
    (∃ a r', m.run r = .ok a r' ∧ m'.run r = .ok a r') ∨
    ∃ e e' r' r'', m.run r = .error e r' ∧ m'.run r = .error e' r'' ∧ e.SameKind e' := by
  have hr := h r
  generalize hm : m.outcome r = x at hr
  generalize hm' : m'.outcome r = x' at hr
  cases hr with
  | @ok p _ heq =>
    subst heq
    exact .inl ⟨p.1, p.2, outcome_eq_ok.1 hm, outcome_eq_ok.1 hm'⟩
  | error hsame =>
    obtain ⟨r', hrun⟩ := outcome_eq_error.1 hm
    obtain ⟨r'', hrun'⟩ := outcome_eq_error.1 hm'
    exact .inr ⟨_, _, r', r'', hrun, hrun', hsame⟩

end Walk

namespace Walker

variable {w : Walker} {inner inner' : Inner}

/-- Maps that say the same and are no entries are refused with one kind of refusal. -/
private lemma unhandledRun_agrees {run run' : Entries} (h : run.Recodes run') {α : Type}
    (path : Option String) :
    Walk.Agrees
      (lift (Node.map run).shown >>= fun text =>
        (throw (.refuse (.unhandledRun text) path) : Walk α))
      (lift (Node.map run').shown >>= fun text =>
        throw (.refuse (.unhandledRun text) path)) := by
  intro r
  simp only [Walk.outcome_bind, Walk.outcome_lift, bind_map_left, Walk.outcome_throw]
  exact agrees_refuse_shown h (fun _ _ => rfl) path

/-- Targets that say the same are visited in the same way if this holds of the workflows inside. -/
private lemma visitTarget_agrees (hinner : ∀ {run run'}, Entries.Recodes run run' → ∀ image node,
      (inner run image node).Agrees (inner' run' image node)) {target target' : Node}
    (h : Node.RecodesAt (.str "run") target target') (workflowPath : Option String) (node : String)
    (image : Option String) :
    (w.visitTarget inner workflowPath node image target).Agrees
      (w.visitTarget inner' workflowPath node image target') := by
  have hmaps : ∀ {run run'}, Entries.Recodes run run' →
      (w.visitTarget inner workflowPath node image (.map run)).Agrees
        (w.visitTarget inner' workflowPath node image (.map run')) := by
    intro run run' h
    have hclass := h.fieldsRecode.entryClass?_eq
    have himage := h.fieldsRecode.effectiveImage_eq
    have hid : (Node.map run).field "id" = (Node.map run').field "id" := h.id_eq
    unfold visitTarget
    cases hrun : run.entryClass? with
    | none =>
      simp only [← hclass, hrun]
      exact unhandledRun_agrees h workflowPath
    | some c =>
      simp only [← hclass, hrun, himage, hid]
      refine .bind (.refl _) fun image => .bind (.refl _) fun _ => ?_
      split_ifs
      · exact .bind (hinner h image node) fun _ => .refl _
      · exact .refl _
  rcases h.run_cases rfl with rfl | ⟨run, run', rfl, rfl, hrun⟩
  · cases target with
    | map run => exact hmaps (.refl run)
    | scalar value => cases value <;> exact .refl _
    | list _ | set _ | pair _ _ => exact .refl _
  · exact hmaps hrun

/-- Steps that say the same are visited in the same way. -/
private lemma visit_agrees (hinner : ∀ {run run'}, Entries.Recodes run run' → ∀ image node,
      (inner run image node).Agrees (inner' run' image node)) {step step' : Entries}
    (h : step.FieldsRecode step') (workflowPath image : Option String) (depth : Int)
    (parent : Option String) (key : String) :
    (w.visit inner workflowPath image depth parent key step).Agrees
      (w.visit inner' workflowPath image depth parent key step') := by
  have hdeps : ∀ node, addDependencies node step = addDependencies node step' := by
    intro node
    unfold addDependencies
    rw [h.stepDependencies_eq]
  have htarget : ∀ after : Option String × Option String → Walk Unit, Walk.Agrees
      (lift (effectiveImage step' image) >>= fun image =>
        w.visitTarget inner workflowPath (nodeName parent key) image (step.field "run") >>= after)
      (lift (effectiveImage step' image) >>= fun image =>
        w.visitTarget inner' workflowPath (nodeName parent key) image (step'.field "run") >>=
          after) := fun after =>
    .bind (.refl _) fun image =>
      .bind (visitTarget_agrees hinner (h "run" (by decide)) _ _ image) fun _ => .refl _
  unfold visit
  simp only [hdeps, h.effectiveImage_eq]
  by_cases hdepth : depth = 0
  · rw [if_pos hdepth, if_pos hdepth]
    exact .bind (.refl _) fun _ => htarget _
  · rw [if_neg hdepth, if_neg hdepth]
    exact htarget _

/-- The visits of the steps of workflows that say the same agree. -/
private lemma visitAll_agrees (hinner : ∀ {run run'}, Entries.Recodes run run' → ∀ image node,
      (inner run image node).Agrees (inner' run' image node)) {workflow workflow' : Entries}
    (h : workflow.Recodes workflow') (inherited : Option String) (depth : Int)
    (parent : Option String) :
    (w.visitAll inner workflow inherited depth parent).Agrees
      (w.visitAll inner' workflow' inherited depth parent) := by
  unfold visitAll
  rw [h.fieldsRecode.effectiveImage_eq, h.id_eq]
  refine .bind (.refl _) fun image => .bind (.refl _) fun path => ?_
  refine .bind_lift (steps_agrees h path) fun table table' htable => .forM htable ?_
  rintro ⟨key, step⟩ ⟨_, step'⟩ ⟨rfl, hstep⟩
  exact visit_agrees hinner hstep path image depth parent key

/-- Workflows that say the same are visited in the same way, down to the same level. -/
lemma walkWithin_agrees (levels : Nat) {workflow workflow' : Entries}
    (h : workflow.Recodes workflow') (inherited : Option String) (depth : Int)
    (parent : Option String) :
    (w.walkWithin levels workflow inherited depth parent).Agrees
      (w.walkWithin levels workflow' inherited depth parent) := by
  induction levels generalizing workflow workflow' inherited depth parent with
  | zero => exact .refl _
  | succ levels ih =>
    exact visitAll_agrees (fun h image node => ih h image (depth + 1) (some node)) h inherited depth
      parent

/-- More levels than there are make no difference for a walk. -/
private lemma outcome_walkWithin_eq_walk {levels : Nat} {workflow : Entries}
    (h : (Node.map workflow).depth ≤ levels) (inherited : Option String) (r : WalkResult) :
    (w.walkWithin levels workflow inherited 0 none).outcome r =
      (w.walk workflow inherited 0 none).outcome r := by
  rw [outcome_walkWithin r le_rfl, outcome_walk r le_rfl, visitsWithin_eq_visits h]

/-- The walks of workflows that say the same agree. -/
private lemma walk_agrees {workflow workflow' : Entries} (h : workflow.Recodes workflow')
    (inherited : Option String) :
    (w.walk workflow inherited 0 none).Agrees (w.walk workflow' inherited 0 none) := by
  intro r
  have hleft := Nat.le_max_left (Node.map workflow).depth (Node.map workflow').depth
  have hright := Nat.le_max_right (Node.map workflow).depth (Node.map workflow').depth
  rw [← outcome_walkWithin_eq_walk hleft, ← outcome_walkWithin_eq_walk hright]
  exact walkWithin_agrees _ h inherited 0 none r

/-- **List forms and map forms mean the same.** Let two workflows say the same: they differ only in
whether, at any depth, requirements, hints, inputs, outputs and steps are in list form or in map
form. Then two walks of them end with the same record, to which the same nodes before and after all
steps are added, or both are refused with the same kind of refusal and the same path.

**Proof sketch.** The steps of the two workflows have the same keys, in the same order, and say the
same. By induction on the levels, each of them is visited in the same way: it has the same image and
the same dependencies, since these are read of items with the same fields, and what it runs says the
same. A refusal shows a part of the document, but whether this can be shown at all is the same for
both. As the two forms are nested in different numbers of levels, both walks are compared at the
greater one. -/
theorem walk_recoded {workflow workflow' : Entries} (h : workflow.Recodes workflow')
    (inherited : Option String) :
    (∃ r, (w.walk workflow inherited 0 none).run {} = .ok () r ∧
      (w.walk workflow' inherited 0 none).run {} = .ok () r ∧
      addSyntheticNodes workflow r = addSyntheticNodes workflow' r) ∨
    ∃ e e' r r', (w.walk workflow inherited 0 none).run {} = .error e r ∧
      (w.walk workflow' inherited 0 none).run {} = .error e' r' ∧ e.SameKind e' := by
  rcases (walk_agrees h inherited).run_cases {} with ⟨_, r, hwalk, hwalk'⟩ | hfails
  · refine .inl ⟨r, hwalk, hwalk', ?_⟩
    unfold addSyntheticNodes
    rw [h.outputDependencies_eq]
  · exact .inr hfails

end Walker

/-! ## A workflow in two forms -/

/-- A workflow that hints at an image. -/
def indexing (hints steps : Node) : Entries :=
  [(.str "class", .str "Workflow"), (.str "hints", hints), (.str "steps", steps)]

/-- A step that runs a workflow. -/
def sortStep (inputs : Node) (run : Entries) : Entries :=
  [(.str "in", inputs), (.str "run", .map run)]

/-- A workflow that requires an image. -/
def sorting (requirements outputs steps : Node) : Entries :=
  [(.str "class", .str "Workflow"), (.str "requirements", requirements), (.str "outputs", outputs),
    (.str "steps", steps)]

/-- The inner workflow with maps. -/
def indexingNamed : Entries :=
  indexing (.map [(.str "DockerRequirement", .map [(.str "dockerPull", .str "samtools")])])
    (.map [(.str "index", .map [(.str "run", .str "index.cwl")])])

/-- The inner workflow with lists. -/
def indexingListed : Entries :=
  indexing
    (.list [.map [(.str "dockerPull", .str "samtools"), (.str "class", .str "DockerRequirement")]])
    (.list [.map [(.str "id", .str "index"), (.str "run", .str "index.cwl")]])

/-- A workflow with lists, except for its outputs and the inner workflow. -/
def sortingListed : Entries :=
  sorting
    (.list [.map [(.str "class", .str "DockerRequirement"), (.str "dockerPull", .str "ubuntu")]])
    (.map [(.str "o", .map [(.str "outputSource", .str "sort/bam")])])
    (.list [.map ((.str "id", .str "sort") ::
      sortStep (.list [.map [(.str "id", .str "x"), (.str "source", .str "reads/bam")]])
        indexingNamed)])

/-- The same workflow with maps instead of lists and lists instead of maps. -/
def sortingNamed : Entries :=
  sorting (.map [(.str "DockerRequirement", .map [(.str "dockerPull", .str "ubuntu")])])
    (.list [.map [(.str "id", .str "o"), (.str "outputSource", .str "sort/bam")]])
    (.map [(.str "sort", .map (sortStep (.map [(.str "x", .str "reads/bam")]) indexingListed))])

/-- The two forms of the tool that indexes say the same. -/
private lemma indexingNamed_recodes : indexingNamed.Recodes indexingListed := by
  refine .cons (.same _ _) (.cons ?hints (.cons ?steps .nil))
  case hints => exact .form rfl rfl rfl (.cons (.listed (.rest rfl (.inl rfl) rfl)) .nil)
  case steps =>
    exact .steps rfl rfl (.cons (.listed rfl (by decide) (.inl rfl) (.refl _)) .nil)

/-- The two forms of the step that sorts say the same. -/
private lemma sortStep_recodes :
    (sortStep (.list [.map [(.str "id", .str "x"), (.str "source", .str "reads/bam")]])
      indexingNamed).Recodes
        (sortStep (.map [(.str "x", .str "reads/bam")]) indexingListed) := by
  refine .cons ?inputs (.cons (.run indexingNamed_recodes) .nil)
  exact .form rfl rfl rfl (.cons (.named (.short rfl rfl rfl)) .nil)

/-- The two forms of the workflow say the same. -/
private lemma sortingListed_recodes : sortingListed.Recodes sortingNamed := by
  refine .cons (.same _ _) (.cons ?requirements (.cons ?outputs (.cons ?steps .nil)))
  case requirements => exact .form rfl rfl rfl (.cons (.named (.rest rfl (.inl rfl) rfl)) .nil)
  case outputs => exact .form rfl rfl rfl (.cons (.listed (.rest rfl (.inl rfl) rfl)) .nil)
  case steps =>
    exact .steps rfl rfl (.cons (.named rfl (by decide) (.inl rfl) sortStep_recodes) .nil)

/-- Five fields at two depths are in different forms, and the records are the same. -/
theorem sorting_walk_recoded :
    sortingListed.Recodes sortingNamed ∧
    ∃ r, (Walker.plain.walk sortingListed none 0 none).run {} = .ok () r ∧
      (Walker.plain.walk sortingNamed none 0 none).run {} = .ok () r ∧
      addSyntheticNodes sortingListed r = addSyntheticNodes sortingNamed r ∧
      r.images.map (fun e => (e.1, e.2.image)) =
        [("dockstore_sort.index", some "samtools"), ("dockstore_sort", some "samtools")] := by
  obtain ⟨r, hwalk, himages⟩ : ∃ r,
      (Walker.plain.walk sortingListed none 0 none).run {} = .ok () r ∧
      r.images.map (fun e => (e.1, e.2.image)) =
        [("dockstore_sort.index", some "samtools"), ("dockstore_sort", some "samtools")] :=
    ⟨_, rfl, by decide⟩
  refine ⟨sortingListed_recodes, r, hwalk, ?_⟩
  rcases Walker.walk_recoded sortingListed_recodes none with
    ⟨r', hwalk', hnamed, hnodes⟩ | ⟨e, _, _, _, hfails, -⟩
  · cases hwalk.symm.trans hwalk'
    exact ⟨hnamed, hnodes, himages⟩
  · cases hwalk.symm.trans hfails

end CwlDescriptor

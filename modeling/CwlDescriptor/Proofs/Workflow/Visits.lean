import CwlDescriptor.Proofs.Workflow.Steps
set_option autoImplicit false

/-!
# What a walk finds

What the visits of steps find depends neither on what was recorded before nor on the names of the
nodes: it can be read off the workflow. A visit finds the type of what the step runs, the path of
its file and its image, and if it is a workflow, the visits of the steps inside. This reading fails
where the walk fails, and for the same reason.

## Main definitions

* `Visit`: what the visit of a step finds.
* `visitsWithin`, `visits`: the visits of the steps of a workflow.
* `stepImage`: the image that is recorded for a step.
* `Visit.Finds`: what the visit of a step finds where the reading succeeds.

## Main results

* `visits_eq`: the reading as an equation without a bound on the levels.
* `visits_eq_ok`, `visits_induction`: what has been read, and how to argue about it.
-/

namespace CwlDescriptor

/-- What the visit of a step finds. -/
structure Visit where
  key : String
  step : Entries
  type : TargetType
  /-- The path of the file of what the step runs. -/
  path : Option String
  image : Option String
  /-- The visits of the steps of the workflow that the step runs. -/
  inner : List Visit

namespace Visit

/-- The step with its key. -/
def entry (v : Visit) : String × Entries := (v.key, v.step)

end Visit

/-! ## Reading the visits -/

section Reading

variable (pathOfId : Node → Except Failure (Option String))

/-- The visits of the steps of a workflow, given the image around it. -/
abbrev Reading := Entries → Option String → Except Failure (List Visit)

/-- The visits inside of what a step runs, which has steps if it is a workflow. -/
def innerVisits (read : Reading) (c : EntryClass) : Reading := fun run image =>
  if c = .workflow then read run image else .ok []

/-- The visit of a step, given the image of the step. -/
def targetVisit (read : Reading) (workflowPath : Option String) (e : String × Entries)
    (image : Option String) : Except Failure Visit :=
  match e.2.field "run" with
  | .map run =>
    match Entries.entryClass? run with
    | none => do .error (.refuse (.unhandledRun (← (Node.map run).shown)) workflowPath)
    | some c => do
      let image ← effectiveImage run image
      let inner ← innerVisits read c run image
      let path ← pathOfId (Entries.field run "id")
      return ⟨e.1, e.2, .ofClass c, path, image, inner⟩
  | .scalar (.str path) => .ok ⟨e.1, e.2, .notApplicable, some path, image, []⟩
  | target => do .error (.refuse (.unhandledRun (← target.shown)) workflowPath)

/-- The visit of a step, given the image around it. -/
def stepVisit (read : Reading) (workflowPath image : Option String) (e : String × Entries) :
    Except Failure Visit := do
  let image ← effectiveImage e.2 image
  targetVisit pathOfId read workflowPath e image

/-- The visits of the steps of a workflow, where those inside of them are read as given. -/
def stepVisits (read : Reading) : Reading := fun workflow inherited => do
  let image ← effectiveImage workflow inherited
  let path ← pathOfId (workflow.field "id")
  let table ← steps workflow path
  table.mapM (stepVisit pathOfId read path image)

/-- The visits of the steps of a workflow in which no more than `levels` workflows are nested in
each other. -/
def visitsWithin : Nat → Reading
  | 0 => fun _ _ => .error .exhausted
  | levels + 1 => stepVisits pathOfId (visitsWithin levels)

/-- The visits of the steps of a workflow. -/
def visits : Reading := fun workflow inherited =>
  visitsWithin pathOfId (Node.depth (.map workflow)) workflow inherited

end Reading

/-! ## The number of levels -/

section Levels

variable {pathOfId : Node → Except Failure (Option String)}

/-- The visit of a step depends on how what it runs is read. -/
private lemma stepVisit_congr {read read' : Reading} {e : String × Entries}
    (h : ∀ run, e.2.field "run" = .map run → read run = read' run)
    (workflowPath image : Option String) :
    stepVisit pathOfId read workflowPath image e =
      stepVisit pathOfId read' workflowPath image e := by
  have htarget : targetVisit pathOfId read workflowPath e =
      targetVisit pathOfId read' workflowPath e := by
    unfold targetVisit
    split
    · next run hrun => simp only [innerVisits, h run hrun]
    · rfl
    · rfl
  rw [stepVisit, stepVisit, htarget]

/-- Two readings that agree on all workflows inside of a workflow agree on it. -/
private lemma stepVisits_congr {read read' : Reading} {workflow : Entries}
    (h : ∀ run, (Node.map run).depth < (Node.map workflow).depth → read run = read' run) :
    stepVisits pathOfId read workflow = stepVisits pathOfId read' workflow := by
  funext inherited
  unfold stepVisits
  refine bind_congr fun image => bind_congr fun path => ?_
  cases hsteps : steps workflow path with
  | error e => rfl
  | ok table =>
    show table.mapM _ = table.mapM _
    refine Except.mapM_congr fun e he => ?_
    exact stepVisit_congr (fun run hrun => h run (depth_run_lt hsteps he hrun)) path image

/-- With enough levels, the visits do not depend on the number of levels. -/
private lemma visitsWithin_congr {levels levels' : Nat} {workflow : Entries}
    (h : (Node.map workflow).depth ≤ levels) (h' : (Node.map workflow).depth ≤ levels') :
    visitsWithin pathOfId levels workflow = visitsWithin pathOfId levels' workflow := by
  have hpos : 0 < (Node.map workflow).depth := by
    rw [Node.depth]
    omega
  induction levels generalizing levels' workflow with
  | zero => omega
  | succ levels ih =>
    obtain ⟨levels', rfl⟩ : ∃ n, levels' = n + 1 := ⟨levels' - 1, by omega⟩
    refine stepVisits_congr fun run hrun => ?_
    refine ih (by omega) (by omega) ?_
    rw [Node.depth]
    omega

/-- More levels than a workflow has make no difference. -/
lemma visitsWithin_eq_visits {levels : Nat} {workflow : Entries}
    (h : (Node.map workflow).depth ≤ levels) :
    visitsWithin pathOfId levels workflow = visits pathOfId workflow :=
  visitsWithin_congr h le_rfl

/-- The visits of the steps of a workflow, without a bound on the levels. -/
lemma visits_eq (workflow : Entries) :
    visits pathOfId workflow = stepVisits pathOfId (visits pathOfId) workflow := by
  rw [← visitsWithin_eq_visits (Nat.le_succ _)]
  exact stepVisits_congr fun run hrun => visitsWithin_eq_visits hrun.le

end Levels

/-! ## What has been read -/

/-- What the visit of a step finds, given the image around it, where nothing is refused. -/
inductive Visit.Finds (pathOfId : Node → Except Failure (Option String)) (image : Option String) :
    Visit → Prop
  /-- The step runs an entry. -/
  | entry {key : String} {step run : Entries} {c : EntryClass}
    {stepImage runImage path : Option String} {inner : List Visit}
    (hrun : step.field "run" = .map run) (hclass : Entries.entryClass? run = some c)
    (hstep : effectiveImage step image = .ok stepImage)
    (himage : effectiveImage run stepImage = .ok runImage)
    (hinner : innerVisits (visits pathOfId) c run runImage = .ok inner)
    (hpath : pathOfId (Entries.field run "id") = .ok path) :
    Finds pathOfId image ⟨key, step, .ofClass c, path, runImage, inner⟩
  /-- The step runs a file that does not exist. -/
  | file {key path : String} {step : Entries} {stepImage : Option String}
    (hrun : step.field "run" = .str path) (hstep : effectiveImage step image = .ok stepImage) :
    Finds pathOfId image ⟨key, step, .notApplicable, some path, stepImage, []⟩

/-- The image of a step, which is that of what it runs, given the image around it. -/
def stepImage (step : Entries) (around : Option String) : Except Failure (Option String) := do
  let own ← effectiveImage step around
  match step.field "run" with
  | .map run => effectiveImage run own
  | _ => return own

section Read

variable {pathOfId : Node → Except Failure (Option String)}

/-- The visit of a step holds the step. -/
lemma entry_of_targetVisit {read : Reading} {workflowPath image : Option String}
    {e : String × Entries} {v : Visit}
    (h : targetVisit pathOfId read workflowPath e image = .ok v) : v.entry = e := by
  unfold targetVisit at h
  split at h
  · split at h
    · obtain ⟨_, -, h⟩ := Except.bind_eq_ok.1 h
      cases h
    · simp only [Except.bind_eq_ok] at h
      obtain ⟨_, -, _, -, _, -, h⟩ := h
      cases h
      rfl
  · cases h
    rfl
  · obtain ⟨_, -, h⟩ := Except.bind_eq_ok.1 h
    cases h

/-- A visit of a step is one of this step, with what is found there. -/
private lemma stepVisit_eq_ok {workflowPath image : Option String} {e : String × Entries}
    {v : Visit} (h : stepVisit pathOfId (visits pathOfId) workflowPath image e = .ok v) :
    v.entry = e ∧ v.Finds pathOfId image := by
  obtain ⟨stepImage, hstep, h⟩ := Except.bind_eq_ok.1 h
  unfold targetVisit at h
  split at h
  · next run hrun =>
    split at h
    · obtain ⟨text, -, h⟩ := Except.bind_eq_ok.1 h
      cases h
    · next c hclass =>
      simp only [Except.bind_eq_ok] at h
      obtain ⟨runImage, himage, inner, hinner, path, hpath, h⟩ := h
      cases h
      exact ⟨rfl, .entry hrun hclass hstep himage hinner hpath⟩
  · next path hrun =>
    cases h
    exact ⟨rfl, .file hrun hstep⟩
  · obtain ⟨text, -, h⟩ := Except.bind_eq_ok.1 h
    cases h

/-- The visits of steps are those of these steps in turn, with what is found there. -/
private lemma mapM_stepVisit_eq_ok {workflowPath image : Option String} {table : Table Entries}
    {vs : List Visit}
    (h : table.mapM (stepVisit pathOfId (visits pathOfId) workflowPath image) = .ok vs) :
    table = vs.map Visit.entry ∧ ∀ v ∈ vs, v.Finds pathOfId image := by
  induction table generalizing vs with
  | nil =>
    cases h
    exact ⟨rfl, by simp⟩
  | cons e table ih =>
    rw [List.mapM_cons] at h
    simp only [Except.bind_eq_ok] at h
    obtain ⟨v, hv, vs', hvs, h⟩ := h
    cases h
    obtain ⟨rfl, hfinds⟩ := stepVisit_eq_ok hv
    obtain ⟨rfl, hall⟩ := ih hvs
    exact ⟨rfl, List.forall_mem_cons.2 ⟨hfinds, hall⟩⟩

/-- Where the visits of a workflow have been read, they are the visits of its steps, in their
order, in the image of the workflow. -/
lemma visits_eq_ok {workflow : Entries} {inherited : Option String} {vs : List Visit}
    (h : visits pathOfId workflow inherited = .ok vs) :
    ∃ image path, effectiveImage workflow inherited = .ok image ∧
      steps workflow path = .ok (vs.map Visit.entry) ∧ ∀ v ∈ vs, v.Finds pathOfId image := by
  rw [visits_eq] at h
  simp only [stepVisits, Except.bind_eq_ok] at h
  obtain ⟨image, himage, path, -, table, hsteps, h⟩ := h
  obtain ⟨rfl, hall⟩ := mapM_stepVisit_eq_ok h
  exact ⟨image, path, himage, hsteps, hall⟩

/-- The visits inside of a visit are those of the workflow that the step runs, and there are none if
it runs something else. -/
private lemma Visit.Finds.inner_eq {image : Option String} {v : Visit}
    (h : v.Finds pathOfId image) :
    (∃ run, v.step.field "run" = .map run ∧ Entries.entryClass? run = some .workflow ∧
      visits pathOfId run v.image = .ok v.inner) ∨
    (v.inner = [] ∧
      ∀ run, v.step.field "run" = .map run → Entries.entryClass? run ≠ some .workflow) := by
  cases h with
  | @entry _ step run c _ _ _ _ hrun hclass _ _ hinner _ =>
    by_cases hc : c = .workflow
    · subst hc
      exact .inl ⟨run, hrun, hclass, hinner⟩
    · rw [innerVisits, if_neg hc] at hinner
      cases hinner
      refine .inr ⟨rfl, fun run' (hrun' : step.field "run" = .map run') hclass' => hc ?_⟩
      rw [hrun] at hrun'
      cases hrun'
      exact Option.some.inj (hclass.symm.trans hclass')
  | @file _ _ step _ hrun _ =>
    refine .inr ⟨rfl, fun run (hrun' : step.field "run" = .map run) => ?_⟩
    rw [hrun] at hrun'
    cases hrun'

/-- The visits inside of a visit are those of the workflow that the step runs. -/
lemma Visit.Finds.visits_inner {image : Option String} {v : Visit} (h : v.Finds pathOfId image)
    {run : Entries} (hrun : v.step.field "run" = .map run)
    (hclass : run.entryClass? = some .workflow) : visits pathOfId run v.image = .ok v.inner := by
  rcases h.inner_eq with ⟨run', hrun', -, hinner⟩ | ⟨-, hno⟩
  · cases hrun'.symm.trans hrun
    exact hinner
  · exact absurd hclass (hno run hrun)

/-- A visit finds the image of the step. -/
lemma Visit.Finds.image_eq {image : Option String} {v : Visit} (h : v.Finds pathOfId image) :
    stepImage v.step image = .ok v.image := by
  unfold stepImage
  cases h with
  | entry hrun _ hstep himage _ _ =>
    simp only [hrun, hstep, Except.ok_bind]
    exact himage
  | file hrun hstep =>
    simp only [hrun, hstep, Except.ok_bind]
    rfl

/-- What holds of the visits of a workflow if it holds of the visits inside of each of them. -/
lemma visits_induction {P : Entries → Option String → List Visit → Prop}
    (hread : ∀ {workflow inherited image path vs}, effectiveImage workflow inherited = .ok image →
      steps workflow path = .ok (vs.map Visit.entry) → (∀ v ∈ vs, v.Finds pathOfId image) →
      (∀ v ∈ vs, (∃ run, v.step.field "run" = .map run ∧
          Entries.entryClass? run = some .workflow ∧ P run v.image v.inner) ∨
        (v.inner = [] ∧
          ∀ run, v.step.field "run" = .map run → Entries.entryClass? run ≠ some .workflow)) →
      P workflow inherited vs)
    {workflow : Entries} {inherited : Option String} {vs : List Visit}
    (h : visits pathOfId workflow inherited = .ok vs) : P workflow inherited vs := by
  induction hdepth : (Node.map workflow).depth using Nat.strong_induction_on
    generalizing workflow inherited vs with
  | _ depth ih =>
    obtain ⟨image, path, himage, hsteps, hfinds⟩ := visits_eq_ok h
    refine hread himage hsteps hfinds fun v hv => ?_
    refine (hfinds v hv).inner_eq.imp_left ?_
    rintro ⟨run, hrun, hclass, hinner⟩
    have hlt := depth_run_lt hsteps (List.mem_map_of_mem hv) hrun
    exact ⟨run, hrun, hclass, ih _ (hdepth ▸ hlt) hinner rfl⟩

end Read

end CwlDescriptor

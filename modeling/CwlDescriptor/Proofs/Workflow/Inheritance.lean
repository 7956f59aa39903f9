import CwlDescriptor.Proofs.Workflow.Recording
set_option autoImplicit false

/-!
# The image that a step inherits

A step at any depth has the image that is named closest to it: by what it runs, by the step itself,
by the workflow around it, by the step that runs this workflow, and so on outwards to the root. A
walk passes one image inwards instead, and reads what a workflow names a second time when it enters
it; this makes no difference.

## Main definitions

* `Requirement.NamesImage`, `Node.namedImages`: the images that requirements name.
* `Entries.images`, `Entries.stepImages`, `Trail.images`: the images that are named around a step,
  from the inside outwards.
* `firstImage`: the first of these images.

## Main results

* `effectiveImage_eq`: the image of a workflow, a step, or a tool is the first one.
* `visits_image`: the image that the visit of a step finds.
* `Walker.walk_image`: the image that a walk records for a step.
-/

namespace CwlDescriptor

/-! ## The images that are named -/

/-- A requirement is a map that names an image. -/
def Requirement.NamesImage (requirement : Node) : Prop :=
  requirement.field "class" = .str "DockerRequirement" ∧ requirement.field "dockerPull" ≠ .null

instance : DecidablePred Requirement.NamesImage := fun _ => inferInstanceAs (Decidable (_ ∧ _))

/-- The images that requirements or hints name. -/
def Node.namedImages (requirements : Node) : List Node :=
  ((requirements.listForm "class" "value").filter (Requirement.NamesImage ·)).map
    (·.field "dockerPull")

/-- The images that a workflow, a step, or a tool names: in its requirements, then in its hints. -/
def Entries.images (es : Entries) : List Node :=
  (es.field "requirements").namedImages ++ (es.field "hints").namedImages

/-- The images that are named by what a step runs, if this is no path of a file, and then by the
step. -/
def Entries.stepImages (step : Entries) : List Node :=
  match step.field "run" with
  | .map run => Entries.images run ++ step.images
  | _ => step.images

/-- The images that are named along a trail, from the inside outwards. -/
def Trail.images (t : Trail) : List Node :=
  t.reverse.flatMap fun e => e.2.stepImages

/-- The images of a trail are those of its last step, then those of the steps and workflows around
it. -/
private lemma Trail.images_cons (e : String × Entries) (t : Trail) :
    Trail.images (e :: t) = Trail.images t ++ e.2.stepImages := by
  simp [Trail.images]

/-- The first image, or the inherited one. -/
def firstImage (images : List Node) (inherited : Option String) : Except Failure (Option String) :=
  match images.head? with
  | some image => image.shown.map some
  | none => .ok inherited

/-! ## The first image -/

section FirstImage

variable {images images' : List Node} {inherited image : Option String}

/-- Where outer images have been read, inner ones are put before them. -/
private lemma firstImage_append (h : firstImage images' inherited = .ok image) :
    firstImage (images ++ images') inherited = firstImage images image := by
  cases images with
  | nil => exact h
  | cons n images => rfl

/-- Images that are named twice in succession count once. -/
private lemma firstImage_twice (inner images outer : List Node) (inherited : Option String) :
    firstImage (inner ++ (images ++ (images ++ outer))) inherited =
      firstImage (inner ++ (images ++ outer)) inherited := by
  cases inner <;> cases images <;> rfl

/-- The image of a requirement is the one that it names. -/
private lemma image?_eq (requirement : Node) :
    Requirement.image? requirement =
      if Requirement.NamesImage requirement then some (requirement.field "dockerPull")
      else none := by
  have hnull : ∀ n : Node, n.isNull = false ↔ n ≠ .null := by
    intro n
    unfold Node.isNull
    split <;> simp_all
  refine if_congr ?_ rfl rfl
  rw [Bool.and_eq_true, decide_eq_true_iff, Bool.not_eq_true', hnull, Requirement.NamesImage]

/-- The images that requirements name are taken from their list form in order. -/
private lemma namedImages_eq (requirements : Node) :
    requirements.namedImages =
      (requirements.listForm "class" "value").filterMap Requirement.image? := by
  unfold Node.namedImages
  induction requirements.listForm "class" "value" with
  | nil => rfl
  | cons requirement rest ih =>
    by_cases h : Requirement.NamesImage requirement
    · simp [image?_eq, h, ih]
    · simp [image?_eq, h, ih]

/-- The image of requirements is the first one that they name. -/
lemma dockerPull_eq (requirements : Node) :
    dockerPull requirements = firstImage requirements.namedImages none := by
  rw [firstImage, namedImages_eq, List.head?_filterMap]
  rfl

/-- The image of a workflow, a step, or a tool is the first one that it names. -/
lemma effectiveImage_eq (es : Entries) (inherited : Option String) :
    effectiveImage es inherited = firstImage es.images inherited := by
  unfold effectiveImage Entries.images
  rw [dockerPull_eq, dockerPull_eq]
  cases (es.field "requirements").namedImages with
  | cons n images =>
    simp only [firstImage, List.cons_append, List.head?_cons]
    cases n.shown <;> rfl
  | nil =>
    cases (es.field "hints").namedImages with
    | cons n images =>
      simp only [firstImage, List.nil_append, List.head?_cons]
      cases n.shown <;> rfl
    | nil => rfl

/-- The image of a step is the first one that is named by what it runs or by the step. -/
private lemma stepImage_eq {step : Entries} {image : Option String}
    (h : stepImage step inherited = .ok image) :
    firstImage step.stepImages inherited = .ok image := by
  obtain ⟨own, hown, h⟩ := Except.bind_eq_ok.1 h
  rw [effectiveImage_eq] at hown
  unfold Entries.stepImages
  cases hrun : step.field "run" with
  | map run =>
    simp only [hrun, effectiveImage_eq] at h
    exact (firstImage_append hown).trans h
  | scalar _ | list _ | set _ | pair _ _ =>
    simp only [hrun] at h
    exact hown.trans h

end FirstImage

/-! ## The images of the steps -/

/-- The visit of a step finds the first image that is named around it. -/
theorem visits_image {pathOfId : Node → Except Failure (Option String)} {workflow : Entries}
    {inherited : Option String} {vs : List Visit} {outerFirst : Bool} {trail : Trail} {u : Visit}
    (h : visits pathOfId workflow inherited = .ok vs)
    (hu : (trail, u) ∈ Visit.trailsAll outerFirst vs) :
    firstImage (trail.images ++ workflow.images) inherited = .ok u.image := by
  refine visits_induction (P := fun workflow inherited vs => ∀ trail u,
    (trail, u) ∈ Visit.trailsAll outerFirst vs →
      firstImage (trail.images ++ workflow.images) inherited = .ok u.image) ?_ h trail u hu
  intro workflow inherited around path vs haround _ hfinds hinner trail u hu
  rw [effectiveImage_eq] at haround
  obtain ⟨v, hv, hu⟩ := Visit.mem_trailsAll.1 hu
  have hstep : firstImage (v.step.stepImages ++ workflow.images) inherited = .ok v.image :=
    (firstImage_append haround).trans (stepImage_eq (hfinds v hv).image_eq)
  rcases Visit.mem_trails.1 hu with ⟨rfl, rfl⟩ | ⟨t, rfl, ht⟩
  · simpa [Trail.images, Visit.entry] using hstep
  · rcases hinner v hv with ⟨run, hrun, -, hP⟩ | ⟨hnil, -⟩
    · -- the images of `run` stand in those of the step, and once more in front of them
      have himages : v.step.stepImages = run.images ++ v.step.images := by
        rw [Entries.stepImages, hrun]
      have hwithin := (firstImage_append hstep).trans (hP t u ht)
      rw [himages, List.append_assoc, List.append_assoc, firstImage_twice] at hwithin
      rwa [Trail.images_cons, Visit.entry, himages, List.append_assoc, List.append_assoc]
    · rw [hnil] at ht
      cases ht

namespace Walker

variable {w : Walker} {workflow : Entries} {inherited : Option String} {r : WalkResult}

/-- **A step has the image that is named closest to it.** If no key of a step at any depth has a
dot, then a walk records for each step at any depth the first image that is named along its trail,
from the inside outwards, and then by the root; and where there is none, the inherited one.

**Proof sketch.** By induction on the reading of the visits. The image around an inner workflow is
the first one of the images outside of it, so the images that are named inside are put before these.
What the inner workflow names was read with the step that runs it and is read again; it stands twice
in succession, and this does not change what comes first. -/
theorem walk_image (hwalk : (w.walk workflow inherited 0 none).run {} = .ok () r)
    (hdot : ∀ trail, workflow.HasStep trail → trail.Dotless) {trail : Trail}
    (htrail : workflow.HasStep trail) :
    ∃ info, Table.get? r.images trail.node = some info ∧
      firstImage (trail.images ++ workflow.images) inherited = .ok info.image := by
  obtain ⟨vs, hvs, rfl⟩ := walk_eq_ok_iff.1 hwalk
  obtain ⟨u, hu⟩ := (visits_hasStep_iff hvs false).1 htrail
  refine ⟨u.info w, get?_images_record hvs hdot hu, ?_⟩
  rw [u.info_image]
  exact visits_image hvs hu

end Walker

/-! ## Images at two depths -/

/-- A tool with two hints, of which only the second one names an image. -/
def caller : Entries :=
  [(.str "class", .str "CommandLineTool"),
    (.str "hints", .list [
      .map [(.str "class", .str "DockerRequirement"), (.str "dockerPull", .null)],
      .map [(.str "class", .str "DockerRequirement"), (.str "dockerPull", .str "gatk:4")]])]

/-- A workflow that names no image. -/
def calling : Entries :=
  [(.str "class", .str "Workflow"),
    (.str "steps", .map [(.str "call", .map [(.str "run", .map caller)]),
      (.str "filter", .map [(.str "run", .str "filter.cwl")])])]

/-- A workflow that requires an image, with a step that runs `calling`. -/
def cohort : Entries :=
  [(.str "class", .str "Workflow"),
    (.str "requirements", .map [
      (.str "DockerRequirement", .map [(.str "dockerPull", .str "ubuntu:22")])]),
    (.str "steps", .map [(.str "sample", .map [(.str "run", .map calling)])])]

/-- The trail to a step of `calling` in `cohort`. -/
def cohortTrail (key : String) (run : Node) : Trail :=
  [("sample", [(.str "run", .map calling)]), (key, [(.str "run", run)])]

/-- The step that runs the tool has the image of the tool, and the step beside it that of the
root. -/
theorem cohort_walk_image :
    (∀ trail, cohort.HasStep trail → trail.Dotless) ∧
    cohort.HasStep (cohortTrail "call" (.map caller)) ∧
    cohort.HasStep (cohortTrail "filter" (.str "filter.cwl")) ∧
    ∃ r call filter, (Walker.plain.walk cohort (some "alpine") 0 none).run {} = .ok () r ∧
      Table.get? r.images "dockstore_sample.call" = some call ∧ call.image = some "gatk:4" ∧
      Table.get? r.images "dockstore_sample.filter" = some filter ∧
        filter.image = some "ubuntu:22" := by
  obtain ⟨vs, hvs, hdots⟩ : ∃ vs, visits Walker.plain.pathOfId cohort (some "alpine") = .ok vs ∧
      ∀ e ∈ Visit.trailsAll false vs, e.1.Dotless := ⟨_, rfl, by decide⟩
  have hdot := dotless_of_visits hvs hdots
  obtain ⟨r, hwalk⟩ : ∃ r, (Walker.plain.walk cohort (some "alpine") 0 none).run {} = .ok () r :=
    ⟨_, rfl⟩
  have hinner : ∀ e ∈ [("call", [(.str "run", .map caller)]),
      ("filter", [(.str "run", .str "filter.cwl")])],
      cohort.HasStep [("sample", [(.str "run", .map calling)]), e] := by
    intro e he
    have hcalling : steps calling none = .ok [("call", [(.str "run", .map caller)]),
        ("filter", [(.str "run", .str "filter.cwl")])] := rfl
    have hcohort : steps cohort none = .ok [("sample", [(.str "run", .map calling)])] := rfl
    exact .inner hcohort (List.mem_singleton_self _) rfl rfl (.own hcalling he)
  have hcall := hinner _ List.mem_cons_self
  have hfilter := hinner _ (List.mem_cons_of_mem _ (List.mem_singleton_self _))
  obtain ⟨call, hcallInfo, hcallImage⟩ := Walker.walk_image hwalk hdot hcall
  obtain ⟨filter, hfilterInfo, hfilterImage⟩ := Walker.walk_image hwalk hdot hfilter
  have hcallFirst : some "gatk:4" = call.image := Except.ok.inj hcallImage
  have hfilterFirst : some "ubuntu:22" = filter.image := Except.ok.inj hfilterImage
  exact ⟨hdot, hcall, hfilter, r, call, filter, hwalk, hcallInfo, hcallFirst.symm, hfilterInfo,
    hfilterFirst.symm⟩

end CwlDescriptor

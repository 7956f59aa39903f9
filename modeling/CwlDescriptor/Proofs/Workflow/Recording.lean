import CwlDescriptor.Proofs.Workflow.Trails
set_option autoImplicit false

/-!
# What a walk records

A walk records the visits of a workflow in the tables of its record: the types of all steps in the
order in which the visits begin, their images in the order in which the visits end, and of the
outermost steps also the dependencies and the nodes. Since the types under the name of a step are
those that its own visit has set, the record does not influence what is found, and a walk does what
the reading of the visits and this record do one after the other.

## Main definitions

* `Walker.classified?`: the specifier and the link of an image, if they are known.
* `Visit.info`: what is recorded of the image of a visited step.
* `Visit.records`: what is recorded of visits, by the names of the nodes.
* `Table.addTo`: adds to the dependencies of a node.
* `Walker.record`: the record of a walk that has found given visits.
* `Walker.plain`: a walker for examples.

## Main results

* `Walker.outcome_walk`: a walk records the visits of the workflow.
* `Walker.walk_eq_ok_iff`: when a walk that begins with an empty record succeeds, and with what.
-/

namespace CwlDescriptor

/-! ## Names below a name -/

namespace Walker

/-- The name of a step below a step is that of the latter, a dot and a key. -/
private lemma nodeName_nodeName (parent : Option String) (key label : String) :
    nodeName (some (nodeName parent key)) label = nodeName parent (key ++ "." ++ label) := by
  cases parent <;> simp [nodeName, String.append_assoc]

/-- The name of a node differs from those of the nodes below it. -/
private lemma nodeName_ne (node label : String) : nodeName (some node) label ≠ node := by
  intro h
  have hlength := congrArg String.length h
  have hdot : ".".length = 1 := rfl
  simp only [nodeName, String.length_append] at hlength
  omega

end Walker

/-! ## What is recorded of an image -/

namespace Walker

/-- The specifier and the link are known if the tool could be looked up. -/
lemma classify_eq (w : Walker) (text : String) :
    w.classify text = (((Image.link text.toList).resolve w.lookup).toOption).map
      (Image.specifier text.toList, ·) := by
  have hlink : Image.linkWith text.toList (Image.specifier text.toList) =
      Image.link text.toList := rfl
  unfold classify
  simp only [hlink]
  cases (Image.link text.toList).resolve w.lookup <;> rfl

/-- The specifier and the link of the image of something of the given type, if they are known. -/
def classified? (w : Walker) (type : Option TargetType) (image : Option String) :
    Option (Image.Specifier × Option String) :=
  if type.any TargetType.usesImage then
    image.bind fun text => if text = "" then none else w.classify text
  else none

/-- The information on an image is its path, its name, its link and its specifier. -/
lemma imageInfo_eq (w : Walker) (type : Option TargetType) (runPath : String)
    (image : Option String) :
    w.imageInfo type runPath image =
      ⟨runPath, image, (w.classified? type image).bind (·.2),
        (w.classified? type image).map (·.1)⟩ := by
  unfold imageInfo classified?
  cases if type.any TargetType.usesImage then
    image.bind fun text => if text = "" then none else w.classify text else none <;> rfl

end Walker

/-! ## What is recorded of visits -/

namespace Visit

open Walker

variable {α : Type}

/-- What is recorded of the image of a visited step. -/
def info (w : Walker) (v : Visit) : ImageInfo :=
  w.imageInfo (some v.type) (v.path.getD "") v.image

/-- The image in the information on a visit is that of the visit. -/
lemma info_image (w : Walker) (v : Visit) : (v.info w).image = v.image := by
  rw [info, imageInfo_eq]

/-- The path in the information on a visit is that of the visit. -/
lemma info_runPath (w : Walker) (v : Visit) : (v.info w).runPath = v.path.getD "" := by
  rw [info, imageInfo_eq]

/-- What is recorded of visits, by the names of the nodes. -/
def records (f : Visit → α) (outerFirst : Bool) (parent : Option String) (vs : List Visit) :
    List (String × α) :=
  (trailsAll outerFirst vs).map fun e => (nodeName parent e.1.label, f e.2)

variable (f : Visit → α) (parent : Option String) (v : Visit) (vs : List Visit)

/-- The records of visits are taken one after another. -/
lemma records_cons (outerFirst : Bool) :
    records f outerFirst parent (v :: vs) =
      records f outerFirst parent [v] ++ records f outerFirst parent vs := by
  simp [records, trailsAll]

/-- What is recorded of the visits inside of a visit. -/
private lemma map_within (outerFirst : Bool) :
    (v.within outerFirst).map (fun e => (nodeName parent e.1.label, f e.2)) =
      records f outerFirst (some (nodeName parent v.key)) v.inner := by
  unfold within records
  rw [List.map_map]
  refine List.map_congr_left fun e he => ?_
  have hlabel := Trail.label_cons v.entry (ne_nil_of_mem_trailsAll (u := e.2) he)
  rw [Function.comp_apply, hlabel, nodeName_nodeName]
  rfl

/-- The record of a visit stands in front of those of the visits inside it. -/
lemma records_true_singleton :
    records f true parent [v] =
      (nodeName parent v.key, f v) :: records f true (some (nodeName parent v.key)) v.inner := by
  rw [← map_within]
  simp [records, trailsAll, trails_true, entry]

/-- The record of a visit stands behind those of the visits inside it. -/
lemma records_false_singleton :
    records f false parent [v] =
      records f false (some (nodeName parent v.key)) v.inner ++ [(nodeName parent v.key, f v)] := by
  rw [← map_within]
  simp [records, trailsAll, trails_false, entry]

/-- What is recorded of visits below a name is not recorded under this name. -/
lemma not_mem_records (outerFirst : Bool) (node : String) :
    node ∉ (records f outerFirst (some node) vs).map (·.1) := by
  intro hmem
  obtain ⟨_, he, heq⟩ := List.mem_map.1 hmem
  obtain ⟨e, -, rfl⟩ := List.mem_map.1 he
  exact nodeName_ne _ _ heq

end Visit

/-! ## The record -/

/-- Adds to the dependencies of a node. -/
def Table.addTo (t : Table (List String)) (node : String) : List String → Table (List String)
  | [] => t
  | new => insert t node ((get? t node).getD [] ++ new)

namespace Walker

variable (w : Walker)

/-- The record of a walk that has found the given visits. -/
def record (depth : Int) (parent : Option String) (r : WalkResult) (vs : List Visit) :
    WalkResult where
  dependencies :=
    if depth = 0 then
      vs.foldl (fun t v => Table.addTo t (nodeName parent v.key) (stepDependencies v.step))
        r.dependencies
    else r.dependencies
  images := Table.insertAll r.images (Visit.records (Visit.info w) false parent vs)
  types := Table.insertAll r.types (Visit.records Visit.type true parent vs)
  nodes :=
    if depth = 0 && w.mode = .dag then
      r.nodes ++ vs.map fun v => (nodeName parent v.key, (v.info w).url)
    else r.nodes

variable (depth : Int) (parent : Option String) (r : WalkResult)

/-- Without visits nothing is recorded. -/
private lemma record_nil : w.record depth parent r [] = r := by
  simp [record, Visit.records, Visit.trailsAll]

/-- Visits are recorded one after another. -/
private lemma record_cons (v : Visit) (vs : List Visit) :
    w.record depth parent r (v :: vs) =
      w.record depth parent (w.record depth parent r [v]) vs := by
  unfold record
  rw [Visit.records_cons _ _ _ vs, Visit.records_cons _ _ _ vs]
  split_ifs <;> simp

/-! ## Walks record visits -/

variable {w depth parent} {read : Reading} {inner : Inner}

/-- The dependencies of a step are added to those of its node. -/
private lemma outcome_addDependencies (node : String) (step : Entries) :
    (addDependencies node step).outcome r =
      .ok ((), { r with
        dependencies := Table.addTo r.dependencies node (stepDependencies step) }) := by
  unfold addDependencies Table.addTo
  cases stepDependencies step <;> rfl

/-- Visiting what a step runs records its type, and then the visits inside. -/
private lemma outcome_visitTarget
    (hinner : ∀ run image node r, (inner run image node).outcome r =
      (fun vs => ((), w.record (depth + 1) (some node) r vs)) <$> read run image)
    (workflowPath image : Option String) (e : String × Entries) (node : String) :
    (w.visitTarget inner workflowPath node image (e.2.field "run")).outcome r =
      (fun v => ((v.path, v.image), w.record (depth + 1) (some node)
        { r with types := Table.insert r.types node v.type } v.inner)) <$>
        targetVisit w.pathOfId read workflowPath e image := by
  unfold visitTarget targetVisit
  generalize e.2.field "run" = target
  split
  · next run =>
    obtain hclass | ⟨c, hclass⟩ := Option.eq_none_or_eq_some (Entries.entryClass? run)
    · simp [hclass, map_bind]
    · by_cases hc : c = .workflow
      · simp [hclass, hc, setType, innerVisits, hinner, map_bind, Node.field, Node.entries?]
      · simp [hclass, hc, setType, innerVisits, record_nil, map_bind, Node.field, Node.entries?]
  · simp [setType, record_nil]
  · simp [map_bind]

/-- The visits below a name leave the type under this name as it is. -/
private lemma get?_types_record (node : String) (vs : List Visit) :
    Table.get? (w.record depth (some node) r vs).types node = Table.get? r.types node :=
  Table.get?_insertAll_of_not_mem (Visit.not_mem_records _ _ _ _)

/-- The record of one visit, in the order in which its parts are made. -/
private lemma record_singleton (hdepth : 0 ≤ depth) (v : Visit) :
    w.record depth parent r [v] =
      let node := nodeName parent v.key
      let r := if depth = 0 then
        { r with dependencies := Table.addTo r.dependencies node (stepDependencies v.step) } else r
      let r := w.record (depth + 1) (some node)
        { r with types := Table.insert r.types node v.type } v.inner
      let r := if depth = 0 && w.mode = .dag then
        { r with nodes := r.nodes ++ [(node, (v.info w).url)] } else r
      { r with images := Table.insert r.images node (v.info w) } := by
  have hne : depth + 1 ≠ 0 := by omega
  unfold record
  rw [Visit.records_true_singleton, Visit.records_false_singleton]
  by_cases hd : depth = 0 <;> by_cases hm : w.mode = .dag <;> simp [hd, hm, hne]

/-- Visiting a step records the visit of the step. -/
private lemma outcome_visit (hdepth : 0 ≤ depth)
    (hinner : ∀ run image node r, (inner run image node).outcome r =
      (fun vs => ((), w.record (depth + 1) (some node) r vs)) <$> read run image)
    (workflowPath image : Option String) (e : String × Entries) :
    (w.visit inner workflowPath image depth parent e.1 e.2).outcome r =
      (fun v => ((), w.record depth parent r [v])) <$>
        stepVisit w.pathOfId read workflowPath image e := by
  have htarget : ∀ image r, (w.visitTarget inner workflowPath (nodeName parent e.1) image
      (e.2.field "run")).outcome r = _ := fun image r =>
    outcome_visitTarget r hinner workflowPath image e (nodeName parent e.1)
  unfold visit stepVisit
  by_cases hd : depth = 0 <;> by_cases hm : w.mode = .dag
  all_goals
    simp only [hd, hm, decide_true, decide_false, Bool.and_true, Bool.and_false, Bool.false_eq_true,
      if_true, if_false, Walk.outcome_bind, outcome_addDependencies, Except.ok_bind,
      Walk.outcome_lift, bind_map_left, map_bind, htarget]
    refine bind_congr fun image => ?_
    cases hv : targetVisit w.pathOfId read workflowPath e image with
    | error _ => rfl
    | ok v =>
      obtain rfl := entry_of_targetVisit hv
      have hsingle : w.record depth parent r [v] = _ := record_singleton r hdepth v
      simp only [hd] at hsingle
      simp [hsingle, get?_types_record, Table.get?_insert, Visit.entry, Visit.info, hm]

/-- Visiting one step after the other records one visit after the other. -/
private lemma outcome_forM {visitStep : String × Entries → Walk Unit}
    {readStep : String × Entries → Except Failure Visit}
    (h : ∀ e r, (visitStep e).outcome r =
      (fun v => ((), w.record depth parent r [v])) <$> readStep e) (table : Table Entries) :
    (table.forM visitStep).outcome r =
      (fun vs => ((), w.record depth parent r vs)) <$> table.mapM readStep := by
  induction table generalizing r with
  | nil =>
    show Except.ok ((), r) = Except.ok ((), w.record depth parent r [])
    rw [record_nil]
  | cons e table ih =>
    show Walk.outcome (visitStep e >>= fun _ => table.forM visitStep) r = _
    rw [Walk.outcome_bind, h, List.mapM_cons]
    simp only [bind_map_left, map_bind, ih, bind_pure_comp, Functor.map_map]
    refine bind_congr fun v => congrArg (· <$> table.mapM readStep) ?_
    funext vs
    rw [record_cons w depth parent r v vs]

/-- Visiting the steps of a workflow records their visits. -/
private lemma outcome_visitAll (hdepth : 0 ≤ depth)
    (hinner : ∀ run image node r, (inner run image node).outcome r =
      (fun vs => ((), w.record (depth + 1) (some node) r vs)) <$> read run image)
    (workflow : Entries) (inherited : Option String) :
    (w.visitAll inner workflow inherited depth parent).outcome r =
      (fun vs => ((), w.record depth parent r vs)) <$>
        stepVisits w.pathOfId read workflow inherited := by
  unfold visitAll stepVisits
  simp only [Walk.outcome_bind, Walk.outcome_lift, bind_map_left, map_bind]
  refine bind_congr fun image => bind_congr fun path => bind_congr fun table => ?_
  exact outcome_forM r (fun e r => outcome_visit r hdepth hinner path image e) table

/-- A walk within a number of levels records the visits that are found within them. -/
lemma outcome_walkWithin (hdepth : 0 ≤ depth) (levels : Nat) (workflow : Entries)
    (inherited : Option String) :
    (w.walkWithin levels workflow inherited depth parent).outcome r =
      (fun vs => ((), w.record depth parent r vs)) <$>
        visitsWithin w.pathOfId levels workflow inherited := by
  induction levels generalizing depth parent r workflow inherited with
  | zero => rfl
  | succ levels ih =>
    exact outcome_visitAll r hdepth
      (fun run image node r => ih r (by omega) run image)
      workflow inherited

/-- **A walk records the visits of the workflow**: it does what the reading of the visits and the
record of them do one after the other, and where it fails, so does the reading. -/
theorem outcome_walk (hdepth : 0 ≤ depth) (workflow : Entries) (inherited : Option String) :
    (w.walk workflow inherited depth parent).outcome r =
      (fun vs => ((), w.record depth parent r vs)) <$> visits w.pathOfId workflow inherited :=
  outcome_walkWithin r hdepth _ workflow inherited

/-- A walk that begins with an empty record succeeds if the visits can be read, and then it has
recorded them. -/
theorem walk_eq_ok_iff {workflow : Entries} {inherited : Option String} {r : WalkResult} :
    (w.walk workflow inherited 0 none).run {} = .ok () r ↔
      ∃ vs, visits w.pathOfId workflow inherited = .ok vs ∧ r = w.record 0 none {} vs := by
  rw [← Walk.outcome_eq_ok, outcome_walk _ le_rfl, Except.map_eq_ok]
  simp only [Prod.mk.injEq, true_and, eq_comm (a := r)]

end Walker

/-- A walker that knows no files and looks nothing up. -/
def Walker.plain : Walker := { pathOfId := fun _ => .ok none }

/-! ## What is recorded where no key has a dot -/

section Dotless

variable {w : Walker} {workflow : Entries} {inherited : Option String} {vs : List Visit}

namespace Visit

variable {α : Type} {f : Visit → α} {outerFirst : Bool}

/-- The keys of the records are the names of the trails. -/
lemma keys_records (f : Visit → α) (outerFirst : Bool) (vs : List Visit) :
    Table.keys (records f outerFirst none vs) = (trailsAll outerFirst vs).map (·.1.node) := by
  unfold Table.keys records
  rw [List.map_map]
  rfl

/-- The names under which something is recorded are those of the steps. -/
lemma mem_keys_records (h : visits w.pathOfId workflow inherited = .ok vs) {node : String} :
    node ∈ Table.keys (records f outerFirst none vs) ↔ ∃ t, workflow.HasStep t ∧ t.node = node := by
  simp only [keys_records, List.mem_map, Prod.exists, visits_hasStep_iff h outerFirst]
  tauto

/-- The keys of the records are distinct, if no key of a step has a dot. -/
private lemma nodup_keys_records (h : visits w.pathOfId workflow inherited = .ok vs)
    (hdot : ∀ t, workflow.HasStep t → t.Dotless) :
    (Table.keys (records f outerFirst none vs)).Nodup := by
  rw [keys_records]
  exact nodup_nodes h hdot outerFirst

end Visit

namespace Walker

/-- If no key has a dot, then no image is overwritten. -/
lemma images_record (h : visits w.pathOfId workflow inherited = .ok vs)
    (hdot : ∀ t, workflow.HasStep t → t.Dotless) :
    (w.record 0 none {} vs).images = Visit.records (Visit.info w) false none vs :=
  Table.insertAll_of_nodup (Visit.nodup_keys_records h hdot)

/-- If no key has a dot, then no type is overwritten. -/
lemma types_record (h : visits w.pathOfId workflow inherited = .ok vs)
    (hdot : ∀ t, workflow.HasStep t → t.Dotless) :
    (w.record 0 none {} vs).types = Visit.records Visit.type true none vs :=
  Table.insertAll_of_nodup (Visit.nodup_keys_records h hdot)

/-- If no key has a dot, then what is recorded of the image of a step is found under its name. -/
lemma get?_images_record (h : visits w.pathOfId workflow inherited = .ok vs)
    (hdot : ∀ t, workflow.HasStep t → t.Dotless) {t : Trail} {u : Visit}
    (hu : (t, u) ∈ Visit.trailsAll false vs) :
    Table.get? (w.record 0 none {} vs).images t.node = some (u.info w) := by
  rw [images_record h hdot, Table.get?_eq_some_iff (Visit.nodup_keys_records h hdot)]
  exact List.mem_map.2 ⟨(t, u), hu, rfl⟩

end Walker

end Dotless

end CwlDescriptor

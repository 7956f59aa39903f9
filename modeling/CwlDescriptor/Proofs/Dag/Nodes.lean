import CwlDescriptor.Proofs.Dag.Stitching
set_option autoImplicit false

/-!
# What is known of a node

The graph takes the link of a node from the list of the nodes, and its type, path and image from
tables under its name. An inner step may have the same name, since the keys of steps may have dots,
and it writes to these tables as well. As the last one who writes counts, a node describes its own
step unless such an inner step stands below a later one.

## Main definitions

* `Walker.RunsTarget`: the type and the path of what a step runs.
* `Walker.imageLink`: the link of an image that something runs in.
* `Walker.DescribesStep`: the information on a node is that on a step.

## Main results

* `get?_dagNodes`: the information on the nodes of the first pass.
* `Visit.get?_records`: what is found under the name of a step.
* `Walker.node_describes_step`: a node of the graph describes its step.
* `shadowed_node`: a node that describes partly a step and partly another one.
-/

namespace CwlDescriptor

/-! ## Information on the nodes of a graph -/

/-- The nodes of a graph get their information one after another, the last one under a name
counting. -/
lemma nodes_foldl_addNode (r : WalkResult) (nodes : List (String × Option String)) (g : Dag) :
    (nodes.foldl (fun g (node, link) => g.addNode node (nodeInfo r node link)) g).nodes =
      Table.insertAll g.nodes (nodes.map fun e => (e.1, some (nodeInfo r e.1 e.2))) := by
  induction nodes generalizing g with
  | nil => rfl
  | cons e nodes ih => exact ih (g.addNode e.1 (nodeInfo r e.1 e.2))

/-- The information on a node is read under its name, and its link is the one in the list. -/
lemma get?_dagNodes {r : WalkResult} (hnodup : (r.nodes.map (·.1)).Nodup) {node : String}
    {link : Option String} (hmem : (node, link) ∈ r.nodes) :
    Table.get? (dagNodes r).nodes node = some (some (nodeInfo r node link)) := by
  have hkeys : (Table.keys (r.nodes.map fun e => (e.1, some (nodeInfo r e.1 e.2)))).Nodup := by
    simpa [Table.keys, Function.comp_def] using hnodup
  have hnodes : (dagNodes r).nodes = r.nodes.map fun e => (e.1, some (nodeInfo r e.1 e.2)) :=
    (nodes_foldl_addNode r r.nodes {}).trans (Table.insertAll_of_nodup (t := []) hkeys)
  rw [hnodes, Table.get?_eq_some_iff hkeys]
  exact List.mem_map.2 ⟨(node, link), hmem, rfl⟩

/-- The two nodes before and after all steps are new. -/
private lemma nodup_nodes_addSyntheticNodes {workflow : Entries} {r : WalkResult}
    (hnodup : (r.nodes.map (·.1)).Nodup)
    (hne : ∀ node ∈ r.nodes.map (·.1), node ≠ beginKey ∧ node ≠ endKey) :
    ((addSyntheticNodes workflow r).nodes.map (·.1)).Nodup := by
  have hnames : (addSyntheticNodes workflow r).nodes.map (·.1) =
      r.nodes.map (·.1) ++ [endKey, beginKey] := by
    simp [addSyntheticNodes]
  rw [hnames, List.nodup_append]
  refine ⟨hnodup, by decide, ?_⟩
  rintro node hnode key hkey rfl
  obtain ⟨hbegin, hend⟩ := hne node hnode
  simp only [List.mem_cons, List.not_mem_nil, or_false] at hkey
  exact hkey.elim hend hbegin

/-! ## The last record under a name -/

namespace Visit

open Walker

variable {α : Type}

/-- The records of two lists of visits stand one after the other. -/
private lemma records_append (f : Visit → α) (outerFirst : Bool) (parent : Option String)
    (vs vs' : List Visit) :
    records f outerFirst parent (vs ++ vs') =
      records f outerFirst parent vs ++ records f outerFirst parent vs' := by
  simp [records, trailsAll_eq_flatMap]

/-- What is found under the name of a step is what was recorded of its own visit, in either order,
unless a later visit has recorded something under the same name. -/
lemma get?_records (f : Visit → α) (outerFirst : Bool) {parent : Option String}
    {before after : List Visit} {v : Visit}
    (hafter : nodeName parent v.key ∉ Table.keys (records f outerFirst parent after)) :
    Table.get? (Table.insertAll [] (records f outerFirst parent (before ++ v :: after)))
      (nodeName parent v.key) = some (f v) := by
  have hbelow := not_mem_records f v.inner outerFirst (nodeName parent v.key)
  rw [records_append, records_cons, ← List.append_assoc, Table.insertAll_append,
    Table.get?_insertAll_of_not_mem hafter, Table.insertAll_append]
  cases outerFirst with
  | true =>
    rw [records_true_singleton, Table.insertAll_cons, Table.get?_insertAll_of_not_mem hbelow,
      Table.get?_insert, if_pos rfl]
  | false =>
    rw [records_false_singleton, Table.insertAll_append, Table.insertAll_cons, Table.insertAll_nil,
      Table.get?_insert, if_pos rfl]

end Visit

/-! ## The information on a step -/

/-- The name under which a step is shown is its key. -/
lemma displayName_nodePrefix (key : String) : displayName (nodePrefix ++ key) = key := by
  have hrest : nodePrefix.toList.isPrefixOf? (nodePrefix ++ key).toList = some key.toList := by
    rw [List.isPrefixOf?_eq_some_iff_append_eq, String.toList_append]
  unfold displayName
  rw [hrest]
  exact String.ofList_toList

namespace Walker

variable {w : Walker} {workflow step : Entries} {inherited path around : Option String}
  {key : String} {r : WalkResult}

/-- What a step runs is of a type and comes from the file with a path, which is empty if the file is
not known. -/
inductive RunsTarget (w : Walker) (step : Entries) : TargetType → String → Prop
  /-- The step runs an entry. -/
  | entry {run : Entries} {c : EntryClass} {path : Option String}
    (hrun : step.field "run" = .map run) (hclass : run.entryClass? = some c)
    (hpath : w.pathOfId (run.field "id") = .ok path) :
    RunsTarget w step (.ofClass c) (path.getD "")
  /-- The step runs a file that does not exist. -/
  | file {path : String} (hrun : step.field "run" = .str path) :
    RunsTarget w step .notApplicable path

/-- Only a file that does not exist is of no type. -/
private lemma RunsTarget.run_eq {path : String} (h : w.RunsTarget step .notApplicable path) :
    step.field "run" = .str path := by
  generalize htype : TargetType.notApplicable = type at h
  cases h with
  | @entry _ c _ _ _ _ => cases c <;> cases htype
  | file hrun => exact hrun

/-- The link of the image that something of the given type runs in. It is empty if nothing runs in
an image, if there is no image or no link to it, or if the tool could not be looked up. -/
def imageLink (w : Walker) (type : TargetType) : Option String → String
  | none => ""
  | some image =>
    if type.usesImage then
      match (Image.link image.toList).resolve w.lookup with
      | .ok url => url.getD ""
      | .error _ => ""
    else ""

/-- The information on a node is that on a step, given the image around the step. -/
structure DescribesStep (w : Walker) (around : Option String) (key : String) (step : Entries)
    (info : NodeInfo) : Prop where
  name : info.name = key
  target : w.RunsTarget step info.type info.run
  image : ∃ image, stepImage step around = .ok image ∧ info.image = image.getD "" ∧
    info.link = w.imageLink info.type image

/-- The recorded link is that of the image. -/
private lemma imageInfo_url (w : Walker) (type : TargetType) (runPath : String)
    (image : Option String) :
    (w.imageInfo (some type) runPath image).url.getD "" = w.imageLink type image := by
  cases image with
  | none => cases type <;> rfl
  | some text =>
    unfold imageInfo imageLink
    by_cases huses : type.usesImage = true
    · by_cases htext : text = ""
      · subst htext
        simp [huses, Image.link, Image.linkWith, Image.Link.resolve]
      · simp only [Option.any_some, huses, if_true, Option.bind_some, htext, if_false, classify_eq]
        cases (Image.link text.toList).resolve w.lookup <;> rfl
    · simp [huses]

/-- The address in the information on a step is the link of its image. -/
private lemma info_url (w : Walker) (v : Visit) :
    (v.info w).url.getD "" = w.imageLink v.type v.image :=
  imageInfo_url w v.type _ v.image

/-- A visit finds the type and the path of what the step runs. -/
private lemma runsTarget_of_finds {v : Visit} (h : v.Finds w.pathOfId around) :
    w.RunsTarget v.step v.type (v.path.getD "") := by
  cases h with
  | entry hrun hclass _ _ _ hpath => exact .entry hrun hclass hpath
  | file hrun _ => exact .file hrun

/-- What is recorded of the visit of a step describes the step. -/
private lemma describesStep_of_finds {v : Visit} (h : v.Finds w.pathOfId around) {r : WalkResult}
    (himage : Table.get? r.images (nodePrefix ++ v.key) = some (v.info w))
    (htype : Table.get? r.types (nodePrefix ++ v.key) = some v.type) :
    w.DescribesStep around v.key v.step
      (nodeInfo r (nodePrefix ++ v.key) (v.info w).url) where
  name := displayName_nodePrefix v.key
  target := by
    simpa [nodeInfo, himage, htype, v.info_runPath] using runsTarget_of_finds h
  image := ⟨v.image, h.image_eq, by simp [nodeInfo, himage, v.info_image],
    by simp [nodeInfo, htype, info_url]⟩

/-- No visit of a later step, nor one inside of it, records something under the name of a step if no
inner step of a later one has this name. -/
private lemma not_mem_keys_records_after {vs before after : List Visit} {v : Visit}
    (hvs : visits w.pathOfId workflow inherited = .ok vs) (hsplit : vs = before ++ v :: after)
    (hclash : ∀ e ∈ after.map Visit.entry, ∀ trail ≠ [], workflow.HasStep (e :: trail) →
      Trail.node (e :: trail) ≠ nodePrefix ++ v.key) {α : Type} (f : Visit → α)
    (outerFirst : Bool) :
    nodeName none v.key ∉ Table.keys (Visit.records f outerFirst none after) := by
  rw [Visit.keys_records]
  intro hmem
  obtain ⟨⟨t, u⟩, hu, hnode⟩ := List.mem_map.1 hmem
  have hstep : workflow.HasStep t := by
    rw [visits_hasStep_iff hvs outerFirst, hsplit]
    refine ⟨u, ?_⟩
    rw [Visit.trailsAll_eq_flatMap] at hu ⊢
    simp [hu]
  obtain ⟨v', hv', hu⟩ := Visit.mem_trailsAll.1 hu
  obtain ⟨t, rfl⟩ := Visit.exists_cons_of_mem_trails hu
  by_cases ht : t = []
  · -- two outermost steps have different keys
    subst ht
    have hkeys := nodup_stepNodes hvs
    rw [hsplit, List.map_append, List.map_cons] at hkeys
    have hlater := (List.nodup_cons.1 (List.nodup_append.1 hkeys).2.1).1
    simp only [Trail.node, Trail.label_singleton] at hnode
    exact hlater (List.mem_map.2 ⟨v', hv', hnode⟩)
  · exact hclash _ (List.mem_map_of_mem hv') t ht hstep hnode

/-- **A node of the graph describes its step.** Unless a step inside of a later outermost step has
the same name, the node of an outermost step has the type and the path of what this step runs, the
image of this step, and the link of the same image.

**Proof sketch.** The visits of the steps before it record something first, and so do those of the
steps inside of it, under other names. What its own visit records under its name is therefore what
is found there in the end, for the types, which are recorded before the visits inside, as for the
images, which are recorded after them. The link stands in the list of the nodes, in which no name
stands twice. -/
theorem node_describes_step (hmode : w.mode = .dag)
    (hwalk : (w.walk workflow inherited 0 none).run {} = .ok () r) {before after : Table Entries}
    (hsteps : steps workflow path = .ok (before ++ (key, step) :: after))
    (hclash : ∀ e ∈ after, ∀ trail ≠ [], workflow.HasStep (e :: trail) →
      Trail.node (e :: trail) ≠ nodePrefix ++ key) :
    ∃ around info, effectiveImage workflow inherited = .ok around ∧
      Table.get? (buildDag (addSyntheticNodes workflow r)).nodes (nodePrefix ++ key) =
        some (some info) ∧
      w.DescribesStep around key step info := by
  obtain ⟨vs, hvs, rfl⟩ := walk_eq_ok_iff.1 hwalk
  obtain ⟨around, _, haround, hread, hfinds⟩ := visits_eq_ok hvs
  have hentries := steps_eq hread hsteps
  obtain ⟨vsBefore, rest, hsplit, rfl, hrest⟩ := List.map_eq_append_iff.1 hentries
  obtain ⟨v, vsAfter, rfl, hentry, rfl⟩ := List.map_eq_cons_iff.1 hrest
  obtain ⟨rfl, rfl⟩ := Prod.mk.inj hentry
  have hlater := fun {α : Type} (f : Visit → α) (outerFirst : Bool) =>
    not_mem_keys_records_after hvs hsplit hclash f outerFirst
  have himage : Table.get? (w.record 0 none {} vs).images (nodePrefix ++ v.key) =
      some (v.info w) := by
    rw [hsplit]
    exact Visit.get?_records (Visit.info w) false (hlater _ _)
  have htype : Table.get? (w.record 0 none {} vs).types (nodePrefix ++ v.key) = some v.type := by
    rw [hsplit]
    exact Visit.get?_records Visit.type true (hlater _ _)
  refine ⟨around, nodeInfo (w.record 0 none {} vs) (nodePrefix ++ v.key) (v.info w).url, haround,
    ?_, describesStep_of_finds (hfinds v (by simp [hsplit])) himage htype⟩
  have hnodes : (w.record 0 none {} vs).nodes =
      vs.map fun v => (nodePrefix ++ v.key, (v.info w).url) := by
    simp [record, hmode, nodeName]
  have hnames : (w.record 0 none {} vs).nodes.map (·.1) = vs.map fun v => nodePrefix ++ v.key := by
    simp [hnodes]
  have hmem : (nodePrefix ++ v.key, (v.info w).url) ∈ (w.record 0 none {} vs).nodes := by
    rw [hnodes]
    exact List.mem_map.2 ⟨v, by simp [hsplit], rfl⟩
  rw [nodes_buildDag ((mem_nodes_addSyntheticNodes _ _ _).2 (.inr (.inr rfl)))
    ((mem_nodes_addSyntheticNodes _ _ _).2 (.inr (.inl rfl)))]
  refine get?_dagNodes (nodup_nodes_addSyntheticNodes ?_ ?_)
    (List.mem_append_left _ (List.mem_append_left _ hmem))
  · rw [hnames]
    exact nodup_stepNodes hvs
  · intro node hnode
    rw [hnames] at hnode
    exact ((isStepNode_iff hvs).2 hnode).ne

end Walker

/-! ## Steps with the same name -/

/-- A step that runs a tool in an image. -/
def toolStep : Entries :=
  [(.str "run", .map [(.str "class", .str "CommandLineTool"),
    (.str "requirements", .map [
      (.str "DockerRequirement", .map [(.str "dockerPull", .str "ubuntu")])])])]

/-- A step that runs a workflow, which has one step with the given key. -/
def nestingStep (key : String) : Entries :=
  [(.str "run", .map [(.str "class", .str "Workflow"),
    (.str "steps", .map [(.str key, .map [(.str "run", .str "missing.cwl")])])])]

/-- A workflow with the given steps. -/
def workflowOf (steps : List (String × Entries)) : Entries :=
  [(.str "class", .str "Workflow"), (.str "steps", .map (steps.map fun e => (.str e.1, .map e.2)))]

/-- The steps inside of an earlier step may have any names, and those inside of a later one may have
other names. -/
theorem node_describes_step_of_later :
    let listed := [("a", nestingStep "b"), ("a.b", toolStep), ("c", nestingStep "b")]
    steps (workflowOf listed) none = .ok listed ∧
    (∀ e ∈ [("c", nestingStep "b")], ∀ trail ≠ [], (workflowOf listed).HasStep (e :: trail) →
      Trail.node (e :: trail) ≠ nodePrefix ++ "a.b") ∧
    ∃ r info, (Walker.plain.walk (workflowOf listed) none 0 none).run {} = .ok () r ∧
      Table.get? (buildDag (addSyntheticNodes (workflowOf listed) r)).nodes "dockstore_a.b" =
        some (some info) ∧
      info = ⟨"a.b", "", .tool, "ubuntu", "https://hub.docker.com/_/ubuntu"⟩ ∧
      Walker.plain.DescribesStep none "a.b" toolStep info := by
  intro listed
  have hsteps : steps (workflowOf listed) none = .ok listed := rfl
  obtain ⟨vs, hvs, hlater⟩ : ∃ vs, visits Walker.plain.pathOfId (workflowOf listed) none = .ok vs ∧
      ∀ p ∈ Visit.trailsAll false vs, p.1.node = nodePrefix ++ "a.b" →
        p.1.head? ≠ some ("c", nestingStep "b") := ⟨_, rfl, by decide⟩
  have hclash : ∀ e ∈ [("c", nestingStep "b")], ∀ trail ≠ [],
      (workflowOf listed).HasStep (e :: trail) →
      Trail.node (e :: trail) ≠ nodePrefix ++ "a.b" := by
    intro e he trail _ hstep hnode
    obtain rfl := List.mem_singleton.1 he
    obtain ⟨u, hu⟩ := (visits_hasStep_iff hvs false).1 hstep
    exact hlater _ hu hnode rfl
  obtain ⟨r, hwalk, hget⟩ : ∃ r,
      (Walker.plain.walk (workflowOf listed) none 0 none).run {} = .ok () r ∧
      Table.get? (buildDag (addSyntheticNodes (workflowOf listed) r)).nodes "dockstore_a.b" =
        some (some ⟨"a.b", "", .tool, "ubuntu", "https://hub.docker.com/_/ubuntu"⟩) :=
    ⟨_, rfl, by decide⟩
  have hsplit : steps (workflowOf listed) none =
      .ok ([("a", nestingStep "b")] ++ ("a.b", toolStep) :: [("c", nestingStep "b")]) := hsteps
  obtain ⟨around, info, haround, hinfo, hdescribes⟩ :=
    Walker.node_describes_step rfl hwalk hsplit hclash
  obtain rfl : none = around := Except.ok.inj haround
  exact ⟨hsteps, hclash, r, info, hwalk, hinfo,
    (Option.some.inj (Option.some.inj (hget.symm.trans hinfo))).symm, hdescribes⟩

/-- The step inside of a later step has the same name. The node has the link of the image of its own
step, and everything else from the other one. -/
theorem shadowed_node :
    let listed := [("a.b", toolStep), ("a", nestingStep "b")]
    steps (workflowOf listed) none = .ok listed ∧
    ∃ r info, (Walker.plain.walk (workflowOf listed) none 0 none).run {} = .ok () r ∧
      Table.get? (buildDag (addSyntheticNodes (workflowOf listed) r)).nodes "dockstore_a.b" =
        some (some info) ∧
      info = ⟨"a.b", "missing.cwl", .notApplicable, "", "https://hub.docker.com/_/ubuntu"⟩ ∧
      ¬ Walker.plain.DescribesStep none "a.b" toolStep info := by
  refine ⟨rfl, _, _, rfl, by decide, rfl, ?_⟩
  rintro ⟨-, htarget, -⟩
  exact absurd htarget.run_eq (by decide)

end CwlDescriptor

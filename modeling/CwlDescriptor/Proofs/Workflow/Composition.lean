import CwlDescriptor.Proofs.Workflow.Recording
import Mathlib.Data.Set.Function
set_option autoImplicit false

/-!
# Walks of workflows inside of workflows

What a walk records below the name of a step is what a walk of the workflow that this step runs
records on its own. The names are told apart by their dots, so no key may have one.

## Main definitions

* `Table.below`: what a table holds below a name.

## Main results

* `Visit.below_records`: what is recorded below the name of a step.
* `Walker.walk_compositional`: the steps at any depth, and the walk of an inner workflow.
-/

namespace CwlDescriptor

/-- What stands before the first dot is determined. -/
private lemma eq_of_append_dot_eq {s s' rest rest' : List Char} (hs : '.' ∉ s) (hs' : '.' ∉ s')
    (h : s ++ '.' :: rest = s' ++ '.' :: rest') : s = s' := by
  have hbefore : ∀ s rest : List Char, '.' ∉ s → (s ++ '.' :: rest).takeWhile (· ≠ '.') = s := by
    intro s rest hs
    rw [List.takeWhile_append_of_pos fun c hc => by simpa using ne_of_mem_of_not_mem hc hs]
    simp
  rw [← hbefore s rest hs, h, hbefore s' rest' hs']

/-! ## The entries below a name -/

namespace Table

variable {α : Type}

/-- The entries of a table below the name of a node, which are those whose names begin with it and a
dot; `nodePrefix` takes the place of this part. -/
def below (t : Table α) (node : String) : Table α :=
  t.filterMap fun e => ((node ++ ".").toList.isPrefixOf? e.1.toList).map fun rest =>
    (nodePrefix ++ String.ofList rest, e.2)

/-- What is below a name in two tables is what is so in both. -/
private lemma below_append (t t' : Table α) (node : String) :
    below (t ++ t') node = below t node ++ below t' node :=
  List.filterMap_append

/-- What is below a name in a table is taken entry by entry. -/
private lemma below_cons (e : String × α) (t : Table α) (node : String) :
    below (e :: t) node = below [e] node ++ below t node :=
  below_append [e] t node

/-- There is nothing below a name where no name begins with it and a dot. -/
private lemma below_eq_nil {t : Table α} {node : String}
    (h : ∀ e ∈ t, ∀ rest, (node ++ ".").toList ++ rest ≠ e.1.toList) : below t node = [] := by
  refine List.filterMap_eq_nil_iff.2 fun e he => ?_
  rw [Option.map_eq_none_iff, Option.eq_none_iff_forall_not_mem]
  intro rest hrest
  exact h e he rest (List.isPrefixOf?_eq_some_iff_append_eq.1 hrest)

/-- A name is not below itself. -/
private lemma below_self (node : String) (a : α) : below [(node, a)] node = [] := by
  refine below_eq_nil fun e he rest h => ?_
  obtain rfl := List.mem_singleton.1 he
  have hdot : ".".toList = ['.'] := rfl
  have hlength := congrArg List.length h
  simp only [String.toList_append, hdot, List.length_append, List.length_singleton] at hlength
  omega

end Table

/-! ## What is recorded below the name of a step -/

namespace Visit

open Walker

variable {α : Type} (f : Visit → α) (outerFirst : Bool) {v : Visit} {vs : List Visit}

/-- What is recorded below a name is what would be recorded if there were none around. -/
private lemma below_records_some (node : String) (vs : List Visit) :
    Table.below (records f outerFirst (some node) vs) node = records f outerFirst none vs := by
  unfold Table.below records
  rw [List.filterMap_map, ← List.filterMap_eq_map]
  refine List.filterMap_congr fun e _ => ?_
  have hrest : (node ++ ".").toList.isPrefixOf? (nodeName (some node) e.1.label).toList =
      some e.1.label.toList := by
    rw [List.isPrefixOf?_eq_some_iff_append_eq]
    simp [nodeName]
  rw [Function.comp_apply, Function.comp_apply, hrest]
  simp [nodeName]

/-- The visit of a step records below its name what is recorded of the visits inside. -/
private lemma below_records_self (v : Visit) :
    Table.below (records f outerFirst none [v]) (nodePrefix ++ v.key) =
      records f outerFirst none v.inner := by
  have hname : nodeName none v.key = nodePrefix ++ v.key := rfl
  cases outerFirst with
  | true =>
    rw [records_true_singleton, hname, Table.below_cons, Table.below_self, below_records_some,
      List.nil_append]
  | false =>
    rw [records_false_singleton, hname, Table.below_append, Table.below_self, below_records_some,
      List.append_nil]

/-- The visits of steps record nothing below the name of a step with another key. -/
private lemma below_records_of_not_mem {key : String} (hkey : '.' ∉ key.toList)
    (hdot : ∀ v ∈ vs, '.' ∉ v.key.toList) (hne : key ∉ vs.map (·.key)) :
    Table.below (records f outerFirst none vs) (nodePrefix ++ key) = [] := by
  have hsep : ".".toList = ['.'] := rfl
  refine Table.below_eq_nil fun e he rest h => ?_
  obtain ⟨⟨t, u⟩, hu, rfl⟩ := List.mem_map.1 he
  obtain ⟨v, hv, hu⟩ := mem_trailsAll.1 hu
  rcases mem_trails.1 hu with ⟨rfl, -⟩ | ⟨t, rfl, ht⟩
  · have hchars : key.toList ++ '.' :: rest = v.key.toList := by
      simpa [nodeName, entry, hsep] using h
    exact hdot v hv (hchars ▸ by simp)
  · have hlabel := Trail.label_cons v.entry (ne_nil_of_mem_trailsAll ht)
    have hchars : key.toList ++ '.' :: rest = v.key.toList ++ '.' :: (Trail.label t).toList := by
      rw [hlabel] at h
      simpa [nodeName, entry, hsep] using h
    have hsame := eq_of_append_dot_eq hkey (hdot v hv) hchars
    exact hne (List.mem_map.2 ⟨v, hv, (String.toList_inj.1 hsame).symm⟩)

/-- What the visits of steps record below the name of one of them is what is recorded of the visits
inside of it. -/
lemma below_records (hdot : ∀ v ∈ vs, '.' ∉ v.key.toList) (hkeys : (vs.map (·.key)).Nodup)
    (hv : v ∈ vs) :
    Table.below (records f outerFirst none vs) (nodePrefix ++ v.key) =
      records f outerFirst none v.inner := by
  induction vs with
  | nil => cases hv
  | cons v' vs ih =>
    obtain ⟨hnot, hkeys⟩ := List.nodup_cons.1 hkeys
    have hrest := fun u hu => hdot u (List.mem_cons_of_mem v' hu)
    rw [records_cons, Table.below_append]
    rcases List.mem_cons.1 hv with rfl | hmem
    · rw [below_records_self, below_records_of_not_mem f outerFirst (hdot v hv) hrest hnot,
        List.append_nil]
    · have hother : v.key ∉ [v'].map (·.key) := by
        rw [List.map_singleton, List.mem_singleton]
        exact fun heq => hnot (List.mem_map.2 ⟨v, hmem, heq⟩)
      have hfirst : ∀ u ∈ [v'], '.' ∉ u.key.toList := fun u hu => hdot u (by simp_all)
      rw [below_records_of_not_mem f outerFirst (hdot v hv) hfirst hother, ih hrest hkeys hmem,
        List.nil_append]

end Visit

/-! ## Walks of inner workflows -/

namespace Walker

variable {w : Walker} {workflow : Entries} {inherited : Option String} {r : WalkResult}

/-- What is recorded of the visits inside of a visit stands below the name of its step. -/
private lemma record_inner {vs : List Visit} {v : Visit} {run : Entries}
    (hvs : visits w.pathOfId workflow inherited = .ok vs)
    (hdot : ∀ trail, workflow.HasStep trail → trail.Dotless) (hv : v ∈ vs)
    (hrun : v.step.field "run" = .map run) (hclass : run.entryClass? = some .workflow)
    (hinner : visits w.pathOfId run v.image = .ok v.inner) :
    (w.record 0 none {} v.inner).images =
        Table.below (w.record 0 none {} vs).images (nodePrefix ++ v.key) ∧
      (w.record 0 none {} v.inner).types =
        Table.below (w.record 0 none {} vs).types (nodePrefix ++ v.key) := by
  obtain ⟨_, _, -, hsteps, -⟩ := visits_eq_ok hvs
  have hmem : ∀ u ∈ vs, u.entry ∈ vs.map Visit.entry := fun u hu => List.mem_map_of_mem hu
  have hkey : ∀ u ∈ vs, '.' ∉ u.key.toList := fun u hu =>
    hdot _ (.own hsteps (hmem u hu)) u.entry (List.mem_singleton_self _)
  have hkeys : (vs.map (·.key)).Nodup := by
    have hnodup := nodup_keys_steps hsteps
    rwa [Table.keys, List.map_map] at hnodup
  have hdot' : ∀ t, run.HasStep t → t.Dotless := fun t ht e he =>
    hdot _ (.inner hsteps (hmem v hv) hrun hclass ht) e (List.mem_cons_of_mem _ he)
  rw [images_record hvs hdot, types_record hvs hdot, images_record hinner hdot',
    types_record hinner hdot', Visit.below_records _ _ hkey hkeys hv,
    Visit.below_records _ _ hkey hkeys hv]
  exact ⟨rfl, rfl⟩

/-- **Walks are compositional and lose no step.** If no key of a step at any depth has a dot, then
a walk records an image and a type for each step, under names by which the steps are told apart;
and for a step that runs a workflow, it records below the name of the step what a walk of that
workflow alone records, given the image of the step.

**Proof sketch.** The records of a walk are those of the visits of the workflow, and since the names
of the nodes differ, nothing is overwritten: what is recorded stands in the tables in the order of
the visits. Below the name of a step there are the records of the visits inside of it, and by the
equation of the reading these are the visits of the workflow that it runs. -/
theorem walk_compositional (hwalk : (w.walk workflow inherited 0 none).run {} = .ok () r)
    (hdot : ∀ trail, workflow.HasStep trail → trail.Dotless) :
    (∀ node, node ∈ Table.keys r.images ↔ node ∈ Table.keys r.types) ∧
    Set.BijOn Trail.node {trail | workflow.HasStep trail} {node | node ∈ Table.keys r.images} ∧
    ∀ {key : String} {step run : Entries}, workflow.HasStep [(key, step)] →
      step.field "run" = .map run → run.entryClass? = some .workflow →
      ∃ image info r', (effectiveImage workflow inherited >>= stepImage step) = .ok image ∧
        Table.get? r.images (nodePrefix ++ key) = some info ∧ info.image = image ∧
        (w.walk run image 0 none).run {} = .ok () r' ∧
        r'.images = Table.below r.images (nodePrefix ++ key) ∧
        r'.types = Table.below r.types (nodePrefix ++ key) := by
  obtain ⟨vs, hvs, rfl⟩ := walk_eq_ok_iff.1 hwalk
  have hnames : ∀ node, node ∈ Table.keys (w.record 0 none {} vs).images ↔
      ∃ t, workflow.HasStep t ∧ t.node = node := fun node => by
    rw [images_record hvs hdot, Visit.mem_keys_records hvs]
  refine ⟨fun node => ?_, ⟨?mapsTo, ?injOn, ?surjOn⟩, fun {key step run} hstep hrun hclass => ?_⟩
  · rw [hnames, types_record hvs hdot, Visit.mem_keys_records hvs]
  case mapsTo => exact fun t ht => (hnames _).2 ⟨t, ht, rfl⟩
  case injOn => exact fun t ht t' ht' => Trail.node_inj ht ht' (hdot t ht) (hdot t' ht')
  case surjOn => exact fun node hnode => (hnames node).1 hnode
  · obtain ⟨around, path, haround, hsteps, hfinds⟩ := visits_eq_ok hvs
    obtain ⟨v, hv, hentry⟩ := List.mem_map.1 (hstep.mem_of_singleton hsteps)
    obtain ⟨rfl, rfl⟩ := Prod.mk.inj hentry
    have hinner := (hfinds v hv).visits_inner hrun hclass
    obtain ⟨himages, htypes⟩ := record_inner hvs hdot hv hrun hclass hinner
    have hlookup : Table.get? (w.record 0 none {} vs).images (nodePrefix ++ v.key) =
        some (v.info w) := by
      have hown : ([v.entry], v) ∈ Visit.trailsAll false vs :=
        Visit.mem_trailsAll.2 ⟨v, hv, Visit.mem_trails.2 (.inl ⟨rfl, rfl⟩)⟩
      have hget := get?_images_record hvs hdot hown
      rwa [Trail.node, Trail.label_singleton] at hget
    refine ⟨v.image, v.info w, w.record 0 none {} v.inner, ?_, hlookup, v.info_image w,
      walk_eq_ok_iff.2 ⟨v.inner, hinner, rfl⟩, himages, htypes⟩
    rw [haround]
    exact (hfinds v hv).image_eq

end Walker

/-! ## A workflow inside of a workflow -/

/-- A workflow with one step. -/
def alignment : Entries :=
  [(.str "class", .str "Workflow"),
    (.str "steps", .map [(.str "index", .map [(.str "run", .str "index.cwl")])])]

/-- A step that runs a workflow. -/
def alignStep : Entries :=
  [(.str "hints", .map [(.str "DockerRequirement", .map [(.str "dockerPull", .str "bwa:1")])]),
    (.str "run", .map alignment)]

/-- A workflow with a step that runs a workflow, and another one. -/
def mapping : Entries :=
  [(.str "class", .str "Workflow"),
    (.str "steps", .map [(.str "align", .map alignStep),
      (.str "report", .map [(.str "run", .str "report.cwl")])])]

/-- No key of a step of the workflow has a dot. -/
private lemma mapping_dotless : ∀ trail, mapping.HasStep trail → trail.Dotless := by
  obtain ⟨vs, hvs, hdot⟩ : ∃ vs, visits Walker.plain.pathOfId mapping none = .ok vs ∧
      ∀ e ∈ Visit.trailsAll false vs, e.1.Dotless := ⟨_, rfl, by decide⟩
  exact dotless_of_visits hvs hdot

/-- Three steps have three names, and the step inside is recorded as by a walk of `alignment` in the
image that its step hints at. -/
theorem mapping_walk_compositional :
    (∀ trail, mapping.HasStep trail → trail.Dotless) ∧ mapping.HasStep [("align", alignStep)] ∧
    ∃ r r', (Walker.plain.walk mapping none 0 none).run {} = .ok () r ∧
      Table.keys r.images = ["dockstore_align.index", "dockstore_align", "dockstore_report"] ∧
      Set.BijOn Trail.node {trail | mapping.HasStep trail} {node | node ∈ Table.keys r.images} ∧
      (Walker.plain.walk alignment (some "bwa:1") 0 none).run {} = .ok () r' ∧
      r'.images = Table.below r.images "dockstore_align" ∧
      Table.keys r'.images = ["dockstore_index"] := by
  obtain ⟨r, hwalk, hkeys, hbelow⟩ :
      ∃ r, (Walker.plain.walk mapping none 0 none).run {} = .ok () r ∧
      Table.keys r.images = ["dockstore_align.index", "dockstore_align", "dockstore_report"] ∧
      Table.keys (Table.below r.images "dockstore_align") = ["dockstore_index"] :=
    ⟨_, rfl, rfl, by decide⟩
  obtain ⟨table, hsteps, hmem⟩ : ∃ table, steps mapping none = .ok table ∧
      ("align", alignStep) ∈ table := ⟨_, rfl, List.mem_cons_self⟩
  have hstep : mapping.HasStep [("align", alignStep)] := .own hsteps hmem
  obtain ⟨-, hbij, hinner⟩ := Walker.walk_compositional hwalk mapping_dotless
  obtain ⟨image, info, r', himage, -, -, hwalk', himages, -⟩ := hinner hstep rfl rfl
  obtain rfl : some "bwa:1" = image := Except.ok.inj himage
  exact ⟨mapping_dotless, hstep, r, r', hwalk, hkeys, hbij, hwalk', himages, himages ▸ hbelow⟩

end CwlDescriptor

import CwlDescriptor.Proofs.Cuts
import CwlDescriptor.Proofs.Dag.Stitching
set_option autoImplicit false

/-!
# Sources that name steps

A source names an output of a step by the id of the step, a slash and the name of the output. Where
the steps are in list form, the ids are normalized at two places: a step loses all number signs that
its id begins with, and the text before the first slash of a source loses its first number sign. The
two agree on ids that a source can name; for these the source is a dependency on the step, and there
is an edge from the step.

## Main definitions

* `Entries.ListsSteps`: the steps of a workflow in list form, with their ids.
* `IsSourceName`: the ids that a source can name.

## Main results

* `Entries.ListsSteps.steps_eq`: the steps of a workflow in list form.
* `sourceStep?_append`: the step that a source comes from.
* `edge_of_source`: a source that names a step makes an edge.
* `chained_misses`: an id with a slash, of which a source keeps a part only.
-/

namespace CwlDescriptor

/-! ## Steps in list form -/

/-- The steps of a workflow are in list form, each with an id. The ids under which they are listed
are the normal forms, and no two of these are the same. -/
structure Entries.ListsSteps (workflow : Entries) (listed : Table Entries) : Prop where
  field : workflow.field "steps" = .list (listed.map fun e => .map e.2)
  id : ∀ e ∈ listed, (e.2.field "id").isNull = false ∧ stepId (e.2.field "id") = .ok e.1
  nodup : (Table.keys listed).Nodup

/-- Steps with different ids are added in their order. -/
private lemma addListedSteps_eq {path : Option String} {t listed : Table Entries}
    (hid : ∀ e ∈ listed, (e.2.field "id").isNull = false ∧ stepId (e.2.field "id") = .ok e.1)
    (hnodup : (Table.keys (t ++ listed)).Nodup) :
    addListedSteps path t (listed.map fun e => .map e.2) = .ok (t ++ listed) := by
  induction listed generalizing t with
  | nil => simp [addListedSteps]
  | cons e listed ih =>
    obtain ⟨⟨hnull, hkey⟩, hrest⟩ := List.forall_mem_cons.1 hid
    have happend : t ++ e :: listed = t ++ [e] ++ listed := by simp
    have hnew : e.1 ∉ Table.keys t := by
      intro hmem
      rw [Table.keys, List.map_append] at hnodup
      exact List.disjoint_of_nodup_append hnodup hmem List.mem_cons_self
    have hfield : (Node.map e.2).field "id" = e.2.field "id" := rfl
    rw [List.map_cons, addListedSteps]
    simp only [hfield, hnull, hkey, Except.ok_bind, Bool.false_eq_true, if_false]
    rw [happend] at hnodup ⊢
    rw [← ih hrest hnodup, Table.insert_of_not_mem hnew]
    rfl

/-- The steps of a workflow in list form are those that are listed. -/
lemma Entries.ListsSteps.steps_eq {workflow : Entries} {listed : Table Entries}
    (h : workflow.ListsSteps listed) (path : Option String) : steps workflow path = .ok listed := by
  unfold steps
  rw [h.field]
  exact addListedSteps_eq (t := []) h.id h.nodup

/-! ## The two normal forms -/

/-- A source can name an id without slash, in which a number sign stands only if the id begins with
exactly one. -/
def IsSourceName (id : String) : Prop :=
  '/' ∉ id.toList ∧ ('#' ∈ id.toList → id.toList.takeWhile (· = '#') = ['#'])

instance (id : String) : Decidable (IsSourceName id) := inferInstanceAs (Decidable (_ ∧ _))

/-- If a text begins with one number sign or has none, then it makes no difference whether the first
number sign is taken out or all those that the text begins with. -/
private lemma erase_eq_dropWhile {s : List Char}
    (h : '#' ∈ s → s.takeWhile (· = '#') = ['#']) : s.erase '#' = s.dropWhile (· = '#') := by
  cases s with
  | nil => rfl
  | cons c s =>
    by_cases hc : c = '#'
    · subst hc
      have hs : s.takeWhile (· = '#') = [] := by simpa using h List.mem_cons_self
      have hdrop : s.dropWhile (· = '#') = s := by
        have happend := s.takeWhile_append_dropWhile (p := (· = '#'))
        rwa [hs, List.nil_append] at happend
      simp [hdrop]
    · have hnot : '#' ∉ c :: s := by
        intro hmem
        have htake := h hmem
        simp [hc] at htake
      rw [List.erase_of_not_mem hnot]
      simp [hc]

/-- A source comes from the step before its slash. -/
lemma sourceStep?_append {id : String} (h : '/' ∉ id.toList) (output : String) :
    sourceStep? (id ++ "/" ++ output) = some (String.ofList (id.toList.erase '#')) := by
  have hslash : "/".toList = ['/'] := rfl
  unfold sourceStep?
  rw [String.toList_append, String.toList_append, hslash, List.append_assoc, List.singleton_append,
    Text.cutFirst_append h]
  rfl

/-- An id that a source can name has the same normal form in the source and at the step. -/
private lemma sourceStep?_eq_stepId {id key : String} (hname : IsSourceName id)
    (hkey : stepId (.str id) = .ok key) (output : String) :
    sourceStep? (id ++ "/" ++ output) = some key := by
  have hnormal : String.ofList (id.toList.dropWhile (· = '#')) = key := Except.ok.inj hkey
  rw [sourceStep?_append hname.1, erase_eq_dropWhile hname.2, hnormal]

/-! ## Dependencies on the step -/

/-- A source of an input names the node of its step. -/
private lemma mem_sourceNodes {sources : Node} {source key : String}
    (hmem : source ∈ sourceTexts sources) (hkey : sourceStep? source = some key) (start : String) :
    start ++ key ∈ sourceNodes sources start :=
  List.mem_map_of_mem (List.mem_filterMap.2 ⟨source, hmem, hkey⟩)

/-- Leaving out keys without dependencies changes the dependencies of no key. -/
private lemma Table.getD_get?_filter {t : Table (List String)} {p : String × List String → Bool}
    (hnodup : (keys t).Nodup) (hleft : ∀ e ∈ t, p e = false → e.2 = []) (key : String) :
    (get? (t.filter p) key).getD [] = (get? t key).getD [] := by
  induction t with
  | nil => rfl
  | cons e t ih =>
    obtain ⟨hnot, ht⟩ := List.nodup_cons.1 hnodup
    obtain ⟨he, hrest⟩ := List.forall_mem_cons.1 hleft
    have hfilter := ih ht hrest
    cases hp : p e with
    | true =>
      rw [List.filter_cons_of_pos hp, get?, get?]
      split
      · rfl
      · exact hfilter
    | false =>
      rw [List.filter_cons_of_neg (by simp [hp]), hfilter, get?]
      split
      · next hk => rw [← hk, get?_eq_none_iff.2 hnot, he hp]; rfl
      · rfl

namespace Walker

variable {w : Walker} {workflow : Entries} {inherited : Option String} {r : WalkResult}

/-- A walk records the dependencies of each outermost step. -/
private lemma dependenciesOf_step (hwalk : (w.walk workflow inherited 0 none).run {} = .ok () r)
    {e : String × Entries} (hstep : workflow.HasStep [e]) :
    r.dependenciesOf (nodePrefix ++ e.1) = stepDependencies e.2 := by
  obtain ⟨vs, hvs, rfl⟩ := walk_eq_ok_iff.1 hwalk
  obtain ⟨_, _, -, hsteps, -⟩ := visits_eq_ok hvs
  obtain ⟨v, hv, rfl⟩ := List.mem_map.1 (hstep.mem_of_singleton hsteps)
  have hnodup :
      (Table.keys (vs.map fun v => (nodePrefix ++ v.key, stepDependencies v.step))).Nodup := by
    simpa [Table.keys, Function.comp_def] using nodup_stepNodes hvs
  have hget := (Table.get?_eq_some_iff hnodup).2 (List.mem_map_of_mem hv)
  unfold WalkResult.dependenciesOf
  rw [dependencies_record hvs, Table.getD_get?_filter hnodup (by simp)]
  exact congrArg (·.getD []) hget

end Walker

section Listed

variable {workflow target step : Entries} {listed : Table Entries} {key other id output : String}
  {input : Node}

/-- **A source that names a step is a dependency on that step.** Let the steps of a workflow be in
list form, no two of them with the same normalized id, and let one of them have an id that a source
can name. Then a source that consists of this id, a slash and the name of an output stands for the
node of that step: a step with such a source among its inputs depends on it, and whenever the
workflow can be walked, the graph has the edge from one to the other.

**Proof sketch.** The text before the first slash of the source is the id, and of an id that a
source can name the first number sign is all that it begins with. So the source and the step are
brought to the same normal form, and the node of the step is among the dependencies that the walk
records for the other one. By `edge_buildDag_iff` there is an edge. -/
theorem edge_of_source (hlisted : workflow.ListsSteps listed) (htarget : (key, target) ∈ listed)
    (hid : target.field "id" = .str id) (hname : IsSourceName id) (hstep : (other, step) ∈ listed)
    (hinput : input ∈ (step.field "in").listForm "id" "source")
    (hsource : id ++ "/" ++ output ∈ sourceTexts (input.field "source")) :
    sourceNodes (.str (id ++ "/" ++ output)) nodePrefix = [Walker.nodeName none key] ∧
    workflow.HasStep [(key, target)] ∧
    Walker.nodeName none key ∈ stepDependencies step ∧
    ∀ (w : Walker) (inherited : Option String) (r : WalkResult), w.mode = .dag →
      (w.walk workflow inherited 0 none).run {} = .ok () r →
      Walker.nodeName none key ∈ r.dependenciesOf (Walker.nodeName none other) ∧
      (buildDag (addSyntheticNodes workflow r)).Edge (Walker.nodeName none key)
        (Walker.nodeName none other) := by
  have hkey : stepId (.str id) = .ok key := hid ▸ (hlisted.id _ htarget).2
  have hsame : sourceStep? (id ++ "/" ++ output) = some key :=
    sourceStep?_eq_stepId hname hkey output
  have hown : workflow.HasStep [(key, target)] := .own (hlisted.steps_eq none) htarget
  have hother : workflow.HasStep [(other, step)] := .own (hlisted.steps_eq none) hstep
  have hdepends : Walker.nodeName none key ∈ stepDependencies step :=
    List.mem_flatMap.2 ⟨input, hinput, mem_sourceNodes hsource hsame nodePrefix⟩
  refine ⟨by simp [sourceNodes, sourceTexts, hsame, Walker.nodeName], hown, hdepends, ?_⟩
  intro w inherited r hmode hwalk
  have hrecorded : Walker.nodeName none key ∈ r.dependenciesOf (Walker.nodeName none other) :=
    (Walker.dependenciesOf_step hwalk hother).symm ▸ hdepends
  refine ⟨hrecorded, ?_⟩
  rw [edge_buildDag_iff (Walker.describes_of_walk hmode hwalk)]
  exact .dependency ⟨_, hother, rfl⟩ ⟨_, hown, rfl⟩ hrecorded

end Listed

/-! ## Ids with and without a slash -/

/-- A step with the given id. -/
def namedStep (id : String) : Entries :=
  [(.str "id", .str id), (.str "run", .str "align.cwl")]

/-- A step with an input from the output `bam` of the step with the given id. -/
def callStep (id : String) : Entries :=
  [(.str "id", .str "call"), (.str "in", .map [(.str "x", .str (id ++ "/bam"))]),
    (.str "run", .str "call.cwl")]

/-- A workflow with two steps in list form, of which the second one has an input from the first one,
whose id is given. -/
def chained (id : String) : Entries :=
  [(.str "class", .str "Workflow"),
    (.str "steps", .list [.map (namedStep id), .map (callStep id)])]

/-- One number sign at the beginning of the id is taken off at both places. -/
theorem chained_edge_of_source :
    (chained "#align").ListsSteps [("align", namedStep "#align"), ("call", callStep "#align")] ∧
    IsSourceName "#align" ∧
    ∃ r, (Walker.plain.walk (chained "#align") none 0 none).run {} = .ok () r ∧
      (buildDag (addSyntheticNodes (chained "#align") r)).Edge "dockstore_align"
        "dockstore_call" := by
  have hlisted : (chained "#align").ListsSteps
      [("align", namedStep "#align"), ("call", callStep "#align")] :=
    ⟨rfl, by decide, by decide⟩
  have hname : IsSourceName "#align" := by decide
  obtain ⟨r, hwalk⟩ : ∃ r, (Walker.plain.walk (chained "#align") none 0 none).run {} = .ok () r :=
    ⟨_, rfl⟩
  have hinput : Node.map [(.str "id", .str "x"), (.str "source", .str "#align/bam")] ∈
      ((callStep "#align").field "in").listForm "id" "source" := by decide
  have hsource : "#align" ++ "/" ++ "bam" ∈ sourceTexts
      ((Node.map [(.str "id", .str "x"), (.str "source", .str "#align/bam")]).field "source") := by
    decide
  obtain ⟨-, -, -, hedge⟩ := edge_of_source hlisted List.mem_cons_self rfl hname
    (List.mem_cons_of_mem _ List.mem_cons_self) hinput hsource
  exact ⟨hlisted, hname, r, hwalk, (hedge Walker.plain none r rfl hwalk).2⟩

/-- An id with a slash is cut in the source at this slash. The source then names no step, and there
is no edge. -/
theorem chained_misses :
    (chained "#main/align").ListsSteps
      [("main/align", namedStep "#main/align"), ("call", callStep "#main/align")] ∧
    (∃ input ∈ ((callStep "#main/align").field "in").listForm "id" "source",
      "#main/align" ++ "/" ++ "bam" ∈ sourceTexts (input.field "source")) ∧
    ∃ r, (Walker.plain.walk (chained "#main/align") none 0 none).run {} = .ok () r ∧
      sourceNodes (.str "#main/align/bam") nodePrefix = ["dockstore_main"] ∧
      ¬ (buildDag (addSyntheticNodes (chained "#main/align") r)).Edge "dockstore_main/align"
        "dockstore_call" := by
  have hlisted : (chained "#main/align").ListsSteps
      [("main/align", namedStep "#main/align"), ("call", callStep "#main/align")] :=
    ⟨rfl, by decide, by decide⟩
  refine ⟨hlisted, ⟨_, List.mem_cons_self, by decide⟩, _, rfl, by decide, ?_⟩
  unfold Digraph.Edge
  decide

end CwlDescriptor

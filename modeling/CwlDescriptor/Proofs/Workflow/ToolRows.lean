import CwlDescriptor.Proofs.Dag.Nodes
import CwlDescriptor.Proofs.Workflow.Lookups
import CwlDescriptor.Workflow.ToolTable
import Mathlib.Data.List.Lex
set_option autoImplicit false

/-!
# The table of tools of a walk

The table has one row for each step that runs a tool, and the rows stand in the order of their ids.
The version of an image is read anew for the table, with the specifier that the walk has recorded;
since this is the specifier of the recorded image, the version is there and the image ends with it.

What a step runs is recorded before the visits inside of it and its image after them. Names may be
recorded several times, but the last type and the last image under a name are those of one visit, as
no step has the name of a step inside of it. So a row has the image of something that is a tool.

## Main definitions

* `ToolRow.Consistent`: the specifier, the version and the link of a row belong to its image.

## Main results

* `Text.sorted_iff`: texts are sorted by their code points.
* `Visit.sameLast`: the last visit under a name is the same in both orders of recording.
* `Walker.toolTable_consistent`: the table of the tools of a walk.
-/

namespace CwlDescriptor

/-! ## The order of the rows -/

namespace Text

/-- A code is not after another one if the latter is not smaller. -/
private lemma notAfter_iff {l m : List Nat} :
    notAfter (fun m n => Nat.blt m n) l m = true ↔ ¬ m < l := by
  induction l generalizing m with
  | nil => simp [notAfter]
  | cons a l ih =>
    cases m with
    | nil => simp [notAfter]
    | cons b m =>
      have hblt : Nat.blt b a = false ↔ a ≤ b := by
        rw [← Bool.not_eq_true, Nat.blt_eq, not_lt]
      simp only [notAfter, Bool.or_eq_true, Bool.and_eq_true, Bool.not_eq_true', Nat.blt_eq, hblt,
        ih, List.cons_lt_cons_iff]
      rcases lt_trichotomy a b with h | rfl | h
      · simp [h, h.not_gt, h.ne']
      · simp
      · simp [h, h.not_gt, h.not_ge]

/-- Texts are sorted by their code points. -/
lemma sorted_iff (s t : String) : sorted s t = true ↔ ¬ codes t < codes s :=
  notAfter_iff

/-- Different texts that are sorted are strictly sorted. -/
private lemma codes_lt_of_sorted {s t : String} (h : sorted s t = true) (hne : s ≠ t) :
    codes s < codes t := by
  rcases lt_trichotomy (codes s) (codes t) with hlt | heq | hgt
  · exact hlt
  · exact absurd (codes_inj.1 heq) hne
  · exact absurd hgt ((sorted_iff s t).1 h)

end Text

/-- Rows with different ids are strictly sorted by their ids. -/
private lemma ToolRow.pairwise_mergeSort {rows : List ToolRow} (hnodup : (rows.map (·.id)).Nodup) :
    (rows.mergeSort fun a b => Text.sorted a.id b.id).Pairwise
      fun a b => Text.codes a.id < Text.codes b.id := by
  have hsorted : (rows.mergeSort fun a b => Text.sorted a.id b.id).Pairwise
      fun a b => Text.sorted a.id b.id = true := by
    refine List.pairwise_mergeSort (fun a b c hab hbc => ?_) (fun a b => ?_) rows
    · rw [Text.sorted_iff, not_lt] at hab hbc ⊢
      exact hab.trans hbc
    · rw [Bool.or_eq_true, Text.sorted_iff, Text.sorted_iff, not_lt, not_lt]
      exact le_total _ _
  have hdistinct : (rows.mergeSort fun a b => Text.sorted a.id b.id).Pairwise
      fun a b => a.id ≠ b.id :=
    List.pairwise_map.1 (((List.mergeSort_perm rows _).map ToolRow.id).nodup_iff.2 hnodup)
  exact (hsorted.and hdistinct).imp fun h => Text.codes_lt_of_sorted h.1 h.2

/-! ## The last visit under a name -/

namespace Visit

open Walker

variable {α β : Type}

/-- Nothing is recorded under a name, or what is recorded last is of one visit in both orders. -/
def SameLast (f : Visit → α) (g : Visit → β) (parent : Option String) (vs : List Visit)
    (node : String) : Prop :=
  (node ∉ (records f true parent vs).map (·.1) ∧ node ∉ (records g false parent vs).map (·.1)) ∨
  ∃ u, ∀ t t', Table.get? (Table.insertAll t (records f true parent vs)) node = some (f u) ∧
    Table.get? (Table.insertAll t' (records g false parent vs)) node = some (g u)

variable {f : Visit → α} {g : Visit → β} {parent : Option String} {v : Visit} {vs : List Visit}
  {node : String}

/-- The last visit under a name is the same in a longer list if it is so in both of its parts. -/
lemma SameLast.cons (hfirst : SameLast f g parent [v] node) (hrest : SameLast f g parent vs node) :
    SameLast f g parent (v :: vs) node := by
  unfold SameLast
  rw [records_cons f parent v vs, records_cons g parent v vs]
  simp only [Table.insertAll_append, List.map_append, List.mem_append, not_or]
  rcases hrest with ⟨htrue, hfalse⟩ | ⟨u, hu⟩
  · simp only [Table.get?_insertAll_of_not_mem htrue, Table.get?_insertAll_of_not_mem hfalse]
    exact hfirst.imp_left fun h => ⟨⟨h.1, htrue⟩, h.2, hfalse⟩
  · exact .inr ⟨u, fun t t' => hu _ _⟩

/-- Under the name of a visit stands what is recorded of itself, and under the names below it what
is recorded of the visits inside. -/
private lemma SameLast.singleton
    (hinner : SameLast f g (some (nodeName parent v.key)) v.inner node) :
    SameLast f g parent [v] node := by
  unfold SameLast
  rw [records_true_singleton, records_false_singleton]
  simp only [Table.insertAll_append, Table.insertAll_cons, Table.insertAll_nil, List.map_cons,
    List.map_append, List.map_nil, List.mem_cons, List.mem_append, List.not_mem_nil, or_false,
    not_or, Table.get?_insert]
  by_cases hnode : node = nodeName parent v.key
  · subst hnode
    refine .inr ⟨v, fun t t' => ⟨?_, if_pos rfl⟩⟩
    rw [Table.get?_insertAll_of_not_mem (not_mem_records f v.inner true _), Table.get?_insert,
      if_pos rfl]
  · rcases hinner with ⟨htrue, hfalse⟩ | ⟨u, hu⟩
    · exact .inl ⟨⟨hnode, htrue⟩, hfalse, hnode⟩
    · refine .inr ⟨u, fun t t' => ⟨(hu _ t').1, ?_⟩⟩
      rw [if_neg (Ne.symm hnode)]
      exact (hu t _).2

mutual

/-- The last visit under a name is the same in both orders of recording. -/
theorem sameLast_singleton (f : Visit → α) (g : Visit → β) (node : String) :
    ∀ (v : Visit) (parent : Option String), SameLast f g parent [v] node
  | ⟨key, _, _, _, _, inner⟩, parent =>
    .singleton (sameLast f g node inner (some (nodeName parent key)))

/-- The last visit under a name is the same in both orders of recording. -/
theorem sameLast (f : Visit → α) (g : Visit → β) (node : String) :
    ∀ (vs : List Visit) (parent : Option String), SameLast f g parent vs node
  | [], _ => .inl ⟨nofun, nofun⟩
  | v :: vs, parent =>
    .cons (sameLast_singleton f g node v parent) (sameLast f g node vs parent)

end

end Visit

/-! ## Rows -/

/-- The specifier, the version and the link of a row belong to its image. -/
structure ToolRow.Consistent (lookup : Image.ToolLookup) (row : ToolRow) : Prop where
  specifier : row.specifier ∈ ["", "NO_TAG", "TAG", "LATEST", "DIGEST"]
  /-- The image ends with its tag. -/
  tag : row.specifier = "TAG" ∨ row.specifier = "LATEST" →
    ∃ front, row.image = front ++ ":" ++ row.version
  /-- The image ends with its digest. -/
  digest : row.specifier = "DIGEST" → ∃ front, row.image = front ++ "@" ++ row.version
  /-- There is a version only if the specifier says so. -/
  no_version : row.specifier = "NO_TAG" ∨ row.specifier = "" → row.version = ""
  /-- An image has no specifier only if its tool could not be looked up. -/
  no_specifier : row.image ≠ "" → row.specifier = "" →
    ∃ path fault, (Image.link row.image.toList).path? = some path ∧ lookup path = .error fault
  no_image : row.image = "" → row.specifier = "" ∧ row.version = "" ∧ row.link = ""

namespace Image

/-- An image ends with its version, as its specifier says. -/
def EndsWith (image version : String) : Specifier → Prop
  | .tag | .latest => ∃ front, image = front ++ ":" ++ version
  | .digest => ∃ front, image = front ++ "@" ++ version
  | .noTag => version = ""
  | .parameter => False

/-- The version that is read from an image is that with which it ends. -/
private lemma exists_version (image : String) : ∃ v,
    version image.toList (specifier image.toList) = .ok v ∧
      EndsWith image (String.ofList v) (specifier image.toList) := by
  obtain ⟨v, hversion, -, hcomposed⟩ := composedOf_specifier image.toList
  have hend {c : Char} {front : List Char} (h : image.toList = front ++ c :: v) :
      image = String.ofList front ++ String.ofList [c] ++ String.ofList v := by
    rw [← String.ofList_append, ← String.ofList_append, List.append_assoc, List.singleton_append,
      ← h, String.ofList_toList]
  refine ⟨v, hversion, ?_⟩
  generalize specifier image.toList = s at hcomposed
  cases s with
  | tag | latest => exact ⟨_, hend hcomposed.1⟩
  | digest => exact hcomposed.elim (fun h => ⟨_, hend h⟩) fun ⟨_, _, _, h⟩ => ⟨_, hend h⟩
  | noTag => exact congrArg String.ofList hcomposed.2
  | parameter => exact hcomposed

/-- The address of a link is unknown only if the tool could not be looked up. -/
private lemma Link.exists_of_resolve_eq_error {link : Link} {lookup : ToolLookup} {f : Fault}
    (h : link.resolve lookup = .error f) :
    ∃ path, link.path? = some path ∧ lookup path = .error f := by
  cases link with
  | none | fixed _ => cases h
  | tool path page =>
    refine ⟨path, rfl, ?_⟩
    rw [resolve] at h
    cases hlookup : lookup path with
    | ok found =>
      rw [hlookup] at h
      cases h
    | error e =>
      rw [hlookup] at h
      cases h
      rfl

end Image

/-- A row with a specifier is consistent if its image ends with its version. -/
private lemma ToolRow.consistent_of_endsWith {lookup : Image.ToolLookup} {row : ToolRow}
    {s : Image.Specifier} (himage : row.image ≠ "") (hspecifier : row.specifier = s.text)
    (hend : Image.EndsWith row.image row.version s) : row.Consistent lookup := by
  cases s with
  | noTag =>
    have htext : row.specifier = "NO_TAG" := hspecifier
    exact ⟨by simp [htext], by simp [htext], by simp [htext], fun _ => hend, by simp [htext],
      (absurd · himage)⟩
  | tag =>
    have htext : row.specifier = "TAG" := hspecifier
    exact ⟨by simp [htext], fun _ => hend, by simp [htext], by simp [htext], by simp [htext],
      (absurd · himage)⟩
  | latest =>
    have htext : row.specifier = "LATEST" := hspecifier
    exact ⟨by simp [htext], fun _ => hend, by simp [htext], by simp [htext], by simp [htext],
      (absurd · himage)⟩
  | digest =>
    have htext : row.specifier = "DIGEST" := hspecifier
    exact ⟨by simp [htext], by simp [htext], fun _ => hend, by simp [htext], by simp [htext],
      (absurd · himage)⟩
  | parameter => exact hend.elim

namespace Walker

variable (w : Walker)

/-- What is recorded of the image of a tool: nothing if there is no image, or if it could not be
looked up. -/
private lemma classified?_tool (image : Option String) :
    (image.getD "" = "" ∧ w.classified? (some .tool) image = none) ∨
    ∃ text, image = some text ∧ text ≠ "" ∧
      ((∃ url, w.classified? (some .tool) image = some (Image.specifier text.toList, url)) ∨
        w.classified? (some .tool) image = none ∧
          ∃ path fault, (Image.link text.toList).path? = some path ∧
            w.lookup path = .error fault) := by
  cases image with
  | none => exact .inl ⟨rfl, rfl⟩
  | some text =>
    by_cases htext : text = ""
    · exact .inl ⟨htext, by simp [classified?, htext]⟩
    · have hclassified : w.classified? (some .tool) (some text) = w.classify text := by
        simp [classified?, htext, TargetType.usesImage]
      refine .inr ⟨text, rfl, htext, ?_⟩
      rw [hclassified, classify_eq]
      cases hresolve : (Image.link text.toList).resolve w.lookup with
      | ok url => exact .inl ⟨url, rfl⟩
      | error f =>
        obtain ⟨path, hpath, hlookup⟩ := Image.Link.exists_of_resolve_eq_error hresolve
        exact .inr ⟨rfl, path, f, hpath, hlookup⟩

/-- The row of a step that runs a tool. -/
private lemma exists_toolRow {u : Visit} (htool : u.type = .tool) (key : String) :
    ∃ row, toolRow (nodePrefix ++ key) (u.info w) = .ok row ∧ row.id = key ∧
      row.Consistent w.lookup := by
  rw [Visit.info, htool, imageInfo_eq]
  unfold toolRow
  rcases classified?_tool w u.image with ⟨himage, hnone⟩ | ⟨text, himage, htext, hclassified⟩
  · rw [hnone]
    refine ⟨_, rfl, displayName_nodePrefix key, ?_⟩
    exact ⟨by simp, by simp, by simp, fun _ => rfl, fun h => absurd himage h,
      fun _ => ⟨rfl, rfl, rfl⟩⟩
  · rcases himage ▸ hclassified with ⟨url, hsome⟩ | ⟨hnone, hfails⟩
    · obtain ⟨v, hversion, hend⟩ := Image.exists_version text
      rw [himage, hsome]
      simp only [Option.map_some, Option.getD_some, hversion]
      exact ⟨_, rfl, displayName_nodePrefix key, ToolRow.consistent_of_endsWith htext rfl hend⟩
    · rw [himage, hnone]
      refine ⟨_, rfl, displayName_nodePrefix key, ?_⟩
      exact ⟨by simp, by simp, by simp, fun _ => rfl, fun _ _ => hfails, fun h => absurd h htext⟩

end Walker

/-! ## The table of a walk -/

/-- The names of the steps that run a tool. -/
def WalkResult.toolNodes (r : WalkResult) : List String :=
  (Table.keys r.images).filter fun node => Table.get? r.types node = some .tool

namespace Walker

variable {w : Walker} {workflow : Entries} {inherited : Option String} {r : WalkResult}

/-- What a walk has recorded last under a name is of one visit. -/
private lemma exists_visit_of_walk {depth : Int} (hdepth : 0 ≤ depth)
    (hwalk : (w.walk workflow inherited depth none).run {} = .ok () r) :
    (Table.keys r.images).Nodup ∧ ∀ e ∈ r.images, ∃ key u,
      e = (nodePrefix ++ key, Visit.info w u) ∧ Table.get? r.types e.1 = some u.type := by
  rw [← Walk.outcome_eq_ok, outcome_walk _ hdepth, Except.map_eq_ok] at hwalk
  obtain ⟨vs, -, hr⟩ := hwalk
  obtain rfl := (Prod.mk.inj hr).2
  have hnodup : (Table.keys (w.record depth none {} vs).images).Nodup :=
    Table.nodup_keys_insertAll List.nodup_nil
  refine ⟨hnodup, fun e he => ?_⟩
  have hget := (Table.get?_eq_some_iff hnodup).2 he
  rcases Visit.sameLast Visit.type (Visit.info w) e.1 vs none with ⟨-, hnot⟩ | ⟨u, hu⟩
  · rw [record, Table.get?_insertAll_of_not_mem hnot] at hget
    cases hget
  · obtain ⟨htype, himage⟩ := hu [] []
    obtain ⟨p, -, hp⟩ := List.mem_map.1 ((Table.mem_insertAll he).resolve_left List.not_mem_nil)
    refine ⟨p.1.label, u, ?_, htype⟩
    have hinfo : e.2 = u.info w := Option.some.inj (hget.symm.trans himage)
    rw [← hinfo, ← hp]
    rfl

/-- **The table of tools is consistent.** After a walk there is a table. Its rows are strictly
sorted by the code points of their ids, and there is one for each step that runs a tool, whose name
is the id behind the prefix. The image of a row ends with the tag or the digest that the row has as
its version. A row with an image has a specifier unless the tool could not be looked up, and a row
without an image has neither specifier, version nor link.

**Proof sketch.** By `Visit.sameLast`, the type and the image under a name are of one visit, so that
the image of a tool has been classified. The version is read with the specifier of the same image,
and by `Image.composedOf_specifier` the image is composed of its name and this version. Different
names of steps have different ids behind the prefix, so that the sorted rows are strictly sorted. -/
theorem toolTable_consistent {depth : Int} (hdepth : 0 ≤ depth)
    (hwalk : (w.walk workflow inherited depth none).run {} = .ok () r) :
    ∃ rows, toolTable r = .ok rows ∧
      rows.Pairwise (fun a b => Text.codes a.id < Text.codes b.id) ∧
      (rows.map fun row => nodePrefix ++ row.id).Perm r.toolNodes ∧
      ∀ row ∈ rows, row.Consistent w.lookup := by
  obtain ⟨hnodup, hvisit⟩ := exists_visit_of_walk hdepth hwalk
  set tools := r.images.filter fun e => Table.get? r.types e.1 = some .tool
  have hnodes : tools.map (·.1) = r.toolNodes := by
    rw [WalkResult.toolNodes, Table.keys, List.filter_map]
    rfl
  have hrow : ∀ e ∈ tools, ∃ row, toolRow e.1 e.2 = .ok row ∧
      (row.Consistent w.lookup ∧ e.1 = nodePrefix ++ row.id) := by
    intro e he
    obtain ⟨he, htype⟩ := List.mem_filter.1 he
    obtain ⟨key, u, rfl, hu⟩ := hvisit e he
    have htool : u.type = .tool := Option.some.inj (hu.symm.trans (of_decide_eq_true htype))
    obtain ⟨row, hrow, rfl, hconsistent⟩ := exists_toolRow w htool key
    exact ⟨row, hrow, hconsistent, rfl⟩
  obtain ⟨rows, hrows, hall⟩ := Except.exists_mapM_eq_ok hrow
  have hids : tools.map (·.1) = rows.map fun row => nodePrefix ++ row.id := by
    rw [← List.forall₂_eq_eq_eq, List.forall₂_map_left_iff, List.forall₂_map_right_iff]
    exact hall.imp fun _ _ h => h.2
  have hdistinct : (rows.map ToolRow.id).Nodup := by
    have hnodup : (rows.map fun row => nodePrefix ++ row.id).Nodup := by
      rw [← hids, hnodes]
      exact hnodup.filter _
    rw [← Function.comp_def (nodePrefix ++ ·) ToolRow.id, ← List.map_map] at hnodup
    exact hnodup.of_map
  have hperm := List.mergeSort_perm rows fun a b => Text.sorted a.id b.id
  refine ⟨_, ?_, ToolRow.pairwise_mergeSort hdistinct, ?_, fun row hmem => ?_⟩
  · show (tools.mapM (fun e => toolRow e.1 e.2) >>= fun rows => pure _) = _
    rw [hrows]
    rfl
  · rw [← hnodes, hids]
    exact hperm.map _
  · exact ((List.forall₂_and_left _ _).1 hall.flip).1 row (hperm.mem_iff.1 hmem)

end Walker

/-- A step that runs a tool in the given image. -/
def pullingStep (image : String) : Entries :=
  [(.str "run", .map [(.str "class", .str "CommandLineTool"),
    (.str "requirements", .map [
      (.str "DockerRequirement", .map [(.str "dockerPull", .str image)])])])]

/-- A workflow with a step inside of another one, in whose name there is a dot, and with images that
have a tag, a digest, and neither. -/
def tooled : Entries :=
  workflowOf [("b", pullingStep "quay.io/foo/bar:1.0"),
    ("a", [(.str "run", .map (workflowOf [("c", pullingStep "ubuntu@sha256:1")]))]),
    ("a.b", pullingStep "ghcr.io/foo")]

/-- No tool can be looked up, and the rows are there nevertheless. -/
theorem tooled_toolTable_consistent :
    let w : Walker := { Walker.plain with lookup := fun _ => .error .lookupFailed }
    (0 : Int) ≤ 0 ∧ ∃ r rows, (w.walk tooled none 0 none).run {} = .ok () r ∧
      toolTable r = .ok rows ∧
      (rows.map fun row => nodePrefix ++ row.id).Perm
        ["dockstore_b", "dockstore_a.c", "dockstore_a.b"] ∧
      ∀ row ∈ rows, row.Consistent w.lookup := by
  intro w
  obtain ⟨r, hwalk, hnodes⟩ : ∃ r, (w.walk tooled none 0 none).run {} = .ok () r ∧
      r.toolNodes = ["dockstore_b", "dockstore_a.c", "dockstore_a.b"] := ⟨_, rfl, by decide⟩
  obtain ⟨rows, hrows, -, hperm, hconsistent⟩ := Walker.toolTable_consistent le_rfl hwalk
  exact ⟨le_rfl, r, rows, hwalk, hrows, hnodes ▸ hperm, hconsistent⟩

end CwlDescriptor

import CwlDescriptor.Analysis
import CwlDescriptor.Proofs.Termination
import CwlDescriptor.Proofs.Workflow.Encodings
import CwlDescriptor.Proofs.Workflow.Inheritance
import CwlDescriptor.Proofs.Workflow.Lookups
import Mathlib
set_option autoImplicit false

/-!
# How an analysis ends

An analysis returns a result or refuses the descriptor, as long as all documents can be shown and
all ids that a walk looks up are scalars. Otherwise there are two more outcomes: an integer of too
many digits has no text where a version, an image, an id or a message needs one, and a list or a map
cannot be looked up as an id. A tool that cannot be looked up is no reason to fail.

## Main definitions

* `Failure.Explained`: a refusal, or one of the two other reasons to fail.
* `Entries.LooksUp`: the ids that a walk of a workflow looks up.
* `Analyzer.Reads`: a text that an analysis may read is that of a document, or it is refused.
* `Analyzer.Legible`: every document that an analysis may read can be shown.

## Main results

* `visits_fails`: why a walk fails.
* `toolTable_ne_error`: the table of the tools never fails.
* `Analyzer.content_outcome`: the outcomes of an analysis.
* `odd_content`: neither a result nor a refusal.
-/

namespace CwlDescriptor

/-! ## Reasons to fail -/

/-- A list, a map, a set or a pair is no scalar. -/
def Node.IsScalar : Node → Prop
  | .scalar _ => True
  | _ => False

/-- A failure is a refusal, or not everything can be shown, or not all ids are scalars. -/
inductive Failure.Explained (legible scalars : Prop) : Failure → Prop
  | refused (refusal : Refusal) : Explained legible scalars (.refused refusal)
  | digits (h : ¬ legible) : Explained legible scalars (.fault .tooManyDigits)
  | id (h : ¬ scalars) : Explained legible scalars (.fault .idNotScalar)

/-- A failure that is explained is explained under stronger assumptions. -/
lemma Failure.Explained.mono {legible legible' scalars scalars' : Prop} {e : Failure}
    (h : e.Explained legible scalars) (hlegible : legible' → legible)
    (hscalars : scalars' → scalars) : e.Explained legible' scalars' := by
  cases h with
  | refused refusal => exact .refused refusal
  | digits h => exact .digits (mt hlegible h)
  | id h => exact .id (mt hscalars h)

section Shown

variable {legible scalars : Prop} {e : Failure}

/-- A part of what can be shown can be shown. -/
private lemma shown_fails {n : Node} (h : n.shown = .error e) (hpart : legible → n.Legible) :
    e.Explained legible scalars := by
  rw [Node.shown_eq_error h]
  exact .digits fun hlegible => (hpart hlegible).shown_ne_error e h

/-- What is refused with a text of the document either is refused or cannot be shown. -/
private lemma refuse_shown_fails {n : Node} {cause : String → Cause} {path : Option String}
    {α : Type}
    (h : (n.shown >>= fun text => (.error (.refuse (cause text) path) : Except Failure α)) =
      .error e) (hpart : legible → n.Legible) : e.Explained legible scalars := by
  rcases Except.bind_eq_error.1 h with h | ⟨text, -, h⟩
  · exact shown_fails h hpart
  · cases h
    exact .refused _

end Shown

/-! ## Images -/

/-- A field of a document that can be shown can be shown. -/
lemma Node.Legible.field {n : Node} (h : n.Legible) (name : String) : (n.field name).Legible := by
  cases n with
  | map es => exact (Node.legible_map.1 h).field name
  | scalar _ | list _ | set _ | pair _ _ => rfl

/-- The item that an entry stands for can be shown if its key and value can. -/
lemma Node.Legible.itemOfEntry {key short : String} {e : Scalar × Node}
    (hk : e.1.quoted?.isSome) (hv : e.2.Legible) : (Node.itemOfEntry key short e).Legible := by
  obtain ⟨k, v⟩ := e
  have hkey : (Node.scalar k).Legible := hk
  cases v with
  | map es => exact Node.legible_map.2 ((Node.legible_map.1 hv).set key hkey)
  | scalar _ | list _ | set _ | pair _ _ =>
    refine Node.legible_map.2 (Entries.Legible.set ?_ short hv)
    exact List.forall_mem_singleton.2 ⟨rfl, hkey⟩

/-- The items of a document in list form can be shown if the document can. -/
lemma Node.Legible.listForm {n : Node} (h : n.Legible) (key short : String) :
    ∀ item ∈ n.listForm key short, item.Legible := by
  cases n with
  | list items => exact Node.legible_list.1 h
  | map es =>
    intro item hitem
    obtain ⟨e, he, rfl⟩ := List.mem_map.1 hitem
    obtain ⟨hk, hv⟩ := Node.legible_map.1 h e he
    exact .itemOfEntry hk hv
  | scalar _ | set _ | pair _ _ => exact List.forall_mem_nil _

/-- The images of requirements that can be shown can be shown. -/
lemma Entries.Legible.images {es : Entries} (h : es.Legible) :
    ∀ image ∈ es.images, image.Legible := by
  have hnamed : ∀ name, ∀ image ∈ (es.field name).namedImages, image.Legible := by
    intro name image himage
    obtain ⟨requirement, hmem, rfl⟩ := List.mem_map.1 himage
    exact ((h.field name).listForm _ _ _ (List.mem_filter.1 hmem).1).field "dockerPull"
  intro image himage
  exact (List.mem_append.1 himage).elim (hnamed _ image) (hnamed _ image)

/-- If there is no effective image, the map with the images cannot be shown. -/
private lemma effectiveImage_fails {es : Entries} {inherited : Option String} {e : Failure}
    {legible scalars : Prop} (h : effectiveImage es inherited = .error e)
    (hpart : legible → es.Legible) : e.Explained legible scalars := by
  rw [effectiveImage_eq, firstImage] at h
  cases himages : es.images with
  | nil =>
    rw [himages] at h
    cases h
  | cons image images =>
    rw [himages] at h
    have hfirst : image ∈ es.images := himages ▸ List.mem_cons_self
    exact shown_fails (Except.map_eq_error.1 h) fun hl => (hpart hl).images image hfirst

/-! ## Steps -/

section Steps

variable {legible scalars : Prop} {e : Failure} {path : Option String}

/-- If a step is not read, it is refused, or its row cannot be shown. -/
private lemma FieldRow.step_fails {row : FieldRow} (h : row.step path = .error e)
    (hpart : legible → row.Legible) : e.Explained legible scalars := by
  obtain ⟨k, n⟩ := row
  cases k with
  | none =>
    rw [FieldRow.step] at h
    split_ifs at h
    · exact refuse_shown_fails h fun hl => (hpart hl).2
    · rcases Except.bind_eq_error.1 (Except.map_eq_error.1 h) with h | ⟨text, -, h⟩
      · exact shown_fails h fun hl => (hpart hl).2.field "id"
      · cases h
  | some key =>
    exact shown_fails (Except.map_eq_error.1 h) fun hl => (hpart hl).1 key rfl

/-- If the steps are not read, one is refused, or the workflow cannot be shown. -/
private lemma steps_fails {workflow : Entries} (h : steps workflow path = .error e)
    (hpart : legible → workflow.Legible) : e.Explained legible scalars := by
  cases hrows : (workflow.field "steps").rows? with
  | none =>
    have hnil : steps workflow path = .ok [] := by
      unfold steps
      cases hfield : workflow.field "steps" with
      | list _ | map _ =>
        rw [hfield] at hrows
        cases hrows
      | scalar _ | set _ | pair _ _ => rfl
    cases hnil.symm.trans h
  | some rows =>
    rw [steps_eq_mapM hrows, Except.map_eq_error] at h
    obtain ⟨row, hrow, hfails⟩ := Except.exists_of_mapM_eq_error h
    refine FieldRow.step_fails hfails fun hl => ?_
    exact (Node.legible_iff_rows hrows).1 ((hpart hl).field "steps") row hrow

/-- The steps of a workflow that can be shown can be shown. -/
lemma Entries.Legible.step {workflow : Entries} (h : workflow.Legible) {table : Table Entries}
    (hsteps : steps workflow path = .ok table) {entry : String × Entries} (hmem : entry ∈ table) :
    entry.2.Legible := by
  obtain ⟨n, hn, hstep⟩ := exists_node_of_mem_steps hsteps hmem
  have hlegible : n.Legible := by
    have hfield := h.field "steps"
    unfold Entries.stepNodes at hn
    split at hn
    · next es hes =>
      rw [hes] at hfield
      obtain ⟨e, he, rfl⟩ := List.mem_map.1 hn
      exact (Node.legible_map.1 hfield e he).2
    · next items hitems =>
      rw [hitems] at hfield
      exact Node.legible_list.1 hfield n hn
    · cases hn
  rw [hstep]
  cases n with
  | map es => exact Node.legible_map.1 hlegible
  | scalar _ | list _ | set _ | pair _ _ => exact List.forall_mem_nil _

end Steps

/-! ## Visits -/

/-- A walk of a workflow looks up the id of the workflow, and those of the entries that its steps
run, at any depth. -/
def Entries.LooksUp (workflow : Entries) (id : Node) : Prop :=
  id = workflow.field "id" ∨ ∃ trail e, ∃ run : Entries, ∃ c, workflow.HasStep (trail ++ [e]) ∧
    e.2.field "run" = .map run ∧ run.entryClass? = some c ∧ id = run.field "id"

/-- All ids that a walk of a workflow looks up are scalars. -/
def Entries.ScalarIds (workflow : Entries) : Prop :=
  ∀ id, workflow.LooksUp id → id.IsScalar

section Visits

variable {pathOfId : Node → Except Failure (Option String)} {workflow run : Entries}
  {table : Table Entries} {path image : Option String} {entry : String × Entries} {e : Failure}

/-- The ids inside of a workflow that a step runs are looked up. -/
lemma Entries.ScalarIds.inner (h : workflow.ScalarIds) (hsteps : steps workflow path = .ok table)
    (hmem : entry ∈ table) (hrun : entry.2.field "run" = .map run)
    (hclass : run.entryClass? = some .workflow) : run.ScalarIds := by
  rintro id (rfl | ⟨trail, e, run', c, htrail, hrun', hclass', rfl⟩)
  · exact h _ (.inr ⟨[], entry, run, .workflow, .own hsteps hmem, hrun, hclass, rfl⟩)
  · have hinner : workflow.HasStep (entry :: trail ++ [e]) :=
      .inner hsteps hmem hrun hclass htrail
    exact h _ (.inr ⟨entry :: trail, e, run', c, hinner, hrun', hclass', rfl⟩)

variable (hpath : ∀ id e, pathOfId id = .error e → e = .fault .idNotScalar ∧ ¬ id.IsScalar)
include hpath

/-- A visit of a step fails for a reason that the workflow explains, if visits of what it runs do.
-/
private lemma stepVisit_fails (hsteps : steps workflow path = .ok table) (hmem : entry ∈ table)
    (hinner : ∀ {run : Entries} {image e}, entry.2.field "run" = .map run →
      visits pathOfId run image = .error e → e.Explained run.Legible run.ScalarIds)
    (h : stepVisit pathOfId (visits pathOfId) path image entry = .error e) :
    e.Explained workflow.Legible workflow.ScalarIds := by
  have hstep : workflow.Legible → entry.2.Legible := fun hl => hl.step hsteps hmem
  have htarget : workflow.Legible → (entry.2.field "run").Legible := fun hl => (hstep hl).field _
  rcases Except.bind_eq_error.1 h with h | ⟨own, -, h⟩
  · exact effectiveImage_fails h hstep
  unfold targetVisit at h
  split at h
  · next run hrun =>
    rw [hrun] at htarget
    have hlegible : workflow.Legible → Entries.Legible run := fun hl =>
      Node.legible_map.1 (htarget hl)
    split at h
    · exact refuse_shown_fails h htarget
    · next c hclass =>
      rcases Except.bind_eq_error.1 h with h | ⟨runImage, -, h⟩
      · exact effectiveImage_fails h hlegible
      rcases Except.bind_eq_error.1 h with hread | ⟨inner, -, h⟩
      · unfold innerVisits at hread
        split_ifs at hread with hc
        subst hc
        exact (hinner hrun hread).mono hlegible fun hids => hids.inner hsteps hmem hrun hclass
      rcases Except.bind_eq_error.1 h with h | ⟨_, -, h⟩
      · obtain ⟨rfl, hid⟩ := hpath _ _ h
        refine .id fun hids => hid (hids _ (.inr ⟨[], entry, run, c, ?_⟩))
        exact ⟨.own hsteps hmem, hrun, hclass, rfl⟩
      · cases h
  · cases h
  · exact refuse_shown_fails h htarget

/-- **Why a walk fails.** The visits of a workflow cannot be read only if something is refused, or
the workflow cannot be shown, or an id that is looked up is no scalar. -/
lemma visits_fails {inherited : Option String}
    (h : visits pathOfId workflow inherited = .error e) :
    e.Explained workflow.Legible workflow.ScalarIds := by
  induction hdepth : (Node.map workflow).depth using Nat.strong_induction_on
    generalizing workflow inherited e with
  | _ depth ih =>
    rw [visits_eq] at h
    unfold stepVisits at h
    rcases Except.bind_eq_error.1 h with h | ⟨around, -, h⟩
    · exact effectiveImage_fails h id
    rcases Except.bind_eq_error.1 h with h | ⟨path, -, h⟩
    · obtain ⟨rfl, hid⟩ := hpath _ _ h
      exact .id fun hids => hid (hids _ (.inl rfl))
    rcases Except.bind_eq_error.1 h with h | ⟨table, hsteps, h⟩
    · exact steps_fails h id
    obtain ⟨entry, hmem, h⟩ := Except.exists_of_mapM_eq_error h
    refine stepVisit_fails hpath hsteps hmem (fun hrun hinner => ?_) h
    -- what a step runs is less deep than the workflow
    exact ih _ (hdepth ▸ depth_run_lt hsteps hmem hrun) hinner rfl

end Visits

/-! ## The table of the tools -/

/-- The recorded specifier is that of the recorded image. -/
private lemma info_specifier (w : Walker) (v : Visit) :
    (v.info w).specifier = none ∨
      ∃ image, (v.info w).image = some image ∧
        (v.info w).specifier = some (Image.specifier image.toList) := by
  unfold Visit.info
  rw [Walker.imageInfo_eq]
  rcases w.classified?_cases (some v.type) v.image with hnone | ⟨image, himage, hsome⟩
  · have hclassified : w.classified? (some v.type) v.image = none := hnone w.lookup
    exact .inl (by rw [hclassified]; rfl)
  · have hclassified : w.classified? (some v.type) v.image = _ := hsome w.lookup
    rw [hclassified]
    cases ((Image.link image.toList).resolve w.lookup).toOption with
    | none => exact .inl rfl
    | some url => exact .inr ⟨image, himage, rfl⟩

/-- What is recorded of an image has a version. -/
private lemma toolRow_ne_error (w : Walker) (node : String) (v : Visit) (e : Failure) :
    toolRow node (v.info w) ≠ .error e := by
  intro h
  unfold toolRow at h
  rcases info_specifier w v with hnone | ⟨image, himage, hsome⟩
  · rw [hnone] at h
    cases h
  · obtain ⟨version, hversion, -⟩ := Image.composedOf_specifier image.toList
    simp only [himage, hsome, Option.getD_some, hversion, Except.mapError] at h
    cases h

/-- The table of the tools never fails. -/
lemma toolTable_ne_error (w : Walker) (vs : List Visit) (e : Failure) :
    toolTable (w.record 0 none {} vs) ≠ .error e := by
  intro h
  rcases Except.bind_eq_error.1 h with h | ⟨rows, -, h⟩
  · obtain ⟨row, hrow, hfails⟩ := Except.exists_of_mapM_eq_error h
    have hmem := (List.mem_filter.1 hrow).1
    rcases Table.mem_insertAll hmem with hmem | hmem
    · cases hmem
    · obtain ⟨p, -, rfl⟩ := List.mem_map.1 hmem
      exact toolRow_ne_error w _ p.2 e hfails
  · cases h

/-! ## Analyses -/

namespace Analyzer

variable {a : Analyzer} {root : SourceFile} {e : Failure}

/-- Every document that an analysis may read can be shown: that of the root, and those of the other
files. -/
def Legible (a : Analyzer) (root : SourceFile) : Prop :=
  (∀ n, load root.content (some root.path) = .ok n → n.Legible) ∧ a.expander.Legible

/-- A text is the text of a document or it is refused. -/
def Readable (text : String) (path : Option String) : Prop :=
  ∀ e, load text path = .error e → ∃ refusal, e = .refused refusal

/-- Only an id that is no scalar keeps its path from being found. -/
private lemma pathOfId_eq_error {s : ExpansionState} {id : Node} (h : s.pathOfId id = .error e) :
    e = .fault .idNotScalar ∧ ¬ id.IsScalar := by
  cases id with
  | scalar value => cases value <;> cases h
  | list _ | map _ | set _ | pair _ _ =>
    cases h
    exact ⟨rfl, id⟩

/-- The documents of the root and of the other files can be read, or they are refused. -/
structure Reads (a : Analyzer) (root : SourceFile) : Prop where
  root : Readable root.content (some root.path)
  store : ∀ path text, a.store.get? path = some text → Readable text (some path)

/-- An expansion that does not run out of levels fails for an explained reason. -/
private lemma Reads.explained {legible scalars : Prop} (h : a.Reads root)
    (hfails : a.expander.FailsBy legible e) (hlevels : e ≠ .exhausted) :
    e.Explained legible scalars := by
  cases hfails with
  | limit hlimit =>
    cases e with
    | refused refusal => exact .refused refusal
    | fault _ | exhausted => exact hlimit.elim
  | unreadable hget hread =>
    obtain ⟨refusal, rfl⟩ := h.store _ _ hget _ hread
    exact .refused refusal
  | version hnot => exact .digits hnot
  | exhausted => exact absurd rfl hlevels

/-- The root is expanded to a document that can be shown if all documents can be, or this fails for
an explained reason. -/
lemma Reads.expandText (h : a.Reads root) (scalars : Prop) :
    (expandText a.expander root.path root.content).Ensures {}
      (fun n _ => a.Legible root → n.Legible)
      (fun e _ => e.Explained (a.Legible root) scalars) := by
  have hload : (Expander.lift (load root.content (some root.path))).Ensures {}
      (fun n t => load root.content (some root.path) = .ok n ∧ t = {})
      (fun e _ => e.Explained (a.Legible root) scalars) := by
    cases hload : load root.content (some root.path) with
    | ok n => exact .of_ok rfl ⟨rfl, rfl⟩
    | error e =>
      obtain ⟨refusal, rfl⟩ := h.root e hload
      exact .of_error rfl (.refused refusal)
  refine hload.bind ?_
  rintro n _ ⟨hn, rfl⟩
  have hexplained := expandWithin_explained a.expander (a.Legible root) And.right
    a.limits.maxFiles .whole (.root root.path) n (fun hl => hl.1 n hn) {}
  have hlevels : ∀ t, a.expander.expandWithin a.limits.maxFiles .whole (.root root.path) n {} ≠
      .error .exhausted t :=
    expandWithin_ne_exhausted rfl load_ne_exhausted (Nat.sub_le _ _) .whole _ n
  cases hresult : a.expander.expandWithin a.limits.maxFiles .whole (.root root.path) n {} with
  | ok n t => exact .of_ok hresult (hexplained.ok hresult)
  | error e t =>
    refine .of_error hresult (h.explained (hexplained.error hresult) ?_)
    rintro rfl
    exact hlevels t hresult

/-- Why a version is refused. -/
private lemma cwlVersion_fails {n : Node} {path : Option String} {legible scalars : Prop}
    (h : n.cwlVersion path = .error e) (hpart : legible → n.Legible) :
    e.Explained legible scalars := by
  unfold Node.cwlVersion at h
  simp only at h
  split_ifs at h
  · cases h
    exact .refused _
  · rcases Except.bind_eq_error.1 h with hshown | ⟨text, -, hprefix⟩
    · exact shown_fails hshown fun hl => (hpart hl).field "cwlVersion"
    · split_ifs at hprefix
      · cases hprefix
      · cases hprefix
        exact .refused _

/-- What the root is expanded to, if it is not refused. -/
private lemma expandRoot_eq_ok {es : Entries} {s : ExpansionState}
    (h : a.expandRoot root = .ok (es, s)) :
    (CwlDescriptor.expandText a.expander root.path root.content).run {} = .ok (.map es) s := by
  unfold expandRoot at h
  cases hresult : (CwlDescriptor.expandText a.expander root.path root.content).run {} with
  | error e t =>
    rw [hresult] at h
    cases h
  | ok document t =>
    simp only [hresult] at h
    cases document with
    | map entries =>
      obtain ⟨_, -, h⟩ := Except.bind_eq_ok.1 h
      cases h
      rfl
    | scalar _ | list _ | set _ | pair _ _ => cases h

/-- Why the expanded root is refused. -/
private lemma Reads.expandRoot_fails (h : a.Reads root) {scalars : Prop}
    (hfails : a.expandRoot root = .error e) : e.Explained (a.Legible root) scalars := by
  have hexpand := h.expandText scalars
  unfold expandRoot at hfails
  cases hresult : (CwlDescriptor.expandText a.expander root.path root.content).run {} with
  | error e' t =>
    rw [hresult] at hfails
    cases hfails
    exact hexpand.error hresult
  | ok document t =>
    have hlegible := hexpand.ok hresult
    simp only [hresult] at hfails
    cases hentries : document.entries? with
    | none =>
      rw [hentries] at hfails
      cases hfails
      exact .refused _
    | some es =>
      simp only [hentries] at hfails
      rcases Except.bind_eq_error.1 hfails with hversion | ⟨_, -, hfails⟩
      · exact cwlVersion_fails hversion hlegible
      · cases hfails

/-- The walker of an analysis. -/
def walker (a : Analyzer) (s : ExpansionState) (mode : OutputMode) : Walker where
  pathOfId := s.pathOfId
  mode := mode
  lookup := a.lookup

/-- A walk of the root expands it, reads the visits and records them. -/
private lemma walkRoot_eq (mode : OutputMode) :
    a.walkRoot root mode = (do
      let p ← a.expandRoot root
      let vs ← visits p.2.pathOfId p.1 none
      let r := (a.walker p.2 mode).record 0 none {} vs
      return if mode = .dag then addSyntheticNodes p.1 r else r) := by
  refine bind_congr ?_
  rintro ⟨es, s⟩
  cases hvisits : visits s.pathOfId es none with
  | ok vs =>
    have hwalk : ((a.walker s mode).walk es none 0 none).run {} = _ :=
      Walker.walk_eq_ok_iff.2 ⟨vs, hvisits, rfl⟩
    simp only [walker] at hwalk ⊢
    rw [hwalk]
    rfl
  | error e =>
    obtain ⟨r, hwalk⟩ : ∃ r, ((a.walker s mode).walk es none 0 none).run {} = .error e r := by
      rw [← Walk.outcome_eq_error, Walker.outcome_walk _ le_rfl]
      exact Except.map_eq_error.2 hvisits
    simp only [walker] at hwalk ⊢
    rw [hwalk]
    rfl

/-- Why a walk of the expanded root fails. -/
private lemma Reads.walkRoot_fails (h : a.Reads root) {mode : OutputMode}
    (hfails : a.walkRoot root mode = .error e) :
    e.Explained (a.Legible root) (∀ es s, a.expandRoot root = .ok (es, s) → es.ScalarIds) := by
  rw [walkRoot_eq] at hfails
  rcases Except.bind_eq_error.1 hfails with hroot | ⟨⟨es, s⟩, hroot, hfails⟩
  · exact h.expandRoot_fails hroot
  have hlegible : a.Legible root → es.Legible := fun hl =>
    Node.legible_map.1 ((h.expandText True).ok (expandRoot_eq_ok hroot) hl)
  rcases Except.bind_eq_error.1 hfails with hvisits | ⟨vs, -, hfails⟩
  · have hexplained := visits_fails (fun _ _ => pathOfId_eq_error) hvisits
    exact hexplained.mono hlegible fun hids => hids es s hroot
  · cases hfails

/-- The table and the graph of a walk do not fail. -/
private lemma content_eq_error {mode : OutputMode} (h : a.content root mode = .error e) :
    a.walkRoot root mode = .error e := by
  rcases Except.bind_eq_error.1 h with hwalk | ⟨r, hwalk, h⟩
  · exact hwalk
  cases mode with
  | dag => cases h
  | tools =>
    rw [walkRoot_eq] at hwalk
    obtain ⟨p, -, hwalk⟩ := Except.bind_eq_ok.1 hwalk
    obtain ⟨vs, -, hrecord⟩ := Except.bind_eq_ok.1 hwalk
    cases hrecord
    rcases Except.bind_eq_error.1 h with htable | ⟨table, -, h⟩
    · exact absurd htable (toolTable_ne_error _ vs e)
    · cases h

/-- **An analysis returns a result or refuses the descriptor**, up to two more outcomes: a document
that cannot be shown may have too many digits in a place where a text is needed, and an id that the
walk looks up may be no scalar. It does not matter what happens when a tool is looked up.

**Proof sketch.** The expansion does not run out of levels, so it fails for an explained reason, and
what it expands to can be shown if all documents can be. A walk fails where its visits cannot be
read; by induction on the nesting of the workflow, this is for an explained reason, too. Then the
graph and the table can always be made: an image with a digest is recorded as such. -/
theorem content_outcome (h : a.Reads root) (mode : OutputMode) :
    (∃ result, a.content root mode = .ok result) ∨
    (∃ refusal, a.content root mode = .error (.refused refusal)) ∨
    (a.content root mode = .error (.fault .tooManyDigits) ∧ ¬ a.Legible root) ∨
    (a.content root mode = .error (.fault .idNotScalar) ∧
      ∃ es s, a.expandRoot root = .ok (es, s) ∧ ¬ es.ScalarIds) := by
  cases hcontent : a.content root mode with
  | ok result => exact .inl ⟨result, rfl⟩
  | error e =>
    refine .inr ?_
    cases h.walkRoot_fails (content_eq_error hcontent) with
    | refused refusal => exact .inl ⟨refusal, rfl⟩
    | digits hnot => exact .inr (.inl ⟨rfl, hnot⟩)
    | id hnot =>
      push Not at hnot
      exact .inr (.inr ⟨rfl, hnot⟩)

end Analyzer

/-- A root whose id is a list. -/
def oddRoot : SourceFile := ⟨"/main", "{cwlVersion: v1.0, id: []}"⟩

/-- An analysis with a file that is no document, in which no tool can be looked up. -/
def oddAnalyzer : Analyzer where
  store := .ofFiles [⟨"/text", "]"⟩]
  lookup _ := .error .lookupFailed

/-- The document of the root. -/
def oddEntries : Entries := [(.str "cwlVersion", .str "v1.0"), (.str "id", .list [])]

/-- The text of the root is read as a map whose id is a list. -/
private lemma load_oddRoot : load oddRoot.content (some oddRoot.path) =
    .ok (.map oddEntries) := by
  cbv

/-- The files of the analysis can be read. -/
lemma reads_oddRoot : oddAnalyzer.Reads oddRoot where
  root e he := by
    rw [load_oddRoot] at he
    cases he
  store path text hget e he := by
    have hmem : (Path.normalize path, text) ∈ [("/text", "]")] := Table.mem_of_get? hget
    obtain ⟨-, rfl⟩ := Prod.mk.inj (List.mem_singleton.1 hmem)
    have hload : load "]" (some path) = .error (.refuse (.unreadable .notYaml) (some path)) := by
      cbv
    rw [hload] at he
    cases he
    exact ⟨_, rfl⟩

/-- The graph of the root is not made, since the id is no scalar. -/
private lemma content_oddRoot :
    oddAnalyzer.content oddRoot .dag = .error (.fault .idNotScalar) := by
  obtain ⟨s, hexpand⟩ : ∃ s, (expandText oddAnalyzer.expander oddRoot.path oddRoot.content).run {} =
      .ok (.map oddEntries) s := by
    unfold expandText
    rw [load_oddRoot]
    exact ⟨_, rfl⟩
  have hroot : oddAnalyzer.expandRoot oddRoot = .ok (oddEntries, s) := by
    unfold Analyzer.expandRoot
    rw [hexpand]
    rfl
  have hvisits : visits s.pathOfId oddEntries none = .error (.fault .idNotScalar) := by
    rw [visits_eq]
    rfl
  unfold Analyzer.content
  rw [Analyzer.walkRoot_eq, hroot]
  rfl

/-- The fault of an odd root is explained by an id that is no scalar. -/
theorem odd_content_outcome :
    oddAnalyzer.Reads oddRoot ∧
      ∃ es s, oddAnalyzer.expandRoot oddRoot = .ok (es, s) ∧ ¬ es.ScalarIds := by
  refine ⟨reads_oddRoot, ?_⟩
  have houtcome := Analyzer.content_outcome reads_oddRoot .dag
  rw [content_oddRoot] at houtcome
  obtain ⟨_, h⟩ | ⟨_, h⟩ | ⟨h, -⟩ | ⟨-, h⟩ := houtcome
  · cases h
  · cases h
  · cases h
  · exact h

/-- There is neither a result nor a refusal for a root whose id is a list, because a list cannot be
looked up. -/
theorem odd_content :
    oddAnalyzer.Reads oddRoot ∧ ¬ ((∃ result, oddAnalyzer.content oddRoot .dag = .ok result) ∨
      ∃ refusal, oddAnalyzer.content oddRoot .dag = .error (.refused refusal)) := by
  refine ⟨reads_oddRoot, ?_⟩
  rw [content_oddRoot]
  rintro (⟨_, h⟩ | ⟨_, h⟩) <;> cases h

end CwlDescriptor

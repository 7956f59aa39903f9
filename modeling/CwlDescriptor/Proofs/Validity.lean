import CwlDescriptor.Proofs.Mixins
import CwlDescriptor.Proofs.Outcomes
import CwlDescriptor.Validation
import Mathlib
set_option autoImplicit false

/-!
# What a validation says of an analysis

A validation looks at the class and at the version of a descriptor as it is written, and an analysis
looks at them in the expanded descriptor. Both are leaves of the root, and no leaf of the root is
changed by an expansion, unless it is an id, or a reference that is followed. So what a valid
descriptor is expanded to has its class and its version, and all that an analysis can still refuse
are files that cannot be read, and limits that are exceeded.

## Main definitions

* `Steady`: the keys at which an expansion changes no leaf.

## Main results

* `Expands.field_of_steady`: a leaf of a map at such a key is kept, also if a mixin is followed.
* `validateDescriptor_eq_passed`: what makes a descriptor valid.
* `Analyzer.expandRoot_of_valid`: a valid descriptor is neither malformed nor of no version.
-/

namespace CwlDescriptor

open Expansion Expander

/-! ## Leaves that are kept -/

/-- A key at which an expansion changes no leaf: that of no id, of no reference to what is run, and
of no mixin. -/
structure Steady (name : String) : Prop where
  ne_id : "id" ≠ name
  ne_run : "run" ≠ name
  not_mixin : lowerText name ∉ DirectiveKind.mixing.names

/-- The class is kept. -/
private lemma steady_class : Steady "class" :=
  ⟨by decide, by decide, by decide⟩

/-- The version is kept. -/
private lemma steady_cwlVersion : Steady "cwlVersion" :=
  ⟨by decide, by decide, by decide⟩

section Steady

variable {x : Expander} {levels : Nat} {f : Frame} {r : Replacements} {es es' : Entries}
  {s t : ExpansionState} {name : String} {v : Node}

/-- No text takes the place of a value that is kept. -/
lemma Steady.at?_eq_none (hname : Steady name) : r.at? (.str name) = none := by
  have hid : Scalar.str name ≠ .str "id" := by simpa using hname.ne_id.symm
  have hrun : Scalar.str name ≠ .str "run" := by simpa using hname.ne_run.symm
  rw [Replacements.at?, if_neg hid, if_neg hrun]

/-- A value that is not null is found at its key. -/
private lemma Entries.get?_of_field (h : es.field name = v) (hv : v.isNull = false) :
    es.get? name = some v := by
  unfold Entries.field at h
  cases hget : es.get? name with
  | none =>
    rw [hget] at h
    subst h
    cases hv
  | some w =>
    rw [hget] at h
    exact congrArg some h

/-- The values of a map, and then what it runs, are expanded. -/
private lemma field_of_values {values : Entries} {s₁ : ExpansionState}
    (hentries : ExpandsEntries x levels f r es s values s₁)
    (hrun : ExpandsRun x levels f values s₁ es' t) (hname : Steady name)
    (hleaf : (es.field name).IsLeaf) : es'.field name = es.field name := by
  rw [hrun.field hname.ne_run]
  exact hentries.field_of_isLeaf hname.at?_eq_none hleaf

/-- The map comes first where a document is merged into it. -/
private lemma Directs.prefix_merged {entries : Entries}
    (h : Directs x levels f es s (.merged entries) t) :
    es.eraseDirective .mixing <+: entries := by
  cases h with
  | mixedAbsent => exact List.prefix_rfl
  | mixedMap => exact Entries.prefix_addMissing _ _

/-- The values that are merged into a map take the place of no value that it has. -/
private lemma Directs.field_merged {entries : Entries} {newId : Option String}
    (h : Directs x levels f (withId es newId) s (.merged entries) t) (hname : Steady name)
    (hnull : (es.field name).isNull = false) : entries.field name = es.field name := by
  have hown : ((withId es newId).eraseDirective .mixing).field name = es.field name := by
    rw [Entries.field_eraseDirective hname.not_mixin, field_withId newId hname.ne_id]
  have hget := Entries.get?_of_prefix h.prefix_merged (Entries.get?_of_field hown hnull)
  rw [Entries.field, hget, Option.getD_some]

/-- **A leaf at a steady key is kept**, if the map is replaced by no other document.

**Proof sketch.** A map whose mixin was followed has its own values first, and so it does not get
that of the mixin; then its values are expanded as those of any map. A new id and what is run are
at other keys. -/
theorem Expands.field_of_steady {stage : Stage} {n : Node}
    (h : Expands x levels stage f (.map es) s n t) (hname : Steady name)
    (himport : es.directive? .importing = none) (hinclude : es.directive? .including = none)
    (hleaf : (es.field name).IsLeaf) (hnull : (es.field name).isNull = false) :
    ∃ es' : Entries, n = .map es' ∧ es'.field name = es.field name := by
  cases h with
  | leaf hmap => exact hmap.elim
  | merged hentries hrun => exact ⟨_, rfl, field_of_values hentries hrun hname hleaf⟩
  | replaced hcheck henter hdirect =>
    exact absurd hdirect (Directs.not_replaced himport hinclude)
  | mixed hcheck henter hdirect hrest =>
    have hmerged := hdirect.field_merged hname hnull
    cases hrest with
    | leaf hmap => exact hmap.elim
    | merged hentries hrun =>
      refine ⟨_, rfl, ?_⟩
      rw [← hmerged] at hleaf ⊢
      exact field_of_values hentries hrun hname hleaf
  | @unchanged _ _ frame' _ values es' newId _ _ _ _ _ _ hcheck henter hdirect hentries hrun =>
    refine ⟨_, rfl, ?_⟩
    rw [← field_missing ⟨newId, es.importedRun?⟩ es hname.ne_id] at hleaf ⊢
    exact field_of_values hentries hrun hname hleaf

end Steady

/-! ## Valid descriptors -/

section Version

variable {n : Node} {path : Option String} {version : String}

/-- The version of a descriptor is one that is there, can be shown, and begins with `v1`. -/
private lemma Node.cwlVersion_eq_ok : n.cwlVersion path = .ok version ↔
    (n.field "cwlVersion").isNull = false ∧ (n.field "cwlVersion").shown = .ok version ∧
      "v1".toList.isPrefixOf version.toList = true := by
  unfold Node.cwlVersion
  simp only
  constructor
  · intro h
    split_ifs at h with hnull
    obtain ⟨text, hshown, h⟩ := Except.bind_eq_ok.1 h
    split_ifs at h with hbegins
    cases h
    exact ⟨by simpa using hnull, hshown, hbegins⟩
  · rintro ⟨hnull, hshown, hbegins⟩
    rw [if_neg (by simp [hnull]), hshown, Except.ok_bind, if_pos hbegins]
    rfl

/-- The text of a list or a map is no version. -/
private lemma Node.isLeaf_of_version (hshown : n.shown = .ok version)
    (hbegins : "v1".toList.isPrefixOf version.toList = true) : n.IsLeaf := by
  by_contra hn
  rw [Node.shown_eq_ok, Node.shown?_eq_quoted? hn] at hshown
  cases n with
  | list items =>
    simp only [Node.quoted?, Option.map_eq_some_iff] at hshown
    obtain ⟨texts, -, rfl⟩ := hshown
    simp at hbegins
  | map es =>
    simp only [Node.quoted?, Option.map_eq_some_iff] at hshown
    obtain ⟨texts, -, rfl⟩ := hshown
    simp at hbegins
  | scalar _ | set _ | pair _ _ => exact hn trivial

end Version

/-- The class of an entry is a text. -/
private lemma Entries.field_class_of_entry {es : Entries} (h : es.entryClass?.isSome) :
    ∃ name, es.field "class" = .str name := by
  unfold Entries.entryClass? at h
  cases hclass : es.field "class" with
  | scalar value =>
    rw [hclass] at h
    cases value with
    | str name => exact ⟨name, rfl⟩
    | _ => cases h
  | list _ | map _ | set _ | pair _ _ =>
    rw [hclass] at h
    cases h

/-- The text at a path is a map with the class of a subject and with a supported version. -/
structure Subject.IsMetBy (subject : Subject) (path text : String) (es : Entries) : Prop where
  loads : load text (some path) = .ok (.map es)
  entryClass : es.entryClass?.map Subject.ofClass = some subject
  version : ∃ version, (Node.map es).cwlVersion none = .ok version

/-- What is found at the path of a valid descriptor. -/
theorem exists_of_valid {subject : Subject} {store : SourceStore} {path : String} {v : Validation}
    (h : validateDescriptor subject store path = .ok v) (hvalid : v.valid = true) :
    ∃ text es, store.get? path = some text ∧ subject.IsMetBy path text es := by
  unfold validateDescriptor at h
  cases hget : store.get? path with
  | none =>
    rw [hget] at h
    cases h
    cases hvalid
  | some text =>
    simp only [hget] at h
    split_ifs at h
    · cases h
      cases hvalid
    cases hload : load text (some path) with
    | error e =>
      rw [hload] at h
      cases e <;> cases h
      cases hvalid
    | ok document =>
      simp only [hload] at h
      split_ifs at h with hclass
      · obtain ⟨supported, hversion, h⟩ := Except.bind_eq_ok.1 h
        cases supported with
        | false =>
          cases h
          cases hvalid
        | true =>
          cases document with
          | map es =>
            refine ⟨text, es, rfl, hload, hclass, ?_⟩
            unfold Node.hasValidVersion at hversion
            cases hcwl : (Node.map es).cwlVersion none with
            | ok version => exact ⟨version, rfl⟩
            | error e =>
              rw [hcwl] at hversion
              cases e <;> cases hversion
          | scalar _ | list _ | set _ | pair _ _ => cases hclass
      · cases h
        cases hvalid

/-! ## The analysis of a valid descriptor -/

/-- A text that is refused cannot be read. -/
lemma load_refused {text : String} {path : Option String} {refusal : Refusal}
    (h : load text path = .error (.refused refusal)) :
    refusal.cause.kind = .parseError ∧ refusal.path = path := by
  unfold load at h
  cases hload : Yaml.load text.toList with
  | ok n =>
    rw [hload] at h
    cases h
  | error e =>
    rw [hload] at h
    cases e <;> cases h <;> exact ⟨rfl, rfl⟩

/-- An expansion refuses nothing but files that cannot be read and limits that are exceeded. -/
private lemma expandWithin_refused {x : Expander} (hread : x.read = load) {levels : Nat} {f : Frame}
    {n : Node} {s t : ExpansionState} {refusal : Refusal}
    (h : x.expandWithin levels .whole f n s = .error (.refused refusal) t) :
    refusal.cause.kind = .parseError ∨ refusal.cause.kind = .recursionLimitExceeded := by
  have hexplained := expandWithin_explained x False False.elim levels .whole f n False.elim s
  cases hexplained.error h with
  | limit hlimit => exact .inr hlimit
  | unreadable _ hrefused =>
    rw [hread] at hrefused
    exact .inl (load_refused hrefused).1

/-- What is expanded from a root with a class and a version has them, unless the root is replaced by
another document. -/
lemma Subject.IsMetBy.expands {subject : Subject} {path text : String} {es : Entries}
    (h : subject.IsMetBy path text es) (himport : es.directive? .importing = none)
    (hinclude : es.directive? .including = none) {x : Expander} {levels : Nat} {f : Frame}
    {n : Node} {s t : ExpansionState} (hn : Expands x levels .whole f (.map es) s n t) :
    ∃ es' : Entries, n = .map es' ∧ es'.field "class" = es.field "class" ∧
      es'.field "cwlVersion" = es.field "cwlVersion" := by
  obtain ⟨version, hversion⟩ := h.version
  obtain ⟨hnull, hshown, hbegins⟩ := Node.cwlVersion_eq_ok.1 hversion
  have hleaf : (es.field "cwlVersion").IsLeaf := Node.isLeaf_of_version hshown hbegins
  obtain ⟨name, hclass⟩ : ∃ name, es.field "class" = .str name := by
    apply Entries.field_class_of_entry
    cases hentry : es.entryClass? with
    | none =>
      have hmet := h.entryClass
      rw [hentry] at hmet
      cases hmet
    | some _ => rfl
  obtain ⟨es', rfl, hes'⟩ :=
    hn.field_of_steady steady_cwlVersion himport hinclude hleaf hnull
  obtain ⟨es'', heq, hes''⟩ := hn.field_of_steady steady_class himport hinclude
    (by rw [hclass]; trivial) (by rw [hclass]; rfl)
  cases heq
  exact ⟨es', rfl, hes'', hes'⟩

namespace Analyzer

variable {a : Analyzer} {path text : String} {es : Entries}

/-- The expansion of the root that is read. -/
lemma run_expandText {n : Node} (h : load text (some path) = .ok n) :
    (CwlDescriptor.expandText a.expander path text).run {} =
      a.expander.expandWithin a.limits.maxFiles .whole (.root path) n {} := by
  unfold CwlDescriptor.expandText
  rw [h]
  rfl

/-- **A valid descriptor is not refused for what it is**: it is expanded to a map of its class and
of its version, unless a file that it refers to cannot be read, or a limit is exceeded. Only a root
that is replaced by another document could turn out to be no map, or to have another version.

**Proof sketch.** The class and the version are leaves of the root, and their keys are steady. So
they are those of the expanded root, whose version is supported then. -/
theorem expandRoot_of_valid {subject : Subject} {v : Validation}
    (h : validateDescriptor subject a.store path = .ok v) (hvalid : v.valid = true) :
    ∃ text es, a.store.get? path = some text ∧ subject.IsMetBy path text es ∧
      (es.directive? .importing = none → es.directive? .including = none →
        (∀ refusal, a.expandRoot ⟨path, text⟩ = .error (.refused refusal) →
          refusal.cause.kind = .parseError ∨ refusal.cause.kind = .recursionLimitExceeded) ∧
        ∀ es' s, a.expandRoot ⟨path, text⟩ = .ok (es', s) →
          es'.field "class" = es.field "class" ∧
            es'.field "cwlVersion" = es.field "cwlVersion") := by
  obtain ⟨text, es, hget, hmet⟩ := exists_of_valid h hvalid
  refine ⟨text, es, hget, hmet, fun himport hinclude => ?_⟩
  unfold expandRoot
  rw [run_expandText hmet.loads]
  cases hrun : a.expander.expandWithin a.limits.maxFiles .whole (.root path) (.map es) {} with
  | error e t =>
    constructor
    · intro refusal heq
      cases heq
      exact expandWithin_refused rfl hrun
    · intro es' s heq
      cases heq
  | ok n t =>
    obtain ⟨es', rfl, hclass, hcwl⟩ := hmet.expands himport hinclude (expands_iff.2 hrun)
    obtain ⟨version, hversion⟩ := hmet.version
    have hversion' : (Node.map es').cwlVersion (some path) = .ok version := by
      rw [Node.cwlVersion_eq_ok] at hversion ⊢
      show (es'.field "cwlVersion").isNull = false ∧ (es'.field "cwlVersion").shown = _ ∧ _
      rw [hcwl]
      exact hversion
    simp only [Node.entries?, hversion']
    constructor
    · intro refusal heq
      cases heq
    · intro es'' s heq
      cases heq
      exact ⟨hclass, hcwl⟩

end Analyzer

/-- A workflow with a mixin. -/
def stock : SourceFile := ⟨"/main", "{class: Workflow, cwlVersion: v1.0, $mixin: m}"⟩

/-- A document with another class and another version. -/
def scion : SourceFile := ⟨"/m", "{class: a, cwlVersion: v2, doc: d}"⟩

/-- The workflow with the document to be merged into it. -/
def graft : Analyzer where
  store := .ofFiles [stock, scion]

/-- The entries of the workflow. -/
def stockEntries : Entries :=
  [(.str "class", .str "Workflow"), (.str "cwlVersion", .str "v1.0"), (.str "$mixin", .str "m")]

/-- The entries of the other document. -/
def scionEntries : Entries :=
  [(.str "class", .str "a"), (.str "cwlVersion", .str "v2"), (.str "doc", .str "d")]

/-- The text of the root is read as a workflow with a mixin. -/
private lemma load_stock : load stock.content (some stock.path) = .ok (.map stockEntries) := by
  cbv

/-- The text of the mixin is read as a map. -/
private lemma load_scion : load scion.content (some scion.path) = .ok (.map scionEntries) := by
  cbv

/-- The root is valid. -/
private lemma graft_valid : validateDescriptor .workflow graft.store "/main" = .ok .passed := by
  have hget : graft.store.get? "/main" = some stock.content := rfl
  have hblank : Text.isBlankText stock.content = false := by cbv
  have hload : load stock.content (some "/main") = .ok (.map stockEntries) := load_stock
  simp only [validateDescriptor, hget, hblank, hload]
  rfl

/-- The place inside the workflow. -/
def inStock : Frame := ⟨"/main", some "v1.0", 0⟩

/-- The state in which the workflow has been entered. -/
def stockEntered : ExpansionState where
  idPaths := [(entryId 1, "main")]
  idCount := 1

/-- The workflow with the document merged into it. -/
def grafted : Entries :=
  [(.str "class", .str "Workflow"), (.str "cwlVersion", .str "v1.0"), (.str "id", .str (entryId 1)),
    (.str "doc", .str "d")]

/-- The mixin is loaded. -/
private lemma graft_loads :
    ∃ t, Loads graft.expander 1000 inStock "m" stockEntered (some (.map scionEntries)) t := by
  have hread : graft.expander.read = load := rfl
  have hload : graft.expander.read scion.content (some scion.path) = .ok (.map scionEntries) := by
    rw [hread]
    exact load_scion
  obtain ⟨s, hfile⟩ : ∃ s, graft.expander.loadFile true (some scion.path) stockEntered =
      .ok (some scion.content) s := ⟨_, rfl⟩
  have hexpand : graft.expander.expandWithin 999 .whole
      { inStock with path := "/m", depth := inStock.depth + 1 } (.map scionEntries) s =
        .ok (.map scionEntries) s := rfl
  refine ⟨s, ?_⟩
  exact .found rfl hfile hload (expands_iff.2 hexpand)

/-- The root is expanded with what its mixin adds. -/
private lemma graft_expandRoot : ∃ s, graft.expandRoot stock = .ok (grafted, s) := by
  obtain ⟨t, hloads⟩ := graft_loads
  have hdirect : Directs graft.expander 1000 inStock (withId stockEntries (some (entryId 1)))
      stockEntered (.merged grafted) { t with merges := t.merges + 1 } :=
    .mixedMap ⟨rfl, rfl, rfl, rfl⟩ hloads
  have hrest : graft.expander.expandWithin 999 .merged inStock (.map grafted)
      { t with merges := t.merges + 1 } =
        .ok (.map grafted) { t with merges := t.merges + 1 } := rfl
  have hexpand : graft.expander.expandWithin 1000 .whole (.root "/main") (.map stockEntries) {} =
      .ok (.map grafted) { t with merges := t.merges + 1 } :=
    expands_iff.1 (.mixed rfl rfl hdirect (expands_iff.2 hrest))
  refine ⟨{ t with merges := t.merges + 1 }, ?_⟩
  unfold Analyzer.expandRoot
  have hrun := (Analyzer.run_expandText (a := graft) load_stock).trans hexpand
  rw [hrun]
  rfl

/-- The merged workflow is still one, of the first version. -/
theorem graft_expandRoot_of_valid :
    validateDescriptor .workflow graft.store "/main" = .ok .passed ∧
      Validation.passed.valid = true ∧
      ∃ es s, graft.expandRoot stock = .ok (es, s) ∧
        es.field "class" = .str "Workflow" ∧ es.field "cwlVersion" = .str "v1.0" ∧
        es.field "doc" = .str "d" := by
  refine ⟨graft_valid, rfl, ?_⟩
  obtain ⟨text, es, hget, hmet, h⟩ := Analyzer.expandRoot_of_valid graft_valid rfl
  obtain rfl : text = stock.content := by
    cases hget
    rfl
  obtain rfl : es = stockEntries := by
    have hloads := hmet.loads.symm.trans load_stock
    cases hloads
    rfl
  obtain ⟨-, hkept⟩ := h rfl rfl
  obtain ⟨s, hroot⟩ := graft_expandRoot
  obtain ⟨hclass, hversion⟩ := hkept grafted s hroot
  exact ⟨grafted, s, hroot, hclass, hversion, rfl⟩

end CwlDescriptor

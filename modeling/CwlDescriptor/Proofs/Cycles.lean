import CwlDescriptor.Proofs.Expansion.Kept
import CwlDescriptor.Proofs.Failures
import CwlDescriptor.Proofs.Mixins
import CwlDescriptor.Proofs.Termination
import CwlDescriptor.Proofs.Transparency
set_option autoImplicit false

/-!
# Cycles of references are refused

An expansion has no notion of a cycle: what ends it are the limits. A document *actively refers* to
a file if an expansion of the document can have a result only behind one of the file. So an
expansion of a document that actively refers to a file on a cycle would need one of the next file,
and so on around the cycle, with fewer levels each time; it has no result. Since an expansion always
ends, it fails, and if all files can be read and all documents can be shown, only a limit is left as
a reason.

## Main definitions

* `Node.ActivelyRefers`: a document actively refers to a file.
* `Expander.ActivelyRefers`: the document of a file actively refers to another file.

## Main results

* `Node.ActivelyRefers.loads`: the expansion of a document loads the files that it actively refers
  to.
* `expand_of_cycle`: the expansion of a document that actively refers to a cycle has no result, and
  it exceeds a limit if all files can be read and all documents can be shown.
* `looped_expand_fails`: with a version that cannot be shown, it does not come to a limit.
-/

namespace CwlDescriptor

open Expansion Expander

/-! ## Active references -/

/-- A document in the file `path` actively refers to the file `target`. The reference is an import,
or a text at `run`, and is reached through items and values, but not through an id. The maps around
it have no import and no include, since these would take the place of all else; mixins do not matter
since a map keeps its own values. -/
inductive Node.ActivelyRefers (path target : String) : Node → Prop
  | item {items : List Node} {item : Node} (hmem : item ∈ items)
    (h : ActivelyRefers path target item) : ActivelyRefers path target (.list items)
  | value {es : Entries} {k : Scalar} {v : Node} (himport : es.directive? .importing = none)
    (hinclude : es.directive? .including = none) (hmem : (k, v) ∈ es) (hid : k ≠ .str "id")
    (hfirst : k = .str "run" → es.get? "run" = some v) (h : ActivelyRefers path target v) :
    ActivelyRefers path target (.map es)
  | imported {es : Entries} {reference : String}
    (himport : es.directive? .importing = some reference)
    (htarget : Reference.target? reference path = some target) :
    ActivelyRefers path target (.map es)
  | run {es : Entries} {v : Node} {reference : String} (himport : es.directive? .importing = none)
    (hinclude : es.directive? .including = none) (hrun : es.get? "run" = some v)
    (htext : v.text? = some reference)
    (htarget : Reference.target? reference path = some target) :
    ActivelyRefers path target (.map es)

/-- The document of the file `path` actively refers to the file `target`. -/
def Expander.ActivelyRefers (x : Expander) (path target : String) : Prop :=
  ∃ text document, x.store.get? path = some text ∧ x.read text (some path) = .ok document ∧
    document.ActivelyRefers path target

/-- A document that actively refers to a file is no text. -/
private lemma Node.ActivelyRefers.text?_eq_none {path target : String} {n : Node}
    (h : n.ActivelyRefers path target) : n.text? = none := by
  cases h <;> rfl

/-- Nothing but an import in a map with an import is an active reference. -/
private lemma Node.ActivelyRefers.target_of_importing {path target reference : String}
    {es : Entries} (h : (map es).ActivelyRefers path target)
    (himport : es.directive? .importing = some reference) :
    Reference.target? reference path = some target := by
  cases h with
  | imported himport' htarget =>
    rw [himport] at himport'
    cases himport'
    exact htarget
  | value himport' | run himport' =>
    rw [himport] at himport'
    cases himport'

/-! ## The parts of a derivation -/

section Parts

variable {x : Expander} {levels : Nat} {frame : Frame} {s t : ExpansionState}

/-- An expansion expands the items of a list. -/
lemma ExpandsItems.of_mem {items items' : List Node}
    (h : ExpandsItems x levels frame items s items' t) {item : Node} (hmem : item ∈ items) :
    ∃ s r t, Expands x levels .whole frame item s r t := by
  induction items generalizing s items' with
  | nil => cases hmem
  | cons n ns ih =>
    cases h with
    | cons hitem hitems =>
      rcases List.mem_cons.1 hmem with rfl | hbehind
      · exact ⟨_, _, _, hitem⟩
      · exact ih hitems hbehind

/-- An expansion expands the values of a map whose place is not taken by a text. -/
lemma ExpandsEntries.of_mem {r : Replacements} {es es' : Entries}
    (h : ExpandsEntries x levels frame r es s es' t) {k : Scalar} {v : Node}
    (hmem : (k, v) ∈ es) (hat : r.at? k = none) :
    ∃ s r t, Expands x levels .whole frame v s r t := by
  induction es generalizing s es' with
  | nil => cases hmem
  | cons e es ih =>
    cases h with
    | text htext _ hentries =>
      rcases List.mem_cons.1 hmem with heq | hbehind
      · cases heq
        rw [hat] at htext
        cases htext
      · exact ih hentries hbehind
    | value _ hvalue hentries =>
      rcases List.mem_cons.1 hmem with heq | hbehind
      · cases heq
        exact ⟨_, _, _, hvalue⟩
      · exact ih hentries hbehind

/-- Only an id and the value of `run` are replaced by texts. -/
lemma Replacements.at?_eq_none {r : Replacements} {k : Scalar} (hid : k ≠ .str "id")
    (hrun : k ≠ .str "run") : r.at? k = none := by
  rw [at?, if_neg hid, if_neg hrun]

/-- Behind the expansion of the values, the text at `run` is the one that was there, or the one
that an import there stands for. -/
private lemma ExpandsEntries.text?_run {r : Replacements} {es values : Entries}
    (h : ExpandsEntries x levels frame r es s values t) (hr : r.run = es.importedRun?) {v : Node}
    {reference : String} (hget : es.get? "run" = some v)
    (hv : v.text? = some reference ∨
      v.entries?.bind (Entries.directive? .importing) = some reference) :
    (values.field "run").text? = some reference := by
  rcases h.kept.get? "run" with ⟨hnone, -⟩ | ⟨w, w', hw, hw', hkept⟩
  · rw [hget] at hnone
    cases hnone
  rw [hget] at hw
  cases hw
  have hrun := Replacements.at?_run_of_get? hr hget
  unfold Entries.field
  rw [hw', Option.getD_some]
  rcases hv with htext | himport
  · cases v with
    | scalar value =>
      rw [((kept_of_none hrun).1 hkept).1 trivial]
      exact htext
    | list _ | map _ | set _ | pair _ _ => cases htext
  · rw [(kept_of_some (hrun.trans himport)).1 hkept]
    rfl

/-- A text at `run` is followed. -/
lemma ExpandsRun.loads {es es' : Entries} (h : ExpandsRun x levels frame es s es' t)
    {reference : String} (hrun : (es.field "run").text? = some reference) :
    ∃ document t, Loads x levels frame reference s document t := by
  cases h with
  | none hrun' =>
    rw [hrun] at hrun'
    cases hrun'
  | absent hrun' hload | loaded hrun' hload =>
    rw [hrun] at hrun'
    cases hrun'
    exact ⟨_, _, hload⟩

/-- The own values of a map are expanded with at most `levels` levels, perhaps together with those
that come from a mixin, and then the text at `run` is followed. -/
inductive ExpandsOwn (x : Expander) (levels : Nat) (path : String) (es : Entries) : Prop
  | intro {l : Nat} {frame : Frame} {r : Replacements} {all values es' : Entries}
    {s s₁ t : ExpansionState} (hlevels : l ≤ levels) (hpath : frame.path = path)
    (hr : r.run = all.importedRun?)
    (hmem : ∀ k v, (k, v) ∈ es → k ≠ .str "id" → v.text? = none → (k, v) ∈ all)
    (hget : ∀ v, es.get? "run" = some v → all.get? "run" = some v)
    (hentries : ExpandsEntries x l frame r all s values s₁)
    (hrun : ExpandsRun x l frame values s₁ es' t) : ExpandsOwn x levels path es

/-- The own values of a map that is replaced by no document are expanded. -/
private lemma Expands.expandsOwn {es : Entries} {r : Node}
    (himport : es.directive? .importing = none) (hinclude : es.directive? .including = none)
    (h : Expands x levels .whole frame (.map es) s r t) : ExpandsOwn x levels frame.path es := by
  cases h with
  | leaf hleaf => cases hleaf
  | replaced _ _ hdirect => exact absurd hdirect (Directs.not_replaced himport hinclude)
  | @mixed l _ frame' _ entries newId _ _ s₁ s₂ s₃ _ hcheck henter hdirect hrest =>
    have hentries : ∃ reference, (withId es newId).directive? .mixing = some reference ∧
        (withId es newId).eraseDirective .mixing <+: entries := by
      cases hdirect with
      | mixedAbsent hmixes => exact ⟨_, hmixes.mixing, List.prefix_rfl⟩
      | mixedMap hmixes => exact ⟨_, hmixes.mixing, Entries.prefix_addMissing _ _⟩
    obtain ⟨reference, hmixing, hprefix⟩ := hentries
    cases hrest with
    | leaf hleaf => cases hleaf
    | merged hentries hrun =>
      refine .intro (Nat.le_succ l) (path_of_enter henter) rfl (fun k v hmem hid htext => ?_)
        (fun v hget => ?_) hentries hrun
      · refine hprefix.subset (Entries.mem_eraseDirective ?_ hmixing htext)
        cases newId with
        | none => exact hmem
        | some id => exact Entries.mem_set_of_ne hmem hid _
      · refine Entries.get?_of_prefix hprefix ?_
        rw [Entries.get?_eraseDirective (by decide), get?_withId newId (by decide), hget]
  | unchanged hcheck henter hdirect hentries hrun =>
    exact .intro (Nat.le_refl _) (path_of_enter henter) (importedRun?_missing _ _).symm
      (fun k v hmem _ _ => List.mem_append_left _ hmem)
      (fun v => Entries.get?_of_prefix (List.prefix_append _ _)) hentries hrun

end Parts

/-! ## An expansion loads what its document refers to -/

/-- With at most `levels` levels, the file `target` is loaded for a reference in the file `path`. -/
inductive Expander.LoadsFrom (x : Expander) (levels : Nat) (path target : String) : Prop
  | intro {l : Nat} {frame : Frame} {reference : String} {document : Option Node}
    {s t : ExpansionState} (hlevels : l ≤ levels) (hpath : frame.path = path)
    (htarget : Reference.target? reference path = some target)
    (hload : Loads x l frame reference s document t) : LoadsFrom x levels path target

/-- What is loaded with so many levels is loaded with more. -/
lemma Expander.LoadsFrom.mono {x : Expander} {l levels : Nat} {path target : String}
    (h : x.LoadsFrom l path target) (hle : l ≤ levels) : x.LoadsFrom levels path target := by
  obtain ⟨hlevels, hpath, htarget, hload⟩ := h
  exact ⟨hlevels.trans hle, hpath, htarget, hload⟩

/-- The expansion of a map loads what its text at `run`, or an import there, refers to. -/
private lemma ExpandsOwn.loadsFrom {x : Expander} {levels : Nat} {path target reference : String}
    {es : Entries} (h : ExpandsOwn x levels path es) {v : Node} (hget : es.get? "run" = some v)
    (hv : v.text? = some reference ∨
      v.entries?.bind (Entries.directive? .importing) = some reference)
    (htarget : Reference.target? reference path = some target) :
    x.LoadsFrom levels path target := by
  obtain ⟨hlevels, hpath, hr, -, hall, hentries, hrun⟩ := h
  obtain ⟨document, t, hload⟩ := hrun.loads (hentries.text?_run hr (hall v hget) hv)
  exact ⟨hlevels, hpath, htarget, hload⟩

/-- **The expansion of a document loads the files that it actively refers to.**

**Proof sketch.** Induction on the way to the reference. Every map on it keeps its own values, which
are expanded, but for one case: an import as the value of `run` is followed as a text is. -/
theorem Node.ActivelyRefers.loads {x : Expander} {path target : String} {n : Node}
    (h : n.ActivelyRefers path target) {levels : Nat} {frame : Frame} {r : Node}
    {s t : ExpansionState} (hpath : frame.path = path)
    (hexpands : Expands x levels .whole frame n s r t) : x.LoadsFrom levels path target := by
  induction h generalizing levels frame r s t with
  | item hmem _ ih =>
    cases hexpands with
    | leaf hleaf => cases hleaf
    | list _ hitems =>
      obtain ⟨_, _, _, hitem⟩ := hitems.of_mem hmem
      exact ih hpath hitem
  | @value es k v himport hinclude hmem hid hfirst h ih =>
    have hown := hexpands.expandsOwn himport hinclude
    rw [hpath] at hown
    by_cases hrun : k = .str "run" ∧
        ∃ reference, v.entries?.bind (Entries.directive? .importing) = some reference
    · obtain ⟨hk, reference, himported⟩ := hrun
      cases v with
      | map vs =>
        exact hown.loadsFrom (hfirst hk) (.inr himported) (h.target_of_importing himported)
      | scalar _ | list _ | set _ | pair _ _ => cases himported
    · obtain @⟨l, frame', replacements, all, _, _, _, _, _, hlevels, hpath', hr, hown, hall,
        hentries, -⟩ := hown
      have hat : replacements.at? k = none := by
        by_cases hk : k = .str "run"
        · subst hk
          rw [Replacements.at?_run_of_get? hr (hall v (hfirst rfl))]
          exact Option.eq_none_iff_forall_not_mem.2 fun reference himported =>
            hrun ⟨rfl, reference, himported⟩
        · exact Replacements.at?_eq_none hid hk
      obtain ⟨_, _, _, hvalue⟩ := hentries.of_mem (hown k v hmem hid h.text?_eq_none) hat
      exact (ih hpath' hvalue).mono hlevels
  | imported himport htarget =>
    cases hexpands with
    | leaf hleaf => cases hleaf
    | replaced hcheck henter hdirect =>
      cases hdirect with
      | imported himport' hload =>
        rw [directive?_withId, himport] at himport'
        cases himport'
        exact ⟨Nat.le_refl _, (path_of_enter henter).trans hpath, htarget, hload⟩
      | included himport' =>
        rw [directive?_withId, himport] at himport'
        cases himport'
    | mixed hcheck henter hdirect | unchanged hcheck henter hdirect =>
      have himport' := (hdirect.unreplaced nofun).1
      rw [directive?_withId, himport] at himport'
      cases himport'
  | run himport hinclude hrun htext htarget =>
    have hown := hexpands.expandsOwn himport hinclude
    rw [hpath] at hown
    exact hown.loadsFrom hrun (.inl htext) htarget

/-! ## Cycles -/

/-- A file that is loaded, and that there is, has its document expanded, with fewer levels. -/
lemma Expander.LoadsFrom.expands {x : Expander} {levels : Nat} {path target text : String}
    (h : x.LoadsFrom levels path target) (hget : x.store.get? target = some text) {document : Node}
    (hread : x.read text (some target) = .ok document) :
    ∃ l frame r s t, l < levels ∧ frame.path = target ∧
      Expands x l .whole frame document s r t := by
  obtain ⟨hlevels, rfl, htarget, hload⟩ := h
  cases hload with
  | absent hload =>
    rw [htarget] at hload
    obtain ⟨hcontent, -⟩ := loadFile_eq_ok hload
    rw [Option.bind_some, hget] at hcontent
    cases hcontent
  | found htarget' hload hread' hexpand =>
    rw [htarget] at htarget'
    cases htarget'
    obtain ⟨hcontent, -⟩ := loadFile_eq_ok hload
    rw [Option.bind_some, hget] at hcontent
    cases hcontent
    rw [hread] at hread'
    cases hread'
    exact ⟨_, _, _, _, _, hlevels, rfl, hexpand⟩

/-- A document that actively refers to a file on a cycle has no expansion.

**Proof sketch.** Infinite descent: its expansion would contain one of the document of the file,
which actively refers to the next file on the cycle, with fewer levels. -/
theorem not_expands_of_cycle {x : Expander} {k : Nat} {files : Fin (k + 1) → String}
    (hcycle : ∀ i, x.ActivelyRefers (files i) (files (i + 1))) (levels : Nat) :
    ∀ (i : Fin (k + 1)) (frame : Frame) (document r : Node) (s t : ExpansionState),
      document.ActivelyRefers frame.path (files i) →
        ¬ Expands x levels .whole frame document s r t := by
  induction levels using Nat.strong_induction_on with
  | _ levels ih =>
    intro i frame document r s t hrefers hexpands
    obtain ⟨text, next, hget, hread, hnext⟩ := hcycle i
    obtain ⟨l, frame', r', s', t', hlt, hpath, hexpands'⟩ :=
      (hrefers.loads rfl hexpands).expands hget hread
    exact ih l hlt (i + 1) frame' next r' s' t' (hpath ▸ hnext) hexpands'

/-- **Cycles of references are refused.** Suppose that the documents of some files actively refer
each to the next file, and that of the last one to the first file, and that a document actively
refers to one of them. With strict limits the expansion of this document has no result. If every
file can be read, and all documents can be shown, it fails since it exceeds a limit.

**Proof sketch.** An expansion comes to an end, and it has no result by infinite descent along the
cycle. So it fails; and a limit is the only reason left for which an expansion fails. -/
theorem expand_of_cycle (x : Expander) (hstrict : x.strict = true)
    (hread : ∀ text path, x.read text path ≠ .error .exhausted) {k : Nat}
    (files : Fin (k + 1) → String) (hcycle : ∀ i, x.ActivelyRefers (files i) (files (i + 1)))
    (frame : Frame) (document : Node) (hroot : document.ActivelyRefers frame.path (files 0))
    (s : ExpansionState) :
    (∀ r t, x.expand frame document s ≠ .ok r t) ∧
    ((∀ path text, x.store.get? path = some text → ∃ n, x.read text (some path) = .ok n) →
      x.Legible → document.Legible →
        ∃ e t, x.expand frame document s = .error e t ∧ e.IsLimit) := by
  have hnone : ∀ r t, x.expand frame document s ≠ .ok r t := fun r t h =>
    not_expands_of_cycle hcycle _ 0 frame document r s t hroot (expands_iff.2 h)
  refine ⟨hnone, fun hreadable hstore hdocument => ?_⟩
  have hends := (expand_terminates x hstrict hread frame document s).1
  have hreasons := expandWithin_explained x (x.Legible ∧ document.Legible) (·.1)
    x.limits.maxFiles .whole frame document (·.2) s
  unfold Ensures at hreasons
  cases h : x.expand frame document s with
  | ok r t => exact absurd h (hnone r t)
  | error e t =>
    have h' : x.expandWithin x.limits.maxFiles .whole frame document s = .error e t := h
    rw [h'] at hreasons
    refine ⟨e, t, rfl, ?_⟩
    cases hreasons with
    | limit hlimit => exact hlimit
    | unreadable hget hfails =>
      obtain ⟨n, hn⟩ := hreadable _ _ hget
      rw [hn] at hfails
      cases hfails
    | version hnot => exact absurd ⟨hstore, hdocument⟩ hnot
    | exhausted => exact absurd h (hends t)

/-! ### A cycle of two files -/

/-- A repository with a file that imports another one, which runs the first one. -/
def looped : Expander where
  store := .ofFiles [⟨"/f", "$import: g"⟩, ⟨"/g", "run: f"⟩]
  limits := {}
  newId n := toString n

/-- The two files, in turn. -/
def loopedFiles : Fin 2 → String
  | 0 => "/f"
  | 1 => "/g"

/-- The document of the second file. -/
def loopedRun : Node := .map [(.str "run", .str "f")]

/-- The files are read as descriptors are loaded. -/
private lemma read_looped_eq : looped.read = load := rfl

/-- The first file imports the second one. -/
private lemma read_looped_import (path : Option String) :
    looped.read "$import: g" path = .ok (importing "g") := by
  rw [read_looped_eq]
  cbv

/-- The second file runs the first one. -/
private lemma read_looped_run (path : Option String) :
    looped.read "run: f" path = .ok loopedRun := by
  rw [read_looped_eq]
  cbv

/-- Both files can be read, and their documents can be shown. -/
private lemma read_looped {path text : String} (h : looped.store.get? path = some text) :
    ∃ n, looped.read text (some path) = .ok n ∧ n.Legible := by
  have hmem : (Path.normalize path, text) ∈ [("/f", "$import: g"), ("/g", "run: f")] :=
    Table.mem_of_get? h
  simp only [List.mem_cons, Prod.mk.injEq, List.not_mem_nil, or_false] at hmem
  rcases hmem with ⟨-, rfl⟩ | ⟨-, rfl⟩
  · exact ⟨_, read_looped_import _, rfl⟩
  · exact ⟨_, read_looped_run _, rfl⟩

/-- The two files refer to each other in turn. -/
private lemma looped_cycle :
    ∀ i : Fin 2, looped.ActivelyRefers (loopedFiles i) (loopedFiles (i + 1))
  | 0 => ⟨_, _, rfl, read_looped_import _, .imported rfl rfl⟩
  | 1 => ⟨_, _, rfl, read_looped_run _, .run rfl rfl rfl rfl rfl⟩

/-- The entries of a workflow with a version that imports the first file. -/
def loopedEntries (version : Node) : Entries :=
  [(.str "class", .str "Workflow"), (.str "cwlVersion", version), (.str "x", importing "f")]

/-- A workflow with a version that imports the first file. -/
def loopedWorkflow (version : Node) : Node := .map (loopedEntries version)

/-- A workflow with any version actively refers to the first file. -/
private lemma loopedWorkflow_activelyRefers (version : Node) :
    (loopedWorkflow version).ActivelyRefers "/main" (loopedFiles 0) := by
  refine .value (k := .str "x") (v := importing "f") rfl rfl ?_ (by decide)
    (fun h => absurd h (by decide)) (.imported rfl rfl)
  exact List.mem_cons_of_mem _ (List.mem_cons_of_mem _ List.mem_cons_self)

/-- The cycle is refused since a limit is exceeded. -/
theorem looped_expand_of_cycle :
    looped.strict = true ∧ (∀ text path, looped.read text path ≠ .error .exhausted) ∧
      (∀ i, looped.ActivelyRefers (loopedFiles i) (loopedFiles (i + 1))) ∧
      (loopedWorkflow (.str "v1.0")).ActivelyRefers "/main" (loopedFiles 0) ∧
      (∀ path text, looped.store.get? path = some text →
        ∃ n, looped.read text (some path) = .ok n) ∧
      looped.Legible ∧ (loopedWorkflow (.str "v1.0")).Legible ∧
      ∃ e t, looped.expand (.root "/main") (loopedWorkflow (.str "v1.0")) {} = .error e t ∧
        e.IsLimit := by
  have hreadable : ∀ path text, looped.store.get? path = some text →
      ∃ n, looped.read text (some path) = .ok n := fun path text h =>
    (read_looped h).imp fun _ hn => hn.1
  have hlegible : looped.Legible := by
    intro path text document hget hread
    obtain ⟨n, hn, hshown⟩ := read_looped hget
    rw [hn] at hread
    cases hread
    exact hshown
  have hroot := loopedWorkflow_activelyRefers (.str "v1.0")
  have hlimit := (expand_of_cycle looped rfl load_ne_exhausted loopedFiles looped_cycle
    (.root "/main") (loopedWorkflow (.str "v1.0")) hroot {}).2 hreadable hlegible rfl
  exact ⟨rfl, load_ne_exhausted, looped_cycle, hroot, hreadable, hlegible, rfl, hlimit⟩

/-- **A version that cannot be shown hides a cycle.** A workflow whose version has too many digits
fails before a file is asked for and without exceeding a limit, although it actively refers to a
cycle, all files can be read, and all limits are positive. -/
theorem looped_expand_fails :
    looped.strict = true ∧ looped.limits.Positive ∧
      (∀ i, looped.ActivelyRefers (loopedFiles i) (loopedFiles (i + 1))) ∧
      (loopedWorkflow (.scalar (.int unshowable))).ActivelyRefers "/main" (loopedFiles 0) ∧
      (∀ path text, looped.store.get? path = some text →
        ∃ n, looped.read text (some path) = .ok n) ∧
      ∃ e t, looped.expand (.root "/main") (loopedWorkflow (.scalar (.int unshowable))) {} =
        .error e t ∧ ¬ e.IsLimit := by
  have hversion : (Node.scalar (.int unshowable)).shown = .error (.fault .tooManyDigits) := by
    have hnone : (Node.scalar (.int unshowable)).shown? = none := text?_unshowable
    unfold Node.shown
    rw [hnone]
  refine ⟨rfl, by decide, looped_cycle, loopedWorkflow_activelyRefers _,
    fun path text h => (read_looped h).imp fun _ hn => hn.1, .fault .tooManyDigits, ?_⟩
  have hclaim : looped.claimId (loopedEntries (.scalar (.int unshowable))) "/main" {} =
      .ok (some "0") (recorded (looped.made {}) "0" "/main") := claimId_of_taken nofun
  have hfails : version? (.root "/main") (loopedEntries (.scalar (.int unshowable))) =
      .error (.fault .tooManyDigits) := by
    show (Node.scalar (.int unshowable)).shown.map some = _
    rw [hversion]
    rfl
  have henter : looped.enter (.root "/main") (loopedEntries (.scalar (.int unshowable))) {} =
      .error (.fault .tooManyDigits) (recorded (looped.made {}) "0" "/main") := by
    rw [enter_of_isSome rfl, hfails]
    show (looped.claimId _ "/main" >>= _) {} = _
    rw [bind_apply, hclaim]
    rfl
  refine ⟨recorded (looped.made {}) "0" "/main", ?_, id⟩
  unfold expand loopedWorkflow
  rw [expandWithin_eq, expandNode_map_whole, bind_apply, checkDepth_strict rfl, if_neg (by decide)]
  dsimp only
  rw [bind_apply, henter]

end CwlDescriptor

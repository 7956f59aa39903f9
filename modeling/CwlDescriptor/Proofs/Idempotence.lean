import CwlDescriptor.Proofs.Expansion.Settled
import CwlDescriptor.Proofs.Transparency
import Mathlib
set_option autoImplicit false

/-!
# Expanding an expanded document

If nothing is left to be replaced in an expanded document, and its entries have ids of their own,
then a second expansion at the same place changes nothing. It asks for no more files than the first
one: every text that is left at the key `run` was asked for by the expansion that left it, or is the
document of a file that was asked for.

## Main definitions

* `Expander.Yields`: the expansion of a document at a path has a result.

## Main results

* `Expands.openRuns_le`: an expansion asks for at least as many files as it leaves texts at `run`.
* `yields_self_of_settled`: a settled result is expanded to itself.
* `yields_not_idempotent`: results of which something is left to be replaced, whose entries share an
  id, or of which a version cannot be shown.
-/

namespace CwlDescriptor

open Expansion Expander

/-! ## Texts that are left at `run` -/

namespace Node

/-- A document is one text, or none. -/
private lemma length_text?_le (n : Node) : n.text?.toList.length ≤ 1 := by
  cases n.text? <;> simp

/-- A set value brings no more texts at `run` than it has itself. -/
private lemma openRunsValues_insert (es : Entries) (key : Scalar) (value : Node) :
    openRunsValues (es.insert key value) ≤ openRunsValues es + value.openRuns := by
  induction es with
  | nil => simp [Entries.insert, openRunsValues]
  | cons e es ih =>
    obtain ⟨key', value'⟩ := e
    unfold Entries.insert
    split
    · simp only [openRunsValues]
      omega
    · simp only [openRunsValues]
      omega

/-- If a document takes the place of the text at `run`, no text is left there but itself. -/
private lemma openRuns_set (es : Entries) (document : Node) :
    (map (es.set "run" document)).openRuns ≤ openRunsValues es + document.openRuns + 1 := by
  have hvalues := openRunsValues_insert es (.str "run") document
  have hrun := length_text?_le ((es.set "run" document).field "run")
  rw [openRuns]
  unfold Entries.set at hrun ⊢
  omega

end Node

/-- The texts at `run` in a document that takes the place of a map. -/
def Expander.Directed.openRuns : Directed → Nat
  | .replaced document => document.openRuns
  | .merged _ | .unchanged => 0

section Counted

variable {x : Expander} {s t : ExpansionState}

/-- The check of the depth asks for no file. -/
private lemma fileCount_of_checkDepth {frame : Frame} {u : Unit}
    (h : x.checkDepth frame s = .ok u t) :
    t.fileCount = s.fileCount := by
  obtain ⟨ws, rfl⟩ := checkDepth_eq_ok h
  rfl

/-- The load of a file is counted as one. -/
private lemma fileCount_of_loadFile {asDocument : Bool} {path content? : Option String}
    (h : x.loadFile asDocument path s = .ok content? t) : t.fileCount = s.fileCount + 1 := by
  obtain ⟨-, ws, rfl⟩ := loadFile_eq_ok h
  rfl

end Counted

mutual

/-- **An expansion asks for at least as many files as it leaves texts at `run`.**

**Proof sketch.** Induction on the derivation. A text that is left at `run` in a map is left by the
step that expands it, which has asked for a file, whether it was found or not. -/
theorem Expands.openRuns_le {x : Expander} : ∀ {levels : Nat} {stage : Stage} {frame : Frame}
    {n r : Node} {s t : ExpansionState}, Expands x levels stage frame n s r t →
      r.openRuns + s.fileCount ≤ t.fileCount
  | _, _, _, _, _, _, _, .leaf hleaf hcheck => by
    rw [Node.openRuns_of_isLeaf hleaf, fileCount_of_checkDepth hcheck, Nat.zero_add]
  | _, _, _, _, _, _, _, .list hcheck hitems => by
    have hle := hitems.openRuns_le
    rwa [fileCount_of_checkDepth hcheck] at hle
  | _, _, _, _, _, _, _, .merged hentries hrun => by
    have hvalues := hentries.openRuns_le
    have hown := hrun.openRuns_le
    omega
  | _, _, _, _, _, _, _, .replaced hcheck henter hdirect => by
    have hle := hdirect.openRuns_le
    rwa [(requests_of_enter henter).2, fileCount_of_checkDepth hcheck] at hle
  | _, _, _, _, _, _, _, .mixed hcheck henter hdirect hrest => by
    have hle := hdirect.openRuns_le
    rw [(requests_of_enter henter).2, fileCount_of_checkDepth hcheck] at hle
    have hle' := hrest.openRuns_le
    omega
  | _, _, _, _, _, _, _, .unchanged hcheck henter hdirect hentries hrun => by
    have hle := hdirect.openRuns_le
    rw [(requests_of_enter henter).2, fileCount_of_checkDepth hcheck] at hle
    have hvalues := hentries.openRuns_le
    have hown := hrun.openRuns_le
    omega

/-- The texts that are left at `run` in an expanded list have been asked for. -/
theorem ExpandsItems.openRuns_le {x : Expander} : ∀ {levels : Nat} {frame : Frame}
    {items items' : List Node} {s t : ExpansionState},
    ExpandsItems x levels frame items s items' t →
      Node.openRunsList items' + s.fileCount ≤ t.fileCount
  | _, _, _, _, _, _, .nil => by rw [Node.openRunsList, Nat.zero_add]
  | _, _, _, _, _, _, .cons hitem hitems => by
    have hle := hitem.openRuns_le
    have hle' := hitems.openRuns_le
    rw [Node.openRunsList]
    omega

/-- The texts that are left at `run` in the expanded values of a map have been asked for. -/
theorem ExpandsEntries.openRuns_le {x : Expander} : ∀ {levels : Nat} {frame : Frame}
    {r : Replacements} {es es' : Entries} {s t : ExpansionState},
    ExpandsEntries x levels frame r es s es' t →
      Node.openRunsValues es' + s.fileCount ≤ t.fileCount
  | _, _, _, _, _, _, _, .nil => by rw [Node.openRunsValues, Nat.zero_add]
  | _, _, _, _, _, _, _, .text _ hcheck hentries => by
    have hle := hentries.openRuns_le
    rw [fileCount_of_checkDepth hcheck] at hle
    rwa [Node.openRunsValues, Node.openRuns_of_isLeaf (n := .str _) trivial, Nat.zero_add]
  | _, _, _, _, _, _, _, .value _ hvalue hentries => by
    have hle := hvalue.openRuns_le
    have hle' := hentries.openRuns_le
    rw [Node.openRunsValues]
    omega

/-- A text that is left at `run` has been asked for when it was followed. -/
theorem ExpandsRun.openRuns_le {x : Expander} : ∀ {levels : Nat} {frame : Frame}
    {es es' : Entries} {s t : ExpansionState}, ExpandsRun x levels frame es s es' t →
      (Node.map es').openRuns + s.fileCount ≤ Node.openRunsValues es + t.fileCount
  | _, _, _, _, _, _, .none hrun => by
    rw [Node.openRuns, hrun]
    exact Nat.le_refl _
  | _, _, es, _, _, _, .absent _ hload => by
    have hle := hload.openRuns_le
    have hrun := (es.field "run").length_text?_le
    rw [Node.openRuns]
    omega
  | _, _, es, _, _, _, @ExpandsRun.loaded _ _ _ _ _ document _ _ _ hload => by
    have hle := hload.openRuns_le
    have hset := Node.openRuns_set es document
    simp only [Option.elim_some] at hle
    omega

/-- The texts that are left at `run` in what takes the place of a map have been asked for. -/
theorem Directs.openRuns_le {x : Expander} : ∀ {levels : Nat} {frame : Frame} {es : Entries}
    {s t : ExpansionState} {directed : Directed}, Directs x levels frame es s directed t →
      directed.openRuns + s.fileCount ≤ t.fileCount
  | _, _, _, _, _, _, @Directs.imported _ _ _ _ _ document _ _ _ hload => by
    have hle := hload.openRuns_le
    cases document with
    | none =>
      show 0 + _ ≤ _
      omega
    | some document =>
      show document.openRuns + _ ≤ _
      simp only [Option.elim_some] at hle
      omega
  | _, _, _, _, _, _, .included _ _ hload => by
    rw [fileCount_of_loadFile hload]
    show 0 + _ ≤ _
    omega
  | _, _, _, _, _, _, .mixedAbsent _ hload | _, _, _, _, _, _, .mixedOther _ _ hload => by
    have hle := hload.openRuns_le
    show 0 + _ ≤ _
    omega
  | _, _, _, _, _, _, @Directs.mixedMap _ _ _ _ _ _ _ t _ hload => by
    have hle := hload.openRuns_le
    show 0 + _ ≤ t.fileCount
    omega
  | _, _, _, _, _, _, .inert _ => by
    show 0 + _ ≤ _
    omega

/-- The texts that are left at `run` in a loaded document have been asked for, besides the document
itself. -/
theorem Loads.openRuns_le {x : Expander} : ∀ {levels : Nat} {frame : Frame} {reference : String}
    {document : Option Node} {s t : ExpansionState},
    Loads x levels frame reference s document t →
      document.elim 0 Node.openRuns + s.fileCount + 1 ≤ t.fileCount
  | _, _, _, _, _, _, .absent hload => by
    rw [fileCount_of_loadFile hload, Option.elim_none]
    omega
  | _, _, _, _, _, _, @Loads.found _ _ _ _ _ _ _ r _ _ _ _ hload _ hexpand => by
    have hle := hexpand.openRuns_le
    rw [fileCount_of_loadFile hload] at hle
    split
    · rw [Option.elim_none]
      omega
    · rw [Option.elim_some]
      omega

end

/-! ## A second expansion -/

/-- The expansion of a document at a path has a result, from the state in which nothing was done. -/
def Expander.Yields (x : Expander) (path : String) (document result : Node) : Prop :=
  ∃ t, x.expand (.root path) document {} = .ok result t

/-- **Expansion is idempotent on settled results.** If a document is expanded within strict limits,
nothing is left to be replaced in the result, and its entries have different texts as ids, then a
second expansion of the result at the same path, within the same limits and whatever ids it would
make, has the same result.

**Proof sketch.** The second expansion asks for a file for each text that was left at `run`. These
are no more than the files that the first expansion has asked for, by `Expands.openRuns_le`, so that
there is room for them. -/
theorem yields_self_of_settled (x : Expander) (hstrict : x.strict = true) (newId : Nat → String)
    (path : String) (document result : Node) (h : x.Yields path document result)
    (hsettled : Settled x.store (.root path) result)
    (hids : ∃ ids : List String,
      result.entryMaps.map (·.field "id") = ids.map .str ∧ ids.Nodup) :
    { x with newId := newId }.Yields path result result := by
  obtain ⟨t, h⟩ := h
  obtain ⟨ids, hids, hnodup⟩ := hids
  have hwithin : x.limits.Admit t := by
    have hpassed := (Contract.counting x hstrict).expandWithin_meets x.limits.maxFiles .whole
      (.root path) document {} trivial
    exact ((hpassed.ok h).1.counts ⟨Nat.zero_le _, Nat.zero_le _⟩).1
  have hruns := (expands_iff.2 h).openRuns_le
  have hroom : Room { x with newId := newId } result.openRuns result.entryMaps ids {} :=
    ⟨by have hfiles := hwithin.files; show 0 + _ ≤ x.limits.maxFiles; omega, hids, hnodup⟩
  have hdepth : (Frame.root path).depth ≤ ({ x with newId := newId } : Expander).limits.maxDepth :=
    Int.natCast_nonneg _
  obtain ⟨t', hexpands, -⟩ :=
    Settled.expands (x := { x with newId := newId }) hstrict x.limits.maxFiles hsettled hdepth hroom
  exact ⟨t', expands_iff.1 hexpands⟩

/-! ### A settled result -/

/-- A repository with files in two directories. -/
def drawers : Expander where
  store := .ofFiles [⟨"/sub/t", "run: x"⟩, ⟨"/x", "[]"⟩, ⟨"/class", "Workflow"⟩]
  limits := {}
  newId n := toString n

/-- The files are read as descriptors are loaded. -/
private lemma read_drawers : drawers.read = load := rfl

/-- A map with one value, at the key `run`. -/
def running (n : Node) : Node := .map [(.str "run", n)]

/-- A workflow without an id, with one text at `run` that names a list and one that names no
file. -/
def twoRuns : Node :=
  .map [(.str "class", .str "Workflow"), (.str "run", .str "x"),
    (.str "steps", .list [running (.str "missing")])]

/-- The workflow with a new id, in which the list stands for the text that names it. -/
def oneRun : Node :=
  .map [(.str "class", .str "Workflow"), (.str "run", .list []),
    (.str "steps", .list [running (.str "missing")]), (.str "id", .str "0")]

/-- The map whose text at `run` names no file is settled. -/
private lemma settled_oneRun : Settled drawers.store (.root "/main") oneRun := by
  have hrunning : Settled drawers.store (.root "/main") (running (.str "missing")) := by
    refine .map rfl ⟨rfl, rfl, .inl rfl⟩ ?_ (.cons (.leaf trivial) .nil)
    rintro reference ⟨⟩
    rfl
  refine .map rfl ⟨rfl, rfl, .inl rfl⟩ (fun reference h => by cases h) ?_
  exact .cons (.leaf trivial) (.cons (.list .nil) (.cons (.list (.cons hrunning .nil))
    (.cons (.leaf trivial) .nil)))

/-- The workflow keeps the id that it got, although another one would be made. -/
theorem oneRun_yields_self :
    drawers.strict = true ∧ drawers.Yields "/main" twoRuns oneRun ∧
      Settled drawers.store (.root "/main") oneRun ∧
      oneRun.entryMaps.map (·.field "id") = ["0"].map .str ∧ ["0"].Nodup ∧
      { drawers with newId := fun _ => "another" }.Yields "/main" oneRun oneRun := by
  have hyields : drawers.Yields "/main" twoRuns oneRun := ⟨_, rfl⟩
  have hids : oneRun.entryMaps.map (·.field "id") = ["0"].map .str := rfl
  have hnodup : ["0"].Nodup := by decide
  exact ⟨rfl, hyields, settled_oneRun, hids, hnodup,
    yields_self_of_settled drawers rfl (fun _ => "another") "/main" twoRuns oneRun hyields
      settled_oneRun ⟨["0"], hids, hnodup⟩⟩

/-! ### Results that are not settled -/

/-- A result that a second expansion changes, or that it fails for. -/
def Expander.Unstable (x : Expander) (path : String) (document result : Node) : Prop :=
  x.Yields path document result ∧ ¬ x.Yields path result result

/-- A result that is expanded to another document is not stable. -/
private lemma Expander.unstable_of_changed {x : Expander} {path : String} {document result : Node}
    (other : Node) (h : x.Yields path document result) (hother : x.Yields path result other)
    (hne : result ≠ other) : x.Unstable path document result := by
  refine ⟨h, fun ⟨t, ht⟩ => hne ?_⟩
  obtain ⟨u, hu⟩ := hother
  rw [hu] at ht
  cases ht
  rfl

/-- The text at `run` in the file names no file from its own directory, and names one from that of
the root. -/
private lemma unstable_run :
    drawers.Unstable "/main" (running (.str "sub/t")) (running (running (.str "x"))) := by
  refine unstable_of_changed (running (running (.list []))) ?_ ⟨_, rfl⟩ (by simp [running])
  have hread : drawers.read "run: x" (some "/sub/t") = .ok (running (.str "x")) := by
    rw [read_drawers]
    cbv
  obtain ⟨t, ht⟩ : ∃ t, drawers.expandWithin 999 .whole
      { Frame.root "/main" with path := "/sub/t", depth := (Frame.root "/main").depth + 1 }
      (running (.str "x"))
      { fileCount := 1, charCount := 6, requests := [⟨some "/sub/t", true⟩] } =
        .ok (running (.str "x")) t := ⟨_, rfl⟩
  have hload : Loads drawers 1000 (.root "/main") "sub/t" {} (some (running (.str "x"))) t :=
    .found rfl rfl hread (expands_iff.2 ht)
  exact ⟨t, expands_iff.1 (.unchanged rfl rfl (.inert ⟨rfl, rfl, .inl rfl⟩)
    (.value rfl (.leaf trivial rfl) .nil) (.loaded rfl hload))⟩

/-- A text that takes the place of an include is the value of an import. -/
private lemma unstable_import :
    drawers.Unstable "/main" (.map [(.str "import", .map [(.str "include", .str "missing")])])
      (.map [(.str "import", .str "")]) :=
  unstable_of_changed (.map []) ⟨_, rfl⟩ ⟨_, rfl⟩ (by simp)

/-- A workflow with an id and a version that has mixins. -/
def firstVersion (es : Entries) : Node :=
  .map ((.str "class", .str "Workflow") :: (.str "cwlVersion", .str "v1.0") ::
    (.str "id", .str "w") :: es)

/-- Of two mixins, one is followed by the first expansion, and the other one by the second. -/
private lemma unstable_mixins :
    drawers.Unstable "/main"
      (firstVersion [(.str "mixin", .str "missing"), (.str "$mixin", .str "missing")])
      (firstVersion [(.str "$mixin", .str "missing")]) :=
  unstable_of_changed (firstVersion []) ⟨_, rfl⟩ ⟨_, rfl⟩ (by simp [firstVersion])

/-- A map whose class is included becomes an entry, and has no id. -/
private lemma unstable_class :
    drawers.Unstable "/main" (.map [(.str "class", .map [(.str "$include", .str "class")])])
      (.map [(.str "class", .str "Workflow")]) :=
  unstable_of_changed (.map [(.str "class", .str "Workflow"), (.str "id", .str "0")]) ⟨_, rfl⟩
    ⟨_, rfl⟩ (by simp)

/-- A repository with one file, whose document cannot be shown. -/
def overlong : Expander where
  store := .ofFiles [⟨"/f", ""⟩]
  limits := {}
  newId n := toString n
  read _ _ := .ok (.scalar (.int unshowable))

/-- The import of a version can be shown, and what is imported cannot. -/
private lemma unstable_version :
    overlong.Unstable "/main" (versionPlace.fill (importing "f"))
      (.map [(.str "class", .str "Workflow"), (.str "cwlVersion", .scalar (.int unshowable)),
        (.str "id", .str "0")]) := by
  refine ⟨⟨_, rfl⟩, fun ⟨t, ht⟩ => ?_⟩
  obtain ⟨text, htext⟩ := (expands_iff.2 ht).shown_version rfl rfl
  rw [Node.shown_eq_ok] at htext
  change Integer.text? unshowable = some text at htext
  rw [text?_unshowable] at htext
  cases htext

/-- **No condition on the result can be left out.** A second expansion changes a result in which a
text at `run` names a file or a directive is followed, and one in which an entry has no id; and it
fails for an entry whose version cannot be shown. -/
theorem yields_not_idempotent :
    drawers.Unstable "/main" (running (.str "sub/t")) (running (running (.str "x"))) ∧
    (∃ document, drawers.Unstable "/main" document (.map [(.str "import", .str "")])) ∧
    (∃ document, drawers.Unstable "/main" document
      (firstVersion [(.str "$mixin", .str "missing")])) ∧
    (∃ document, drawers.Unstable "/main" document (.map [(.str "class", .str "Workflow")])) ∧
    ∃ document, overlong.Unstable "/main" document
      (.map [(.str "class", .str "Workflow"), (.str "cwlVersion", .scalar (.int unshowable)),
        (.str "id", .str "0")]) :=
  ⟨unstable_run, ⟨_, unstable_import⟩, ⟨_, unstable_mixins⟩, ⟨_, unstable_class⟩,
    ⟨_, unstable_version⟩⟩

end CwlDescriptor

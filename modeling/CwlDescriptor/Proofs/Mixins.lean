import CwlDescriptor.Proofs.Distinctness
import CwlDescriptor.Proofs.Expansion.Settled
import Mathlib
set_option autoImplicit false

/-!
# What a mixin makes of a map

A map whose mixin is followed keeps its own keys, and behind them it gets those that it lacks. Its
own values are expanded. So are the values that come from the mixin, although they were expanded in
their own file before: they stay as they are if nothing is left to be replaced in them at the place
of the map and they hold no entries, but an entry among them gets another id, and a text at `run`
that named no file is now followed from the file of the map.

## Main definitions

* `Expander.Revises`: the expansion of the value of a key has a result.

## Main results

* `Entries.addMissing_eq`: the missing entries are added behind the map.
* `expandWithin_mixin`: the keys and the values of a map whose mixin was followed.
* `borrower_changes_added`: an entry that comes from a mixin gets another id.
-/

namespace CwlDescriptor

open Expansion Expander

/-! ## Adding missing entries -/

namespace Entries

/-- The keys among others that a map lacks are distinct, too. -/
lemma DistinctKeys.lacking {added : Entries} (h : added.DistinctKeys) (es : Entries) :
    (es.lacking added).DistinctKeys :=
  List.Nodup.sublist (List.filter_sublist.filterMap _) h

/-- **The missing entries are added behind the map.** -/
theorem addMissing_eq {added : Entries} (h : added.DistinctKeys) (es : Entries) :
    es.addMissing added = es ++ es.lacking added := by
  induction added generalizing es with
  | nil => simp [addMissing, Entries.lacking]
  | cons e added ih =>
    obtain ⟨k, v⟩ := e
    unfold addMissing
    cases hfind : es.find? k with
    | some w =>
      rw [ih h.tail]
      simp [Entries.lacking, hfind]
    | none =>
      have hsame : (es ++ [(k, v)]).lacking added = es.lacking added := by
        refine List.filter_congr fun e' he' => ?_
        have hkey := h.sameKey_eq_false he'
        simp [find?_append, find?, hkey]
      show (es ++ [(k, v)]).addMissing added = _
      rw [ih h.tail, hsame]
      simp [Entries.lacking, hfind]

end Entries

/-! ## Directives of a map with a new id -/

/-- The mixin of a map is followed with a new id, too. -/
lemma Mixes.withId {frame : Frame} {es : Entries} {reference : String}
    (h : Mixes frame es reference) (newId : Option String) :
    Mixes frame (withId es newId) reference where
  importing := (directive?_withId _ _ _).trans h.importing
  including := (directive?_withId _ _ _).trans h.including
  mixing := (directive?_withId _ _ _).trans h.mixing
  version := h.version

/-- A mixin that is followed with a new id is followed without it, too. -/
lemma Mixes.of_withId {frame : Frame} {es : Entries} {newId : Option String} {reference : String}
    (h : Mixes frame (Expander.withId es newId) reference) : Mixes frame es reference where
  importing := (directive?_withId _ _ _).symm.trans h.importing
  including := (directive?_withId _ _ _).symm.trans h.including
  mixing := (directive?_withId _ _ _).symm.trans h.mixing
  version := h.version

/-! ## The values of a map -/

/-- The expansion of the value of a key has a result. An import as the value of `run` stands for the
text `imported`. -/
inductive Expander.Revises (x : Expander) (frame : Frame) (imported : Option String) :
    Scalar → Node → Node → Prop
  | value {levels : Nat} {key : Scalar} {v v' : Node} {s t : ExpansionState}
    (hvalue : Expands x levels .whole frame v s v' t) : Revises x frame imported key v v'
  | imported {v : Node} {text : String} (htext : imported = some text) :
    Revises x frame imported (.str "run") v (.str text)
  | loaded {levels : Nat} {v document : Node} {reference : String} {s t : ExpansionState}
    (hvalue : Revises x frame imported (.str "run") v (.str reference))
    (hload : Loads x levels frame reference s (some document) t) :
    Revises x frame imported (.str "run") v document

section Revises

variable {x : Expander} {levels : Nat} {frame : Frame} {imported : Option String}
  {es es' : Entries} {s t : ExpansionState}

/-- The values of a map are revised one after another. -/
private lemma ExpandsEntries.revises
    (h : ExpandsEntries x levels frame ⟨none, imported⟩ es s es' t) :
    Entries.Related (x.Revises frame imported) es es' := by
  induction es generalizing s es' with
  | nil =>
    cases h
    exact .nil
  | cons e es ih =>
    cases h with
    | text htext _ hentries =>
      refine .cons ⟨rfl, ?_⟩ (ih hentries)
      unfold Replacements.at? at htext
      split at htext
      · cases htext
      · split at htext
        · next hrun =>
          dsimp only
          rw [hrun]
          exact .imported htext
        · cases htext
    | value _ hvalue hentries => exact .cons ⟨rfl, .value hvalue⟩ (ih hentries)

/-- A document takes the place of the text at `run`. -/
private lemma ExpandsRun.revises {values : Entries} (h : ExpandsRun x levels frame values s es' t)
    (hvalues : Entries.Related (x.Revises frame imported) es values) :
    Entries.Related (x.Revises frame imported) es es' := by
  cases h with
  | none | absent => exact hvalues
  | @loaded _ _ _ reference document _ _ hrun hload =>
    unfold Entries.set
    induction hvalues with
    | nil => cases hrun
    | @cons e e' es values he hes ih =>
      obtain ⟨k, v⟩ := e
      obtain ⟨k', v'⟩ := e'
      obtain ⟨rfl, hv⟩ := he
      unfold Entries.insert
      by_cases hk : k = .str "run"
      · subst hk
        rw [if_pos (Scalar.sameKey_str.2 rfl)]
        have hv' : v' = .str reference := by
          have hrun : v'.text? = some reference := by simpa [Entries.field, Entries.get?] using hrun
          cases v' with
          | scalar value =>
            cases value <;> cases hrun
            rfl
          | list _ | map _ | set _ | pair _ _ => cases hrun
        subst hv'
        exact .cons ⟨rfl, .loaded hv hload⟩ hes
      · rw [if_neg fun hkey => hk (Scalar.sameKey_str.1 hkey)]
        refine .cons ⟨rfl, hv⟩ (ih ?_)
        simpa [Entries.field, Entries.get?, hk] using hrun

/-- A value without entries in which nothing is left to be replaced stays as it is. -/
private lemma Expander.Revises.eq_of_settled {key : Scalar} {v v' : Node}
    (h : x.Revises frame imported key v v') (hsettled : Settled x.store frame v)
    (hentries : v.entryMaps = [])
    (himported : key = .str "run" → imported = none)
    (hlacks : ∀ reference, key = .str "run" → v.text? = some reference →
      x.store.Lacks frame reference) : v' = v := by
  induction h with
  | value hvalue => exact hsettled.eq_of_expands hentries hvalue
  | imported htext =>
    rw [himported rfl] at htext
    cases htext
  | loaded _ hload ih =>
    obtain rfl := ih hsettled hentries himported hlacks
    cases hload.eq_none_of_lacks (hlacks _ rfl rfl)

end Revises

/-! ## Following a mixin -/

/-- The entries of a map with its id that are kept when its mixin is followed. -/
def Expander.ownEntries (es : Entries) (newId : Option String) : Entries :=
  (withId es newId).eraseDirective .mixing

/-- A new id and a mixin that is left out do not change the value at `run`. -/
lemma get?_run_ownEntries (es : Entries) (newId : Option String) :
    (ownEntries es newId).get? "run" = es.get? "run" := by
  unfold ownEntries
  rw [Entries.get?_eraseDirective (by decide), get?_withId newId (by decide)]

/-- What an import as the value of `run` stands for in a map to which missing entries were added. -/
def Expander.mixedRun? (es added : Entries) (newId : Option String) : Option String :=
  Entries.importedRun? (ownEntries es newId ++ (ownEntries es newId).lacking added)

/-- If `run` comes from a mixin, and nothing is left to be replaced there, it is no import. -/
private lemma mixedRun?_eq_none {store : SourceStore} {frame : Frame} {es added : Entries}
    {newId : Option String} {v : Node} (hdistinct : added.DistinctKeys)
    (hmem : (.str "run", v) ∈ (ownEntries es newId).lacking added)
    (hsettled : Settled store frame v) : mixedRun? es added newId = none := by
  have hown : (ownEntries es newId).get? "run" = none := by
    simpa [Entries.find?_str] using (List.mem_filter.1 hmem).2
  unfold mixedRun? Entries.importedRun? Entries.field
  rw [Entries.get?_append, hown, (hdistinct.lacking _).get?_of_mem hmem]
  exact hsettled.importing_eq_none

/-- **A map whose mixin was followed** has its own keys, without that of the mixin, and then those
of the mixin that it lacked. The values at its own keys are expanded from its own values. The values
at the other keys are expanded from those of the mixin, which were expanded already: such a value is
that of the mixin if nothing is left to be replaced in it at the place of the map, and it holds no
entries. The keys of the mixin are distinct, as in everything that is read as descriptors are loaded
(`Loads.distinctKeys`).

**Proof sketch.** The missing entries are added behind the map by `Entries.addMissing_eq`, and then
the values of all entries are expanded one after another. -/
theorem expandWithin_mixin {x : Expander} {levels : Nat} {frame frame' : Frame}
    {es added : Entries} {newId : Option String} {reference : String} {r : Node}
    {s s₁ s₂ s₃ t : ExpansionState} (hcheck : x.checkDepth frame s = .ok () s₁)
    (henter : x.enter frame es s₁ = .ok (newId, frame') s₂) (hmixes : Mixes frame' es reference)
    (hload : x.loadDocument (x.inner levels) frame' reference s₂ = .ok (some (.map added)) s₃)
    (hdistinct : added.DistinctKeys)
    (h : x.expandWithin levels .whole frame (.map es) s = .ok r t) :
    ∃ kept gained, r = .map (kept ++ gained) ∧
      Entries.Related (x.Revises frame' (mixedRun? es added newId)) (ownEntries es newId) kept ∧
      Entries.Related (fun key v v' => x.Revises frame' (mixedRun? es added newId) key v v' ∧
          (Settled x.store frame' v → v.entryMaps = [] →
            (∀ reference, key = .str "run" → v.text? = some reference →
              x.store.Lacks frame' reference) → v' = v))
        ((ownEntries es newId).lacking added) gained := by
  rw [expandWithin_eq, expandNode_map_whole] at h
  simp only [bind_eq_ok] at h
  obtain ⟨_, u₁, hcheck', entered, u₂, henter', directed, u₃, hdirect, hrest⟩ := h
  rw [hcheck] at hcheck'
  cases hcheck'
  rw [henter] at henter'
  cases henter'
  rw [(hmixes.withId newId).direct_eq] at hdirect
  obtain ⟨document, u₄, hload', hmerge⟩ := bind_eq_ok.1 hdirect
  rw [hload] at hload'
  cases hload'
  cases hmerge
  obtain ⟨l, rfl, hexpands⟩ := derives_all x _ _ _ _ _ _ _ hrest
  have hmerged : ((withId es newId).eraseDirective .mixing).addMissing added =
      ownEntries es newId ++ (ownEntries es newId).lacking added :=
    Entries.addMissing_eq hdistinct _
  rw [hmerged] at hexpands
  cases hexpands with
  | leaf hleaf => cases hleaf
  | @merged _ _ _ values es' _ _ _ hentries hrun =>
    obtain ⟨kept, gained, rfl, hkept, hgained⟩ :=
      (hrun.revises hentries.revises).split
    refine ⟨kept, gained, rfl, hkept, hgained.imp_of_mem fun key v v' hmem hrevises => ?_⟩
    refine ⟨hrevises, fun hsettled hentries hlacks => ?_⟩
    refine hrevises.eq_of_settled hsettled hentries (fun hkey => ?_) hlacks
    subst hkey
    exact mixedRun?_eq_none hdistinct hmem hsettled

/-! ### An entry that comes from a mixin -/

/-- A repository with one file, which holds a workflow. -/
def lender : Expander where
  store := .ofFiles [⟨"/m", "a: {class: Workflow, id: b}"⟩]
  limits := {}
  newId n := toString n

/-- The file is read as descriptors are loaded. -/
private lemma read_lender : lender.read = load := rfl

/-- A workflow with an id and nothing else. -/
def bareWorkflow (id : String) : Node :=
  .map [(.str "class", .str "Workflow"), (.str "id", .str id)]

/-- A workflow with a mixin. -/
def borrower : Entries :=
  [(.str "class", .str "Workflow"), (.str "cwlVersion", .str "v1.0"), (.str "id", .str "w"),
    (.str "$mixin", .str "m")]

/-- The workflow with the one that comes from the mixin. -/
def borrowed (id : String) : Entries :=
  [(.str "class", .str "Workflow"), (.str "cwlVersion", .str "v1.0"), (.str "id", .str "w"),
    (.str "a", bareWorkflow id)]

/-- The place inside the workflow. -/
def inBorrower : Frame := ⟨"/main", some "v1.0", 0⟩

/-- The state in which the workflow has been entered. -/
def borrowing : ExpansionState := { idPaths := [("w", "main")] }

/-- The state in which the file of the mixin has been expanded. -/
def lent : ExpansionState where
  idPaths := [("w", "main"), ("b", "m")]
  fileCount := 1
  charCount := 27
  requests := [⟨some "/m", true⟩]

/-- The mixin is loaded as a map with one workflow. -/
private lemma lender_loads : Loads lender 1000 inBorrower "m" borrowing
    (some (.map [(.str "a", bareWorkflow "b")])) lent := by
  have hread : lender.read "a: {class: Workflow, id: b}" (some "/m") =
      .ok (.map [(.str "a", bareWorkflow "b")]) := by
    rw [read_lender]
    cbv
  have hexpand : lender.expandWithin 999 .whole
      { inBorrower with path := "/m", depth := inBorrower.depth + 1 }
      (.map [(.str "a", bareWorkflow "b")])
      { idPaths := [("w", "main")], fileCount := 1, charCount := 27,
        requests := [⟨some "/m", true⟩] } = .ok (.map [(.str "a", bareWorkflow "b")]) lent := rfl
  exact .found rfl rfl hread (expands_iff.2 hexpand)

/-- The workflow that comes from the mixin gets another id. -/
private lemma lender_expands :
    ∃ t, lender.expandWithin 1000 .whole (.root "/main") (.map borrower) {} =
    .ok (.map (borrowed "0")) t ∧ t.pathOfId (.str "0") = .ok (some "main") := by
  obtain ⟨t, hrest, hpath⟩ : ∃ t, lender.expandWithin 999 .merged inBorrower (.map (borrowed "b"))
      { lent with merges := 1 } = .ok (.map (borrowed "0")) t ∧
        t.pathOfId (.str "0") = .ok (some "main") := ⟨_, rfl, rfl⟩
  have hdirect : Directs lender 1000 inBorrower borrower borrowing
      (.merged (borrowed "b")) { lent with merges := 1 } :=
    .mixedMap ⟨rfl, rfl, rfl, rfl⟩ lender_loads
  exact ⟨t, expands_iff.1 (.mixed rfl rfl hdirect (expands_iff.2 hrest)), hpath⟩

/-- The value that comes from the mixin stands behind those of the workflow. -/
theorem borrower_expandWithin_mixin :
    lender.checkDepth (.root "/main") {} = .ok () {} ∧
      lender.enter (.root "/main") borrower {} = .ok (none, inBorrower) borrowing ∧
      Mixes inBorrower borrower "m" ∧
      lender.loadDocument (lender.inner 1000) inBorrower "m" borrowing =
        .ok (some (.map [(.str "a", bareWorkflow "b")])) lent ∧
      Entries.DistinctKeys [(.str "a", bareWorkflow "b")] ∧
      ∃ t kept gained,
        lender.expandWithin 1000 .whole (.root "/main") (.map borrower) {} =
          .ok (.map (kept ++ gained)) t ∧
        Entries.Related (lender.Revises inBorrower none) (ownEntries borrower none) kept ∧
        Entries.Related (lender.Revises inBorrower none) [(.str "a", bareWorkflow "b")] gained := by
  have hcheck : lender.checkDepth (.root "/main") {} = .ok () {} := rfl
  have henter : lender.enter (.root "/main") borrower {} = .ok (none, inBorrower) borrowing := rfl
  have hmixes : Mixes inBorrower borrower "m" := ⟨rfl, rfl, rfl, rfl⟩
  have hdistinct : Entries.DistinctKeys [(.str "a", bareWorkflow "b")] :=
    (lender_loads.distinctKeys (readsDistinct_of_load read_lender) _ rfl).1
  obtain ⟨t, h, -⟩ := lender_expands
  obtain ⟨kept, gained, hr, hkept, hgained⟩ :=
    expandWithin_mixin hcheck henter hmixes lender_loads.ok hdistinct h
  refine ⟨hcheck, henter, hmixes, lender_loads.ok, hdistinct, t, kept, gained, hr ▸ h, hkept, ?_⟩
  exact hgained.imp_of_mem fun _ _ _ _ hrevises => hrevises.1

/-- **An entry that comes from a mixin gets another id**, for which the path of the file that has
the mixin is recorded. -/
theorem borrower_changes_added :
    Mixes inBorrower borrower "m" ∧
      lender.loadDocument (lender.inner 1000) inBorrower "m" borrowing =
        .ok (some (.map [(.str "a", bareWorkflow "b")])) lent ∧
      ∃ t, lender.expandWithin 1000 .whole (.root "/main") (.map borrower) {} =
          .ok (.map (borrowed "0")) t ∧
        (borrowed "0").field "a" ≠ Entries.field [(.str "a", bareWorkflow "b")] "a" ∧
        lent.pathOfId (.str "b") = .ok (some "m") ∧
        t.pathOfId (.str "0") = .ok (some "main") := by
  obtain ⟨t, h, hpath⟩ := lender_expands
  have hne : bareWorkflow "0" ≠ bareWorkflow "b" := by simp [bareWorkflow]
  exact ⟨⟨rfl, rfl, rfl, rfl⟩, lender_loads.ok, t, h, hne, rfl, hpath⟩

end CwlDescriptor

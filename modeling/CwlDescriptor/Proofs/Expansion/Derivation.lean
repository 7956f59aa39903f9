import CwlDescriptor.Proofs.Computation
import CwlDescriptor.Proofs.Shown
set_option autoImplicit false

/-!
# Successful expansions as derivations

A derivation says step by step how an expansion reached its result: which directives it followed,
which documents it loaded, and which states it went through. Every successful expansion has a
derivation, and every derivation is that of a successful expansion, so that what holds of all
results is shown by induction on derivations.

## Main definitions

* `Expands`, with `ExpandsItems`, `ExpandsEntries`, `ExpandsRun`, `Directs` and `Loads`: the
  derivations for documents and for their parts.

## Main results

* `expands_iff`: the derivations are those of the successful expansions.
-/

namespace CwlDescriptor

open Expansion Expander

/-- The mixin of a map is followed: it has no directive that counts before, and the version of the
language has mixins. -/
structure Mixes (frame : Frame) (es : Entries) (reference : String) : Prop where
  importing : es.directive? .importing = none
  including : es.directive? .including = none
  mixing : es.directive? .mixing = some reference
  version : supportsMixin frame.version = true

/-- No directive of a map is followed. -/
structure Inert (frame : Frame) (es : Entries) : Prop where
  importing : es.directive? .importing = none
  including : es.directive? .including = none
  mixing : es.directive? .mixing = none ∨ supportsMixin frame.version = false

mutual

/-- The expansion of a document has a result. -/
inductive Expands (x : Expander) :
    Nat → Stage → Frame → Node → ExpansionState → Node → ExpansionState → Prop
  | leaf {levels : Nat} {stage : Stage} {frame : Frame} {n : Node} {s t : ExpansionState}
    (hleaf : n.IsLeaf) (hcheck : x.checkDepth frame s = .ok () t) :
    Expands x levels stage frame n s n t
  | list {levels : Nat} {stage : Stage} {frame : Frame} {items items' : List Node}
    {s s₁ t : ExpansionState} (hcheck : x.checkDepth frame s = .ok () s₁)
    (hitems : ExpandsItems x levels frame items s₁ items' t) :
    Expands x levels stage frame (.list items) s (.list items') t
  /-- A map whose directives were followed. -/
  | merged {levels : Nat} {frame : Frame} {es values es' : Entries} {s s₁ t : ExpansionState}
    (hentries : ExpandsEntries x levels frame ⟨none, es.importedRun?⟩ es s values s₁)
    (hrun : ExpandsRun x levels frame values s₁ es' t) :
    Expands x levels .merged frame (.map es) s (.map es') t
  /-- A map that is replaced by a document. -/
  | replaced {levels : Nat} {frame frame' : Frame} {es : Entries} {newId : Option String} {r : Node}
    {s s₁ s₂ t : ExpansionState} (hcheck : x.checkDepth frame s = .ok () s₁)
    (henter : x.enter frame es s₁ = .ok (newId, frame') s₂)
    (hdirect : Directs x levels frame' (withId es newId) s₂ (.replaced r) t) :
    Expands x levels .whole frame (.map es) s r t
  /-- A map whose mixin was followed. -/
  | mixed {levels : Nat} {frame frame' : Frame} {es entries : Entries} {newId : Option String}
    {r : Node} {s s₁ s₂ s₃ t : ExpansionState} (hcheck : x.checkDepth frame s = .ok () s₁)
    (henter : x.enter frame es s₁ = .ok (newId, frame') s₂)
    (hdirect : Directs x (levels + 1) frame' (withId es newId) s₂ (.merged entries) s₃)
    (hrest : Expands x levels .merged frame' (.map entries) s₃ r t) :
    Expands x (levels + 1) .whole frame (.map es) s r t
  /-- A map without directives that are followed. A new id that takes the place of no value is the
  last entry. -/
  | unchanged {levels : Nat} {frame frame' : Frame} {es values es' : Entries}
    {newId : Option String} {s s₁ s₂ s₃ s₄ t : ExpansionState}
    (hcheck : x.checkDepth frame s = .ok () s₁)
    (henter : x.enter frame es s₁ = .ok (newId, frame') s₂)
    (hdirect : Directs x levels frame' (withId es newId) s₂ .unchanged s₃)
    (hentries : ExpandsEntries x levels frame' ⟨newId, es.importedRun?⟩
      (es ++ Replacements.missing ⟨newId, es.importedRun?⟩ es) s₃ values s₄)
    (hrun : ExpandsRun x levels frame' values s₄ es' t) :
    Expands x levels .whole frame (.map es) s (.map es') t

/-- The expansion of the items of a list has a result. -/
inductive ExpandsItems (x : Expander) :
    Nat → Frame → List Node → ExpansionState → List Node → ExpansionState → Prop
  | nil {levels : Nat} {frame : Frame} {s : ExpansionState} : ExpandsItems x levels frame [] s [] s
  | cons {levels : Nat} {frame : Frame} {n n' : Node} {ns ns' : List Node}
    {s s₁ t : ExpansionState} (hitem : Expands x levels .whole frame n s n' s₁)
    (hitems : ExpandsItems x levels frame ns s₁ ns' t) :
    ExpandsItems x levels frame (n :: ns) s (n' :: ns') t

/-- The expansion of the values of a map has a result. -/
inductive ExpandsEntries (x : Expander) :
    Nat → Frame → Replacements → Entries → ExpansionState → Entries → ExpansionState → Prop
  | nil {levels : Nat} {frame : Frame} {r : Replacements} {s : ExpansionState} :
    ExpandsEntries x levels frame r [] s [] s
  /-- A text took the place of the value before. -/
  | text {levels : Nat} {frame : Frame} {r : Replacements} {k : Scalar} {v : Node} {text : String}
    {es es' : Entries} {s s₁ t : ExpansionState} (htext : r.at? k = some text)
    (hcheck : x.checkDepth frame s = .ok () s₁)
    (hentries : ExpandsEntries x levels frame r es s₁ es' t) :
    ExpandsEntries x levels frame r ((k, v) :: es) s ((k, .str text) :: es') t
  | value {levels : Nat} {frame : Frame} {r : Replacements} {k : Scalar} {v v' : Node}
    {es es' : Entries} {s s₁ t : ExpansionState} (htext : r.at? k = none)
    (hvalue : Expands x levels .whole frame v s v' s₁)
    (hentries : ExpandsEntries x levels frame r es s₁ es' t) :
    ExpandsEntries x levels frame r ((k, v) :: es) s ((k, v') :: es') t

/-- The expansion of a text at the key `run` has a result. -/
inductive ExpandsRun (x : Expander) :
    Nat → Frame → Entries → ExpansionState → Entries → ExpansionState → Prop
  | none {levels : Nat} {frame : Frame} {es : Entries} {s : ExpansionState}
    (hrun : (es.field "run").text? = none) : ExpandsRun x levels frame es s es s
  | absent {levels : Nat} {frame : Frame} {es : Entries} {reference : String}
    {s t : ExpansionState} (hrun : (es.field "run").text? = some reference)
    (hload : Loads x levels frame reference s none t) : ExpandsRun x levels frame es s es t
  | loaded {levels : Nat} {frame : Frame} {es : Entries} {reference : String} {document : Node}
    {s t : ExpansionState} (hrun : (es.field "run").text? = some reference)
    (hload : Loads x levels frame reference s (some document) t) :
    ExpandsRun x levels frame es s (es.set "run" document) t

/-- Following the directives of a map has a result. -/
inductive Directs (x : Expander) :
    Nat → Frame → Entries → ExpansionState → Directed → ExpansionState → Prop
  | imported {levels : Nat} {frame : Frame} {es : Entries} {reference : String}
    {document : Option Node} {s t : ExpansionState}
    (himport : es.directive? .importing = some reference)
    (hload : Loads x levels frame reference s document t) :
    Directs x levels frame es s (.replaced (document.getD (.map []))) t
  | included {levels : Nat} {frame : Frame} {es : Entries} {reference : String}
    {text : Option String} {s t : ExpansionState} (himport : es.directive? .importing = none)
    (hinclude : es.directive? .including = some reference)
    (hload : x.loadText frame reference s = .ok text t) :
    Directs x levels frame es s (.replaced (.str (text.getD ""))) t
  | mixedAbsent {levels : Nat} {frame : Frame} {es : Entries} {reference : String}
    {s t : ExpansionState} (hmixes : Mixes frame es reference)
    (hload : Loads x levels frame reference s none t) :
    Directs x levels frame es s (.merged (es.eraseDirective .mixing)) t
  | mixedMap {levels : Nat} {frame : Frame} {es added : Entries} {reference : String}
    {s t : ExpansionState} (hmixes : Mixes frame es reference)
    (hload : Loads x levels frame reference s (some (.map added)) t) :
    Directs x levels frame es s (.merged ((es.eraseDirective .mixing).addMissing added))
      { t with merges := t.merges + 1 }
  | mixedOther {levels : Nat} {frame : Frame} {es : Entries} {reference : String} {document : Node}
    {s t : ExpansionState} (hmixes : Mixes frame es reference)
    (hother : document.entries? = none)
    (hload : Loads x levels frame reference s (some document) t) :
    Directs x levels frame es s .unchanged t
  | inert {levels : Nat} {frame : Frame} {es : Entries} {s : ExpansionState}
    (hinert : Inert frame es) :
    Directs x levels frame es s .unchanged s

/-- Loading the document that a reference names has a result. -/
inductive Loads (x : Expander) :
    Nat → Frame → String → ExpansionState → Option Node → ExpansionState → Prop
  | absent {levels : Nat} {frame : Frame} {reference : String} {s t : ExpansionState}
    (hload : x.loadFile true (Reference.target? reference frame.path) s = .ok none t) :
    Loads x levels frame reference s none t
  | found {levels : Nat} {frame : Frame} {reference path text : String} {document r : Node}
    {s s₁ t : ExpansionState} (htarget : Reference.target? reference frame.path = some path)
    (hload : x.loadFile true (some path) s = .ok (some text) s₁)
    (hread : x.read text (some path) = .ok document)
    (hexpand : Expands x levels .whole { frame with path := path, depth := frame.depth + 1 }
      document s₁ r t) :
    Loads x (levels + 1) frame reference s (if r.isNull then none else some r) t

end

/-! ## Maps without directives -/

section Unchanged

/-- There is an entry for a new id only if the text takes the place of its value. -/
lemma Replacements.missing_eq (r : Replacements) (es : Entries) :
    r.missing es = [] ∨
      ∃ id, r.missing es = [(.str "id", .str id)] ∧ r.at? (.str "id") = some id := by
  unfold Replacements.missing
  cases hid : r.id with
  | none => exact .inl rfl
  | some id =>
    cases es.get? "id" with
    | none => exact .inr ⟨id, rfl, by rw [Replacements.at?, if_pos rfl, hid]⟩
    | some v => exact .inl rfl

variable (x : Expander) (below : Below) (frame : Frame)

/-- The values of two parts of a map are expanded one after the other. -/
private lemma expandEntries_append (r : Replacements) (es es' : Entries) :
    x.expandEntries below frame r (es ++ es') = (do
      let values ← x.expandEntries below frame r es
      let values' ← x.expandEntries below frame r es'
      return values ++ values') := by
  induction es with
  | nil =>
    rw [expandEntries, List.nil_append]
    simp
  | cons e es ih =>
    obtain ⟨k, v⟩ := e
    rw [List.cons_append, expandEntries_cons, expandEntries_cons, ih]
    simp

/-- The entry for a new id is expanded as if it were among the entries of the map. -/
private lemma expandEntries_missing (r : Replacements) (es : Entries) :
    (do
      let values ← x.expandEntries below frame r es
      match r.missing es with
      | [] => Node.map <$> x.expandRun below frame values
      | missing =>
        x.checkDepth frame
        Node.map <$> x.expandRun below frame (values ++ missing)) = (do
      let values ← x.expandEntries below frame r (es ++ r.missing es)
      Node.map <$> x.expandRun below frame values) := by
  rw [expandEntries_append, bind_assoc]
  refine bind_congr fun values => ?_
  rcases r.missing_eq es with hmissing | ⟨id, hmissing, hat⟩
  · rw [hmissing, expandEntries]
    simp
  · rw [hmissing, expandEntries_cons, expandEntries]
    simp [expandValue, hat, seqRight_eq_bind]

/-- The expansion of a map whose directives were followed. -/
def Expander.expandDirected (es : Entries) (newId : Option String) : Directed → Expansion Node
  | .replaced document => pure document
  | .merged entries => below .merged frame (.map entries)
  | .unchanged => do
    let r : Replacements := ⟨newId, es.importedRun?⟩
    let values ← x.expandEntries below frame r (es ++ r.missing es)
    .map <$> x.expandRun below frame values

/-- The expansion of a map of which nothing is expanded yet. -/
lemma expandNode_map_whole (es : Entries) :
    x.expandNode below .whole frame (.map es) = (do
      x.checkDepth frame
      let entered ← x.enter frame es
      let directed ← x.direct below entered.2 (withId es entered.1)
      x.expandDirected below entered.2 es entered.1 directed) := by
  rw [expandNode]
  refine bind_congr fun _ => bind_congr fun entered => bind_congr fun directed => ?_
  cases directed with
  | replaced document => rfl
  | merged entries => rfl
  | unchanged => exact expandEntries_missing x below entered.2 ⟨entered.1, es.importedRun?⟩ es

end Unchanged

/-- What following the directives of a map has made of it. -/
def Expander.Directed.document (es : Entries) : Directed → Node
  | .replaced document => document
  | .merged entries => .map entries
  | .unchanged => .map es

/-! ## Every success has a derivation -/

section Sound

variable {x : Expander} {levels : Nat} {frame : Frame} {s t : ExpansionState}

/-- Where the expansions of documents in other files succeed, they have derivations. -/
def Derives (x : Expander) (levels : Nat) : Prop :=
  ∀ stage frame n s r t, x.inner levels stage frame n s = .ok r t →
    ∃ l, levels = l + 1 ∧ Expands x l stage frame n s r t

/-- Loading a document with a result has a derivation. -/
private lemma loads_of_ok (hinner : Derives x levels) {reference : String} {document : Option Node}
    (h : x.loadDocument (x.inner levels) frame reference s = .ok document t) :
    Loads x levels frame reference s document t := by
  simp only [loadDocument, bind_eq_ok] at h
  obtain ⟨content, s₁, hload, h⟩ := h
  obtain ⟨hcontent, -⟩ := loadFile_eq_ok hload
  cases content with
  | none =>
    have h : (pure none : Expansion (Option Node)) s₁ = .ok document t := by
      cases htarget : Reference.target? reference frame.path <;> rw [htarget] at h <;> exact h
    cases h
    exact .absent hload
  | some text =>
    cases htarget : Reference.target? reference frame.path with
    | none =>
      rw [htarget] at hcontent
      cases hcontent
    | some path =>
      rw [htarget] at h hload
      simp only [bind_eq_ok] at h
      obtain ⟨d, s₂, hread, r, s₃, hexpand, h⟩ := h
      obtain ⟨hread', rfl⟩ := lift_eq_ok hread
      obtain ⟨l, rfl, hexpands⟩ := hinner _ _ _ _ _ _ hexpand
      cases h
      exact .found htarget hload hread' hexpands

/-- Following the text at `run` with a result has a derivation. -/
private lemma expandsRun_of_ok (hinner : Derives x levels) {es es' : Entries}
    (h : x.expandRun (x.inner levels) frame es s = .ok es' t) :
    ExpandsRun x levels frame es s es' t := by
  unfold expandRun at h
  cases hrun : (es.field "run").text? with
  | none =>
    rw [hrun] at h
    cases h
    exact .none hrun
  | some reference =>
    rw [hrun] at h
    obtain ⟨document, s₁, hload, h⟩ := bind_eq_ok.1 h
    cases document with
    | none =>
      cases h
      exact .absent hrun (loads_of_ok hinner hload)
    | some document =>
      cases h
      exact .loaded hrun (loads_of_ok hinner hload)

/-- Following the directives of a map with a result has a derivation. -/
private lemma directs_of_ok (hinner : Derives x levels) {es : Entries} {directed : Directed}
    (h : x.direct (x.inner levels) frame es s = .ok directed t) :
    Directs x levels frame es s directed t := by
  unfold direct at h
  cases himport : es.directive? .importing with
  | some reference =>
    rw [himport] at h
    obtain ⟨document, s₁, hload, h⟩ := bind_eq_ok.1 h
    cases h
    exact .imported himport (loads_of_ok hinner hload)
  | none =>
    cases hinclude : es.directive? .including with
    | some reference =>
      rw [himport, hinclude] at h
      obtain ⟨text, s₁, hload, h⟩ := bind_eq_ok.1 h
      cases h
      exact .included himport hinclude hload
    | none =>
      cases hmixin : es.directive? .mixing with
      | none =>
        rw [himport, hinclude, hmixin] at h
        cases h
        exact .inert ⟨himport, hinclude, .inl hmixin⟩
      | some reference =>
        rw [himport, hinclude, hmixin] at h
        cases hversion : supportsMixin frame.version with
        | false =>
          rw [hversion] at h
          cases h
          exact .inert ⟨himport, hinclude, .inr hversion⟩
        | true =>
          rw [hversion] at h
          have hmixes : Mixes frame es reference := ⟨himport, hinclude, hmixin, hversion⟩
          obtain ⟨document, s₁, hload, h⟩ := bind_eq_ok.1 h
          have hload := loads_of_ok hinner hload
          cases document with
          | none =>
            cases h
            exact .mixedAbsent hmixes hload
          | some document =>
            cases document with
            | map added =>
              cases h
              exact .mixedMap hmixes hload
            | scalar _ | list _ | set _ | pair _ _ =>
              cases h
              exact .mixedOther hmixes rfl hload

/-- The expansion of the values of a map with a result has a derivation, if those of its parts have.
-/
private lemma expandsEntries_of_ok_cons {r : Replacements} {k : Scalar} {v : Node}
    {es es' : Entries}
    (hvalue : ∀ v' s₁, x.expandNode (x.inner levels) .whole frame v s = .ok v' s₁ →
      Expands x levels .whole frame v s v' s₁)
    (hentries : ∀ s₁ es' t, x.expandEntries (x.inner levels) frame r es s₁ = .ok es' t →
      ExpandsEntries x levels frame r es s₁ es' t)
    (h : x.expandEntries (x.inner levels) frame r ((k, v) :: es) s = .ok es' t) :
    ExpandsEntries x levels frame r ((k, v) :: es) s es' t := by
  rw [expandEntries_cons] at h
  simp only [bind_eq_ok] at h
  obtain ⟨v', s₁, hv, es₁, s₂, hes, h⟩ := h
  cases h
  unfold expandValue at hv
  cases htext : r.at? k with
  | none =>
    rw [htext] at hv
    exact .value htext (hvalue _ _ hv) (hentries _ _ _ hes)
  | some text =>
    rw [htext] at hv
    obtain ⟨_, u, hcheck, h⟩ := seqRight_eq_ok.1 hv
    cases h
    exact .text htext hcheck (hentries _ _ _ hes)

/-- The entry for a new id holds a text, so that no other document is expanded for it. -/
private lemma expandsEntries_missing_of_ok {r : Replacements} {es es' : Entries}
    (h : x.expandEntries (x.inner levels) frame r (r.missing es) s = .ok es' t) :
    ExpandsEntries x levels frame r (r.missing es) s es' t := by
  rcases r.missing_eq es with hmissing | ⟨id, hmissing, hat⟩ <;> rw [hmissing] at h ⊢
  · cases h
    exact .nil
  · rw [expandEntries_cons, expandValue, hat] at h
    simp only [bind_eq_ok, seqRight_eq_ok] at h
    obtain ⟨v, s₁, ⟨_, s₂, hcheck, hv⟩, es₁, s₃, hes, h⟩ := h
    cases hv
    cases hes
    cases h
    exact .text hat hcheck .nil

/-- The derivations of two parts of a map make one of the whole map. -/
lemma ExpandsEntries.append {r : Replacements} {es₁ es₂ values₁ values₂ : Entries}
    {u : ExpansionState} (h₁ : ExpandsEntries x levels frame r es₁ s values₁ t)
    (h₂ : ExpandsEntries x levels frame r es₂ t values₂ u) :
    ExpandsEntries x levels frame r (es₁ ++ es₂) s (values₁ ++ values₂) u := by
  induction es₁ generalizing s values₁ with
  | nil =>
    cases h₁
    exact h₂
  | cons e es₁ ih =>
    cases h₁ with
    | text htext hcheck h₁ => exact .text htext hcheck (ih h₁)
    | value htext hvalue h₁ => exact .value htext hvalue (ih h₁)

mutual

/-- The expansion of a document with a result has a derivation, if those of documents in other files
have. -/
theorem expands_of_ok (hinner : Derives x levels) {stage : Stage} :
    ∀ {frame : Frame} {s t : ExpansionState} (n : Node) {r : Node},
      x.expandNode (x.inner levels) stage frame n s = .ok r t →
        Expands x levels stage frame n s r t
  | frame, s, t, .map es, r, h => by
    cases stage with
    | merged =>
      simp only [expandNode, bind_eq_ok, map_eq_ok] at h
      obtain ⟨values, s₁, hvalues, es', hrun, rfl⟩ := h
      exact .merged (expandsEntries_of_ok hinner es hvalues) (expandsRun_of_ok hinner hrun)
    | whole =>
      rw [expandNode_map_whole] at h
      simp only [bind_eq_ok] at h
      obtain ⟨_, s₁, hcheck, ⟨newId, frame'⟩, s₂, henter, directed, s₃, hdirect, h⟩ := h
      have hdirect := directs_of_ok hinner hdirect
      cases directed with
      | replaced document =>
        cases h
        exact .replaced hcheck henter hdirect
      | merged entries =>
        obtain ⟨l, rfl, hrest⟩ := hinner _ _ _ _ _ _ h
        exact .mixed hcheck henter hdirect hrest
      | unchanged =>
        simp only [expandDirected, bind_eq_ok, map_eq_ok] at h
        obtain ⟨values, s₄, hvalues, es', hrun, rfl⟩ := h
        rw [expandEntries_append] at hvalues
        simp only [bind_eq_ok] at hvalues
        obtain ⟨values₁, s₅, hvalues, values₂, s₆, hmissing, h⟩ := hvalues
        cases h
        have hentries := (expandsEntries_of_ok hinner es hvalues).append
          (expandsEntries_missing_of_ok hmissing)
        exact .unchanged hcheck henter hdirect hentries (expandsRun_of_ok hinner hrun)
  | frame, s, t, .list items, r, h => by
    simp only [expandNode, bind_eq_ok, map_eq_ok] at h
    obtain ⟨_, s₁, hcheck, items', hitems, rfl⟩ := h
    exact .list hcheck (expandsItems_of_ok hinner items hitems)
  | frame, s, t, .scalar _, r, h | frame, s, t, .set _, r, h | frame, s, t, .pair .., r, h => by
    rw [expandNode] at h
    · simp only [bind_eq_ok] at h
      obtain ⟨_, s₁, hcheck, h⟩ := h
      cases h
      exact .leaf trivial hcheck
    all_goals nofun

/-- The expansion of a list with a result has a derivation, if those of documents in other files
have. -/
theorem expandsItems_of_ok (hinner : Derives x levels) :
    ∀ {frame : Frame} {s t : ExpansionState} (items : List Node) {items' : List Node},
      x.expandItems (x.inner levels) frame items s = .ok items' t →
        ExpandsItems x levels frame items s items' t
  | frame, s, t, [], items', h => by
    cases h
    exact .nil
  | frame, s, t, item :: items, items', h => by
    simp only [expandItems, bind_eq_ok] at h
    obtain ⟨item', s₁, hitem, items₁, s₂, hitems, h⟩ := h
    cases h
    exact .cons (expands_of_ok hinner item hitem) (expandsItems_of_ok hinner items hitems)

/-- The expansion of the values of a map with a result has a derivation, if those of documents in
other files have. -/
theorem expandsEntries_of_ok (hinner : Derives x levels) :
    ∀ {frame : Frame} {r : Replacements} {s t : ExpansionState} (es : Entries) {es' : Entries},
      x.expandEntries (x.inner levels) frame r es s = .ok es' t →
        ExpandsEntries x levels frame r es s es' t
  | frame, r, s, t, [], es', h => by
    cases h
    exact .nil
  | frame, r, s, t, (k, v) :: es, es', h =>
    expandsEntries_of_ok_cons (fun _ _ => expands_of_ok hinner v)
      (fun _ _ _ => expandsEntries_of_ok hinner es) h

end

/-- On every level, the expansions with results have derivations. -/
lemma derives_all (x : Expander) : ∀ levels, Derives x levels
  | 0, _, _, _, _, _, _, h => by cases h
  | levels + 1, stage, frame, n, s, r, t, h => by
    refine ⟨levels, rfl, expands_of_ok (derives_all x levels) n ?_⟩
    rw [← expandWithin_eq]
    exact h

end Sound

/-! ## Every derivation is that of a success -/

section Complete

variable {x : Expander}

/-- If the mixin of a map is followed, this is all that its directives do. -/
lemma Mixes.direct_eq {frame : Frame} {es : Entries} {reference : String}
    (h : Mixes frame es reference) (below : Below) :
    x.direct below frame es = x.mixIn below frame es reference := by
  rw [direct, h.importing, h.including, h.mixing]
  simp only [h.version, if_true]

/-- If no directive of a map is followed, its directives do nothing. -/
lemma Inert.direct_eq {frame : Frame} {es : Entries} (h : Inert frame es) (below : Below) :
    x.direct below frame es = pure .unchanged := by
  rw [direct, h.importing, h.including]
  rcases h.mixing with hmixing | hversion
  · rw [hmixing]
  · cases es.directive? .mixing with
    | none => rfl
    | some reference =>
      simp only [hversion]
      rfl

mutual

/-- A derivation for a document is one of an expansion with this result. -/
theorem Expands.ok : ∀ {levels : Nat} {stage : Stage} {frame : Frame} {n r : Node}
    {s t : ExpansionState}, Expands x levels stage frame n s r t →
      x.expandNode (x.inner levels) stage frame n s = .ok r t
  | _, _, _, n, _, _, _, .leaf hleaf hcheck => by
    cases n with
    | list | map => cases hleaf
    | scalar _ | set _ | pair _ _ =>
      rw [expandNode]
      · exact bind_eq_ok.2 ⟨_, _, hcheck, rfl⟩
      all_goals nofun
  | _, _, _, _, _, _, _, .list hcheck hitems => by
    rw [expandNode]
    exact bind_eq_ok.2 ⟨_, _, hcheck, map_eq_ok.2 ⟨_, hitems.ok, rfl⟩⟩
  | _, _, _, _, _, _, _, .merged hentries hrun => by
    rw [expandNode]
    exact bind_eq_ok.2 ⟨_, _, hentries.ok, map_eq_ok.2 ⟨_, hrun.ok, rfl⟩⟩
  | _, _, _, _, _, _, _, .replaced hcheck henter hdirect => by
    rw [expandNode_map_whole]
    refine bind_eq_ok.2 ⟨_, _, hcheck, bind_eq_ok.2 ⟨_, _, henter, bind_eq_ok.2 ?_⟩⟩
    exact ⟨_, _, hdirect.ok, rfl⟩
  | _, _, _, _, _, _, _, .mixed hcheck henter hdirect hrest => by
    rw [expandNode_map_whole]
    refine bind_eq_ok.2 ⟨_, _, hcheck, bind_eq_ok.2 ⟨_, _, henter, bind_eq_ok.2 ?_⟩⟩
    refine ⟨_, _, hdirect.ok, ?_⟩
    show x.expandWithin _ _ _ _ _ = _
    rw [expandWithin_eq]
    exact hrest.ok
  | _, _, _, _, _, _, _, .unchanged hcheck henter hdirect hentries hrun => by
    rw [expandNode_map_whole]
    refine bind_eq_ok.2 ⟨_, _, hcheck, bind_eq_ok.2 ⟨_, _, henter, bind_eq_ok.2 ?_⟩⟩
    refine ⟨_, _, hdirect.ok, bind_eq_ok.2 ⟨_, _, hentries.ok, ?_⟩⟩
    exact map_eq_ok.2 ⟨_, hrun.ok, rfl⟩

/-- A derivation for a list is one of an expansion with this result. -/
theorem ExpandsItems.ok : ∀ {levels : Nat} {frame : Frame} {items items' : List Node}
    {s t : ExpansionState}, ExpandsItems x levels frame items s items' t →
      x.expandItems (x.inner levels) frame items s = .ok items' t
  | _, _, _, _, _, _, .nil => rfl
  | _, _, _, _, _, _, .cons hitem hitems => by
    rw [expandItems]
    exact bind_eq_ok.2 ⟨_, _, hitem.ok, bind_eq_ok.2 ⟨_, _, hitems.ok, rfl⟩⟩

/-- A derivation for the values of a map is one of an expansion with this result. -/
theorem ExpandsEntries.ok : ∀ {levels : Nat} {frame : Frame} {r : Replacements}
    {es es' : Entries} {s t : ExpansionState}, ExpandsEntries x levels frame r es s es' t →
      x.expandEntries (x.inner levels) frame r es s = .ok es' t
  | _, _, _, _, _, _, _, .nil => rfl
  | _, _, _, _, _, _, _, .text htext hcheck hentries => by
    rw [expandEntries_cons, expandValue, htext]
    refine bind_eq_ok.2 ⟨_, _, seqRight_eq_ok.2 ⟨_, _, hcheck, rfl⟩, ?_⟩
    exact bind_eq_ok.2 ⟨_, _, hentries.ok, rfl⟩
  | _, _, _, _, _, _, _, .value htext hvalue hentries => by
    rw [expandEntries_cons, expandValue, htext]
    exact bind_eq_ok.2 ⟨_, _, hvalue.ok, bind_eq_ok.2 ⟨_, _, hentries.ok, rfl⟩⟩

/-- A derivation for the text at `run` is one of a computation with this result. -/
theorem ExpandsRun.ok : ∀ {levels : Nat} {frame : Frame} {es es' : Entries}
    {s t : ExpansionState}, ExpandsRun x levels frame es s es' t →
      x.expandRun (x.inner levels) frame es s = .ok es' t
  | _, _, _, _, _, _, .none hrun => by
    rw [expandRun, hrun]
    rfl
  | _, _, _, _, _, _, .absent hrun hload => by
    rw [expandRun, hrun]
    exact bind_eq_ok.2 ⟨_, _, hload.ok, rfl⟩
  | _, _, _, _, _, _, .loaded hrun hload => by
    rw [expandRun, hrun]
    exact bind_eq_ok.2 ⟨_, _, hload.ok, rfl⟩

/-- A derivation for the directives of a map is one of a computation with this result. -/
theorem Directs.ok : ∀ {levels : Nat} {frame : Frame} {es : Entries} {s t : ExpansionState}
    {directed : Directed}, Directs x levels frame es s directed t →
      x.direct (x.inner levels) frame es s = .ok directed t
  | _, _, _, _, _, _, .imported himport hload => by
    rw [direct, himport]
    exact bind_eq_ok.2 ⟨_, _, hload.ok, rfl⟩
  | _, _, _, _, _, _, .included himport hinclude hload => by
    rw [direct, himport, hinclude]
    exact bind_eq_ok.2 ⟨_, _, hload, rfl⟩
  | _, _, _, _, _, _, .mixedAbsent hmixes hload => by
    rw [hmixes.direct_eq]
    exact bind_eq_ok.2 ⟨_, _, hload.ok, rfl⟩
  | _, _, _, _, _, _, .mixedMap hmixes hload => by
    rw [hmixes.direct_eq]
    exact bind_eq_ok.2 ⟨_, _, hload.ok, rfl⟩
  | _, _, _, _, _, _, @Directs.mixedOther _ _ _ _ _ document _ _ hmixes hother hload => by
    rw [hmixes.direct_eq]
    refine bind_eq_ok.2 ⟨_, _, hload.ok, ?_⟩
    cases document with
    | map es => cases hother
    | scalar _ | list _ | set _ | pair _ _ => rfl
  | _, _, _, _, _, _, .inert hinert => by
    rw [hinert.direct_eq]
    rfl

/-- A derivation for the document of a reference is one of a computation with this result. -/
theorem Loads.ok : ∀ {levels : Nat} {frame : Frame} {reference : String}
    {document : Option Node} {s t : ExpansionState},
    Loads x levels frame reference s document t →
      x.loadDocument (x.inner levels) frame reference s = .ok document t
  | _, frame, reference, _, _, _, .absent hload => by
    refine bind_eq_ok.2 ⟨_, _, hload, ?_⟩
    cases Reference.target? reference frame.path <;> rfl
  | _, _, _, _, _, _, .found htarget hload hread hexpand => by
    unfold loadDocument
    rw [htarget]
    refine bind_eq_ok.2 ⟨_, _, hload, bind_eq_ok.2 ⟨_, _, by rw [hread]; rfl, ?_⟩⟩
    refine bind_eq_ok.2 ⟨_, _, ?_, rfl⟩
    show x.expandWithin _ _ _ _ _ = _
    rw [expandWithin_eq]
    exact hexpand.ok

end

end Complete

/-- **The derivations are those of the successful expansions.** -/
theorem expands_iff {x : Expander} {levels : Nat} {stage : Stage} {frame : Frame} {n r : Node}
    {s t : ExpansionState} :
    Expands x levels stage frame n s r t ↔ x.expandWithin levels stage frame n s = .ok r t := by
  rw [expandWithin_eq]
  exact ⟨Expands.ok, expands_of_ok (derives_all x levels) n⟩

end CwlDescriptor

import CwlDescriptor.Proofs.Expansion.Simulation
set_option autoImplicit false

/-!
# One document under two treatments of limits

Two expanders over the same files may have other limits, or may do something else where a limit is
exceeded. A coupling relates computations of the one to computations of the other. If it can be
composed, and relates the steps in which limits are checked, then it relates the two expansions of
every document. Unlike a simulation it may say of a run that has left the other one behind what it
does from there on, since it relates computations and not states.

## Main definitions

* `Coupling`: a relation on computations that can be composed and that relates the steps of two
  expansions.

## Main results

* `Coupling.expandWithin_related`: the two expansions of a document are related.
-/

namespace CwlDescriptor

open Expansion Expander

/-- A relation between the computations of two expanders that relates the steps of an expansion. -/
structure Coupling (x x' : Expander) where
  /-- Related computations. -/
  Related : {α : Type} → Expansion α → Expansion α → Prop
  pure : ∀ {α : Type} (a : α), Related (Pure.pure a) (Pure.pure a)
  throw : ∀ {α : Type} (e : Failure), Related (throw e : Expansion α) (throw e)
  bind : ∀ {α β : Type} {m m' : Expansion α} {f f' : α → Expansion β}, Related m m' →
    (∀ a, Related (f a) (f' a)) → Related (m >>= f) (m' >>= f')
  merge : Related (modify fun s => { s with merges := s.merges + 1 })
    (modify fun s => { s with merges := s.merges + 1 })
  checkDepth : ∀ frame, Related (x.checkDepth frame) (x'.checkDepth frame)
  loadFile : ∀ asDocument path, Related (x.loadFile asDocument path) (x'.loadFile asDocument path)
  claimId : ∀ es path, Related (x.claimId es path) (x'.claimId es path)
  read : x.ReadsAs x'

namespace Coupling

variable {x x' : Expander} (c : Coupling x x') {α β : Type}

/-- Functions of coupled computations are coupled. -/
lemma map (g : α → β) {m m' : Expansion α} (h : c.Related m m') :
    c.Related (g <$> m) (g <$> m') := by
  rw [map_eq_pure_bind, map_eq_pure_bind]
  exact c.bind h fun a => c.pure (g a)

/-- A result that does not depend on the state is related to itself. -/
lemma lift (r : Except Failure α) : c.Related (Expander.lift r) (Expander.lift r) := by
  cases r with
  | ok a => exact c.pure a
  | error e => exact c.throw e

/-- Entering a map is coupled. -/
lemma enter (frame : Frame) (es : Entries) : c.Related (x.enter frame es) (x'.enter frame es) := by
  unfold Expander.enter
  split
  · refine c.bind (c.claimId es frame.path) fun new => ?_
    rw [versionIn_eq_lift]
    exact c.bind (c.lift _) fun version => c.pure _
  · exact c.pure _

/-! ## Computations that follow references -/

/-- The coupling relates the expansions of documents in other files. -/
def Below (below below' : Below) : Prop :=
  ∀ stage frame n, c.Related (below stage frame n) (below' stage frame n)

section Below

variable {c} {below below' : Expander.Below} (hbelow : c.Below below below')

include hbelow

/-- Loading a document is coupled. -/
lemma loadDocument (frame : Frame) (reference : String) :
    c.Related (x.loadDocument below frame reference) (x'.loadDocument below' frame reference) := by
  unfold Expander.loadDocument
  refine c.bind (c.loadFile true _) fun content => ?_
  split
  · rw [c.read]
    refine c.bind (c.lift _) fun document => ?_
    exact c.bind (hbelow _ _ _) fun r => c.pure _
  · exact c.pure _

/-- Following the text at `run` is coupled. -/
lemma expandRun (frame : Frame) (es : Entries) :
    c.Related (x.expandRun below frame es) (x'.expandRun below' frame es) := by
  unfold Expander.expandRun
  split
  · exact c.pure _
  · refine c.bind (loadDocument hbelow frame _) fun document => ?_
    split <;> exact c.pure _

/-- Following a mixin is coupled. -/
lemma mixIn (frame : Frame) (es : Entries) (reference : String) :
    c.Related (x.mixIn below frame es reference) (x'.mixIn below' frame es reference) := by
  unfold Expander.mixIn
  refine c.bind (loadDocument hbelow frame reference) fun document => ?_
  split
  · exact c.pure _
  · exact c.bind c.merge fun _ => c.pure _
  · exact c.pure _

/-- Following the directives of a map is coupled. -/
lemma direct (frame : Frame) (es : Entries) :
    c.Related (x.direct below frame es) (x'.direct below' frame es) := by
  unfold Expander.direct
  split
  · exact c.bind (loadDocument hbelow frame _) fun document => c.pure _
  · exact c.bind (c.loadFile false _) fun text => c.pure _
  · split
    · exact mixIn hbelow frame es _
    · exact c.pure _
  · exact c.pure _

end Below

variable {c} {below below' : Expander.Below}

mutual

/-- **The two expansions of a document are related** if those of documents in other files are.

**Proof sketch.** Induction on the document. All that an expansion does is composed of steps that
the coupling relates, and the next step is the same in both expansions. -/
theorem expandNode (hbelow : c.Below below below') (stage : Stage) (frame : Frame) :
    ∀ n, c.Related (x.expandNode below stage frame n) (x'.expandNode below' stage frame n)
  | .map es => by
    cases stage with
    | merged =>
      rw [Expander.expandNode, Expander.expandNode]
      refine c.bind (expandEntries hbelow frame _ es) fun values => ?_
      exact c.map _ (expandRun hbelow frame values)
    | whole =>
      rw [Expander.expandNode, Expander.expandNode]
      refine c.bind (c.checkDepth frame) fun _ => ?_
      refine c.bind (c.enter frame es) fun ⟨newId, frame'⟩ => ?_
      refine c.bind (direct hbelow frame' _) fun directed => ?_
      cases directed with
      | replaced document => exact c.pure document
      | merged entries => exact hbelow .merged frame' _
      | unchanged =>
        refine c.bind (expandEntries hbelow frame' _ es) fun values => ?_
        split
        · exact c.map _ (expandRun hbelow frame' _)
        · exact c.bind (c.checkDepth frame') fun _ => c.map _ (expandRun hbelow frame' _)
  | .list items => by
    rw [Expander.expandNode, Expander.expandNode]
    exact c.bind (c.checkDepth frame) fun _ => c.map _ (expandItems hbelow frame items)
  | .scalar _ | .set _ | .pair .. => by
    rw [Expander.expandNode, Expander.expandNode]
    · exact c.bind (c.checkDepth frame) fun _ => c.pure _
    all_goals nofun

/-- The expansions of a list are coupled. -/
theorem expandItems (hbelow : c.Below below below') (frame : Frame) :
    ∀ items, c.Related (x.expandItems below frame items) (x'.expandItems below' frame items)
  | [] => by
    rw [Expander.expandItems, Expander.expandItems]
    exact c.pure []
  | item :: items => by
    rw [Expander.expandItems, Expander.expandItems]
    refine c.bind (expandNode hbelow .whole frame item) fun item' => ?_
    exact c.bind (expandItems hbelow frame items) fun items' => c.pure _

/-- The expansions of the values of a map are coupled. -/
theorem expandEntries (hbelow : c.Below below below') (frame : Frame)
    (replacements : Replacements) :
    ∀ es, c.Related (x.expandEntries below frame replacements es)
      (x'.expandEntries below' frame replacements es)
  | [] => by
    rw [Expander.expandEntries, Expander.expandEntries]
    exact c.pure []
  | (key, value) :: es => by
    rw [expandEntries_cons, expandEntries_cons]
    refine c.bind ?_ fun value' => ?_
    · unfold expandValue
      split
      · rw [seqRight_eq_bind, seqRight_eq_bind]
        exact c.bind (c.checkDepth frame) fun _ => c.pure _
      · exact expandNode hbelow .whole frame value
    · exact c.bind (expandEntries hbelow frame replacements es) fun es' => c.pure _

end

variable (c)

/-- The expansions of documents in other files are related. -/
lemma below_inner : ∀ levels, c.Below (x.inner levels) (x'.inner levels)
  | 0, _, _, _ => c.throw .exhausted
  | levels + 1, stage, frame, n => by
    show c.Related (x.expandWithin levels stage frame n) (x'.expandWithin levels stage frame n)
    rw [expandWithin_eq, expandWithin_eq]
    exact expandNode (below_inner levels) stage frame n

/-- **The two expansions of a document are related**, for every number of levels. -/
theorem expandWithin_related (levels : Nat) (stage : Stage) (frame : Frame) (n : Node) :
    c.Related (x.expandWithin levels stage frame n) (x'.expandWithin levels stage frame n) := by
  rw [expandWithin_eq, expandWithin_eq]
  exact expandNode (c.below_inner levels) stage frame n

end Coupling

end CwlDescriptor

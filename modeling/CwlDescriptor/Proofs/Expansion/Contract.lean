import CwlDescriptor.Proofs.Computation
set_option autoImplicit false

/-!
# Contracts that every expansion meets

A contract says what a computation may do to the state, both where it succeeds and where it fails.
If a contract can be composed, and the steps of an expansion that follow no reference meet it, then
every expansion meets it, whatever the document is and wherever the expansion fails.

A contract may also say in which states a computation may begin that nests files in some number of
levels. Asking for a file uses up one level.

## Main definitions

* `Contract`: a contract that can be composed and that the steps of an expansion meet.
* `Contract.Meets`: a computation meets a contract.

## Main results

* `Contract.expandWithin_meets`: every expansion meets every contract.
-/

namespace CwlDescriptor

/-- What computations do to the state. -/
structure Contract (x : Expander) where
  /-- The states in which a computation may begin that calls `Expander.inner levels`. -/
  ready : Nat → ExpansionState → Prop
  /-- The states at the beginning and at the end of a computation that succeeds. -/
  success : ExpansionState → ExpansionState → Prop
  /-- The states at the beginning and at the end of a computation that fails. -/
  failure : Failure → ExpansionState → ExpansionState → Prop
  refl : ∀ s, success s s
  trans : ∀ {s t u}, success s t → success t u → success s u
  failure_trans : ∀ {e s t u}, success s t → failure e t u → failure e s u
  ready_of_success : ∀ {levels s t}, ready levels s → success s t → ready levels t
  exhausted : ∀ {s}, ready 0 s → failure .exhausted s s
  checkDepth : ∀ frame s,
    (x.checkDepth frame).Ensures s (fun _ => success s) (failure · s)
  claimId : ∀ es path s,
    (x.claimId es path).Ensures s (fun _ => success s) (failure · s)
  loadFile : ∀ levels asDocument path s, ready (levels + 1) s →
    (x.loadFile asDocument path).Ensures s (fun _ t => success s t ∧ ready levels t) (failure · s)
  merge : ∀ s, success s { s with merges := s.merges + 1 }
  /-- A file that cannot be read has just been asked for. -/
  read : ∀ text path e s, s.requests.getLast? = some ⟨some path, true⟩ →
    x.store.get? path = some text → x.read text (some path) = .error e → failure e s s
  shown : ∀ (n : Node) e s, n.shown = .error e → failure e s s

namespace Contract

open Expansion Expander

variable {x : Expander} {c : Contract x} {α β : Type} {levels : Nat} {s : ExpansionState}

/-! ## Composition -/

/-- A computation that begins in the state `s` does as the contract says, and `Q` holds where it
succeeds. -/
def Keeps (c : Contract x) (m : Expansion α) (s : ExpansionState)
    (Q : α → ExpansionState → Prop) : Prop :=
  m.Ensures s (fun a t => c.success s t ∧ Q a t) (c.failure · s)

/-- A computation does as the contract says if it begins in a state in which it may begin; then the
next one may begin in the state in which it ends. -/
def Meets (c : Contract x) (levels : Nat) (m : Expansion α) : Prop :=
  ∀ s, c.ready levels s → c.Keeps m s fun _ => c.ready levels

/-- A sequence keeps a contract if both of its parts do. -/
lemma Keeps.bind {m : Expansion α} {f : α → Expansion β} {Q : α → ExpansionState → Prop}
    {R : β → ExpansionState → Prop} (hm : c.Keeps m s Q)
    (hf : ∀ a t, Q a t → c.Keeps (f a) t R) : c.Keeps (m >>= f) s R := by
  refine Ensures.bind hm fun a t ⟨ht, hQ⟩ => ?_
  refine (hf a t hQ).weaken ?_ fun _ _ => c.failure_trans ht
  rintro b u ⟨hu, hR⟩
  exact ⟨c.trans ht hu, hR⟩

/-- A contract that is kept with a result is kept with less said of the result. -/
lemma Keeps.weaken {m : Expansion α} {Q R : α → ExpansionState → Prop} (hm : c.Keeps m s Q)
    (h : ∀ a t, Q a t → R a t) : c.Keeps m s R :=
  Ensures.weaken hm (fun a t hQ => ⟨hQ.1, h a t hQ.2⟩) fun _ _ => id

/-- A result that is there already keeps the contract. -/
lemma Keeps.pure {a : α} {Q : α → ExpansionState → Prop} (h : Q a s) :
    c.Keeps (Pure.pure a) s Q :=
  ⟨c.refl s, h⟩

/-- Where computations may begin before a step, they may begin behind it. -/
lemma Keeps.ready {m : Expansion α} {Q : α → ExpansionState → Prop} (hs : c.ready levels s)
    (hm : c.Keeps m s Q) : c.Keeps m s fun a t => Q a t ∧ c.ready levels t :=
  Ensures.weaken hm (fun _ _ h => ⟨h.1, h.2, c.ready_of_success hs h.1⟩) fun _ _ => id

/-- A step that keeps the contract in every state meets it. -/
private lemma meets_of_ensures {m : Expansion α}
    (hm : ∀ s, m.Ensures s (fun _ => c.success s) (c.failure · s)) : c.Meets levels m :=
  fun s hs => (hm s).weaken (fun _ _ h => ⟨h, c.ready_of_success hs h⟩) fun _ _ => id

/-- A result that is there already meets the contract. -/
lemma Meets.pure (a : α) : c.Meets levels (Pure.pure a) :=
  fun _ hs => Keeps.pure hs

/-- A sequence meets the contract if both of its parts do. -/
lemma Meets.bind {m : Expansion α} {f : α → Expansion β} (hm : c.Meets levels m)
    (hf : ∀ a, c.Meets levels (f a)) : c.Meets levels (m >>= f) :=
  fun s hs => (hm s hs).bind fun a t ht => hf a t ht

/-- A function of a result meets the contract if the computation does. -/
lemma Meets.map {m : Expansion α} (g : α → β) (hm : c.Meets levels m) :
    c.Meets levels (g <$> m) := by
  rw [map_eq_pure_bind]
  exact hm.bind fun a => .pure (g a)

/-! ## The steps of an expansion -/

/-- The check of the depth meets the contract. -/
private lemma meets_checkDepth (frame : Frame) : c.Meets levels (x.checkDepth frame) :=
  meets_of_ensures (c.checkDepth frame)

/-- A result that does not depend on the state meets the contract if its failures do. -/
private lemma meets_lift {r : Except Failure α} (h : ∀ e s, r = .error e → c.failure e s s) :
    c.Meets levels (lift r) := by
  intro s hs
  cases r with
  | ok a => exact Keeps.pure hs
  | error e => exact h e s rfl

/-- Entering a map meets the contract. -/
lemma meets_enter (frame : Frame) (es : Entries) : c.Meets levels (x.enter frame es) := by
  cases hc : es.entryClass? with
  | none =>
    intro s hs
    show Ensures _ _ _ _
    unfold Ensures
    rw [enter_of_none hc]
    exact ⟨c.refl s, hs⟩
  | some entryClass =>
    rw [enter_of_isSome (by rw [hc]; rfl)]
    refine Meets.bind (meets_of_ensures (c.claimId es frame.path)) fun new => ?_
    refine Meets.bind (meets_lift fun e s he => ?_) fun version => Meets.pure _
    unfold version? at he
    split at he
    · cases he
    · cases hv : (es.field "cwlVersion").shown with
      | ok text =>
        rw [hv] at he
        cases he
      | error e' =>
        rw [hv] at he
        cases he
        exact c.shown _ _ s hv

/-- Where asking for a file succeeds, this was the last request. -/
private lemma keeps_loadFile (asDocument : Bool) (path : Option String)
    (hs : c.ready (levels + 1) s) :
    c.Keeps (x.loadFile asDocument path) s fun content t =>
      c.ready levels t ∧ content = path.bind x.store.get? ∧
        t.requests.getLast? = some ⟨path, asDocument⟩ := by
  refine ((c.loadFile levels asDocument path s hs).and (loadFile_ensures asDocument path)).weaken
    ?_ fun _ _ h => h.1
  rintro content t ⟨⟨hsuccess, ht⟩, hcontent, ws, rfl⟩
  exact ⟨hsuccess, ht, hcontent, List.getLast?_concat⟩

/-! ## Computations that follow references -/

section Below

variable {below : Below} (hbelow : ∀ stage frame n, c.Meets levels (below stage frame n))

include hbelow

/-- Loading the document of a file takes up one level. -/
lemma keeps_loadDocument (frame : Frame) (reference : String) (hs : c.ready (levels + 1) s) :
    c.Keeps (x.loadDocument below frame reference) s fun _ t =>
      c.ready levels t ∧ c.ready (levels + 1) t := by
  refine Keeps.ready hs ?_
  unfold loadDocument
  refine Keeps.bind (keeps_loadFile true _ hs) fun content t hfile => ?_
  obtain ⟨ht, hcontent, hlast⟩ := hfile
  split
  · next path text htarget =>
    rw [htarget] at hcontent hlast
    have hlift : c.Keeps (lift (x.read text (some path))) t fun _ => c.ready levels := by
      cases hread : x.read text (some path) with
      | ok document => exact Keeps.pure ht
      | error e => exact c.read text path e t hlast hcontent.symm hread
    refine Keeps.bind hlift fun document u hu => ?_
    refine Keeps.bind (hbelow _ _ _ u hu) fun document v hv => ?_
    exact Keeps.pure hv
  · exact Keeps.pure ht

/-- Following the text at `run` meets the contract. -/
lemma meets_expandRun (frame : Frame) (es : Entries) :
    c.Meets (levels + 1) (x.expandRun below frame es) := by
  intro s hs
  unfold expandRun
  split
  · exact Keeps.pure hs
  · refine Keeps.bind (keeps_loadDocument hbelow frame _ hs) fun document t ht => ?_
    split <;> exact Keeps.pure ht.2

/-- A map is merged into another one only after the document of a file was loaded, so that less
levels are left for what follows. -/
private lemma keeps_mixIn (frame : Frame) (es : Entries) (reference : String)
    (hs : c.ready (levels + 1) s) :
    c.Keeps (x.mixIn below frame es reference) s fun _ t =>
      c.ready levels t ∧ c.ready (levels + 1) t := by
  unfold mixIn
  refine Keeps.bind (keeps_loadDocument hbelow frame reference hs) fun document t ht => ?_
  split
  · exact Keeps.pure ht
  · have hm : c.Keeps (modify fun s => { s with merges := s.merges + 1 }) t fun _ u =>
        c.ready levels u ∧ c.ready (levels + 1) u :=
      ⟨c.merge t, c.ready_of_success ht.1 (c.merge t), c.ready_of_success ht.2 (c.merge t)⟩
    exact hm.bind fun _ u hu => Keeps.pure hu
  · exact Keeps.pure ht

/-- Following the directives of a map keeps the contract, and behind a mixin there is one level
less. -/
lemma keeps_direct (frame : Frame) (es : Entries) (hs : c.ready (levels + 1) s) :
    c.Keeps (x.direct below frame es) s fun directed t =>
      c.ready (levels + 1) t ∧ ∀ entries, directed = .merged entries → c.ready levels t := by
  unfold direct
  split
  · refine Keeps.bind (keeps_loadDocument hbelow frame _ hs) fun document t ht => ?_
    exact Keeps.pure ⟨ht.2, nofun⟩
  · refine Keeps.bind (Keeps.ready hs (c.loadFile levels false _ s hs)) fun text t ht => ?_
    exact Keeps.pure ⟨ht.2, nofun⟩
  · split
    · exact (keeps_mixIn hbelow frame es _ hs).weaken fun directed t ht => ⟨ht.2, fun _ _ => ht.1⟩
    · exact Keeps.pure ⟨hs, nofun⟩
  · exact Keeps.pure ⟨hs, nofun⟩

end Below

variable {below : Below}

mutual

/-- **Every expansion meets the contract** if the expansions of documents in other files do.

**Proof sketch.** Induction on the document. The directives of a map are followed by computations
that were dealt with above; of the values of a map, those that are replaced by texts only have their
depth checked. -/
theorem meets_expandNode
    (hbelow : ∀ stage frame n, c.Meets levels (below stage frame n))
    (stage : Stage) (frame : Frame) :
    ∀ n, c.Meets (levels + 1) (x.expandNode below stage frame n)
  | .map es => by
    cases stage with
    | merged =>
      rw [expandNode]
      refine Meets.bind (meets_expandEntries hbelow frame _ es) fun values => ?_
      exact (meets_expandRun hbelow frame values).map _
    | whole =>
      rw [expandNode]
      refine Meets.bind (meets_checkDepth frame) fun _ => ?_
      refine Meets.bind (meets_enter frame es) fun ⟨newId, frame'⟩ => ?_
      intro s hs
      refine Keeps.bind (keeps_direct hbelow frame' _ hs) fun directed t ht => ?_
      cases directed with
      | replaced document => exact Keeps.pure ht.1
      | merged entries =>
        -- the map may have become larger, but the mixin has used up a level
        have hrest := hbelow .merged frame' (.map entries) t (ht.2 entries rfl)
        exact (Keeps.ready ht.1 hrest).weaken fun _ _ h => h.2
      | unchanged =>
        refine Meets.bind (meets_expandEntries hbelow frame' _ es) (fun values => ?_) t ht.1
        split
        · exact (meets_expandRun hbelow frame' _).map _
        · refine Meets.bind (meets_checkDepth frame') fun _ => ?_
          exact (meets_expandRun hbelow frame' _).map _
  | .list items => by
    rw [expandNode]
    refine Meets.bind (meets_checkDepth frame) fun _ => ?_
    exact (meets_expandItems hbelow frame items).map _
  | .scalar _ | .set _ | .pair .. => by
    rw [expandNode]
    · exact Meets.bind (meets_checkDepth frame) fun _ => Meets.pure _
    all_goals nofun

/-- The expansion of a list meets the contract. -/
theorem meets_expandItems
    (hbelow : ∀ stage frame n, c.Meets levels (below stage frame n)) (frame : Frame) :
    ∀ items, c.Meets (levels + 1) (x.expandItems below frame items)
  | [] => Meets.pure []
  | item :: items => by
    rw [expandItems]
    refine Meets.bind (meets_expandNode hbelow .whole frame item) fun item' => ?_
    exact Meets.bind (meets_expandItems hbelow frame items) fun items' => Meets.pure _

/-- The expansion of the values of a map meets the contract. -/
theorem meets_expandEntries
    (hbelow : ∀ stage frame n, c.Meets levels (below stage frame n)) (frame : Frame)
    (replacements : Replacements) :
    ∀ es, c.Meets (levels + 1) (x.expandEntries below frame replacements es)
  | [] => Meets.pure []
  | (key, value) :: es => by
    rw [expandEntries_cons]
    refine Meets.bind ?_ fun value' => ?_
    · unfold expandValue
      split
      · rw [seqRight_eq_bind]
        exact Meets.bind (meets_checkDepth frame) fun _ => Meets.pure _
      · exact meets_expandNode hbelow .whole frame value
    · exact Meets.bind (meets_expandEntries hbelow frame replacements es) fun es' => Meets.pure _

end

/-- The expansions of documents in other files meet the contract. -/
lemma meets_inner (c : Contract x) :
    ∀ levels stage frame n, c.Meets levels (x.inner levels stage frame n)
  | 0, _, _, _ => fun _ hs => c.exhausted hs
  | levels + 1, stage, frame, n => by
    show c.Meets (levels + 1) (x.expandWithin levels stage frame n)
    rw [expandWithin_eq]
    exact meets_expandNode (meets_inner c levels) stage frame n

/-- **Every expansion meets every contract**, from the states in which it may begin. -/
theorem expandWithin_meets (c : Contract x) (levels : Nat) (stage : Stage) (frame : Frame)
    (n : Node) : c.Meets (levels + 1) (x.expandWithin levels stage frame n) := by
  rw [expandWithin_eq]
  exact meets_expandNode (c.meets_inner levels) stage frame n

end Contract

end CwlDescriptor

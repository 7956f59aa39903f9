import CwlDescriptor.Proofs.Computation
import CwlDescriptor.Proofs.Entries
set_option autoImplicit false

/-!
# Two expansions in lockstep

A simulation relates the states and the places of two expansions. If the steps that follow no
reference keep it, then two expansions of documents that are alike have the same result, or fail for
the same reason, and their states stay related. Of some failures of the first expansion nothing is
promised.

The two documents may differ in some nodes, the *special* ones, for which it must be shown that they
have the same expansion.

## Main definitions

* `Simulation`: a relation between two expansions that the steps which follow no reference keep.
* `Simulation.Matches`: two computations that keep a simulation.
* `Simulation.Alike`: documents that differ in special nodes only.

## Main results

* `Simulation.expandWithin_matches`: documents that are alike have the same expansion.
-/

namespace CwlDescriptor

/-- A computation is followed by another one: unless it fails in an excused way, they end alike. -/
def Expansion.Followed {α : Type} (state : ExpansionState → ExpansionState → Prop)
    (excused : Failure → Prop) (R : α → α → Prop) (m m' : Expansion α)
    (s s' : ExpansionState) : Prop :=
  match m s with
  | .ok a t => ∃ a' t', m' s' = .ok a' t' ∧ R a a' ∧ state t t'
  | .error e t => excused e ∨ ∃ t', m' s' = .error e t' ∧ state t t'

/-- Two expanders read the same documents. -/
def Expander.ReadsAs (x x' : Expander) : Prop :=
  ∀ text path, x.read text path = x'.read text path

/-- An expansion reads as itself. -/
lemma Expander.ReadsAs.refl (x : Expander) : x.ReadsAs x := fun _ _ => rfl

/-- A relation between two expansions that the steps which follow no reference keep. -/
structure Simulation (x x' : Expander) where
  /-- Related states. -/
  state : ExpansionState → ExpansionState → Prop
  /-- Related places. -/
  frame : Frame → Frame → Prop
  /-- Related versions of the language. -/
  version : Option String → Option String → Prop
  /-- The failures of the first expansion of which nothing is promised. -/
  excused : Failure → Prop
  exhausted : excused .exhausted
  version_refl : ∀ v, version v v
  supportsMixin_eq : ∀ {f f'}, frame f f' → supportsMixin f.version = supportsMixin f'.version
  target?_eq : ∀ {f f'}, frame f f' → ∀ reference,
    Reference.target? reference f.path = Reference.target? reference f'.path
  frame_version : ∀ {f f' v v'}, frame f f' → version v v' →
    frame { f with version := v } { f' with version := v' }
  frame_load : ∀ {f f'} (path : String), frame f f' →
    frame { f with path := path, depth := f.depth + 1 }
      { f' with path := path, depth := f'.depth + 1 }
  read : x.ReadsAs x'
  merge : ∀ {s s'}, state s s' →
    state { s with merges := s.merges + 1 } { s' with merges := s'.merges + 1 }
  checkDepth : ∀ {f f'}, frame f f' → ∀ {s s'}, state s s' →
    Expansion.Followed state excused Eq (x.checkDepth f) (x'.checkDepth f') s s'
  loadFile : ∀ asDocument path {s s'}, state s s' →
    Expansion.Followed state excused Eq (x.loadFile asDocument path)
      (x'.loadFile asDocument path) s s'
  claimId : ∀ {f f'}, frame f f' → ∀ {es es' : Entries},
    (es.field "id").text? = (es'.field "id").text? → ∀ {s s'}, state s s' →
    Expansion.Followed state excused Eq (x.claimId es f.path) (x'.claimId es' f'.path) s s'

namespace Simulation

open Expansion Expander

variable {x x' : Expander} {S : Simulation x x'} {α β : Type}

/-! ## Composition -/

/-- Two computations keep a simulation, and their results are related. -/
def Matches (S : Simulation x x') (R : α → α → Prop) (m m' : Expansion α) : Prop :=
  ∀ s s', S.state s s' → Followed S.state S.excused R m m' s s'

/-- Results that are related match. -/
lemma Matches.pure {R : α → α → Prop} {a a' : α} (h : R a a') :
    S.Matches R (Pure.pure a) (Pure.pure a') :=
  fun _ s' hs => ⟨a', s', rfl, h, hs⟩

/-- Sequences match if their first parts match and their second parts do for related results. -/
lemma Matches.bind {R : α → α → Prop} {Q : β → β → Prop} {m m' : Expansion α}
    {f f' : α → Expansion β} (hm : S.Matches R m m')
    (hf : ∀ a a', R a a' → S.Matches Q (f a) (f' a')) : S.Matches Q (m >>= f) (m' >>= f') := by
  intro s s' hs
  have h := hm s s' hs
  unfold Followed at h ⊢
  rw [bind_apply]
  cases hr : m s with
  | ok a t =>
    rw [hr] at h
    obtain ⟨a', t', hr', ha, ht⟩ := h
    rw [bind_apply, hr']
    exact hf a a' ha t t' ht
  | error e t =>
    rw [hr] at h
    refine h.imp_right ?_
    rintro ⟨t', hr', ht⟩
    rw [bind_apply, hr']
    exact ⟨t', rfl, ht⟩

/-- Sequences match if their first parts have the same results and their second parts match. -/
private lemma Matches.bind_eq {Q : β → β → Prop} {m m' : Expansion α} {f f' : α → Expansion β}
    (hm : S.Matches Eq m m') (hf : ∀ a, S.Matches Q (f a) (f' a)) :
    S.Matches Q (m >>= f) (m' >>= f') :=
  hm.bind fun a _ h => h ▸ hf a

/-- Functions of matching results match. -/
lemma Matches.map (g : α → β) {m m' : Expansion α} (hm : S.Matches Eq m m') :
    S.Matches Eq (g <$> m) (g <$> m') := by
  rw [map_eq_pure_bind, map_eq_pure_bind]
  exact hm.bind_eq fun a => .pure rfl

/-- A failure matches itself. -/
lemma Matches.throw {R : α → α → Prop} (e : Failure) :
    S.Matches R (throw e : Expansion α) (throw e) :=
  fun _ s' hs => .inr ⟨s', rfl, hs⟩

/-- Two results that do not depend on the state match if they are the same. -/
private lemma matches_lift (r : Except Failure α) : S.Matches Eq (lift r) (lift r) := by
  cases r with
  | ok a => exact .pure rfl
  | error e => exact .throw e

/-! ## Documents that are alike -/

/-- What a value means at the key `run`: the reference of an import in it. -/
def importIn (v : Node) : Option String :=
  v.entries?.bind (Entries.directive? .importing)

mutual

/-- Two documents are alike if they differ in special nodes only. A special node must not make a
difference to the meaning of `run`, and in an entry none to the version. -/
inductive Alike (S : Simulation x x') (special : Node → Node → Prop) : Node → Node → Prop
  | special {n n' : Node} (h : special n n') : Alike S special n n'
  | scalar (v : Scalar) : Alike S special (.scalar v) (.scalar v)
  | set (vs : List Scalar) : Alike S special (.set vs) (.set vs)
  | pair (k v : Node) : Alike S special (.pair k v) (.pair k v)
  | list {items items' : List Node} (h : AlikeItems S special items items') :
    Alike S special (.list items) (.list items')
  | map {es es' : Entries} (h : AlikeEntries S special es es')
    (hversion : es.entryClass?.isSome → ∀ v, (es.field "cwlVersion").shown = .ok v →
      ∃ v', (es'.field "cwlVersion").shown = .ok v' ∧ S.version (some v) (some v'))
    (hfailure : es.entryClass?.isSome → ∀ e, (es.field "cwlVersion").shown = .error e →
      S.excused e ∨ (es'.field "cwlVersion").shown = .error e) :
    Alike S special (.map es) (.map es')

/-- Two lists are alike item by item. -/
inductive AlikeItems (S : Simulation x x') (special : Node → Node → Prop) :
    List Node → List Node → Prop
  | nil : AlikeItems S special [] []
  | cons {n n' : Node} {ns ns' : List Node} (h : Alike S special n n')
    (hs : AlikeItems S special ns ns') : AlikeItems S special (n :: ns) (n' :: ns')

/-- Two maps are alike entry by entry. -/
inductive AlikeEntries (S : Simulation x x') (special : Node → Node → Prop) :
    Entries → Entries → Prop
  | nil : AlikeEntries S special [] []
  | cons {v v' : Node} {es es' : Entries} (k : Scalar) (h : Alike S special v v')
    (hrun : k = .str "run" → importIn v = importIn v') (hs : AlikeEntries S special es es') :
    AlikeEntries S special ((k, v) :: es) ((k, v') :: es')

end

section Alike

variable {special : Node → Node → Prop}

mutual

/-- A document is like itself. -/
theorem Alike.refl : ∀ n, Alike S special n n
  | .scalar v => .scalar v
  | .set vs => .set vs
  | .pair k v => .pair k v
  | .list items => .list (AlikeItems.refl items)
  | .map es => .map (AlikeEntries.refl es) (fun _ v h => ⟨v, h, S.version_refl _⟩)
    fun _ _ h => .inr h

/-- Every list is like itself. -/
theorem AlikeItems.refl : ∀ ns, AlikeItems S special ns ns
  | [] => .nil
  | n :: ns => .cons (Alike.refl n) (AlikeItems.refl ns)

/-- The values of every map are like themselves. -/
theorem AlikeEntries.refl : ∀ es, AlikeEntries S special es es
  | [] => .nil
  | (k, v) :: es => .cons k (Alike.refl v) (fun _ => rfl) (AlikeEntries.refl es)

end

/-- Lists that differ in one item. -/
lemma AlikeItems.of_item {n n' : Node} (h : Alike S special n n') :
    ∀ before after : List Node, AlikeItems S special (before ++ n :: after) (before ++ n' :: after)
  | [], after => .cons h (.refl after)
  | item :: before, after => .cons (.refl item) (of_item h before after)

/-- The values of a key are alike, and at the key `run` they mean the same. -/
def AlikeAt (S : Simulation x x') (special : Node → Node → Prop) (k : Scalar) (v v' : Node) :
    Prop :=
  Alike S special v v' ∧ (k = .str "run" → importIn v = importIn v')

/-- A value at a key is like itself. -/
lemma AlikeAt.refl (k : Scalar) (v : Node) : AlikeAt S special k v v :=
  ⟨Alike.refl v, fun _ => rfl⟩

/-- Maps are alike if they have the same keys with values that are alike. -/
lemma alikeEntries_iff {es es' : Entries} :
    AlikeEntries S special es es' ↔ Entries.Related (AlikeAt S special) es es' := by
  constructor
  · intro h
    induction es generalizing es' with
    | nil =>
      cases h
      exact .nil
    | cons e es ih =>
      cases h with
      | cons k h hrun hs => exact .cons ⟨rfl, h, hrun⟩ (ih hs)
  · intro h
    induction h with
    | nil => exact .nil
    | @cons e e' es es' he _ ih =>
      obtain ⟨k, v⟩ := e
      obtain ⟨k', v'⟩ := e'
      obtain ⟨rfl, h, hrun⟩ := he
      exact .cons k h hrun ih

/-- What special nodes may be: neither of the two is a text or null. -/
def Collections (special : Node → Node → Prop) : Prop :=
  ∀ n n', special n n' → n.text? = none ∧ n'.text? = none ∧ n.isNull = false ∧ n'.isNull = false

variable (hspecial : Collections special)

include hspecial

/-- Documents that are alike have the same text, if any. -/
private lemma Alike.text?_eq {n n' : Node} (h : Alike S special n n') : n.text? = n'.text? := by
  cases h with
  | special h =>
    obtain ⟨ht, ht', -, -⟩ := hspecial _ _ h
    rw [ht, ht']
  | _ => rfl

/-- Documents that are alike are both null, or neither is. -/
private lemma Alike.isNull_eq {n n' : Node} (h : Alike S special n n') : n.isNull = n'.isNull := by
  cases h with
  | special h =>
    obtain ⟨-, -, hn, hn'⟩ := hspecial _ _ h
    rw [hn, hn']
  | _ => rfl

/-- Values that are alike at a key have the same text, if any. -/
private lemma AlikeAt.text?_eq (k : Scalar) (v v' : Node) (h : AlikeAt S special k v v') :
    v.text? = v'.text? :=
  h.1.text?_eq hspecial

omit hspecial in
/-- Maps that are alike mean the same at the key `run`. -/
private lemma AlikeEntries.importedRun?_eq {es es' : Entries} (h : AlikeEntries S special es es') :
    es.importedRun? = es'.importedRun? := by
  unfold Entries.importedRun? Entries.field
  rcases (alikeEntries_iff.1 h).get? "run" with ⟨he, he'⟩ | ⟨v, v', he, he', hv⟩
  · rw [he, he']
  · rw [he, he']
    exact hv.2 rfl

/-- Values at a key of maps that are alike are both null, or neither is. -/
private lemma AlikeEntries.isNull_field_eq {es es' : Entries} (h : AlikeEntries S special es es')
    (name : String) : (es.field name).isNull = (es'.field name).isNull := by
  unfold Entries.field
  rcases (alikeEntries_iff.1 h).get? name with ⟨he, he'⟩ | ⟨v, v', he, he', hv⟩
  · rw [he, he']
  · rw [he, he']
    exact hv.1.isNull_eq hspecial

omit hspecial in

/-- Maps that are alike have or lack an id alike. -/
lemma AlikeEntries.missing_eq {es es' : Entries} (h : AlikeEntries S special es es')
    (r : Replacements) : r.missing es = r.missing es' := by
  unfold Replacements.missing
  rcases (alikeEntries_iff.1 h).get? "id" with ⟨he, he'⟩ | ⟨v, v', he, he', -⟩
  · rw [he, he']
  · rw [he, he']
    cases r.id <;> rfl

omit hspecial in

/-- Maps that are alike stay so with the same new id. -/
lemma AlikeEntries.withId {es es' : Entries} (h : AlikeEntries S special es es')
    (id : Option String) :
    AlikeEntries S special (Expander.withId es id) (Expander.withId es' id) := by
  cases id with
  | none => exact h
  | some id => exact alikeEntries_iff.2 ((alikeEntries_iff.1 h).set AlikeAt.refl _ _)

end Alike

/-! ## Steps in lockstep -/

section Steps

variable {f f' : Frame} (hf : S.frame f f')

include hf

/-- The checks of the depth match at places that match. -/
private lemma matches_checkDepth : S.Matches Eq (x.checkDepth f) (x'.checkDepth f') :=
  fun _ _ hs => S.checkDepth hf hs

/-- Maps that are alike are entered in lockstep. -/
private lemma matches_enter {special : Node → Node → Prop} (hspecial : Collections special)
    {es es' : Entries} (h : AlikeEntries S special es es')
    (hversion : es.entryClass?.isSome → ∀ v, (es.field "cwlVersion").shown = .ok v →
      ∃ v', (es'.field "cwlVersion").shown = .ok v' ∧ S.version (some v) (some v'))
    (hfailure : es.entryClass?.isSome → ∀ e, (es.field "cwlVersion").shown = .error e →
      S.excused e ∨ (es'.field "cwlVersion").shown = .error e) :
    S.Matches (fun a a' => a.1 = a'.1 ∧ S.frame a.2 a'.2 ∧ a.2.path = f.path)
      (x.enter f es) (x'.enter f' es') := by
  have hrel := alikeEntries_iff.1 h
  have hclass := hrel.entryClass?_eq (AlikeAt.text?_eq hspecial)
  cases hc : es.entryClass? with
  | none =>
    intro s s' hs
    unfold Followed
    rw [enter_of_none hc, enter_of_none (hclass ▸ hc)]
    exact ⟨_, _, rfl, ⟨rfl, hf, rfl⟩, hs⟩
  | some entryClass =>
    have hs : es.entryClass?.isSome := by rw [hc]; rfl
    rw [enter_of_isSome hs, enter_of_isSome (hclass ▸ hs)]
    have hid := hrel.text?_field (AlikeAt.text?_eq hspecial) "id"
    refine Matches.bind_eq (fun _ _ => S.claimId hf hid) fun new => ?_
    refine Matches.bind (R := fun v v' => S.frame { f with version := v } { f' with version := v' })
      ?_ fun v v' hv => .pure ⟨rfl, hv, rfl⟩
    unfold version?
    rw [h.isNull_field_eq hspecial]
    split
    · exact .pure hf
    · cases hshown : (es.field "cwlVersion").shown with
      | ok v =>
        obtain ⟨v', hv', hv⟩ := hversion hs v hshown
        rw [hv']
        exact .pure (S.frame_version hf hv)
      | error e =>
        intro s s' hs'
        rcases hfailure hs e hshown with he | he
        · exact .inl he
        · rw [he]
          exact .inr ⟨s', rfl, hs'⟩

variable {below below' : Below}
  (hbelow : ∀ f f' n, S.frame f f' → S.Matches Eq (below .whole f n) (below' .whole f' n))

include hbelow

/-- Loading a document matches. -/
private lemma matches_loadDocument (reference : String) :
    S.Matches Eq (x.loadDocument below f reference) (x'.loadDocument below' f' reference) := by
  unfold loadDocument
  rw [S.target?_eq hf]
  refine Matches.bind_eq (fun _ _ => S.loadFile true _) fun content => ?_
  split
  · rw [S.read _ _]
    refine Matches.bind_eq (matches_lift _) fun document => ?_
    exact Matches.bind_eq (hbelow _ _ document (S.frame_load _ hf)) fun document => .pure rfl
  · exact .pure rfl

/-- Following the text at `run` matches. -/
private lemma matches_expandRun (es : Entries) :
    S.Matches Eq (x.expandRun below f es) (x'.expandRun below' f' es) := by
  unfold expandRun
  split
  · exact .pure rfl
  · refine Matches.bind_eq (matches_loadDocument hf hbelow _) fun document => ?_
    split <;> exact .pure rfl

/-- What directives make of two maps that are alike. -/
inductive DirectedAlike (S : Simulation x x') (special : Node → Node → Prop) :
    Directed → Directed → Prop
  | replaced (document : Node) : DirectedAlike S special (.replaced document) (.replaced document)
  | merged {es es' : Entries} (h : AlikeEntries S special es es') :
    DirectedAlike S special (.merged es) (.merged es')
  | unchanged : DirectedAlike S special .unchanged .unchanged

/-- Following a mixin matches in maps that are alike. -/
private lemma matches_mixIn {special : Node → Node → Prop} {es es' : Entries}
    (h : AlikeEntries S special es es') (reference : String) :
    S.Matches (DirectedAlike S special) (x.mixIn below f es reference)
      (x'.mixIn below' f' es' reference) := by
  have hrel := alikeEntries_iff.1 h
  have herase := hrel.eraseDirective .mixing
  unfold mixIn
  refine Matches.bind_eq (matches_loadDocument hf hbelow reference) fun document => ?_
  split
  · exact .pure (.merged (alikeEntries_iff.2 herase))
  · rename_i added
    refine Matches.bind_eq ?_ fun _ =>
      .pure (.merged (alikeEntries_iff.2 (herase.addMissing AlikeAt.refl added)))
    exact fun _ _ hs => ⟨(), _, rfl, rfl, S.merge hs⟩
  · exact .pure .unchanged

/-- Following the directives matches in maps that are alike. -/
private lemma matches_direct {special : Node → Node → Prop} (hspecial : Collections special)
    {es es' : Entries} (h : AlikeEntries S special es es') :
    S.Matches (DirectedAlike S special) (x.direct below f es) (x'.direct below' f' es') := by
  have hdirective := (alikeEntries_iff.1 h).directive?_eq (AlikeAt.text?_eq hspecial)
  unfold direct
  rw [hdirective .importing, hdirective .including, hdirective .mixing, S.supportsMixin_eq hf]
  split
  · exact Matches.bind_eq (matches_loadDocument hf hbelow _) fun document => .pure (.replaced _)
  · unfold loadText
    rw [S.target?_eq hf]
    exact Matches.bind_eq (fun _ _ => S.loadFile false _) fun text => .pure (.replaced _)
  · split
    · exact matches_mixIn hf hbelow h _
    · exact .pure .unchanged
  · exact .pure .unchanged

end Steps

/-! ## Documents in lockstep -/

/-- What the expansions of documents in other files do in lockstep, and those of maps into which
such documents were merged. -/
structure Below (S : Simulation x x') (special : String → Node → Node → Prop)
    (below below' : Expander.Below) : Prop where
  whole : ∀ f f' n, S.frame f f' → S.Matches Eq (below .whole f n) (below' .whole f' n)
  merged : ∀ f f' es es', S.frame f f' → AlikeEntries S (special f.path) es es' →
    S.Matches Eq (below .merged f (.map es)) (below' .merged f' (.map es'))

section Documents

variable {special : String → Node → Node → Prop} {below below' : Expander.Below}

mutual

/-- Documents that are alike are expanded in lockstep, if special nodes are.

**Proof sketch.** Induction on the likeness. What is looked up in a map before its values are
expanded is the same in two maps that are alike, so that the same directives are followed; the
special nodes are reached only where they are expanded themselves. -/
theorem matches_expandNode (hcollections : ∀ path, Collections (special path))
    (hbelow : S.Below special below below')
    (hspecial : ∀ f f' n n', S.frame f f' → special f.path n n' →
      S.Matches Eq (x.expandNode below .whole f n) (x'.expandNode below' .whole f' n')) :
    ∀ {f f' : Frame} {n n' : Node}, S.frame f f' → Alike S (special f.path) n n' →
      S.Matches Eq (x.expandNode below .whole f n) (x'.expandNode below' .whole f' n')
  | _, _, _, _, hf, .special h => hspecial _ _ _ _ hf h
  | _, _, _, _, hf, .scalar v => by
    rw [expandNode, expandNode]
    · exact Matches.bind_eq (matches_checkDepth hf) fun _ => .pure rfl
    all_goals nofun
  | _, _, _, _, hf, .set vs => by
    rw [expandNode, expandNode]
    · exact Matches.bind_eq (matches_checkDepth hf) fun _ => .pure rfl
    all_goals nofun
  | _, _, _, _, hf, .pair k v => by
    rw [expandNode, expandNode]
    · exact Matches.bind_eq (matches_checkDepth hf) fun _ => .pure rfl
    all_goals nofun
  | _, _, _, _, hf, .list h => by
    rw [expandNode, expandNode]
    refine Matches.bind_eq (matches_checkDepth hf) fun _ => ?_
    exact (matches_expandItems hcollections hbelow hspecial hf h).map _
  | f, _, .map es, .map es', hf, .map h hversion hfailure => by
    rw [expandNode, expandNode]
    refine Matches.bind_eq (matches_checkDepth hf) fun _ => ?_
    refine Matches.bind (matches_enter hf (hcollections _) h hversion hfailure) ?_
    rintro ⟨newId, g⟩ ⟨newId', g'⟩ ⟨rfl, hg, hpath⟩
    -- entering a map changes the version, so that special nodes are as special in it
    have h : AlikeEntries S (special g.path) es es' := hpath ▸ h
    refine Matches.bind (matches_direct hg hbelow.whole (hcollections _) (h.withId newId)) ?_
    rintro directed directed' hdirected
    cases hdirected with
    | replaced document => exact .pure rfl
    | merged hm => exact hbelow.merged g g' _ _ hg hm
    | unchanged =>
      dsimp only
      rw [h.importedRun?_eq, h.missing_eq]
      refine Matches.bind_eq
        (matches_expandEntries hcollections hbelow hspecial _ hg h) fun values => ?_
      split
      · exact (matches_expandRun hg hbelow.whole _).map _
      · refine Matches.bind_eq (matches_checkDepth hg) fun _ => ?_
        exact (matches_expandRun hg hbelow.whole _).map _

/-- The expansions of lists that are alike match. -/
theorem matches_expandItems (hcollections : ∀ path, Collections (special path))
    (hbelow : S.Below special below below')
    (hspecial : ∀ f f' n n', S.frame f f' → special f.path n n' →
      S.Matches Eq (x.expandNode below .whole f n) (x'.expandNode below' .whole f' n')) :
    ∀ {f f' : Frame} {ns ns' : List Node}, S.frame f f' → AlikeItems S (special f.path) ns ns' →
      S.Matches Eq (x.expandItems below f ns) (x'.expandItems below' f' ns')
  | _, _, _, _, _, .nil => .pure rfl
  | _, _, _, _, hf, .cons h hs => by
    rw [expandItems, expandItems]
    refine Matches.bind_eq (matches_expandNode hcollections hbelow hspecial hf h) fun item => ?_
    refine Matches.bind_eq (matches_expandItems hcollections hbelow hspecial hf hs) fun items => ?_
    exact .pure rfl

/-- The expansions of the values of maps that are alike match. -/
theorem matches_expandEntries (hcollections : ∀ path, Collections (special path))
    (hbelow : S.Below special below below')
    (hspecial : ∀ f f' n n', S.frame f f' → special f.path n n' →
      S.Matches Eq (x.expandNode below .whole f n) (x'.expandNode below' .whole f' n'))
    (r : Replacements) :
    ∀ {f f' : Frame} {es es' : Entries}, S.frame f f' → AlikeEntries S (special f.path) es es' →
      S.Matches Eq (x.expandEntries below f r es) (x'.expandEntries below' f' r es')
  | _, _, _, _, _, .nil => .pure rfl
  | _, _, _, _, hf, .cons k h _ hs => by
    rw [expandEntries_cons, expandEntries_cons]
    refine Matches.bind_eq ?_ fun value => ?_
    · unfold expandValue
      split
      · rw [seqRight_eq_bind, seqRight_eq_bind]
        exact Matches.bind_eq (matches_checkDepth hf) fun _ => .pure rfl
      · exact matches_expandNode hcollections hbelow hspecial hf h
    · refine Matches.bind_eq
        (matches_expandEntries hcollections hbelow hspecial r hf hs) fun entries => ?_
      exact .pure rfl

end

/-- Maps that are alike and whose directives were followed are expanded in lockstep. -/
private lemma matches_expandNode_merged (hcollections : ∀ path, Collections (special path))
    (hbelow : S.Below special below below')
    (hspecial : ∀ f f' n n', S.frame f f' → special f.path n n' →
      S.Matches Eq (x.expandNode below .whole f n) (x'.expandNode below' .whole f' n'))
    {f f' : Frame} {es es' : Entries} (hf : S.frame f f')
    (h : AlikeEntries S (special f.path) es es') :
    S.Matches Eq (x.expandNode below .merged f (.map es))
      (x'.expandNode below' .merged f' (.map es')) := by
  rw [expandNode, expandNode, h.importedRun?_eq]
  refine Matches.bind_eq
    (matches_expandEntries hcollections hbelow hspecial _ hf h) fun values => ?_
  exact (matches_expandRun hf hbelow.whole _).map _

/-- The special nodes are expanded in lockstep if the expansions of documents in other files are, at
this number of levels in the first expansion and at any greater number in the second one. -/
def Resolves (S : Simulation x x') (special : String → Node → Node → Prop) : Prop :=
  ∀ {levels levels'}, levels ≤ levels' →
    (∀ more, levels ≤ more → S.Below special (x.inner levels) (x'.inner more)) →
    ∀ f f' n n', S.frame f f' → special f.path n n' →
      S.Matches Eq (x.expandNode (x.inner levels) .whole f n)
        (x'.expandNode (x'.inner levels') .whole f' n')

/-- The expansions of documents in other files keep a simulation, even if the second expansion may
nest more of them. -/
lemma below_inner (hcollections : ∀ path, Collections (special path))
    (hspecial : S.Resolves special) :
    ∀ levels levels', levels ≤ levels' → S.Below special (x.inner levels) (x'.inner levels')
  | 0, _, _ => ⟨fun _ _ _ _ _ _ _ => .inl S.exhausted, fun _ _ _ _ _ _ _ _ _ => .inl S.exhausted⟩
  | levels + 1, 0, h => absurd h (Nat.not_succ_le_zero levels)
  | levels + 1, levels' + 1, h => by
    have hle := Nat.le_of_succ_le_succ h
    have ih := below_inner hcollections hspecial levels
    have hspecial' := hspecial hle ih
    constructor
    · intro f f' n hf
      show S.Matches Eq (x.expandWithin levels .whole f n) (x'.expandWithin levels' .whole f' n)
      rw [expandWithin_eq, expandWithin_eq]
      exact matches_expandNode hcollections (ih levels' hle) hspecial' hf (Alike.refl n)
    · intro f f' es es' hf hes
      show S.Matches Eq (x.expandWithin levels .merged f _) (x'.expandWithin levels' .merged f' _)
      rw [expandWithin_eq, expandWithin_eq]
      exact matches_expandNode_merged hcollections (ih levels' hle) hspecial' hf hes

variable (special) in
/-- **Documents that are alike have the same expansion**, and the second expansion may nest more
documents than the first one.

**Proof sketch.** Induction on the number of levels, and for each number on the likeness of the
documents. At special nodes, whatever is known about fewer levels may be used. -/
theorem expandWithin_matches (hcollections : ∀ path, Collections (special path))
    (hspecial : S.Resolves special) {levels levels' : Nat} (h : levels ≤ levels') {f f' : Frame}
    {n n' : Node} (hf : S.frame f f') (hn : Alike S (special f.path) n n') :
    S.Matches Eq (x.expandWithin levels .whole f n) (x'.expandWithin levels' .whole f' n') := by
  rw [expandWithin_eq, expandWithin_eq]
  have hbelow := below_inner hcollections hspecial levels
  exact matches_expandNode hcollections (hbelow levels' h) (hspecial h hbelow) hf hn

end Documents

end Simulation

end CwlDescriptor

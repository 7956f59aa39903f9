import CwlDescriptor.Proofs.Computation
import CwlDescriptor.Proofs.Entries
import CwlDescriptor.Proofs.Shown
set_option autoImplicit false

/-!
# Why an expansion fails

There are three reasons for which an expansion fails: a limit is exceeded, a file cannot be read, or
the version of an entry cannot be shown since it holds an integer of too many digits. The last one
needs a document that cannot be shown as a whole, at the root or in a file: expanded documents are
made of nothing but parts of these, of texts, and of empty maps.

## Main definitions

* `Failure.IsLimit`: a failure that is due to a limit.
* `Node.Legible`, `Expander.Legible`: a document, or every document of the files, can be shown.
* `Expander.FailsBy`: the reasons for which an expansion fails.

## Main results

* `expandWithin_explained`: an expansion fails for no other reason, and if all documents can be
  shown then so can the expanded one.
-/

namespace CwlDescriptor

open Expansion Expander

/-- A limit was exceeded. -/
def Failure.IsLimit : Failure → Prop
  | .refused refusal => refusal.cause.kind = .recursionLimitExceeded
  | .fault _ => False
  | .exhausted => False

/-! ## Documents that can be shown -/

/-- A document can be shown, also inside others: it holds no integer of too many digits. -/
def Node.Legible (n : Node) : Prop :=
  n.quoted?.isSome

/-- All keys and values of a map can be shown. -/
def Entries.Legible (es : Entries) : Prop :=
  ∀ e ∈ es, e.1.quoted?.isSome ∧ e.2.Legible

/-- What the directives of a map make of it can be shown. -/
def Expander.Directed.Legible : Directed → Prop
  | .replaced document => document.Legible
  | .merged entries => entries.Legible
  | .unchanged => True

/-- Every document that is read from a file can be shown. -/
def Expander.Legible (x : Expander) : Prop :=
  ∀ path text document, x.store.get? path = some text → x.read text (some path) = .ok document →
    document.Legible

namespace Node

/-- A list can be shown if all its items can. -/
lemma legible_list {items : List Node} : (list items).Legible ↔ ∀ item ∈ items, item.Legible :=
  quoted?_list_isSome

/-- A map can be shown if all its keys and values can. -/
lemma legible_map {es : Entries} : (map es).Legible ↔ es.Legible :=
  quoted?_map_isSome

/-- A text can be shown. -/
private lemma legible_str (text : String) : (str text).Legible := rfl

/-- A document that can be shown inside others can be shown on its own. -/
lemma Legible.shown_ne_error {n : Node} (h : n.Legible) (e : Failure) : n.shown ≠ .error e := by
  have hshown : n.shown?.isSome := by
    cases n with
    | scalar value =>
      cases value with
      | str | date | time => rfl
      | _ => exact h
    | list _ | map _ | set _ | pair _ _ => exact h
  unfold shown
  cases htext : n.shown? with
  | some text => nofun
  | none =>
    rw [htext] at hshown
    cases hshown

/-- Only too many digits keep a document from being shown. -/
lemma shown_eq_error {n : Node} {e : Failure} (h : n.shown = .error e) :
    e = .fault .tooManyDigits := by
  unfold shown at h
  split at h
  · cases h
  · cases h
    rfl

end Node

namespace Entries

variable {es added : Entries}

/-- The value at a key of a map that can be shown can be shown. -/
lemma Legible.get? (h : es.Legible) {name : String} {v : Node} (hv : es.get? name = some v) :
    v.Legible := by
  induction es with
  | nil => cases hv
  | cons e es ih =>
    obtain ⟨k, w⟩ := e
    obtain ⟨he, hes⟩ := List.forall_mem_cons.1 h
    unfold Entries.get? at hv
    split at hv
    · cases hv
      exact he.2
    · exact ih hes hv

/-- So can the value at a key, or null if there is none. -/
lemma Legible.field (h : es.Legible) (name : String) : (es.field name).Legible := by
  unfold Entries.field
  cases hv : es.get? name with
  | none => rfl
  | some v => exact h.get? hv

/-- A map can still be shown when a value that can be shown is set. -/
lemma Legible.set (h : es.Legible) (name : String) {v : Node} (hv : v.Legible) :
    (es.set name v).Legible := by
  unfold Entries.set
  induction es with
  | nil => exact List.forall_mem_singleton.2 ⟨rfl, hv⟩
  | cons e es ih =>
    obtain ⟨k, w⟩ := e
    obtain ⟨he, hes⟩ := List.forall_mem_cons.1 h
    unfold insert
    split
    · exact List.forall_mem_cons.2 ⟨⟨he.1, hv⟩, hes⟩
    · exact List.forall_mem_cons.2 ⟨he, ih hes⟩

/-- A map can still be shown with a new id. -/
lemma Legible.withId (h : es.Legible) (newId : Option String) :
    (Expander.withId es newId).Legible := by
  cases newId with
  | none => exact h
  | some id => exact h.set "id" (Node.legible_str id)

/-- Two maps that can be shown can be shown together. -/
lemma Legible.append (h : es.Legible) (hadded : added.Legible) : Entries.Legible (es ++ added) :=
  List.forall_mem_append.2 ⟨h, hadded⟩

/-- A map can still be shown when missing entries that can be shown are added. -/
lemma Legible.addMissing (h : es.Legible) (hadded : added.Legible) :
    (es.addMissing added).Legible := by
  induction added generalizing es with
  | nil => exact h
  | cons e added ih =>
    obtain ⟨k, v⟩ := e
    obtain ⟨he, hes⟩ := List.forall_mem_cons.1 hadded
    unfold Entries.addMissing
    split
    · exact ih h hes
    · exact ih (h.append (List.forall_mem_singleton.2 he)) hes

/-- A map can still be shown when a directive is erased. -/
lemma Legible.eraseDirective (h : es.Legible) (kind : DirectiveKind) :
    (es.eraseDirective kind).Legible :=
  fun e he => h e ((eraseDirective_sublist es kind).subset he)

/-- The entry for a new id can be shown. -/
private lemma legible_missing (r : Replacements) (es : Entries) :
    Entries.Legible (r.missing es) := by
  unfold Replacements.missing
  split
  · exact List.forall_mem_singleton.2 ⟨rfl, Node.legible_str _⟩
  · exact fun _ => nofun

end Entries

/-! ## The reasons for which computations fail -/

/-- The reasons for which an expansion fails. The last one but one needs a document that cannot be
shown; `legible` says that there is none. -/
inductive Expander.FailsBy (x : Expander) (legible : Prop) : Failure → Prop
  | limit {e : Failure} (h : e.IsLimit) : FailsBy x legible e
  | unreadable {path text : String} {e : Failure} (hget : x.store.get? path = some text)
    (hread : x.read text (some path) = .error e) : FailsBy x legible e
  | version (h : ¬ legible) : FailsBy x legible (.fault .tooManyDigits)
  | exhausted : FailsBy x legible .exhausted

/-- A computation fails for one of the reasons only, and its result is as `P` says. -/
def Expander.Explains {α : Type} (x : Expander) (legible : Prop) (m : Expansion α)
    (P : α → Prop) : Prop :=
  ∀ s, m.Ensures s (fun a _ => P a) (fun e _ => x.FailsBy legible e)

namespace Expander.Explains

variable {x : Expander} {legible : Prop} {α β : Type}

/-- A result that is there already needs no reason. -/
lemma pure {P : α → Prop} {a : α} (h : P a) : x.Explains legible (Pure.pure a) P :=
  fun _ => h

/-- The failures of a sequence are explained if those of both parts are. -/
lemma bind {m : Expansion α} {f : α → Expansion β} {P : α → Prop} {Q : β → Prop}
    (hm : x.Explains legible m P) (hf : ∀ a, P a → x.Explains legible (f a) Q) :
    x.Explains legible (m >>= f) Q :=
  fun s => Ensures.bind (hm s) fun a t ha => hf a ha t

/-- The failures of a function of a result are explained if those of the computation are. -/
lemma map {m : Expansion α} {g : α → β} {P : α → Prop} {Q : β → Prop}
    (hm : x.Explains legible m P) (hg : ∀ a, P a → Q (g a)) :
    x.Explains legible (g <$> m) Q := by
  rw [map_eq_pure_bind]
  exact hm.bind fun a ha => .pure (hg a ha)

/-! ### The steps of an expansion -/

/-- A change of the state has no failures. -/
lemma modify (f : ExpansionState → ExpansionState) :
    x.Explains legible (modify f) fun _ => True :=
  fun _ => Ensures.of_ok rfl trivial

/-- An exceeded limit explains itself. -/
lemma exceed (limit : Limit) (path : Option String) :
    x.Explains legible (x.exceed limit path) fun _ => True := by
  intro s
  unfold Expander.exceed
  split
  · exact .of_error rfl (.limit rfl)
  · exact .of_ok rfl trivial

/-- The failures of the check of the depth are explained. -/
lemma checkDepth (frame : Frame) : x.Explains legible (x.checkDepth frame) fun _ => True := by
  unfold Expander.checkDepth
  split
  · exact exceed _ _
  · exact .pure trivial

/-- The failures of the check of a counter are explained. -/
lemma checkCount (limit : Limit) (count : ExpansionState → Nat) (path : Option String) :
    x.Explains legible (x.checkCount limit count path) fun _ => True := by
  intro s
  show Ensures (if x.limits.bound limit < count s then x.exceed limit path else Pure.pure ()) s _ _
  split
  · exact exceed _ _ s
  · exact Ensures.of_ok rfl trivial

/-- Asking for a file fails only by exceeding a limit. -/
lemma loadFile (asDocument : Bool) (path : Option String) :
    x.Explains legible (x.loadFile asDocument path) fun content? =>
      content? = path.bind x.store.get? := by
  unfold Expander.loadFile
  refine (modify _).bind fun _ _ => (checkCount _ _ _).bind fun _ _ => ?_
  cases path.bind x.store.get? with
  | none => exact .pure rfl
  | some content =>
    exact (modify _).bind fun _ _ => (checkCount _ _ _).bind fun _ _ => .pure rfl

/-- The version of an entry is all that must be shown to enter a map. -/
lemma enter (frame : Frame) {es : Entries} (hes : legible → es.Legible) :
    x.Explains legible (x.enter frame es) fun _ => True := by
  cases hclass : es.entryClass? with
  | none => exact fun s => .of_ok (enter_of_none hclass) trivial
  | some entryClass =>
    rw [enter_of_isSome (by rw [hclass]; rfl)]
    have hclaim : x.Explains legible (x.claimId es frame.path) fun _ => True := by
      intro s
      rcases claimId_cases x es frame.path s with ⟨id, -, -, h⟩ | ⟨-, h⟩
      · exact .of_ok h trivial
      · exact .of_ok h trivial
    refine hclaim.bind fun new _ => .bind (P := fun _ => True) ?_ fun _ _ => .pure trivial
    intro s
    unfold version?
    split
    · exact .of_ok rfl trivial
    · cases hversion : (es.field "cwlVersion").shown with
      | ok text => exact .of_ok rfl trivial
      | error e =>
        obtain rfl := Node.shown_eq_error hversion
        refine .of_error rfl (.version fun hl => ?_)
        exact ((hes hl).field "cwlVersion").shown_ne_error _ hversion

/-! ### Computations that follow references -/

section Below

variable {below : Below} (hstore : legible → x.Legible)
  (hbelow : ∀ stage frame n, (legible → n.Legible) →
    x.Explains legible (below stage frame n) fun r => legible → r.Legible)

include hstore hbelow

/-- The failures of loading a document are explained, and the document can be shown if the files
can. -/
lemma loadDocument (frame : Frame) (reference : String) :
    x.Explains legible (x.loadDocument below frame reference) fun document? =>
      ∀ document ∈ document?, legible → document.Legible := by
  unfold Expander.loadDocument
  refine (loadFile true _).bind fun content? hcontent => ?_
  split
  · next path text htarget =>
    have hget : x.store.get? path = some text := by
      rw [htarget] at hcontent
      exact hcontent.symm
    refine .bind (P := fun document => x.read text (some path) = .ok document) ?_ fun n hn => ?_
    · intro s
      cases hread : x.read text (some path) with
      | ok document => exact .of_ok rfl rfl
      | error e => exact .of_error rfl (.unreadable hget hread)
    · refine (hbelow _ _ n fun hl => hstore hl path text n hget hn).bind fun r hr => .pure ?_
      split
      · exact nofun
      · rintro document ⟨⟩
        exact hr
  · exact .pure nofun

/-- The failures of following the text at `run` are explained, and the map can still be shown. -/
lemma expandRun (frame : Frame) {es : Entries} (hes : legible → es.Legible) :
    x.Explains legible (x.expandRun below frame es) fun es' => legible → es'.Legible := by
  unfold Expander.expandRun
  split
  · exact .pure hes
  · refine (loadDocument hstore hbelow frame _).bind fun document? hdocument => ?_
    split
    · exact .pure hes
    · next document => exact .pure fun hl => (hes hl).set "run" (hdocument document rfl hl)

/-- The failures of following a mixin are explained, and what it makes of the map can be shown. -/
lemma mixIn (frame : Frame) {es : Entries} (hes : legible → es.Legible) (reference : String) :
    x.Explains legible (x.mixIn below frame es reference) fun d => legible → d.Legible := by
  unfold Expander.mixIn
  refine (loadDocument hstore hbelow frame reference).bind fun document? hdocument => ?_
  split
  · exact .pure fun hl => (hes hl).eraseDirective .mixing
  · next added =>
    refine (modify _).bind fun _ _ => .pure fun hl => ?_
    have hadded : Entries.Legible added := Node.legible_map.1 (hdocument (.map added) rfl hl)
    exact ((hes hl).eraseDirective .mixing).addMissing hadded
  · exact .pure fun _ => trivial

/-- The failures of following the directives of a map are explained, and what they make of it can be
shown. -/
lemma direct (frame : Frame) {es : Entries} (hes : legible → es.Legible) :
    x.Explains legible (x.direct below frame es) fun d => legible → d.Legible := by
  unfold Expander.direct
  split
  · refine (loadDocument hstore hbelow frame _).bind fun document? hdocument => .pure fun hl => ?_
    cases document? with
    | none => exact Node.legible_map.2 fun _ => nofun
    | some document => exact hdocument document rfl hl
  · exact (loadFile false _).bind fun _ _ => .pure fun _ => Node.legible_str _
  · split
    · exact mixIn hstore hbelow frame hes _
    · exact .pure fun _ => trivial
  · exact .pure fun _ => trivial

end Below

variable {below : Below}

mutual

/-- **An expansion fails for no other reason**, if this is so for documents in other files.

**Proof sketch.** Induction on the document. Only the version of an entry is ever shown, and it is a
part of a document that is expanded; so it is enough that all these can be shown. -/
theorem expandNode (hstore : legible → x.Legible)
    (hbelow : ∀ stage frame n, (legible → n.Legible) →
      x.Explains legible (below stage frame n) fun r => legible → r.Legible)
    (stage : Stage) (frame : Frame) :
    ∀ n, (legible → n.Legible) →
      x.Explains legible (x.expandNode below stage frame n) fun r => legible → r.Legible
  | .map es, hn => by
    have hes : legible → Entries.Legible es := fun hl => Node.legible_map.1 (hn hl)
    have hmap (es' : Entries) (h : legible → es'.Legible) : legible → (Node.map es').Legible :=
      fun hl => Node.legible_map.2 (h hl)
    cases stage with
    | merged =>
      rw [Expander.expandNode]
      refine (expandEntries hstore hbelow frame _ es hes).bind fun values hvalues => ?_
      exact (expandRun hstore hbelow frame hvalues).map hmap
    | whole =>
      rw [Expander.expandNode]
      refine (checkDepth frame).bind fun _ _ => ?_
      refine (enter frame hes).bind fun ⟨newId, frame'⟩ _ => ?_
      refine (direct hstore hbelow frame' fun hl => (hes hl).withId newId).bind fun d hd => ?_
      cases d with
      | replaced document => exact .pure hd
      | merged entries => exact hbelow .merged frame' _ (hmap entries hd)
      | unchanged =>
        refine (expandEntries hstore hbelow frame' _ es hes).bind fun values hvalues => ?_
        split
        · exact (expandRun hstore hbelow frame' hvalues).map hmap
        · have hmissing := Entries.legible_missing ⟨newId, Entries.importedRun? es⟩ es
          refine (checkDepth frame').bind fun _ _ => ?_
          exact (expandRun hstore hbelow frame' fun hl => (hvalues hl).append hmissing).map hmap
  | .list items, hn => by
    rw [Expander.expandNode]
    refine (checkDepth frame).bind fun _ _ => ?_
    refine (expandItems hstore hbelow frame items fun hl => ?_).map fun items' h hl => ?_
    · exact Node.legible_list.1 (hn hl)
    · exact Node.legible_list.2 (h hl)
  | .scalar _, hn | .set _, hn | .pair .., hn => by
    rw [Expander.expandNode]
    · exact (checkDepth frame).bind fun _ _ => .pure hn
    all_goals nofun

/-- The failures of the expansion of a list are explained, and its items can be shown. -/
theorem expandItems (hstore : legible → x.Legible)
    (hbelow : ∀ stage frame n, (legible → n.Legible) →
      x.Explains legible (below stage frame n) fun r => legible → r.Legible) (frame : Frame) :
    ∀ items : List Node, (legible → ∀ item ∈ items, item.Legible) →
      x.Explains legible (x.expandItems below frame items) fun items' =>
        legible → ∀ item ∈ items', item.Legible
  | [], _ => by
    rw [Expander.expandItems]
    exact .pure fun _ _ => nofun
  | item :: items, hitems => by
    rw [Expander.expandItems]
    refine (expandNode hstore hbelow .whole frame item fun hl => ?_).bind fun item' hitem' => ?_
    · exact hitems hl item List.mem_cons_self
    refine (expandItems hstore hbelow frame items fun hl => ?_).bind fun items' hitems' => ?_
    · exact (List.forall_mem_cons.1 (hitems hl)).2
    · exact .pure fun hl => List.forall_mem_cons.2 ⟨hitem' hl, hitems' hl⟩

/-- The failures of the expansion of the values of a map are explained, and they can be shown. -/
theorem expandEntries (hstore : legible → x.Legible)
    (hbelow : ∀ stage frame n, (legible → n.Legible) →
      x.Explains legible (below stage frame n) fun r => legible → r.Legible) (frame : Frame)
    (replacements : Replacements) :
    ∀ es : Entries, (legible → es.Legible) →
      x.Explains legible (x.expandEntries below frame replacements es) fun es' =>
        legible → Entries.Legible es'
  | [], _ => by
    rw [Expander.expandEntries]
    exact .pure fun _ _ => nofun
  | (key, value) :: es, hes => by
    rw [expandEntries_cons]
    refine .bind (P := fun value' => legible → value'.Legible) ?_ fun value' hvalue' => ?_
    · unfold expandValue
      split
      · rw [seqRight_eq_bind]
        exact (checkDepth frame).bind fun _ _ => .pure fun _ => Node.legible_str _
      · exact expandNode hstore hbelow .whole frame value fun hl =>
          (hes hl (key, value) List.mem_cons_self).2
    refine (expandEntries hstore hbelow frame replacements es fun hl => ?_).bind fun es' hes' => ?_
    · exact (List.forall_mem_cons.1 (hes hl)).2
    · refine .pure fun hl => List.forall_mem_cons.2 ⟨⟨?_, hvalue' hl⟩, hes' hl⟩
      exact (hes hl (key, value) List.mem_cons_self).1

end

end Expander.Explains

/-- The expansions of documents in other files fail for no other reason. -/
private lemma inner_explained {x : Expander} {legible : Prop} (hstore : legible → x.Legible) :
    ∀ levels stage frame n, (legible → n.Legible) →
      x.Explains legible (x.inner levels stage frame n) fun r => legible → r.Legible
  | 0, _, _, _, _ => fun _ => .of_error rfl .exhausted
  | levels + 1, stage, frame, n, hn => by
    show x.Explains legible (x.expandWithin levels stage frame n) _
    rw [expandWithin_eq]
    exact Explains.expandNode hstore (inner_explained hstore levels) stage frame n hn

/-- **The reasons for which an expansion fails.** It fails since it exceeds a limit, since it cannot
read a file that it has found, since it has no levels left, or since the version of an entry cannot
be shown. If all documents of the files can be shown, and so can the document itself, then the last
one is no reason, and the expanded document can be shown as well. -/
theorem expandWithin_explained (x : Expander) (legible : Prop) (hstore : legible → x.Legible)
    (levels : Nat) (stage : Stage) (frame : Frame) (n : Node) (hn : legible → n.Legible) :
    x.Explains legible (x.expandWithin levels stage frame n) fun r => legible → r.Legible := by
  rw [expandWithin_eq]
  exact Explains.expandNode hstore (inner_explained hstore levels) stage frame n hn

end CwlDescriptor

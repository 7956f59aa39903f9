import CwlDescriptor.Proofs.Expansion.History
set_option autoImplicit false

/-!
# What one expansion does

An expansion of a document comes to its references in a certain order, each at a place and in a
state, and so it comes to the documents of other files. This is said step by step here, for an
expansion that need not have a result: a reference is pursued if all that stands before it has been
expanded. If the expansion has a result, then every reference that is pursued has been asked for.

## Main definitions

* `Pursuit`: a reference, with the place and the state in which it is followed.
* `Pursues`, with `PursuesItems`, `PursuesEntries` and `PursuesValues`: an expansion of a document,
  or of a part of it, comes to a reference, in this document and not in another file.
* `Opening`: a document, with the place and the state in which its expansion begins.
* `Expander.Opens`: an expansion comes to a document.
* `Expander.Reaches`: an expansion comes to a reference, in one of the documents that it opens.

## Main results

* `Expander.Opens.expands`: the documents that an expansion opens are expanded.
* `Expander.Reaches.request_mem`: the references that an expansion reaches are asked for.
-/

namespace CwlDescriptor

open Expansion Expander

/-! ## The references of one document -/

/-- A reference that is followed at a place and in a state, for the document of a file or for its
text only, with so many levels left. -/
structure Pursuit where
  reference : String
  frame : Frame
  asDocument : Bool
  levels : Nat
  state : ExpansionState

/-- What is asked for. -/
def Pursuit.request (p : Pursuit) : Request :=
  ⟨Reference.target? p.reference p.frame.path, p.asDocument⟩

/-- The directives of a map have a reference that is followed. -/
inductive PursuesDirective (levels : Nat) (frame : Frame) (es : Entries) (s : ExpansionState) :
    Pursuit → Prop
  | imported {reference : String} (himport : es.directive? .importing = some reference) :
    PursuesDirective levels frame es s ⟨reference, frame, true, levels, s⟩
  | included {reference : String} (himport : es.directive? .importing = none)
    (hinclude : es.directive? .including = some reference) :
    PursuesDirective levels frame es s ⟨reference, frame, false, levels, s⟩
  | mixin {reference : String} (hmixes : Mixes frame es reference) :
    PursuesDirective levels frame es s ⟨reference, frame, true, levels, s⟩

mutual

/-- The expansion of a document comes to a reference. -/
inductive Pursues (x : Expander) :
    Nat → Stage → Frame → Node → ExpansionState → Pursuit → Prop
  | list {levels : Nat} {stage : Stage} {frame : Frame} {items : List Node} {s s₁ : ExpansionState}
    {p : Pursuit} (hcheck : x.checkDepth frame s = .ok () s₁)
    (h : PursuesItems x levels frame items s₁ p) : Pursues x levels stage frame (.list items) s p
  | merged {levels : Nat} {frame : Frame} {es : Entries} {s : ExpansionState} {p : Pursuit}
    (h : PursuesValues x levels frame ⟨none, es.importedRun?⟩ es s p) :
    Pursues x levels .merged frame (.map es) s p
  | directive {levels : Nat} {frame frame' : Frame} {es : Entries} {newId : Option String}
    {s s₁ s₂ : ExpansionState} {p : Pursuit} (hcheck : x.checkDepth frame s = .ok () s₁)
    (henter : x.enter frame es s₁ = .ok (newId, frame') s₂)
    (h : PursuesDirective levels frame' (withId es newId) s₂ p) :
    Pursues x levels .whole frame (.map es) s p
  /-- A reference behind the mixin of a map. -/
  | mixed {levels : Nat} {frame frame' : Frame} {es entries : Entries} {newId : Option String}
    {s s₁ s₂ s₃ : ExpansionState} {p : Pursuit} (hcheck : x.checkDepth frame s = .ok () s₁)
    (henter : x.enter frame es s₁ = .ok (newId, frame') s₂)
    (hdirect : Directs x (levels + 1) frame' (withId es newId) s₂ (.merged entries) s₃)
    (h : Pursues x levels .merged frame' (.map entries) s₃ p) :
    Pursues x (levels + 1) .whole frame (.map es) s p
  /-- A reference in a map without directives that are followed. -/
  | unchanged {levels : Nat} {frame frame' : Frame} {es : Entries} {newId : Option String}
    {s s₁ s₂ s₃ : ExpansionState} {p : Pursuit} (hcheck : x.checkDepth frame s = .ok () s₁)
    (henter : x.enter frame es s₁ = .ok (newId, frame') s₂)
    (hdirect : Directs x levels frame' (withId es newId) s₂ .unchanged s₃)
    (h : PursuesValues x levels frame' ⟨newId, es.importedRun?⟩
      (es ++ Replacements.missing ⟨newId, es.importedRun?⟩ es) s₃ p) :
    Pursues x levels .whole frame (.map es) s p

/-- The expansion of the items of a list comes to a reference. -/
inductive PursuesItems (x : Expander) :
    Nat → Frame → List Node → ExpansionState → Pursuit → Prop
  | head {levels : Nat} {frame : Frame} {item : Node} {items : List Node} {s : ExpansionState}
    {p : Pursuit} (h : Pursues x levels .whole frame item s p) :
    PursuesItems x levels frame (item :: items) s p
  | tail {levels : Nat} {frame : Frame} {item item' : Node} {items : List Node}
    {s s₁ : ExpansionState} {p : Pursuit} (hitem : Expands x levels .whole frame item s item' s₁)
    (h : PursuesItems x levels frame items s₁ p) : PursuesItems x levels frame (item :: items) s p

/-- The expansion of the values of a map, without the text at `run`, comes to a reference. -/
inductive PursuesEntries (x : Expander) :
    Nat → Frame → Replacements → Entries → ExpansionState → Pursuit → Prop
  | head {levels : Nat} {frame : Frame} {r : Replacements} {k : Scalar} {v : Node} {es : Entries}
    {s : ExpansionState} {p : Pursuit} (htext : r.at? k = none)
    (h : Pursues x levels .whole frame v s p) : PursuesEntries x levels frame r ((k, v) :: es) s p
  | behindText {levels : Nat} {frame : Frame} {r : Replacements} {k : Scalar} {v : Node}
    {text : String} {es : Entries} {s s₁ : ExpansionState} {p : Pursuit}
    (htext : r.at? k = some text) (hcheck : x.checkDepth frame s = .ok () s₁)
    (h : PursuesEntries x levels frame r es s₁ p) :
    PursuesEntries x levels frame r ((k, v) :: es) s p
  | behindValue {levels : Nat} {frame : Frame} {r : Replacements} {k : Scalar} {v v' : Node}
    {es : Entries} {s s₁ : ExpansionState} {p : Pursuit} (htext : r.at? k = none)
    (hvalue : Expands x levels .whole frame v s v' s₁)
    (h : PursuesEntries x levels frame r es s₁ p) :
    PursuesEntries x levels frame r ((k, v) :: es) s p

/-- The expansion of the values of a map, and then of the text at `run`, comes to a reference. -/
inductive PursuesValues (x : Expander) :
    Nat → Frame → Replacements → Entries → ExpansionState → Pursuit → Prop
  | entries {levels : Nat} {frame : Frame} {r : Replacements} {es : Entries} {s : ExpansionState}
    {p : Pursuit} (h : PursuesEntries x levels frame r es s p) :
    PursuesValues x levels frame r es s p
  | run {levels : Nat} {frame : Frame} {r : Replacements} {es values : Entries}
    {s s₁ : ExpansionState} {reference : String}
    (hentries : ExpandsEntries x levels frame r es s values s₁)
    (hrun : (values.field "run").text? = some reference) :
    PursuesValues x levels frame r es s ⟨reference, frame, true, levels, s₁⟩

end

/-! ## The documents of one expansion -/

/-- A document at a place, of which the expansion begins in a state and with so many levels. -/
structure Opening where
  levels : Nat
  frame : Frame
  document : Node
  state : ExpansionState

/-- The expansion of a document comes to a reference in it. -/
def Opening.Pursues (o : Opening) (x : Expander) (p : Pursuit) : Prop :=
  CwlDescriptor.Pursues x o.levels .whole o.frame o.document o.state p

/-- An expansion that begins with a document comes to a document: it is the first one, or that of a
file that is found for a reference in a document before. -/
inductive Expander.Opens (x : Expander) (first : Opening) : Opening → Prop
  | first : Opens x first first
  | file {o : Opening} {reference path text : String} {frame : Frame} {document : Node}
    {levels : Nat} {s s₁ : ExpansionState} (hopens : Opens x first o)
    (hpursues : o.Pursues x ⟨reference, frame, true, levels + 1, s⟩)
    (htarget : Reference.target? reference frame.path = some path)
    (hload : x.loadFile true (some path) s = .ok (some text) s₁)
    (hread : x.read text (some path) = .ok document) :
    Opens x first ⟨levels, { frame with path := path, depth := frame.depth + 1 }, document, s₁⟩

/-- An expansion that begins with a document comes to a reference. -/
def Expander.Reaches (x : Expander) (first : Opening) (p : Pursuit) : Prop :=
  ∃ o, x.Opens first o ∧ o.Pursues x p

/-! ## Where references are pursued -/

section Places

variable {x : Expander}

mutual

/-- The references of a document are followed at its path. -/
theorem Pursues.path_eq : ∀ {levels : Nat} {stage : Stage} {frame : Frame} {n : Node}
    {s : ExpansionState} {p : Pursuit}, Pursues x levels stage frame n s p →
      p.frame.path = frame.path
  | _, _, _, _, _, _, .list _ h => h.path_eq
  | _, _, _, _, _, _, .merged h => h.path_eq
  | _, _, _, _, _, _, .directive _ henter h => by
    rw [← path_of_enter henter]
    cases h <;> rfl
  | _, _, _, _, _, _, .mixed _ henter _ h => h.path_eq.trans (path_of_enter henter)
  | _, _, _, _, _, _, .unchanged _ henter _ h => h.path_eq.trans (path_of_enter henter)

/-- The references of the items of a list are followed at the path of the list. -/
theorem PursuesItems.path_eq : ∀ {levels : Nat} {frame : Frame} {items : List Node}
    {s : ExpansionState} {p : Pursuit}, PursuesItems x levels frame items s p →
      p.frame.path = frame.path
  | _, _, _, _, _, .head h => h.path_eq
  | _, _, _, _, _, .tail _ h => h.path_eq

/-- The references of the values of a map are followed at the path of the map. -/
theorem PursuesEntries.path_eq : ∀ {levels : Nat} {frame : Frame} {r : Replacements}
    {es : Entries} {s : ExpansionState} {p : Pursuit}, PursuesEntries x levels frame r es s p →
      p.frame.path = frame.path
  | _, _, _, _, _, _, .head _ h => h.path_eq
  | _, _, _, _, _, _, .behindText _ _ h => h.path_eq
  | _, _, _, _, _, _, .behindValue _ _ h => h.path_eq

/-- The references of the values of a map and of the text at `run` are followed at its path. -/
theorem PursuesValues.path_eq : ∀ {levels : Nat} {frame : Frame} {r : Replacements}
    {es : Entries} {s : ExpansionState} {p : Pursuit}, PursuesValues x levels frame r es s p →
      p.frame.path = frame.path
  | _, _, _, _, _, _, .entries h => h.path_eq
  | _, _, _, _, _, _, .run _ _ => rfl

end

/-- A document that is opened is the first one, or that of a file of the store. -/
lemma Expander.Opens.eq_or_stored {first o : Opening} (h : x.Opens first o) :
    o = first ∨ ∃ content, x.store.get? o.frame.path = some content ∧
      x.read content (some o.frame.path) = .ok o.document := by
  cases h with
  | first => exact .inl rfl
  | file _ _ _ hload hread => exact .inr ⟨_, (loadFile_eq_ok hload).1.symm, hread⟩

end Places

/-! ## What is pursued is asked for -/

section Answers

variable {x : Expander} {levels : Nat} {frame : Frame} {s t u : ExpansionState} {p : Pursuit}

/-- A reference that is pursued was followed before the state `t`. -/
inductive Pursuit.Answered (x : Expander) (p : Pursuit) (t : ExpansionState) : Prop
  | document {document : Option Node} {u : ExpansionState} (hdocument : p.asDocument = true)
    (hload : Loads x p.levels p.frame p.reference p.state document u) (hlater : Later u t)
  | text {text : Option String} {u : ExpansionState} (hdocument : p.asDocument = false)
    (hload : x.loadText p.frame p.reference p.state = .ok text u) (hlater : Later u t)

/-- What was followed before a state was followed before all later states. -/
lemma Pursuit.Answered.mono (h : p.Answered x t) (hlater : Later t u) : p.Answered x u := by
  cases h with
  | document hdocument hload h => exact .document hdocument hload (h.trans hlater)
  | text hdocument hload h => exact .text hdocument hload (h.trans hlater)

/-- Loading a document asks for its file before all else. -/
lemma Loads.request_mem {reference : String} {document : Option Node}
    (h : Loads x levels frame reference s document t) :
    ⟨Reference.target? reference frame.path, true⟩ ∈ t.requests := by
  cases h with
  | absent hload =>
    obtain ⟨-, ws, rfl⟩ := loadFile_eq_ok hload
    exact List.mem_append_right _ List.mem_cons_self
  | found htarget hload _ hexpand =>
    refine hexpand.later.requests.subset ?_
    obtain ⟨-, ws, rfl⟩ := loadFile_eq_ok hload
    rw [htarget]
    exact List.mem_append_right _ List.mem_cons_self

/-- What was followed was asked for. -/
lemma Pursuit.Answered.request_mem (h : p.Answered x t) : p.request ∈ t.requests := by
  unfold request
  cases h with
  | document hdocument hload hlater =>
    rw [hdocument]
    exact hlater.requests.subset hload.request_mem
  | text hdocument hload hlater =>
    rw [hdocument]
    refine hlater.requests.subset ?_
    obtain ⟨-, ws, rfl⟩ := loadFile_eq_ok hload
    exact List.mem_append_right _ List.mem_cons_self

/-- The directives of a map are followed. -/
private lemma PursuesDirective.answered {es : Entries} {directed : Directed}
    (h : PursuesDirective levels frame es s p) (hdirect : Directs x levels frame es s directed t) :
    p.Answered x t := by
  cases h with
  | imported himport =>
    cases hdirect with
    | imported himport' hload =>
      cases himport.symm.trans himport'
      exact .document rfl hload (.refl _)
    | included himport' => cases himport.symm.trans himport'
    | mixedAbsent hmixes | mixedMap hmixes | mixedOther hmixes =>
      cases himport.symm.trans hmixes.importing
    | inert hinert => cases himport.symm.trans hinert.importing
  | included himport hinclude =>
    cases hdirect with
    | imported himport' => cases himport.symm.trans himport'
    | included _ hinclude' hload =>
      cases hinclude.symm.trans hinclude'
      exact .text rfl hload (.refl _)
    | mixedAbsent hmixes | mixedMap hmixes | mixedOther hmixes =>
      cases hinclude.symm.trans hmixes.including
    | inert hinert => cases hinclude.symm.trans hinert.including
  | mixin hmixes =>
    cases hdirect with
    | imported himport => cases himport.symm.trans hmixes.importing
    | included _ hinclude => cases hinclude.symm.trans hmixes.including
    | mixedAbsent hmixes' hload | mixedOther hmixes' _ hload =>
      cases hmixes.mixing.symm.trans hmixes'.mixing
      exact .document rfl hload (.refl _)
    | mixedMap hmixes' hload =>
      cases hmixes.mixing.symm.trans hmixes'.mixing
      exact .document rfl hload ((Contract.history x).merge _)
    | inert hinert =>
      rcases hinert.mixing with hmixing | hversion
      · cases hmixes.mixing.symm.trans hmixing
      · cases hmixes.version.symm.trans hversion

mutual

/-- **The references that an expansion comes to are followed**, if it has a result.

**Proof sketch.** Induction on the way to the reference. The expansion with a result takes the same
way, since every step before has only one outcome. -/
theorem Pursues.answered : ∀ {levels : Nat} {stage : Stage} {frame : Frame} {n r : Node}
    {s t : ExpansionState} {p : Pursuit}, Pursues x levels stage frame n s p →
      Expands x levels stage frame n s r t → p.Answered x t
  | _, _, _, _, _, _, _, _, .list hcheck h, hexpands => by
    cases hexpands with
    | leaf hleaf => cases hleaf
    | list hcheck' hitems =>
      cases hcheck.symm.trans hcheck'
      exact h.answered hitems
  | _, _, _, _, _, _, _, _, .merged h, hexpands => by
    cases hexpands with
    | leaf hleaf => cases hleaf
    | merged hentries hrun => exact h.answered hentries hrun
  | _, _, _, _, _, _, _, _, .directive hcheck henter h, hexpands => by
    cases hexpands with
    | leaf hleaf => cases hleaf
    | replaced hcheck' henter' hdirect =>
      cases hcheck.symm.trans hcheck'
      cases henter.symm.trans henter'
      exact h.answered hdirect
    | mixed hcheck' henter' hdirect hrest =>
      cases hcheck.symm.trans hcheck'
      cases henter.symm.trans henter'
      exact (h.answered hdirect).mono hrest.later
    | unchanged hcheck' henter' hdirect hentries hrun =>
      cases hcheck.symm.trans hcheck'
      cases henter.symm.trans henter'
      exact ((h.answered hdirect).mono hentries.later).mono hrun.later
  | _, _, _, _, _, _, _, _, .mixed hcheck henter hdirect h, hexpands => by
    cases hexpands with
    | leaf hleaf => cases hleaf
    | replaced hcheck' henter' hdirect' | unchanged hcheck' henter' hdirect' =>
      cases hcheck.symm.trans hcheck'
      cases henter.symm.trans henter'
      cases hdirect.ok.symm.trans hdirect'.ok
    | mixed hcheck' henter' hdirect' hrest =>
      cases hcheck.symm.trans hcheck'
      cases henter.symm.trans henter'
      cases hdirect.ok.symm.trans hdirect'.ok
      exact h.answered hrest
  | _, _, _, _, _, _, _, _, .unchanged hcheck henter hdirect h, hexpands => by
    cases hexpands with
    | leaf hleaf => cases hleaf
    | replaced hcheck' henter' hdirect' | mixed hcheck' henter' hdirect' =>
      cases hcheck.symm.trans hcheck'
      cases henter.symm.trans henter'
      cases hdirect.ok.symm.trans hdirect'.ok
    | unchanged hcheck' henter' hdirect' hentries hrun =>
      cases hcheck.symm.trans hcheck'
      cases henter.symm.trans henter'
      cases hdirect.ok.symm.trans hdirect'.ok
      exact h.answered hentries hrun

/-- The references that the expansion of the items of a list comes to are followed. -/
theorem PursuesItems.answered : ∀ {levels : Nat} {frame : Frame} {items items' : List Node}
    {s t : ExpansionState} {p : Pursuit}, PursuesItems x levels frame items s p →
      ExpandsItems x levels frame items s items' t → p.Answered x t
  | _, _, _, _, _, _, _, .head h, .cons hitem hitems => (h.answered hitem).mono hitems.later
  | _, _, _, _, _, _, _, .tail hitem h, .cons hitem' hitems => by
    cases hitem.ok.symm.trans hitem'.ok
    exact h.answered hitems

/-- The references that the expansion of the values of a map comes to are followed. -/
theorem PursuesEntries.answered : ∀ {levels : Nat} {frame : Frame} {r : Replacements}
    {es es' : Entries} {s t : ExpansionState} {p : Pursuit},
      PursuesEntries x levels frame r es s p → ExpandsEntries x levels frame r es s es' t →
        p.Answered x t
  | _, _, _, _, _, _, _, _, .head htext h, hexpands => by
    cases hexpands with
    | text htext' => cases htext.symm.trans htext'
    | value _ hvalue hentries => exact (h.answered hvalue).mono hentries.later
  | _, _, _, _, _, _, _, _, .behindText htext hcheck h, hexpands => by
    cases hexpands with
    | value htext' => cases htext.symm.trans htext'
    | text _ hcheck' hentries =>
      cases hcheck.symm.trans hcheck'
      exact h.answered hentries
  | _, _, _, _, _, _, _, _, .behindValue htext hvalue h, hexpands => by
    cases hexpands with
    | text htext' => cases htext.symm.trans htext'
    | value _ hvalue' hentries =>
      cases hvalue.ok.symm.trans hvalue'.ok
      exact h.answered hentries

/-- The references that the expansion of the values of a map and of the text at `run` comes to are
followed. -/
theorem PursuesValues.answered : ∀ {levels : Nat} {frame : Frame} {r : Replacements}
    {es values es' : Entries} {s s₁ t : ExpansionState} {p : Pursuit},
      PursuesValues x levels frame r es s p → ExpandsEntries x levels frame r es s values s₁ →
        ExpandsRun x levels frame values s₁ es' t → p.Answered x t
  | _, _, _, _, _, _, _, _, _, _, .entries h, hentries, hexpands =>
    (h.answered hentries).mono hexpands.later
  | _, _, _, _, _, _, _, _, _, _, .run hentries' hrun, hentries, hexpands => by
    cases hentries'.ok.symm.trans hentries.ok
    cases hexpands with
    | none hrun' => cases hrun.symm.trans hrun'
    | absent hrun' hload | loaded hrun' hload =>
      cases hrun.symm.trans hrun'
      exact .document rfl hload (.refl _)

end

variable {first o : Opening} {r : Node}

/-- **The documents that an expansion opens are expanded**, if it has a result. -/
theorem Expander.Opens.expands (h : x.Opens first o)
    (hexpands : Expands x first.levels .whole first.frame first.document first.state r t) :
    ∃ r' u, Expands x o.levels .whole o.frame o.document o.state r' u ∧ Later u t := by
  induction h with
  | first => exact ⟨r, t, hexpands, .refl _⟩
  | file _ hpursues htarget hload hread ih =>
    obtain ⟨r', u, ho, hlater⟩ := ih
    cases Pursues.answered hpursues ho with
    | text hdocument => cases hdocument
    | document _ hloads hu =>
      cases hloads with
      | absent hload' =>
        rw [htarget, hload] at hload'
        cases hload'
      | found htarget' hload' hread' hexpand =>
        cases htarget.symm.trans htarget'
        cases hload.symm.trans hload'
        cases hread.symm.trans hread'
        exact ⟨_, _, hexpand, hu.trans hlater⟩

/-- **The references that an expansion reaches are asked for**, if it has a result. -/
theorem Expander.Reaches.request_mem (h : x.Reaches first p)
    (hexpands : Expands x first.levels .whole first.frame first.document first.state r t) :
    p.request ∈ t.requests := by
  obtain ⟨o, hopens, hpursues⟩ := h
  obtain ⟨r', u, ho, hlater⟩ := hopens.expands hexpands
  exact ((Pursues.answered hpursues ho).mono hlater).request_mem

end Answers

end CwlDescriptor

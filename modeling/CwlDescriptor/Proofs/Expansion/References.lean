import CwlDescriptor.Imports
import CwlDescriptor.Proofs.Expansion.Kept
import CwlDescriptor.Proofs.Expansion.Pursuits
import CwlDescriptor.Proofs.Expansion.Settled
import CwlDescriptor.Proofs.Mixins
set_option autoImplicit false

/-!
# The references that an expansion follows

An expansion follows references in documents that have been changed meanwhile. It brings about
references that are not written in a document in two ways: a file that is included as the value of
`run` stands there as a text, which is then followed; and the values that a map gets from a mixin
are expanded once more, now at the place of the map. All other references that an expansion follows
are written in the document in which it follows them. A set of files into which all these references
lead holds all files that an expansion finds.

## Main definitions

* `Expander.StandsFor`: the reference that a value of `run` stands for.
* `Expander.Follows`, `Expander.FollowsValues`: the references that an expansion may follow in a
  document or in the values of a map.
* `Expander.BringsAbout`: those of them that are not written in the document.
* `Expander.Leads`: a reference leads to known files only.
* `Expander.Covers`: all files that were found between two states are known.

## Main results

* `Pursues.follows`: the references that an expansion comes to are among those that it may follow.
* `Expander.Follows.written_or_broughtAbout`: these are written in the document or brought about.
* `Expands.covers`: an expansion finds known files only.
-/

namespace CwlDescriptor

open Expansion Expander

/-! ## The references that an expansion follows -/

/-- The text of an included file, which is empty if there is no such file. -/
def Expander.includedText (x : Expander) (path reference : String) : String :=
  ((Reference.target? reference path).bind x.store.get?).getD ""

/-- A value of `run` stands for a reference: it is this text, or an import of it, or an include of a
file with this text. -/
inductive Expander.StandsFor (x : Expander) (path : String) : Node → String → Prop
  | text {v : Node} {reference : String} (htext : v.text? = some reference) :
    StandsFor x path v reference
  | imported {vs : Entries} {reference : String}
    (himport : vs.directive? .importing = some reference) : StandsFor x path (.map vs) reference
  | included {vs : Entries} {reference : String} (himport : vs.directive? .importing = none)
    (hinclude : vs.directive? .including = some reference) :
    StandsFor x path (.map vs) (x.includedText path reference)

section Relations

-- The expansion follows the mixins in `pursued`.
variable (x : Expander) (pursued : Pursuit → Prop)

mutual

/-- An expansion of a document at a place may follow a reference there, and not only in another
file. The mixins that it follows are given. -/
inductive Expander.Follows : Frame → Node → String → Prop
  | item {frame : Frame} {items : List Node} {item : Node} {reference : String}
    (hmem : item ∈ items) (h : Follows frame item reference) :
    Follows frame (.list items) reference
  | imported {frame : Frame} {es : Entries} {reference : String}
    (himport : es.directive? .importing = some reference) : Follows frame (.map es) reference
  | included {frame : Frame} {es : Entries} {reference : String}
    (himport : es.directive? .importing = none)
    (hinclude : es.directive? .including = some reference) : Follows frame (.map es) reference
  | mixin {frame frame' : Frame} {es : Entries} {reference : String}
    (hinside : frame.inside es = .ok frame') (hmixes : Mixes frame' es reference) :
    Follows frame (.map es) reference
  /-- A reference in the values of a map that is replaced by no file. -/
  | own {frame frame' : Frame} {es : Entries} {reference : String}
    (himport : es.directive? .importing = none) (hinclude : es.directive? .including = none)
    (hinside : frame.inside es = .ok frame') (h : FollowsValues frame' es reference) :
    Follows frame (.map es) reference
  /-- A reference in the values that a map gets from a mixin. -/
  | added {frame frame' : Frame} {es added : Entries} {newId : Option String}
    {mixin reference : String} {levels : Nat} {s s₁ t : ExpansionState}
    (henter : x.enter frame es s = .ok (newId, frame') s₁) (hmixes : Mixes frame' es mixin)
    (hpursued : pursued ⟨mixin, frame', true, levels, s₁⟩)
    (hload : Loads x levels frame' mixin s₁ (some (.map added)) t)
    (h : FollowsValues frame' ((ownEntries es newId).lacking added) reference) :
    Follows frame (.map es) reference

/-- An expansion of the values of a map may follow a reference. -/
inductive Expander.FollowsValues : Frame → Entries → String → Prop
  | value {frame : Frame} {es : Entries} {k : Scalar} {v : Node} {reference : String}
    (hmem : (k, v) ∈ es) (h : Follows frame v reference) : FollowsValues frame es reference
  | run {frame : Frame} {es : Entries} {v : Node} {reference : String}
    (hmem : (.str "run", v) ∈ es) (htext : v.text? = some reference) :
    FollowsValues frame es reference
  /-- The text of a file that is included as the value of `run`. -/
  | runIncluded {frame : Frame} {es vs : Entries} {reference : String}
    (hmem : (.str "run", .map vs) ∈ es) (himport : vs.directive? .importing = none)
    (hinclude : vs.directive? .including = some reference) :
    FollowsValues frame es (x.includedText frame.path reference)

end

/-- An expansion of a document may follow a reference that is not written in the document: the text
of a file that is included as the value of `run`, or a reference in the values that a map gets from
a mixin. -/
inductive Expander.BringsAbout : Frame → Node → String → Prop
  | item {frame : Frame} {items : List Node} {item : Node} {reference : String}
    (hmem : item ∈ items) (h : BringsAbout frame item reference) :
    BringsAbout frame (.list items) reference
  | value {frame frame' : Frame} {es : Entries} {k : Scalar} {v : Node} {reference : String}
    (himport : es.directive? .importing = none) (hinclude : es.directive? .including = none)
    (hinside : frame.inside es = .ok frame') (hmem : (k, v) ∈ es)
    (h : BringsAbout frame' v reference) : BringsAbout frame (.map es) reference
  | runIncluded {frame : Frame} {es vs : Entries} {reference : String}
    (himport : es.directive? .importing = none) (hinclude : es.directive? .including = none)
    (hmem : (.str "run", .map vs) ∈ es) (himport' : vs.directive? .importing = none)
    (hinclude' : vs.directive? .including = some reference) :
    BringsAbout frame (.map es) (x.includedText frame.path reference)
  | added {frame frame' : Frame} {es added : Entries} {newId : Option String}
    {mixin reference : String} {levels : Nat} {s s₁ t : ExpansionState}
    (henter : x.enter frame es s = .ok (newId, frame') s₁) (hmixes : Mixes frame' es mixin)
    (hpursued : pursued ⟨mixin, frame', true, levels, s₁⟩)
    (hload : Loads x levels frame' mixin s₁ (some (.map added)) t)
    (h : FollowsValues x pursued frame' ((ownEntries es newId).lacking added) reference) :
    BringsAbout frame (.map es) reference

end Relations

/-! ### What is written in a document -/

section Written

/-- A key with a reference has this text as its value. -/
private lemma reference?_eq_some {k : Scalar} {v : Node} {reference : String}
    (h : reference? (k, v) = some reference) : v = .str reference := by
  unfold reference? at h
  split at h
  · next key value heq =>
    cases heq
    split at h
    · cases h
      rfl
    · cases h
  · cases h

/-- A text at a key of references is written in the map. -/
private lemma Node.mem_referencesEntries_of_key {es : Entries} {key : String} {v : Node}
    {reference : String} (hmem : (.str key, v) ∈ es) (hkey : lowerText key ∈ referenceKeys)
    (htext : v.text? = some reference) : reference ∈ referencesEntries es := by
  have hreference : reference? (.str key, v) = some reference := by
    cases v with
    | scalar value =>
      cases value <;> cases htext
      simp [reference?, hkey]
    | list _ | map _ | set _ | pair _ _ => cases htext
  induction es with
  | nil => cases hmem
  | cons e es ih =>
    obtain ⟨k, w⟩ := e
    unfold referencesEntries
    rcases List.mem_cons.1 hmem with heq | hbehind
    · cases heq
      rw [hreference]
      exact List.mem_cons_self
    · split
      · exact List.mem_cons_of_mem _ (ih hbehind)
      · exact List.mem_append_right _ (ih hbehind)

/-- What is written in a value is written in the map. -/
private lemma Node.mem_referencesEntries_of_value {es : Entries} {k : Scalar} {v : Node}
    {reference : String} (hmem : (k, v) ∈ es) (h : reference ∈ v.references) :
    reference ∈ referencesEntries es := by
  have hnone : reference? (k, v) = none := by
    cases hr : reference? (k, v) with
    | none => rfl
    | some _ =>
      rw [reference?_eq_some hr] at h
      cases h
  induction es with
  | nil => cases hmem
  | cons e es ih =>
    obtain ⟨k', w⟩ := e
    unfold referencesEntries
    rcases List.mem_cons.1 hmem with heq | hbehind
    · cases heq
      rw [hnone]
      exact List.mem_append_left _ h
    · split
      · exact List.mem_cons_of_mem _ (ih hbehind)
      · exact List.mem_append_right _ (ih hbehind)

/-- The references of an item are among those of the list. -/
private lemma Node.mem_referencesList {items : List Node} {item : Node} {reference : String}
    (hmem : item ∈ items) (h : reference ∈ item.references) :
    reference ∈ referencesList items := by
  induction items with
  | nil => cases hmem
  | cons n ns ih =>
    unfold referencesList
    rcases List.mem_cons.1 hmem with rfl | hbehind
    · exact List.mem_append_left _ h
    · exact List.mem_append_right _ (ih hbehind)

/-- The reference of a directive is written in the map. -/
private lemma Node.mem_references_of_directive {es : Entries} {kind : DirectiveKind}
    {reference : String} (h : es.directive? kind = some reference) :
    reference ∈ (map es).references := by
  unfold Entries.directive? Entries.directiveKey? at h
  cases hkey : es.keyAmong? kind.names with
  | none =>
    rw [hkey] at h
    cases h
  | some key =>
    rw [hkey] at h
    have hvalue : (es.get? key).bind Node.text? = some reference := h
    obtain ⟨v, hget, htext⟩ := Option.bind_eq_some_iff.1 hvalue
    refine mem_referencesEntries_of_key (Entries.mem_of_get? hget) ?_ htext
    have hname := Entries.lowerText_of_keyAmong? hkey
    unfold referenceKeys
    cases kind <;> simp [hname]

variable {x : Expander} {pursued : Pursuit → Prop}

mutual

/-- **The references that an expansion may follow are written in the document or brought about.** -/
theorem Expander.Follows.written_or_broughtAbout :
    ∀ {frame : Frame} {n : Node} {reference : String}, x.Follows pursued frame n reference →
      reference ∈ n.references ∨ x.BringsAbout pursued frame n reference
  | _, _, _, .item hmem h =>
    h.written_or_broughtAbout.imp (Node.mem_referencesList hmem) (.item hmem)
  | _, _, _, .imported himport => .inl (Node.mem_references_of_directive himport)
  | _, _, _, .included _ hinclude => .inl (Node.mem_references_of_directive hinclude)
  | _, _, _, .mixin _ hmixes => .inl (Node.mem_references_of_directive hmixes.mixing)
  | _, _, _, .own himport hinclude hinside h =>
    h.written_or_broughtAbout himport hinclude hinside
  | _, _, _, .added henter hmixes hpursued hload h => .inr (.added henter hmixes hpursued hload h)

/-- What is followed in the values of a map without an import or include is written in the map, or
is brought about. -/
theorem Expander.FollowsValues.written_or_broughtAbout :
    ∀ {frame frame' : Frame} {es : Entries} {reference : String},
      x.FollowsValues pursued frame' es reference → es.directive? .importing = none →
      es.directive? .including = none → frame.inside es = .ok frame' →
      reference ∈ (Node.map es).references ∨ x.BringsAbout pursued frame (.map es) reference
  | _, _, _, _, .value hmem h, himport, hinclude, hinside =>
    h.written_or_broughtAbout.imp (Node.mem_referencesEntries_of_value hmem)
      (.value himport hinclude hinside hmem)
  | _, _, _, _, .run hmem htext, _, _, _ =>
    .inl (Node.mem_referencesEntries_of_key hmem (by decide) htext)
  | frame, frame', es, _, .runIncluded hmem himport' hinclude', himport, hinclude, hinside => by
    rw [(Frame.path_of_inside hinside).1]
    exact .inr (.runIncluded himport hinclude hmem himport' hinclude')

end

end Written

/-! ## An expansion finds nothing but known files -/

/-- If there is a file at the path that a reference names, it is known. -/
def Expander.Leads (x : Expander) (known : String → Prop) (path reference : String) : Prop :=
  ∀ target, Reference.target? reference path = some target → (x.store.get? target).isSome →
    known target

/-- All files that were found between two states are known. -/
def Expander.Covers (x : Expander) (known : String → Prop) (s t : ExpansionState) : Prop :=
  ∃ requests, t.requests = s.requests ++ requests ∧
    ∀ request ∈ requests, ∀ path, request.path = some path → (x.store.get? path).isSome → known path

/-- The references that an expansion may follow in what is given to it: a document, or a map whose
directives were followed. -/
def Expander.FollowsFrom (x : Expander) (pursued : Pursuit → Prop) : Stage → Frame → Node →
    String → Prop
  | .merged, frame, .map es => x.FollowsValues pursued frame es
  | _, frame, n => x.Follows pursued frame n

section Steps

variable {x : Expander} {known : String → Prop} {pursued : Pursuit → Prop} {levels : Nat}
  {frame : Frame} {s t u : ExpansionState}

/-- Nothing is found without a request. -/
lemma Expander.Covers.of_eq (h : t.requests = s.requests) : x.Covers known s t :=
  ⟨[], by rw [h, List.append_nil], nofun⟩

/-- If two runs find known files only, so do both together. -/
lemma Expander.Covers.trans (h : x.Covers known s t) (h' : x.Covers known t u) :
    x.Covers known s u := by
  obtain ⟨rs, hrs, hknown⟩ := h
  obtain ⟨rs', hrs', hknown'⟩ := h'
  refine ⟨rs ++ rs', by rw [hrs', hrs, List.append_assoc], fun request hmem => ?_⟩
  rcases List.mem_append.1 hmem with hmem | hmem
  · exact hknown request hmem
  · exact hknown' request hmem

/-- The check of the depth finds nothing. -/
private lemma covers_checkDepth {u : Unit} (h : x.checkDepth frame s = .ok u t) :
    x.Covers known s t := by
  obtain ⟨ws, rfl⟩ := checkDepth_eq_ok h
  exact .of_eq rfl

/-- Entering a map finds nothing. -/
private lemma covers_enter {es : Entries} {newId : Option String} {frame' : Frame}
    (h : x.enter frame es s = .ok (newId, frame') t) : x.Covers known s t :=
  .of_eq (requests_of_enter h).1

/-- The place inside a map that is entered is the one without regard to its id. -/
private lemma inside_of_enter {es : Entries} {newId : Option String} {frame' : Frame}
    (h : x.enter frame es s = .ok (newId, frame') t) : frame.inside es = .ok frame' := by
  unfold Frame.inside
  rcases enter_eq_ok h with ⟨hclass, -, rfl, -⟩ | ⟨hclass, -, version, hversion, rfl⟩
  · rw [hclass]
    rfl
  · rw [if_pos hclass, hversion]
    rfl

/-- A request for a file that a reference names is for a known one, if there is such a file. -/
private lemma covers_loadFile {asDocument : Bool} {reference : String} {content? : Option String}
    (hleads : x.Leads known frame.path reference)
    (h : x.loadFile asDocument (Reference.target? reference frame.path) s = .ok content? t) :
    x.Covers known s t := by
  obtain ⟨-, ws, rfl⟩ := loadFile_eq_ok h
  refine ⟨[⟨_, asDocument⟩], rfl, fun request hmem path hpath hfound => ?_⟩
  rw [List.mem_singleton.1 hmem] at hpath
  exact hleads path hpath hfound

/-! ### The text at `run` behind the expansion of the values -/

/-- The value of a key comes from the value that was there before. -/
lemma ExpandsEntries.of_get? {r : Replacements} {es values : Entries}
    (h : ExpandsEntries x levels frame r es s values t) {name : String} {v' : Node}
    (hget : values.get? name = some v') :
    ∃ v, es.get? name = some v ∧ ((∃ text, r.at? (.str name) = some text ∧ v' = .str text) ∨
      (r.at? (.str name) = none ∧ ∃ s t, Expands x levels .whole frame v s v' t)) := by
  induction es generalizing s values with
  | nil =>
    cases h
    cases hget
  | cons e es ih =>
    cases h with
    | @text _ _ _ k v text _ _ _ _ _ htext hcheck hentries =>
      unfold Entries.get? at hget ⊢
      split at hget
      · next hk =>
        cases hget
        rw [if_pos hk]
        exact ⟨v, rfl, .inl ⟨text, hk ▸ htext, rfl⟩⟩
      · next hk =>
        rw [if_neg hk]
        exact ih hentries hget
    | @value _ _ _ k v _ _ _ _ _ _ htext hvalue hentries =>
      unfold Entries.get? at hget ⊢
      split at hget
      · next hk =>
        cases hget
        rw [if_pos hk]
        exact ⟨v, rfl, .inr ⟨hk ▸ htext, _, _, hvalue⟩⟩
      · next hk =>
        rw [if_neg hk]
        exact ih hentries hget

/-- The expansion of what is no import is a text only if this stands for it. -/
private lemma Expands.standsFor {v v' : Node} {reference : String}
    (h : Expands x levels .whole frame v s v' t)
    (himport : v.entries?.bind (Entries.directive? .importing) = none)
    (htext : v'.text? = some reference) : x.StandsFor frame.path v reference := by
  cases h with
  | leaf => exact .text htext
  | list | unchanged => cases htext
  | mixed hcheck henter hdirect hrest =>
    cases hrest with
    | leaf hleaf => cases hleaf
    | merged => cases htext
  | @replaced _ _ _ es newId _ _ _ _ _ hcheck henter hdirect =>
    have himport : es.directive? .importing = none := himport
    cases hdirect with
    | imported himport' hload =>
      rw [directive?_withId, himport] at himport'
      cases himport'
    | included _ hinclude hload =>
      rw [directive?_withId] at hinclude
      unfold loadText at hload
      obtain ⟨rfl, -⟩ := loadFile_eq_ok hload
      rw [path_of_enter henter] at htext
      cases htext
      exact .included himport hinclude

/-- A text at `run` that is followed behind the expansion of the values is what the value of `run`
stands for. -/
lemma ExpandsEntries.standsFor_run {r : Replacements} {es values : Entries}
    (h : ExpandsEntries x levels frame r es s values t) (hr : r.run = es.importedRun?)
    {reference : String} (hrun : (values.field "run").text? = some reference) :
    ∃ v, es.get? "run" = some v ∧ x.StandsFor frame.path v reference := by
  unfold Entries.field at hrun
  cases hget' : values.get? "run" with
  | none =>
    rw [hget'] at hrun
    cases hrun
  | some v' =>
    rw [hget', Option.getD_some] at hrun
    obtain ⟨v, hget, hv⟩ := h.of_get? hget'
    have hat := Replacements.at?_run_of_get? hr hget
    refine ⟨v, hget, ?_⟩
    rcases hv with ⟨text, htext, rfl⟩ | ⟨hnone, _, _, hexpands⟩
    · cases hrun
      rw [hat] at htext
      cases v with
      | map vs => exact .imported htext
      | scalar _ | list _ | set _ | pair _ _ => cases htext
    · exact hexpands.standsFor (hat.symm.trans hnone) hrun

/-- Such a text is one of the references that are followed in the values. -/
private lemma ExpandsEntries.follows_run {r : Replacements} {es values : Entries}
    (h : ExpandsEntries x levels frame r es s values t) (hr : r.run = es.importedRun?)
    {reference : String} (hrun : (values.field "run").text? = some reference) :
    x.FollowsValues pursued frame es reference := by
  obtain ⟨v, hget, hv⟩ := h.standsFor_run hr hrun
  have hmem := Entries.mem_of_get? hget
  cases hv with
  | text htext => exact .run hmem htext
  | imported himport => exact .value hmem (.imported himport)
  | included himport hinclude => exact .runIncluded hmem himport hinclude

end Steps

/-! ### What an expansion comes to -/

section Follows

variable {x : Expander} {pursued : Pursuit → Prop}

/-- What is followed in the values of a map is followed in a map with more entries. -/
lemma Expander.FollowsValues.mono {frame : Frame} {es es' : Entries} {reference : String}
    (h : x.FollowsValues pursued frame es reference) (hsub : es ⊆ es') :
    x.FollowsValues pursued frame es' reference := by
  cases h with
  | value hmem h => exact .value (hsub hmem) h
  | run hmem htext => exact .run (hsub hmem) htext
  | runIncluded hmem himport hinclude => exact .runIncluded (hsub hmem) himport hinclude

/-- The values of a map that are followed behind a mixin are its own and those that come from the
mixin. -/
private lemma Expander.FollowsValues.own_or_added {frame : Frame} {all es added : Entries}
    {reference : String} (h : x.FollowsValues pursued frame all reference)
    (hall : ∀ k v, (k, v) ∈ all → (k, v) ∈ es ∨ (k, v) ∈ added ∨ k = .str "id" ∧ v.IsLeaf) :
    x.FollowsValues pursued frame es reference ∨ x.FollowsValues pursued frame added reference := by
  cases h with
  | value hmem h =>
    rcases hall _ _ hmem with hes | hadded | ⟨-, hleaf⟩
    · exact .inl (.value hes h)
    · exact .inr (.value hadded h)
    · cases h <;> cases hleaf
  | run hmem htext =>
    rcases hall _ _ hmem with hes | hadded | ⟨hid, -⟩
    · exact .inl (.run hes htext)
    · exact .inr (.run hadded htext)
    · exact absurd hid (by decide)
  | runIncluded hmem himport hinclude =>
    rcases hall _ _ hmem with hes | hadded | ⟨hid, -⟩
    · exact .inl (.runIncluded hes himport hinclude)
    · exact .inr (.runIncluded hadded himport hinclude)
    · exact absurd hid (by decide)

/-- A map with a new id has its own entries, and one for the id. -/
private lemma mem_withId {es : Entries} {newId : Option String} {e : Scalar × Node}
    (h : e ∈ withId es newId) : e ∈ es ∨ ∃ id, e = (.str "id", .str id) := by
  cases newId with
  | none => exact .inl h
  | some id => exact (Entries.mem_set h).imp_right fun he => ⟨id, he⟩

section Map

variable {levels : Nat} {frame frame' : Frame} {es entries : Entries} {newId : Option String}
  {s s₁ t : ExpansionState} (henter : x.enter frame es s = .ok (newId, frame') s₁)

include henter

/-- The directives of a map that are followed behind its new id are its own ones. -/
lemma PursuesDirective.follows {p : Pursuit}
    (h : PursuesDirective levels frame' (withId es newId) s₁ p) :
    x.Follows pursued frame (.map es) p.reference := by
  cases h with
  | imported himport =>
    rw [directive?_withId] at himport
    exact .imported himport
  | included himport hinclude =>
    rw [directive?_withId] at himport hinclude
    exact .included himport hinclude
  | mixin hmixes => exact .mixin (inside_of_enter henter) hmixes.of_withId

/-- What is followed in a map behind its mixin is followed in the map. -/
private lemma Directs.follows_merged
    (hpursued : ∀ p, PursuesDirective levels frame' (withId es newId) s₁ p → pursued p)
    (hdirect : Directs x levels frame' (withId es newId) s₁ (.merged entries) t)
    {reference : String} (h : x.FollowsValues pursued frame' entries reference) :
    x.Follows pursued frame (.map es) reference := by
  have hown (k : Scalar) (v : Node) (hmem : (k, v) ∈ ownEntries es newId) :
      (k, v) ∈ es ∨ k = .str "id" ∧ v.IsLeaf := by
    rcases mem_withId ((Entries.eraseDirective_sublist _ _).subset hmem) with hes | ⟨id, heq⟩
    · exact .inl hes
    · cases heq
      exact .inr ⟨rfl, trivial⟩
  have hinside := inside_of_enter henter
  obtain ⟨himport, hinclude⟩ := hdirect.unreplaced nofun
  rw [directive?_withId] at himport hinclude
  cases hdirect with
  | mixedAbsent hmixes hload =>
    refine .own himport hinclude hinside ?_
    exact (h.own_or_added fun k v hmem => (hown k v hmem).imp_right .inr).elim id id
  | @mixedMap _ _ _ added mixin _ _ hmixes hload =>
    have hall : ∀ k v, (k, v) ∈ (ownEntries es newId).addMissing added →
        (k, v) ∈ es ∨ (k, v) ∈ (ownEntries es newId).lacking added ∨
          k = .str "id" ∧ v.IsLeaf := by
      intro k v hmem
      rcases Entries.mem_addMissing hmem with hmem | hmem
      · exact (hown k v hmem).imp_right .inr
      · exact .inr (.inl hmem)
    rcases h.own_or_added hall with h | h
    · exact .own himport hinclude hinside h
    · exact .added henter hmixes.of_withId (hpursued _ (.mixin hmixes)) hload h

/-- What is followed in the values of a map without directives is followed in the map. -/
private lemma Directs.follows_unchanged
    (hdirect : Directs x levels frame' (withId es newId) s₁ .unchanged t) (r : Replacements)
    {reference : String} (h : x.FollowsValues pursued frame' (es ++ r.missing es) reference) :
    x.Follows pursued frame (.map es) reference := by
  obtain ⟨himport, hinclude⟩ := hdirect.unreplaced nofun
  rw [directive?_withId] at himport hinclude
  refine .own himport hinclude (inside_of_enter henter) ?_
  refine (h.own_or_added fun k v hmem => ?_).elim id id
  refine (List.mem_append.1 hmem).imp_right fun hmem => .inr ?_
  rcases r.missing_eq es with hmissing | ⟨id, hmissing, -⟩
  · rw [hmissing] at hmem
    cases hmem
  · rw [hmissing] at hmem
    cases List.mem_singleton.1 hmem
    exact ⟨rfl, trivial⟩

end Map

mutual

/-- **The references that an expansion comes to are among those that it may follow.**

**Proof sketch.** Induction on the way to the reference. Behind a mixin, a map has its own values
and those that it got. -/
theorem Pursues.follows : ∀ {levels : Nat} {stage : Stage} {frame : Frame} {n : Node}
    {s : ExpansionState} {p : Pursuit}, Pursues x levels stage frame n s p →
      (∀ p', Pursues x levels stage frame n s p' → pursued p') →
        x.FollowsFrom pursued stage frame n p.reference
  | _, stage, _, _, _, _, .list hcheck h, hpursued => by
    obtain ⟨item, hmem, hfollows⟩ := h.follows fun p hp => hpursued p (.list hcheck hp)
    cases stage <;> exact .item hmem hfollows
  | _, _, _, _, _, _, .merged h, hpursued =>
    h.follows rfl fun p hp => hpursued p (.merged hp)
  | _, _, _, _, _, _, .directive _ henter h, _ => h.follows henter
  | _, _, _, _, _, _, .mixed hcheck henter hdirect h, hpursued =>
    hdirect.follows_merged henter (fun p hp => hpursued p (.directive hcheck henter hp))
      (h.follows fun p hp => hpursued p (.mixed hcheck henter hdirect hp))
  | _, _, _, _, _, _, .unchanged hcheck henter hdirect h, hpursued =>
    hdirect.follows_unchanged henter _ (h.follows (importedRun?_missing _ _).symm
      fun p hp => hpursued p (.unchanged hcheck henter hdirect hp))

/-- The references that the expansion of the items of a list comes to are among those that it may
follow in one of them. -/
theorem PursuesItems.follows : ∀ {levels : Nat} {frame : Frame} {items : List Node}
    {s : ExpansionState} {p : Pursuit}, PursuesItems x levels frame items s p →
      (∀ p', PursuesItems x levels frame items s p' → pursued p') →
        ∃ item ∈ items, x.Follows pursued frame item p.reference
  | _, _, _, _, _, .head h, hpursued =>
    ⟨_, List.mem_cons_self, h.follows fun p hp => hpursued p (.head hp)⟩
  | _, _, _, _, _, .tail hitem h, hpursued => by
    obtain ⟨item, hmem, hfollows⟩ := h.follows fun p hp => hpursued p (.tail hitem hp)
    exact ⟨item, List.mem_cons_of_mem _ hmem, hfollows⟩

/-- The references that the expansion of the values of a map comes to are among those that it may
follow there. -/
theorem PursuesEntries.follows : ∀ {levels : Nat} {frame : Frame} {r : Replacements}
    {es : Entries} {s : ExpansionState} {p : Pursuit}, PursuesEntries x levels frame r es s p →
      (∀ p', PursuesEntries x levels frame r es s p' → pursued p') →
        x.FollowsValues pursued frame es p.reference
  | _, _, _, _, _, _, .head htext h, hpursued =>
    .value List.mem_cons_self (h.follows fun p hp => hpursued p (.head htext hp))
  | _, _, _, _, _, _, .behindText htext hcheck h, hpursued =>
    (h.follows fun p hp => hpursued p (.behindText htext hcheck hp)).mono
      (List.subset_cons_self _ _)
  | _, _, _, _, _, _, .behindValue htext hvalue h, hpursued =>
    (h.follows fun p hp => hpursued p (.behindValue htext hvalue hp)).mono
      (List.subset_cons_self _ _)

/-- The references that the expansion of the values of a map and of the text at `run` comes to are
among those that it may follow there. -/
theorem PursuesValues.follows : ∀ {levels : Nat} {frame : Frame} {r : Replacements}
    {es : Entries} {s : ExpansionState} {p : Pursuit}, PursuesValues x levels frame r es s p →
      r.run = es.importedRun? → (∀ p', PursuesValues x levels frame r es s p' → pursued p') →
        x.FollowsValues pursued frame es p.reference
  | _, _, _, _, _, _, .entries h, _, hpursued =>
    h.follows fun p hp => hpursued p (.entries hp)
  | _, _, _, _, _, _, .run hentries hrun, hr, _ => hentries.follows_run hr hrun

end

end Follows

/-! ### Every part of an expansion -/

section Covers

variable {x : Expander} {known : String → Prop} {first : Opening}

mutual

/-- **An expansion finds known files only**, if all references that it reaches lead to known files.

**Proof sketch.** Induction on the derivation. Every request is made for a reference that the
expansion comes to, and a document that is loaded for it is opened, so that the references in it are
reached, too. -/
theorem Expands.covers (hleads : ∀ p, x.Reaches first p → x.Leads known p.frame.path p.reference) :
    ∀ {levels : Nat} {stage : Stage} {frame : Frame} {n r : Node} {s t : ExpansionState},
      Expands x levels stage frame n s r t →
      (∀ p, Pursues x levels stage frame n s p → x.Reaches first p) → x.Covers known s t
  | _, _, _, _, _, _, _, .leaf _ hcheck, _ => covers_checkDepth hcheck
  | _, _, _, _, _, _, _, .list hcheck hitems, hreaches =>
    (covers_checkDepth hcheck).trans
      (hitems.covers hleads fun p hp => hreaches p (.list hcheck hp))
  | _, _, _, _, _, _, _, .merged hentries hrun, hreaches =>
    (hentries.covers hleads fun p hp => hreaches p (.merged (.entries hp))).trans
      (hrun.covers hleads fun _ htext => hreaches _ (.merged (.run hentries htext)))
  | _, _, _, _, _, _, _, .replaced hcheck henter hdirect, hreaches =>
    ((covers_checkDepth hcheck).trans (covers_enter henter)).trans
      (hdirect.covers hleads fun p hp => hreaches p (.directive hcheck henter hp))
  | _, _, _, _, _, _, _, .mixed hcheck henter hdirect hrest, hreaches =>
    (((covers_checkDepth hcheck).trans (covers_enter henter)).trans
      (hdirect.covers hleads fun p hp => hreaches p (.directive hcheck henter hp))).trans
      (hrest.covers hleads fun p hp => hreaches p (.mixed hcheck henter hdirect hp))
  | _, _, _, _, _, _, _, .unchanged hcheck henter hdirect hentries hrun, hreaches =>
    ((((covers_checkDepth hcheck).trans (covers_enter henter)).trans
      (hdirect.covers hleads fun p hp => hreaches p (.directive hcheck henter hp))).trans
      (hentries.covers hleads fun p hp =>
        hreaches p (.unchanged hcheck henter hdirect (.entries hp)))).trans
      (hrun.covers hleads fun _ htext =>
        hreaches _ (.unchanged hcheck henter hdirect (.run hentries htext)))

/-- An expansion of the items of a list finds known files only. -/
theorem ExpandsItems.covers
    (hleads : ∀ p, x.Reaches first p → x.Leads known p.frame.path p.reference) :
    ∀ {levels : Nat} {frame : Frame} {items items' : List Node} {s t : ExpansionState},
      ExpandsItems x levels frame items s items' t →
      (∀ p, PursuesItems x levels frame items s p → x.Reaches first p) → x.Covers known s t
  | _, _, _, _, _, _, .nil, _ => .of_eq rfl
  | _, _, _, _, _, _, .cons hitem hitems, hreaches =>
    (hitem.covers hleads fun p hp => hreaches p (.head hp)).trans
      (hitems.covers hleads fun p hp => hreaches p (.tail hitem hp))

/-- An expansion of the values of a map finds known files only. -/
theorem ExpandsEntries.covers
    (hleads : ∀ p, x.Reaches first p → x.Leads known p.frame.path p.reference) :
    ∀ {levels : Nat} {frame : Frame} {r : Replacements} {es es' : Entries}
      {s t : ExpansionState}, ExpandsEntries x levels frame r es s es' t →
      (∀ p, PursuesEntries x levels frame r es s p → x.Reaches first p) → x.Covers known s t
  | _, _, _, _, _, _, _, .nil, _ => .of_eq rfl
  | _, _, _, _, _, _, _, .text htext hcheck hentries, hreaches =>
    (covers_checkDepth hcheck).trans (hentries.covers hleads fun p hp =>
      hreaches p (.behindText htext hcheck hp))
  | _, _, _, _, _, _, _, .value htext hvalue hentries, hreaches =>
    (hvalue.covers hleads fun p hp => hreaches p (.head htext hp)).trans
      (hentries.covers hleads fun p hp => hreaches p (.behindValue htext hvalue hp))

/-- An expansion of a text at `run` finds known files only. -/
theorem ExpandsRun.covers
    (hleads : ∀ p, x.Reaches first p → x.Leads known p.frame.path p.reference) :
    ∀ {levels : Nat} {frame : Frame} {es es' : Entries} {s t : ExpansionState},
      ExpandsRun x levels frame es s es' t →
      (∀ reference, (es.field "run").text? = some reference →
        x.Reaches first ⟨reference, frame, true, levels, s⟩) → x.Covers known s t
  | _, _, _, _, _, _, .none _, _ => .of_eq rfl
  | _, _, _, _, _, _, .absent hrun hload, hreaches => hload.covers hleads (hreaches _ hrun)
  | _, _, _, _, _, _, .loaded hrun hload, hreaches => hload.covers hleads (hreaches _ hrun)

/-- Following the directives of a map finds known files only. -/
theorem Directs.covers
    (hleads : ∀ p, x.Reaches first p → x.Leads known p.frame.path p.reference) :
    ∀ {levels : Nat} {frame : Frame} {es : Entries} {s t : ExpansionState} {directed : Directed},
      Directs x levels frame es s directed t →
      (∀ p, PursuesDirective levels frame es s p → x.Reaches first p) → x.Covers known s t
  | _, _, _, _, _, _, .imported himport hload, hreaches =>
    hload.covers hleads (hreaches _ (.imported himport))
  | _, _, _, _, _, _, .included himport hinclude hload, hreaches =>
    covers_loadFile (hleads _ (hreaches _ (.included himport hinclude))) hload
  | _, _, _, _, _, _, .mixedAbsent hmixes hload, hreaches
  | _, _, _, _, _, _, .mixedOther hmixes _ hload, hreaches =>
    hload.covers hleads (hreaches _ (.mixin hmixes))
  | _, _, _, _, _, _, .mixedMap hmixes hload, hreaches =>
    (hload.covers hleads (hreaches _ (.mixin hmixes))).trans (.of_eq rfl)
  | _, _, _, _, _, _, .inert _, _ => .of_eq rfl

/-- Loading the document that a reference names finds known files only. -/
theorem Loads.covers
    (hleads : ∀ p, x.Reaches first p → x.Leads known p.frame.path p.reference) :
    ∀ {levels : Nat} {frame : Frame} {reference : String} {document : Option Node}
      {s t : ExpansionState}, Loads x levels frame reference s document t →
      x.Reaches first ⟨reference, frame, true, levels, s⟩ → x.Covers known s t
  | _, _, _, _, _, _, .absent hload, hreaches => covers_loadFile (hleads _ hreaches) hload
  | _, _, _, _, _, _, .found htarget hload hread hexpand, hreaches => by
    obtain ⟨o, hopens, hpursues⟩ := hreaches
    have hopens' := Opens.file hopens hpursues htarget hload hread
    have hcovers := hexpand.covers hleads fun p hp => ⟨_, hopens', hp⟩
    rw [← htarget] at hload
    exact (covers_loadFile (hleads _ ⟨o, hopens, hpursues⟩) hload).trans hcovers

end

/-- **An expansion finds known files only if and only if** all references that it reaches lead to
known files.

**Proof sketch.** Every request is made for a reference that is reached; and every reference that is
reached is asked for. -/
theorem covers_iff {r : Node} {t : ExpansionState} (hfirst : first.state.requests = [])
    (h : Expands x first.levels .whole first.frame first.document first.state r t) :
    x.Covers known first.state t ↔
      ∀ p, x.Reaches first p → x.Leads known p.frame.path p.reference := by
  constructor
  · rintro ⟨requests, hrequests, hknown⟩ p hp target htarget hfound
    rw [hfirst, List.nil_append] at hrequests
    exact hknown _ (hrequests ▸ hp.request_mem h) target htarget hfound
  · intro hleads
    exact h.covers hleads fun p hp => ⟨first, .first, hp⟩

end Covers

end CwlDescriptor

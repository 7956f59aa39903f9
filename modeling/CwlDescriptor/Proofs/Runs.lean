import CwlDescriptor.Proofs.Expansion.References
import CwlDescriptor.Proofs.Idempotence
set_option autoImplicit false

/-!
# Texts that are left at the key `run`

A text at the key `run` of an expanded map may be taken for the path of a missing file. It is one,
unless the reference at `run` named a file whose document is a text, or is expanded to one: this
text takes the place of the reference and is not followed any more, so that it may well name a file.

Nothing is said here of a text that names a file whose document is null.

## Main definitions

* `Expander.HasRun`: the value at `run` that the expansion of a map comes to.
* `Expander.Echoes`: what this value stands for names a file, and the expansion of the map ends with
  that of its document.

## Main results

* `expand_run_text`: where a text at `run` in an expanded map comes from.
* `echoing_expand`: a text that comes from a file may name another one.
-/

namespace CwlDescriptor

open Expansion Expander

/-- The expansion of a map comes to a value at `run`: that of the map, or else that of a mixin. -/
inductive Expander.HasRun (x : Expander) (frame : Frame) (es : Entries) (s : ExpansionState) :
    Node → Prop
  | own {v : Node} (hget : es.get? "run" = some v) : HasRun x frame es s v
  | added {frame' : Frame} {newId : Option String} {mixin : String} {levels : Nat}
    {added : Entries} {v : Node} {s₁ s₂ t : ExpansionState} (hnone : es.get? "run" = none)
    (hcheck : x.checkDepth frame s = .ok () s₁)
    (henter : x.enter frame es s₁ = .ok (newId, frame') s₂) (hmixes : Mixes frame' es mixin)
    (hload : Loads x levels frame' mixin s₂ (some (.map added)) t)
    (hget : added.get? "run" = some v) : HasRun x frame es s v

/-- The value at `run` that the expansion of a map comes to stands for a reference that names a file
of the store. The expansion asks for this file, and it ends with the expansion of the document of
the file, which is a text. -/
inductive Expander.Echoes (x : Expander) (frame : Frame) (es : Entries) (s : ExpansionState)
    (text : String) (t : ExpansionState) : Prop
  | intro {v document : Node} {reference path content : String} {version : Option String}
    {levels : Nat} {s₁ s₂ : ExpansionState} (hhas : x.HasRun frame es s v)
    (hstands : x.StandsFor frame.path v reference)
    (htarget : Reference.target? reference frame.path = some path)
    (hget : x.store.get? path = some content) (hlater : Later s s₁)
    (hload : x.loadFile true (some path) s₁ = .ok (some content) s₂)
    (hrequests : s₁.requests ++ [⟨some path, true⟩] <+: t.requests)
    (hread : x.read content (some path) = .ok document)
    (hexpand : x.expandWithin levels .whole ⟨path, version, frame.depth + 1⟩ document s₂ =
      .ok (.str text) t) : Echoes x frame es s text t

/-- The file at a path holds a document that is null. -/
def Expander.HoldsNull (x : Expander) (path : String) : Prop :=
  ∃ content, x.store.get? path = some content ∧ x.read content (some path) = .ok .null

section Runs

variable {x : Expander} {levels : Nat} {frame : Frame} {reference : String}
  {s t : ExpansionState}

/-- A document that is expanded to null is null. -/
private lemma Expands.eq_null {n r : Node} (h : Expands x levels .whole frame n s r t)
    (hr : r.isNull = true) : n = .null := by
  by_cases hn : n.IsLeaf
  · have hsame : r = n := by
      cases h with
      | leaf => rfl
      | list | replaced | mixed | unchanged => cases hn
    subst hsame
    cases r with
    | scalar value =>
      cases value <;> cases hr
      rfl
    | list _ | map _ | set _ | pair _ _ => cases hr
  · rw [h.isNull_eq_false hn] at hr
    cases hr

/-- If nothing is loaded for a reference, it names no file, or one that holds nothing. -/
private lemma Loads.of_none {document : Option Node}
    (h : Loads x levels frame reference s document t) (hnone : document = none) :
    Reference.target? reference frame.path = none ∨
      ∃ path, Reference.target? reference frame.path = some path ∧
        (x.store.get? path = none ∨ x.HoldsNull path) := by
  cases h with
  | absent hload =>
    have hcontent := (loadFile_eq_ok hload).1
    cases htarget : Reference.target? reference frame.path with
    | none => exact .inl rfl
    | some path =>
      rw [htarget] at hcontent
      exact .inr ⟨path, rfl, .inl hcontent.symm⟩
  | @found _ _ _ path content document r _ _ _ htarget hload hread hexpand =>
    have hcontent : some content = x.store.get? path := (loadFile_eq_ok hload).1
    have hnull : r.isNull = true := by
      by_contra hr
      rw [if_neg hr] at hnone
      cases hnone
    rw [hexpand.eq_null hnull] at hread
    exact .inr ⟨path, htarget, .inr ⟨content, hcontent.symm, hread⟩⟩

/-- If the document that is loaded for what `run` stands for is a text, it echoes a file. -/
private lemma Loads.echoes {es : Entries} {v : Node} {version : Option String} {text : String}
    {document : Option Node} {s₁ : ExpansionState} (hhas : x.HasRun frame es s v)
    (hstands : x.StandsFor frame.path v reference) (hlater : Later s s₁)
    (h : Loads x levels { frame with version := version } reference s₁ document t)
    (hsome : document = some (.str text)) : x.Echoes frame es s text t := by
  cases h with
  | absent => cases hsome
  | found htarget hload hread hexpand =>
    have hget := (loadFile_eq_ok hload).1
    have hrequests := hexpand.later.requests
    rw [(documentOf?_of_loadFile hload hread).1] at hrequests
    split at hsome
    · cases hsome
    · cases hsome
      exact ⟨hhas, hstands, htarget, hget.symm, hlater, hload, hrequests, hread,
        expands_iff.1 hexpand⟩

/-- A text that is left at `run` is one for which nothing was loaded, or it was loaded for another
one. -/
lemma ExpandsRun.text {es es' : Entries} (h : ExpandsRun x levels frame es s es' t) {text : String}
    (htext : (es'.field "run").text? = some text) :
    ∃ reference, (es.field "run").text? = some reference ∧
      (reference = text ∧ Loads x levels frame reference s Option.none t ∨
        Loads x levels frame reference s (some (.str text)) t) := by
  cases h with
  | none hrun =>
    rw [hrun] at htext
    cases htext
  | absent hrun hload =>
    rw [hrun] at htext
    cases htext
    exact ⟨text, hrun, .inl ⟨rfl, hload⟩⟩
  | loaded hrun hload =>
    rw [Entries.field_set_self] at htext
    rw [Node.eq_str_of_text? htext] at hload
    exact ⟨_, hrun, .inr hload⟩

/-- The value at `run` behind a mixin is that of the map, or else that of the mixin. -/
private lemma Directs.hasRun {frame' : Frame} {es entries : Entries} {newId : Option String}
    {s₁ s₂ s₃ : ExpansionState} (hcheck : x.checkDepth frame s = .ok () s₁)
    (henter : x.enter frame es s₁ = .ok (newId, frame') s₂)
    (h : Directs x levels frame' (withId es newId) s₂ (.merged entries) s₃) {v : Node}
    (hget : entries.get? "run" = some v) : x.HasRun frame es s v := by
  have hown := get?_run_ownEntries es newId
  cases h with
  | mixedAbsent hmixes hload => exact .own (hown.symm.trans hget)
  | @mixedMap _ _ _ added _ _ _ hmixes hload =>
    have hmerged : (es.get? "run").or (added.get? "run") = some v := by
      rw [← hown, ← Entries.get?_addMissing]
      exact hget
    cases hes : es.get? "run" with
    | some w =>
      rw [hes] at hmerged
      exact .own (hes.trans hmerged)
    | none =>
      rw [hes] at hmerged
      exact .added hes hcheck henter hmixes.of_withId hload hmerged

/-- The last step of the expansion of a map that no document takes the place of follows the text at
`run`, and this is what the value at `run` stands for. -/
private lemma Expands.expandsRun {es : Entries} {r : Node}
    (himport : es.directive? .importing = none) (hinclude : es.directive? .including = none)
    (h : Expands x levels .whole frame (.map es) s r t) :
    ∃ l version values es' s₁, r = .map es' ∧ Later s s₁ ∧
      ExpandsRun x l { frame with version := version } values s₁ es' t ∧
      ∀ reference, (values.field "run").text? = some reference →
        ∃ v, x.HasRun frame es s v ∧ x.StandsFor frame.path v reference := by
  cases h with
  | leaf hleaf => cases hleaf
  | replaced _ _ hdirect => exact absurd hdirect (Directs.not_replaced himport hinclude)
  | mixed hcheck henter hdirect hrest =>
    have hlater := ((checkDepth_later hcheck).trans (enter_later henter)).trans hdirect.later
    cases hrest with
    | leaf hleaf => cases hleaf
    | merged hentries hrun =>
      refine ⟨_, _, _, _, _, rfl, hlater.trans hentries.later, frame_of_enter henter ▸ hrun,
        fun reference htext => ?_⟩
      obtain ⟨v, hget, hstands⟩ := hentries.standsFor_run rfl htext
      rw [path_of_enter henter] at hstands
      exact ⟨v, hdirect.hasRun hcheck henter hget, hstands⟩
  | @unchanged _ _ _ _ _ _ newId _ _ _ _ _ _ hcheck henter hdirect hentries hrun =>
    have hlater := ((checkDepth_later hcheck).trans (enter_later henter)).trans hdirect.later
    refine ⟨_, _, _, _, _, rfl, hlater.trans hentries.later, frame_of_enter henter ▸ hrun,
      fun reference htext => ?_⟩
    obtain ⟨v, hget, hstands⟩ := hentries.standsFor_run (importedRun?_missing _ _).symm htext
    rw [path_of_enter henter] at hstands
    rw [get?_missing _ _ (by decide)] at hget
    exact ⟨v, .own hget, hstands⟩

end Runs

/-- **A text that is left at `run`** in an expanded map, in which no import and no include was
followed, names no file of the store: it is an address of the web, or there is no file at its path.
The only other case is that the reference at `run` named a file whose document was loaded and
expanded to this text. Nothing is said of a text that names a file whose document is null.

**Proof sketch.** The text at `run` is followed last of all. It stays if nothing is loaded for it,
and otherwise what is loaded takes its place. -/
theorem expand_run_text (x : Expander) {frame : Frame} {es : Entries}
    (himport : es.directive? .importing = none) (hinclude : es.directive? .including = none)
    {s t : ExpansionState} {result : Node} (h : x.expand frame (.map es) s = .ok result t)
    {text : String} (htext : (result.field "run").text? = some text) :
    Reference.target? text frame.path = none ∨
      (∃ path, Reference.target? text frame.path = some path ∧
        (x.store.get? path = none ∨ x.HoldsNull path)) ∨
      x.Echoes frame es s text t := by
  obtain ⟨l, version, values, es', s₁, rfl, hlater, hrun, hstands⟩ :=
    (expands_iff.2 h).expandsRun himport hinclude
  obtain ⟨reference, hreference, ⟨rfl, hload⟩ | hload⟩ := hrun.text htext
  · rcases hload.of_none rfl with hweb | hmissing
    · exact .inl hweb
    · exact .inr (.inl hmissing)
  · obtain ⟨v, hhas, hstands⟩ := hstands reference hreference
    exact .inr (.inr (hload.echoes hhas hstands hlater rfl))

/-! ### A text that names another file -/

/-- A repository with a file that holds a text which names the other file. -/
def echoing : Expander where
  store := .ofFiles [⟨"/x", "y"⟩, ⟨"/y", "[]"⟩]
  limits := {}
  newId n := toString n

/-- The files are read as descriptors are loaded. -/
private lemma read_echoing : echoing.read = load := rfl

/-- The text takes the place of the reference. -/
private lemma echoing_expands : ∃ t, echoing.expand (.root "/main") (running (.str "x")) {} =
    .ok (running (.str "y")) t := by
  have hread : echoing.read "y" (some "/x") = .ok (.str "y") := by
    rw [read_echoing]
    cbv
  have hload : ∃ t, Loads echoing 1000 (.root "/main") "x" {} (some (.str "y")) t :=
    ⟨_, .found rfl rfl hread (.leaf trivial rfl)⟩
  obtain ⟨t, hload⟩ := hload
  exact ⟨t, expands_iff.1 (.unchanged rfl rfl (.inert ⟨rfl, rfl, .inl rfl⟩)
    (.value rfl (.leaf trivial rfl) .nil) (.loaded rfl hload))⟩

/-- The other file is there, and its document is not null. -/
private lemma not_holdsNull_echoing : ¬ echoing.HoldsNull "/y" := by
  rintro ⟨content, hget, hnull⟩
  cases hget
  cases hnull

/-- The text that is left is the document of the file that the reference named. -/
theorem echoing_expand_run_text :
    Entries.directive? .importing [(.str "run", .str "x")] = none ∧
      Entries.directive? .including [(.str "run", .str "x")] = none ∧
      ∃ t, echoing.expand (.root "/main") (running (.str "x")) {} =
          .ok (running (.str "y")) t ∧
        echoing.Echoes (.root "/main") [(.str "run", .str "x")] {} "y" t := by
  obtain ⟨t, ht⟩ := echoing_expands
  refine ⟨rfl, rfl, t, ht, ?_⟩
  have htarget : Reference.target? "y" (Frame.root "/main").path = some "/y" := rfl
  rcases expand_run_text echoing rfl rfl ht rfl with hweb | ⟨path, hpath, hmissing⟩ | hechoes
  · cases htarget.symm.trans hweb
  · cases htarget.symm.trans hpath
    rcases hmissing with hnone | hnull
    · cases hnone
    · exact absurd hnull not_holdsNull_echoing
  · exact hechoes

/-- **A text that comes from a file may name another one**, which is not followed. -/
theorem echoing_expand :
    Entries.directive? .importing [(.str "run", .str "x")] = none ∧
      Entries.directive? .including [(.str "run", .str "x")] = none ∧
      (∃ t, echoing.expand (.root "/main") (running (.str "x")) {} =
        .ok (running (.str "y")) t) ∧
      Reference.target? "y" "/main" = some "/y" ∧ echoing.store.get? "/y" = some "[]" ∧
      ¬ echoing.HoldsNull "/y" :=
  ⟨rfl, rfl, echoing_expands, rfl, rfl, not_holdsNull_echoing⟩

end CwlDescriptor

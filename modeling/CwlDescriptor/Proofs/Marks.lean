import CwlDescriptor.Proofs.Entries
import CwlDescriptor.Proofs.Expansion.History
set_option autoImplicit false

/-!
# Marks for the origin of maps

A mark is an entry that is put in front of every map of a document and that holds the path of the
file from whose text the document was read. Nothing in an expansion looks for it, so that the
expansion of marked documents goes as that of the documents themselves, and the maps of its result
still have the marks of the files that they come from. Only documents that are merged into maps lose
their marks.

## Main definitions

* `Node.mark`, `Node.unmark`: a document with marks, and without.
* `Expander.marking`: the expander that marks every document that it reads.

## Main results

* `Expands.mark`: an expansion without merges goes the same with marks.
-/

namespace CwlDescriptor

open Expansion Expander

/-! ## Marking a document -/

namespace Node

mutual

/-- The document with a mark in front of every map that is reached through items and values. -/
def mark (path : String) : Node → Node
  | .list items => .list (markList path items)
  | .map es => .map ((.null, .str path) :: markValues path es)
  | n => n

/-- The items of a list with marks. -/
def markList (path : String) : List Node → List Node
  | [] => []
  | item :: items => mark path item :: markList path items

/-- The values of a map with marks. -/
def markValues (path : String) : Entries → Entries
  | [] => []
  | (k, v) :: es => (k, mark path v) :: markValues path es

end

end Node

/-- The entries without the mark in front of them. -/
def Entries.dropMark : Entries → Entries
  | (.null, .scalar (.str _)) :: es => es
  | es => es

/-- The path in the mark in front of the entries. -/
def Entries.mark? : Entries → Option String
  | (.null, .scalar (.str path)) :: _ => some path
  | _ => none

namespace Node

mutual

/-- The document without marks. -/
def unmark : Node → Node
  | .list items => .list (unmarkList items)
  | .map es => .map (unmarkValues es).dropMark
  | n => n

/-- The items of a list without marks. -/
def unmarkList : List Node → List Node
  | [] => []
  | item :: items => unmark item :: unmarkList items

/-- The values of a map without marks. -/
def unmarkValues : Entries → Entries
  | [] => []
  | (k, v) :: es => (k, unmark v) :: unmarkValues es

end

end Node

/-- The entries of a map without marks. -/
def Entries.unmark (es : Entries) : Entries :=
  (Node.unmarkValues es).dropMark

/-- The expander that marks every document that it reads. -/
def Expander.marking (x : Expander) : Expander :=
  { x with read := fun text path => (x.read text path).map (Node.mark (path.getD "")) }

/-! ## What is looked up in marked maps -/

section Lookup

variable {path : String}

namespace Node

/-- A marked document has the same text, if any. -/
@[simp] lemma text?_mark (n : Node) : (n.mark path).text? = n.text? := by
  cases n <;> rfl

/-- A marked document is null if it was before. -/
@[simp] lemma isNull_mark (n : Node) : (n.mark path).isNull = n.isNull := by
  cases n <;> rfl

/-- A document without its marks has the same text, if any. -/
@[simp] lemma text?_unmark (n : Node) : n.unmark.text? = n.text? := by
  cases n <;> rfl

/-- A document without its marks is null if it was before. -/
@[simp] lemma isNull_unmark (n : Node) : n.unmark.isNull = n.isNull := by
  cases n <;> rfl

/-- The values of two parts of a map are marked one after the other. -/
private lemma markValues_append (es es' : Entries) :
    markValues path (es ++ es') = markValues path es ++ markValues path es' := by
  induction es with
  | nil => rfl
  | cons e es ih =>
    obtain ⟨k, v⟩ := e
    simp [markValues, ih]

/-- Marks are related to what they mark, key by key. -/
private lemma markValues_related (path : String) (es : Entries) :
    Entries.Related (fun _ v v' => v' = v.mark path) es (markValues path es) := by
  induction es with
  | nil => exact .nil
  | cons e es ih => exact .cons ⟨rfl, rfl⟩ ih

/-- A map with the same keys whose values are the marked ones is the marked map. -/
private lemma eq_markValues_of_related {es es' : Entries}
    (h : Entries.Related (fun _ v v' => v' = v.mark path) es es') :
    es' = markValues path es := by
  induction h with
  | nil => rfl
  | @cons e e' es es' he _ ih =>
    obtain ⟨k, v⟩ := e
    obtain ⟨k', v'⟩ := e'
    obtain ⟨rfl, rfl⟩ := he
    rw [markValues, ih]

end Node

namespace Entries

/-- The entries of a map with marks. -/
def mark (path : String) (es : Entries) : Entries :=
  (.null, .str path) :: Node.markValues path es

/-- What is found in a marked map is the marked value. -/
private lemma get?_mark (es : Entries) (name : String) :
    (es.mark path).get? name = (es.get? name).map (Node.mark path) := by
  show (Node.markValues path es).get? name = _
  rcases (Node.markValues_related path es).get? name with ⟨h, h'⟩ | ⟨v, v', h, h', rfl⟩
  · rw [h, h']
    rfl
  · rw [h, h']
    rfl

/-- The value at a key of a marked map is the marked one. -/
@[simp] lemma field_mark (es : Entries) (name : String) :
    (es.mark path).field name = (es.field name).mark path := by
  unfold field
  rw [get?_mark]
  cases es.get? name <;> rfl

/-- A mark does not matter for the keys of directives. -/
@[simp] lemma directiveKey?_mark (es : Entries) (kind : DirectiveKind) :
    (es.mark path).directiveKey? kind = es.directiveKey? kind :=
  ((Node.markValues_related path es).keyAmong?_eq kind.names).symm

/-- A mark does not matter for directives. -/
@[simp] lemma directive?_mark (es : Entries) (kind : DirectiveKind) :
    (es.mark path).directive? kind = es.directive? kind := by
  unfold directive?
  rw [directiveKey?_mark]
  cases es.directiveKey? kind with
  | none => rfl
  | some key =>
    show ((es.mark path).get? key).bind Node.text? = (es.get? key).bind Node.text?
    rw [get?_mark]
    cases es.get? key with
    | none => rfl
    | some v => exact v.text?_mark

/-- A mark does not matter for the class of an entry. -/
@[simp] lemma entryClass?_mark (es : Entries) : (es.mark path).entryClass? = es.entryClass? := by
  unfold entryClass?
  rw [field_mark, Node.text?_mark]

/-- A mark does not matter for an import at `run`. -/
@[simp] lemma importedRun?_mark (es : Entries) :
    (es.mark path).importedRun? = es.importedRun? := by
  unfold importedRun?
  rw [field_mark]
  cases es.field "run" with
  | map es' => exact directive?_mark es' .importing
  | scalar _ | list _ | set _ | pair _ _ => rfl

/-- A directive can be erased before or after a map is marked. -/
private lemma eraseDirective_mark (es : Entries) (kind : DirectiveKind) :
    (es.mark path).eraseDirective kind = (es.eraseDirective kind).mark path := by
  have h := Node.eq_markValues_of_related
    ((Node.markValues_related path es).eraseDirective kind)
  have hkey : (es.mark path).directiveKey? kind = es.directiveKey? kind :=
    directiveKey?_mark es kind
  have hvalues : (Node.markValues path es).directiveKey? kind = es.directiveKey? kind := hkey
  unfold mark at hkey ⊢
  rw [← h]
  unfold eraseDirective
  rw [hkey, hvalues]
  cases es.directiveKey? kind <;> rfl

end Entries

/-- A new id can be set before or after a map is marked. -/
private lemma withId_mark (es : Entries) (newId : Option String) :
    withId (es.mark path) newId = (withId es newId).mark path := by
  cases newId with
  | none => rfl
  | some id =>
    have h := Node.eq_markValues_of_related ((Node.markValues_related path es).insert
      (v := .str id) (fun _ => rfl) (.str "id"))
    exact congrArg ((.null, .str path) :: ·) h

/-- A mark does not matter for a missing id. -/
private lemma missing_mark (r : Replacements) (es : Entries) :
    r.missing (es.mark path) = r.missing es := by
  unfold Replacements.missing
  rw [Entries.get?_mark]
  cases r.id <;> cases es.get? "id" <;> rfl

/-! ### Maps without their marks -/

/-- Without the mark in front, the same is found at texts. -/
@[simp] lemma Entries.get?_dropMark (es : Entries) (name : String) :
    es.dropMark.get? name = es.get? name := by
  unfold dropMark
  split
  · rfl
  · rfl

/-- Without the mark in front, the values at texts are the same. -/
@[simp] lemma Entries.field_dropMark (es : Entries) (name : String) :
    es.dropMark.field name = es.field name := by
  rw [field, get?_dropMark, field]

/-- What is found in a map without its marks is the value without its marks. -/
private lemma Node.get?_unmarkValues (es : Entries) (name : String) :
    (unmarkValues es).get? name = (es.get? name).map unmark := by
  induction es with
  | nil => rfl
  | cons e es ih =>
    obtain ⟨k, v⟩ := e
    by_cases hk : k = .str name
    · simp [unmarkValues, Entries.get?, hk]
    · simpa [unmarkValues, Entries.get?, hk] using ih

/-- The value at a key of a map whose values have lost their marks is the one without its marks. -/
@[simp] lemma Node.field_unmarkValues (es : Entries) (name : String) :
    (unmarkValues es).field name = (es.field name).unmark := by
  unfold Entries.field
  rw [get?_unmarkValues]
  cases es.get? name <;> rfl

/-- The value at a key of a map without its marks is the one without its marks. -/
@[simp] lemma Entries.field_unmark (es : Entries) (name : String) :
    es.unmark.field name = (es.field name).unmark := by
  rw [unmark, field_dropMark, Node.field_unmarkValues]

/-- A value can be set before or after the marks are dropped. -/
private lemma Node.unmarkValues_set (es : Entries) (name : String) (v : Node) :
    unmarkValues (es.set name v) = (unmarkValues es).set name v.unmark := by
  unfold Entries.set
  induction es with
  | nil => rfl
  | cons e es ih =>
    obtain ⟨k, w⟩ := e
    by_cases hk : k.sameKey (.str name) <;> simp [Entries.insert, unmarkValues, hk, ih]

end Lookup

/-! ## Versions in marked maps -/

namespace Node

variable {path : String}

mutual

/-- A mark can be shown, so that a document can be shown with its marks. -/
theorem quoted?_mark_isSome : ∀ n : Node, n.quoted?.isSome → (n.mark path).quoted?.isSome
  | .list items => by
    intro h
    rw [quoted?_list_isSome] at h
    exact quoted?_list_isSome.2 (quotedList_mark items h)
  | .map es => by
    intro h
    rw [quoted?_map_isSome] at h
    refine quoted?_map_isSome.2 ?_
    rw [List.forall_mem_cons]
    exact ⟨⟨rfl, rfl⟩, quotedEntries_mark es h⟩
  | .scalar _ | .set _ | .pair .. => id

/-- A list that can be shown can be shown with marks. -/
theorem quotedList_mark : ∀ items : List Node, (∀ item ∈ items, item.quoted?.isSome) →
    ∀ item ∈ markList path items, item.quoted?.isSome
  | [], _ => nofun
  | item :: items, h => by
    rw [List.forall_mem_cons] at h
    rw [markList, List.forall_mem_cons]
    exact ⟨quoted?_mark_isSome item h.1, quotedList_mark items h.2⟩

/-- A map that can be shown can be shown with marks. -/
theorem quotedEntries_mark : ∀ es : Entries,
    (∀ e ∈ es, e.1.quoted?.isSome ∧ e.2.quoted?.isSome) →
    ∀ e ∈ markValues path es, e.1.quoted?.isSome ∧ e.2.quoted?.isSome
  | [], _ => nofun
  | (k, v) :: es, h => by
    rw [List.forall_mem_cons] at h
    rw [markValues, List.forall_mem_cons]
    exact ⟨⟨h.1.1, quoted?_mark_isSome v h.1.2⟩, quotedEntries_mark es h.2⟩

end

/-- A document with marks is shown where the document is, and neither or both of the texts are
versions with mixins. -/
private lemma shown_mark (path : String) {n : Node} {text : String} (h : n.shown = .ok text) :
    ∃ text', (n.mark path).shown = .ok text' ∧
      supportsMixin (some text') = supportsMixin (some text) := by
  cases n with
  | scalar _ | set _ | pair _ _ => exact ⟨text, h, rfl⟩
  | list _ | map _ => exact shown_of_quoted id id (quoted?_mark_isSome _) h

end Node

/-! ## An expansion with marks beside one without -/

/-- The place of a marked document beside that of the document. -/
structure Frame.Beside (f f' : Frame) : Prop where
  path : f'.path = f.path
  depth : f'.depth = f.depth
  supportsMixin : supportsMixin f'.version = supportsMixin f.version

/-- The state of the expansion with marks beside that of the one without: the marks add warnings at
most, since the depth of their places is checked as well. -/
def ExpansionState.Beside (s s' : ExpansionState) : Prop :=
  ∃ warnings, s' = { s with warnings := warnings }

/-- The depth of a place is within the limit, or limits are passed over. -/
def Expander.Passes (x : Expander) (f : Frame) : Prop :=
  ∀ s, ∃ ws, x.checkDepth f s = .ok () { s with warnings := ws }

section Steps

variable {x : Expander} {f f' : Frame} {s s' t : ExpansionState}

/-- Where an exceeded limit does not end an expansion in one state, it does so in none. -/
private lemma exceed_passes {limit : Limit} {path path' : Option String}
    (h : x.exceed limit path s = .ok () t) (s' : ExpansionState) :
    ∃ ws, x.exceed limit path' s' = .ok () { s' with warnings := ws } := by
  unfold exceed at h ⊢
  cases hx : x.strict with
  | true =>
    rw [hx] at h
    cases h
  | false => exact ⟨_, rfl⟩

/-- A check of the depth that succeeds in one state does so in all. -/
private lemma passes_of_checkDepth (hf : f'.depth = f.depth) (h : x.checkDepth f s = .ok () t) :
    x.Passes f' := by
  intro s'
  unfold checkDepth at h ⊢
  rw [hf]
  split_ifs at h ⊢ with hd
  · exact exceed_passes h s'
  · exact ⟨_, rfl⟩

/-- The checks of the depth lead to states beside each other. -/
private lemma checkDepth_beside (hf : f.Beside f') (hs : s.Beside s')
    (h : x.checkDepth f s = .ok () t) :
    ∃ t', x.checkDepth f' s' = .ok () t' ∧ t.Beside t' := by
  obtain ⟨ws, rfl⟩ := hs
  obtain ⟨ws', h'⟩ := passes_of_checkDepth hf.depth h { s with warnings := ws }
  obtain ⟨ws'', rfl⟩ := checkDepth_eq_ok h
  exact ⟨_, h', ws', rfl⟩

/-- The checks of a counter lead to states beside each other. -/
private lemma checkCount_beside (hs : s.Beside s') {limit : Limit} {count : ExpansionState → Nat}
    (hcount : count s' = count s) {path : Option String}
    (h : x.checkCount limit count path s = .ok () t) :
    ∃ t', x.checkCount limit count path s' = .ok () t' ∧ t.Beside t' := by
  obtain ⟨ws, rfl⟩ := hs
  obtain ⟨ws', rfl⟩ := (checkCount_ensures limit count path).ok h
  rcases Nat.lt_or_ge (x.limits.bound limit) (count s) with hc | hc
  · have h : (if x.limits.bound limit < count s then x.exceed limit path else pure ()) s = _ := h
    rw [if_pos hc] at h
    obtain ⟨ws'', h'⟩ := exceed_passes h { s with warnings := ws }
    refine ⟨_, ?_, ws'', rfl⟩
    rw [← hcount] at hc
    refine bind_eq_ok.2 ⟨_, _, rfl, ?_⟩
    rw [if_pos hc]
    exact h'
  · rw [← hcount] at hc
    exact ⟨_, checkCount_of_le hc, ws, rfl⟩

/-- The loads of a file lead to states beside each other. -/
private lemma loadFile_beside (hs : s.Beside s') {asDocument : Bool} {path content : Option String}
    (h : x.loadFile asDocument path s = .ok content t) :
    ∃ t', x.loadFile asDocument path s' = .ok content t' ∧ t.Beside t' := by
  obtain ⟨ws, rfl⟩ := hs
  unfold loadFile at h ⊢
  obtain ⟨_, s₁, hs₁, h⟩ := bind_eq_ok.1 h
  cases hs₁
  obtain ⟨_, s₂, hs₂, h⟩ := bind_eq_ok.1 h
  have hcounted : (counted s asDocument path).Beside
      { counted s asDocument path with warnings := ws } := ⟨ws, rfl⟩
  obtain ⟨t₂, ht₂, ws₂, rfl⟩ := checkCount_beside hcounted rfl hs₂
  cases hc : path.bind x.store.get? with
  | none =>
    rw [hc] at h
    cases h
    exact ⟨_, bind_eq_ok.2 ⟨_, _, rfl, bind_eq_ok.2 ⟨_, _, ht₂, rfl⟩⟩, ws₂, rfl⟩
  | some text =>
    rw [hc] at h
    obtain ⟨_, s₃, hs₃, h⟩ := bind_eq_ok.1 h
    cases hs₃
    obtain ⟨_, s₄, hs₄, h⟩ := bind_eq_ok.1 h
    cases h
    have hcharged : (charged s₂ text).Beside { charged s₂ text with warnings := ws₂ } :=
      ⟨ws₂, rfl⟩
    obtain ⟨t₄, ht₄, ws₄, rfl⟩ := checkCount_beside hcharged rfl hs₄
    refine ⟨_, bind_eq_ok.2 ⟨_, _, rfl, bind_eq_ok.2 ⟨_, _, ht₂, ?_⟩⟩, ws₄, rfl⟩
    exact bind_eq_ok.2 ⟨_, _, rfl, bind_eq_ok.2 ⟨_, _, ht₄, rfl⟩⟩

/-- The claims of the same id lead to states beside each other. -/
private lemma claimId_beside (hf : f.Beside f') (hs : s.Beside s') {es : Entries} (es' : Entries)
    (hid : (es'.field "id").text? = (es.field "id").text?) {newId : Option String}
    (h : x.claimId es f.path s = .ok newId t) :
    ∃ t', x.claimId es' f'.path s' = .ok newId t' ∧ t.Beside t' := by
  obtain ⟨ws, rfl⟩ := hs
  rw [hf.path]
  rcases claimId_cases x es f.path s with ⟨id, hfield, hfree, hclaim⟩ | ⟨htaken, hclaim⟩
  · rw [hclaim] at h
    cases h
    exact ⟨_, claimId_of_free (hid.trans hfield) hfree, ws, rfl⟩
  · rw [hclaim] at h
    cases h
    exact ⟨_, claimId_of_taken fun id h => htaken id (hid ▸ h), ws, rfl⟩

/-- The version of a marked map has mixins if that of the map has. -/
private lemma version?_mark (path : String) (hf : f.Beside f') {es : Entries}
    {version : Option String} (h : version? f es = .ok version) :
    ∃ version', version? f' (es.mark path) = .ok version' ∧
      supportsMixin version' = supportsMixin version := by
  unfold version? at h ⊢
  rw [Entries.field_mark, Node.isNull_mark]
  split at h
  · next hn =>
    rw [if_pos hn]
    cases h
    exact ⟨_, rfl, hf.supportsMixin⟩
  · next hn =>
    rw [if_neg hn]
    cases hshown : (es.field "cwlVersion").shown with
    | error e =>
      rw [hshown] at h
      cases h
    | ok text =>
      rw [hshown] at h
      cases h
      obtain ⟨text', htext', hsupports⟩ := Node.shown_mark path hshown
      exact ⟨some text', by rw [htext']; rfl, hsupports⟩

/-- Entering a marked map leads to a place and a state beside those of the map. -/
private lemma enter_beside (hf : f.Beside f') (hs : s.Beside s') {es : Entries}
    {newId : Option String} {g : Frame} (h : x.enter f es s = .ok (newId, g) t) :
    ∃ g' t', x.enter f' (es.mark f'.path) s' = .ok (newId, g') t' ∧ g.Beside g' ∧ t.Beside t' ∧
      g'.path = f'.path ∧ g'.depth = f'.depth := by
  rcases enter_eq_ok h with ⟨hclass, rfl, rfl, rfl⟩ | ⟨hclass, hclaim, version, hversion, rfl⟩
  · refine ⟨f', _, enter_of_none ?_, hf, hs, rfl, rfl⟩
    rw [Entries.entryClass?_mark, hclass]
  · obtain ⟨version', hversion', hsupports⟩ := version?_mark f'.path hf hversion
    obtain ⟨t', hclaim', ht⟩ := claimId_beside hf hs (es.mark f'.path)
      (by rw [Entries.field_mark, Node.text?_mark]) hclaim
    refine ⟨{ f' with version := version' }, t', ?_, ⟨hf.path, hf.depth, hsupports⟩, ht, rfl, rfl⟩
    rw [enter_of_isSome (by rwa [Entries.entryClass?_mark])]
    refine bind_eq_ok.2 ⟨_, _, hclaim', bind_eq_ok.2 ⟨_, _, ?_, rfl⟩⟩
    rw [hversion']
    rfl

end Steps

/-! ## Derivations with marks -/

/-- What the directives of a marked map make of it, beside what they make of the map. -/
inductive Expander.Directed.Beside (path : String) : Directed → Directed → Prop
  | replaced {r r' : Node} (h : r'.unmark = r) : Beside path (.replaced r) (.replaced r')
  | merged {es : Entries} : Beside path (.merged es) (.merged (es.mark path))
  | unchanged : Beside path .unchanged .unchanged

section Derivations

variable {x : Expander}

/-- A mark is a leaf, so that it is expanded to itself. -/
private lemma expandsEntries_mark {f : Frame} (hf : x.Passes f) (s : ExpansionState)
    (path : String) :
    ∃ s', s.Beside s' ∧ ∀ {levels : Nat} {r : Replacements} {es es' : Entries}
      {t : ExpansionState},
      ExpandsEntries x.marking levels f r es s' es' t →
        ExpandsEntries x.marking levels f r ((.null, .str path) :: es) s
          ((.null, .str path) :: es') t := by
  obtain ⟨ws, hws⟩ := hf s
  refine ⟨_, ⟨ws, rfl⟩, fun h => ?_⟩
  exact .value (by simp [Replacements.at?]) (.leaf trivial hws) h

/-- A map is marked by its values and one entry in front. -/
private lemma mark_map (path : String) (es : Entries) :
    (Node.map es).mark path = .map (es.mark path) :=
  rfl

/-- The entry for a new id gets no mark. -/
private lemma markValues_missing (path : String) (r : Replacements) (es : Entries) :
    Node.markValues path (r.missing es) = r.missing es := by
  rcases r.missing_eq es with h | ⟨id, h, -⟩ <;> rw [h] <;> rfl

/-- Without its marks, a marked map has lost the entry in front. -/
private lemma unmark_map_mark (path : String) (es : Entries) :
    (Node.map ((.null, .str path) :: es)).unmark = .map (Node.unmarkValues es) := rfl

/-- What is beside a state that is beside another one is beside the latter. -/
lemma ExpansionState.Beside.trans {s t u : ExpansionState} (h : s.Beside t) (h' : t.Beside u) :
    s.Beside u := by
  obtain ⟨ws, rfl⟩ := h
  obtain ⟨ws', rfl⟩ := h'
  exact ⟨ws', rfl⟩

/-- The mixin of a marked map is followed if that of the map is. -/
lemma Mixes.mark {f f' : Frame} (hf : f.Beside f') {es : Entries} {reference path : String}
    (h : Mixes f es reference) : Mixes f' (es.mark path) reference := by
  refine ⟨?_, ?_, ?_, hf.supportsMixin.trans h.version⟩
  · rw [Entries.directive?_mark, h.importing]
  · rw [Entries.directive?_mark, h.including]
  · rw [Entries.directive?_mark, h.mixing]

/-- No directive of a marked map is followed if none of the map is. -/
lemma Inert.mark {f f' : Frame} (hf : f.Beside f') {es : Entries} {path : String}
    (h : Inert f es) : Inert f' (es.mark path) := by
  refine ⟨?_, ?_, ?_⟩
  · rw [Entries.directive?_mark, h.importing]
  · rw [Entries.directive?_mark, h.including]
  · rw [Entries.directive?_mark, hf.supportsMixin]
    exact h.mixing

mutual

/-- **An expansion without merges goes the same with marks.**

**Proof sketch.** Induction on the derivation. The marked document is expanded from a state and at a
place beside the other one's, and its result has marks in front of the same maps. A mark itself is
expanded as a leaf, whose depth is checked where the depth of its map was checked before. -/
theorem Expands.mark : ∀ {levels : Nat} {stage : Stage} {f : Frame} {n r : Node}
    {s t : ExpansionState}, Expands x levels stage f n s r t → t.merges = 0 →
    ∀ {f' : Frame} {s' : ExpansionState}, f.Beside f' → s.Beside s' →
      (stage = .merged → x.Passes f') →
      ∃ r' t', Expands x.marking levels stage f' (n.mark f'.path) s' r' t' ∧ t.Beside t' ∧
        r'.unmark = r
  | _, _, _, n, _, _, _, .leaf hleaf hcheck, _, f', _, hf, hs, _ => by
    obtain ⟨t', hcheck', ht⟩ := checkDepth_beside hf hs hcheck
    cases n with
    | list _ | map _ => cases hleaf
    | scalar _ | set _ | pair _ _ => exact ⟨_, t', .leaf trivial hcheck', ht, rfl⟩
  | _, _, _, _, _, _, _, .list hcheck hitems, hm, f', _, hf, hs, _ => by
    obtain ⟨s₁, hcheck', hs₁⟩ := checkDepth_beside hf hs hcheck
    obtain ⟨items', t', hitems', ht, rfl⟩ := hitems.mark hm hf hs₁
    exact ⟨.list items', t', .list hcheck' hitems', ht, rfl⟩
  | _, _, _, _, _, _, _, @Expands.merged _ _ _ es _ _ _ _ _ hentries hrun, hm, f', s', hf, hs,
      hstage => by
    have hm₁ := hrun.later.merges_eq_zero hm
    obtain ⟨s₀, hs₀, hfront⟩ := expandsEntries_mark (hstage rfl) s' f'.path
    obtain ⟨values, s₁, hentries', hs₁, hvalues⟩ := hentries.mark hm₁ hf (hs.trans hs₀)
    obtain ⟨es', t', hrun', ht, rfl⟩ := hrun.mark hm hf hs₁ hvalues (.str f'.path)
    refine ⟨_, t', ?_, ht, unmark_map_mark f'.path _⟩
    rw [mark_map]
    refine .merged ?_ hrun'
    rw [Entries.importedRun?_mark]
    exact hfront hentries'
  | _, _, _, _, _, _, _, .replaced hcheck henter hdirect, hm, f', _, hf, hs, _ => by
    obtain ⟨s₁, hcheck', hs₁⟩ := checkDepth_beside hf hs hcheck
    obtain ⟨g', s₂, henter', hg, hs₂, hpath, hdepth⟩ := enter_beside hf hs₁ henter
    obtain ⟨directed', t', hdirect', ht, hbeside⟩ := hdirect.mark hm hg hs₂
    cases hbeside with
    | replaced hr =>
      rw [← withId_mark, hpath] at hdirect'
      exact ⟨_, t', .replaced hcheck' henter' hdirect', ht, hr⟩
  | _, _, _, _, _, _, _, .mixed hcheck henter hdirect hrest, hm, f', _, hf, hs, _ => by
    have hm₃ := hrest.later.merges_eq_zero hm
    obtain ⟨s₁, hcheck', hs₁⟩ := checkDepth_beside hf hs hcheck
    obtain ⟨g', s₂, henter', hg, hs₂, hpath, hdepth⟩ := enter_beside hf hs₁ henter
    obtain ⟨directed', s₃, hdirect', hs₃, hbeside⟩ := hdirect.mark hm₃ hg hs₂
    cases hbeside with
    | merged =>
      have hpasses : x.Passes g' := passes_of_checkDepth (hdepth.trans hf.depth) hcheck
      obtain ⟨r', t', hrest', ht, hr⟩ := hrest.mark hm hg hs₃ fun _ => hpasses
      rw [← withId_mark, hpath] at hdirect'
      rw [mark_map, hpath] at hrest'
      exact ⟨r', t', .mixed hcheck' henter' hdirect' hrest', ht, hr⟩
  | _, _, _, _, _, _, _, @Expands.unchanged _ _ _ _ es _ _ newId _ _ _ _ _ _ hcheck henter hdirect
      hentries hrun, hm, f', _, hf, hs, _ => by
    have hm₄ := hrun.later.merges_eq_zero hm
    have hm₃ := hentries.later.merges_eq_zero hm₄
    obtain ⟨s₁, hcheck', hs₁⟩ := checkDepth_beside hf hs hcheck
    obtain ⟨g', s₂, henter', hg, hs₂, hpath, hdepth⟩ := enter_beside hf hs₁ henter
    obtain ⟨directed', s₃, hdirect', hs₃, hbeside⟩ := hdirect.mark hm₃ hg hs₂
    cases hbeside with
    | unchanged =>
      have hpasses : x.Passes g' := passes_of_checkDepth (hdepth.trans hf.depth) hcheck
      obtain ⟨s₄, hs₄, hfront⟩ := expandsEntries_mark hpasses s₃ g'.path
      obtain ⟨values, s₅, hentries', hs₅, hvalues⟩ := hentries.mark hm₄ hg (hs₃.trans hs₄)
      obtain ⟨es', t', hrun', ht, rfl⟩ := hrun.mark hm hg hs₅ hvalues (.str g'.path)
      rw [← withId_mark, hpath] at hdirect'
      rw [Node.markValues_append, markValues_missing] at hentries'
      refine ⟨_, t', ?_, ht, unmark_map_mark g'.path _⟩
      rw [mark_map]
      refine .unchanged hcheck' henter' hdirect' ?_ hrun'
      rw [Entries.importedRun?_mark, missing_mark, ← hpath]
      exact hfront hentries'

/-- The expansion of a marked list is beside that of the list. -/
theorem ExpandsItems.mark : ∀ {levels : Nat} {f : Frame} {items items' : List Node}
    {s t : ExpansionState}, ExpandsItems x levels f items s items' t → t.merges = 0 →
    ∀ {f' : Frame} {s' : ExpansionState}, f.Beside f' → s.Beside s' →
      ∃ marked t', ExpandsItems x.marking levels f' (Node.markList f'.path items) s' marked t' ∧
        t.Beside t' ∧ Node.unmarkList marked = items'
  | _, _, _, _, _, _, .nil, _, _, s', _, hs => ⟨[], s', .nil, hs, rfl⟩
  | _, _, _, _, _, _, .cons hitem hitems, hm, _, _, hf, hs => by
    have hm₁ := hitems.later.merges_eq_zero hm
    obtain ⟨item', s₁, hitem', hs₁, rfl⟩ := hitem.mark hm₁ hf hs nofun
    obtain ⟨items', t', hitems', ht, rfl⟩ := hitems.mark hm hf hs₁
    exact ⟨item' :: items', t', .cons hitem' hitems', ht, rfl⟩

/-- The expansion of the marked values of a map is beside that of the values. -/
theorem ExpandsEntries.mark : ∀ {levels : Nat} {f : Frame} {r : Replacements} {es es' : Entries}
    {s t : ExpansionState}, ExpandsEntries x levels f r es s es' t → t.merges = 0 →
    ∀ {f' : Frame} {s' : ExpansionState}, f.Beside f' → s.Beside s' →
      ∃ marked t', ExpandsEntries x.marking levels f' r (Node.markValues f'.path es) s' marked t' ∧
        t.Beside t' ∧ Node.unmarkValues marked = es'
  | _, _, _, _, _, _, _, .nil, _, _, s', _, hs => ⟨[], s', .nil, hs, rfl⟩
  | _, _, _, _, _, _, _, .text htext hcheck hentries, hm, _, _, hf, hs => by
    obtain ⟨s₁, hcheck', hs₁⟩ := checkDepth_beside hf hs hcheck
    obtain ⟨values, t', hentries', ht, rfl⟩ := hentries.mark hm hf hs₁
    exact ⟨_, t', .text htext hcheck' hentries', ht, rfl⟩
  | _, _, _, _, _, _, _, .value htext hvalue hentries, hm, _, _, hf, hs => by
    have hm₁ := hentries.later.merges_eq_zero hm
    obtain ⟨v', s₁, hvalue', hs₁, rfl⟩ := hvalue.mark hm₁ hf hs nofun
    obtain ⟨values, t', hentries', ht, rfl⟩ := hentries.mark hm hf hs₁
    exact ⟨_, t', .value htext hvalue' hentries', ht, rfl⟩

/-- Following the text at `run` in a map with an entry in front is beside following it without. -/
theorem ExpandsRun.mark : ∀ {levels : Nat} {f : Frame} {es es' : Entries}
    {s t : ExpansionState}, ExpandsRun x levels f es s es' t → t.merges = 0 →
    ∀ {f' : Frame} {s' : ExpansionState}, f.Beside f' → s.Beside s' →
      ∀ {values : Entries}, Node.unmarkValues values = es → ∀ front : Node,
      ∃ marked t', ExpandsRun x.marking levels f' ((.null, front) :: values) s'
        ((.null, front) :: marked) t' ∧ t.Beside t' ∧ Node.unmarkValues marked = es'
  | _, _, _, _, _, _, .none hrun, _, _, s', _, hs, values, hvalues, front => by
    subst hvalues
    refine ⟨values, s', .none ?_, hs, rfl⟩
    rwa [Node.field_unmarkValues, Node.text?_unmark] at hrun
  | _, _, _, _, _, _, .absent hrun hload, hm, _, _, hf, hs, values, hvalues, front => by
    obtain ⟨document', t', hload', ht, hdocument⟩ := hload.mark hm hf hs
    rw [Option.map_eq_none_iff] at hdocument
    subst hdocument hvalues
    refine ⟨values, t', .absent ?_ hload', ht, rfl⟩
    rwa [Node.field_unmarkValues, Node.text?_unmark] at hrun
  | _, _, _, _, _, _, .loaded hrun hload, hm, _, _, hf, hs, values, hvalues, front => by
    subst hvalues
    obtain ⟨document', t', hload', ht, hdocument⟩ := hload.mark hm hf hs
    rw [Option.map_eq_some_iff] at hdocument
    obtain ⟨document', rfl, rfl⟩ := hdocument
    refine ⟨values.set "run" document', t', ?_, ht, Node.unmarkValues_set _ _ _⟩
    rw [Node.field_unmarkValues, Node.text?_unmark] at hrun
    have hfront : (Entries.field ((.null, front) :: values) "run").text? = some _ := hrun
    exact .loaded hfront hload'

/-- Following the directives of a marked map is beside following those of the map. -/
theorem Directs.mark : ∀ {levels : Nat} {f : Frame} {es : Entries} {s t : ExpansionState}
    {directed : Directed}, Directs x levels f es s directed t → t.merges = 0 →
    ∀ {f' : Frame} {s' : ExpansionState}, f.Beside f' → s.Beside s' →
      ∃ directed' t', Directs x.marking levels f' (es.mark f'.path) s' directed' t' ∧
        t.Beside t' ∧ directed.Beside f'.path directed'
  | _, _, _, _, _, _, .imported himport hload, hm, _, _, hf, hs => by
    obtain ⟨document', t', hload', ht, hdocument⟩ := hload.mark hm hf hs
    refine ⟨_, t', .imported (by rw [Entries.directive?_mark, himport]) hload', ht, .replaced ?_⟩
    cases document' <;> subst hdocument <;> rfl
  | _, _, _, _, _, _, .included himport hinclude hload, _, _, _, hf, hs => by
    unfold loadText at hload
    rw [← hf.path] at hload
    obtain ⟨t', hload', ht⟩ := loadFile_beside hs hload
    refine ⟨_, t', .included ?_ ?_ hload', ht, .replaced rfl⟩
    · rw [Entries.directive?_mark, himport]
    · rw [Entries.directive?_mark, hinclude]
  | _, _, _, _, _, _, .mixedAbsent hmixes hload, hm, _, _, hf, hs => by
    obtain ⟨document', t', hload', ht, hdocument⟩ := hload.mark hm hf hs
    rw [Option.map_eq_none_iff] at hdocument
    subst hdocument
    refine ⟨_, t', .mixedAbsent (hmixes.mark hf) hload', ht, ?_⟩
    rw [Entries.eraseDirective_mark]
    exact .merged
  | _, _, _, _, _, _, .mixedMap hmixes hload, hm, _, _, _, _ => by cases hm
  | _, _, _, _, _, _, .mixedOther hmixes hother hload, hm, _, _, hf, hs => by
    obtain ⟨document', t', hload', ht, hdocument⟩ := hload.mark hm hf hs
    rw [Option.map_eq_some_iff] at hdocument
    obtain ⟨document', rfl, rfl⟩ := hdocument
    refine ⟨_, t', .mixedOther (hmixes.mark hf) ?_ hload', ht, .unchanged⟩
    cases document' with
    | map _ => cases hother
    | scalar _ | list _ | set _ | pair _ _ => rfl
  | _, _, _, _, _, _, .inert hinert, _, _, s', hf, hs =>
    ⟨_, s', .inert (hinert.mark hf), hs, .unchanged⟩

/-- Loading a document with marks is beside loading it without. -/
theorem Loads.mark : ∀ {levels : Nat} {f : Frame} {reference : String} {document : Option Node}
    {s t : ExpansionState}, Loads x levels f reference s document t → t.merges = 0 →
    ∀ {f' : Frame} {s' : ExpansionState}, f.Beside f' → s.Beside s' →
      ∃ document' t', Loads x.marking levels f' reference s' document' t' ∧ t.Beside t' ∧
        document'.map Node.unmark = document
  | _, _, _, _, _, _, .absent hload, _, _, _, hf, hs => by
    rw [← hf.path] at hload
    obtain ⟨t', hload', ht⟩ := loadFile_beside hs hload
    exact ⟨none, t', .absent hload', ht, rfl⟩
  | _, f, _, _, _, _, @Loads.found _ _ _ _ path _ _ _ _ _ _ htarget hload hread hexpand, hm, f', _,
      hf, hs => by
    obtain ⟨s₁, hload', hs₁⟩ := loadFile_beside hs hload
    have hg : Frame.Beside { f with path := path, depth := f.depth + 1 }
        { f' with path := path, depth := f'.depth + 1 } :=
      ⟨rfl, congrArg (· + 1) hf.depth, hf.supportsMixin⟩
    obtain ⟨r', t', hexpand', ht, rfl⟩ := hexpand.mark hm hg hs₁ nofun
    rw [← hf.path] at htarget
    refine ⟨_, t', .found htarget hload' ?_ hexpand', ht, ?_⟩
    · show (x.read _ _).map _ = _
      rw [hread]
      rfl
    · rw [Node.isNull_unmark]
      split <;> rfl

end

end Derivations

end CwlDescriptor

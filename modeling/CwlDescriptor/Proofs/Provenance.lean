import CwlDescriptor.Proofs.Expansion.Kept
import CwlDescriptor.Proofs.Marks
set_option autoImplicit false

/-!
# Ids of entries and the files that they come from

Every entry of an expanded document has an id of its own, under which the file is recorded from
whose text it was read, provided that no new id was that of another entry already. Ids are claimed
one after another, each when it is free, so that the entries of two parts of a document never share
one.

## Main definitions

* `Node.entryMaps`: the entries of a document.
* `Node.PlainClasses`: no map of a document has a map as its class.
* `Claims`: entries whose ids were claimed between two states.

## Main results

* `Expands.claims`: an expansion without merges claims the ids of the entries of its result.
* `expandWithin_ids`: recorded paths are kept, ids are unique, and they lead to the files that the
  entries come from.
-/

namespace CwlDescriptor

open Expansion Expander

/-! ## The entries of a document -/

namespace Node

mutual

/-- The entries of a document that are reached through values and items. -/
def entryMaps : Node → List Entries
  | .list items => entryMapsList items
  | .map es => (if (Entries.entryClass? es).isSome then [es] else []) ++ entryMapsValues es
  | _ => []

/-- The entries of the items of a list. -/
def entryMapsList : List Node → List Entries
  | [] => []
  | item :: items => entryMaps item ++ entryMapsList items

/-- The entries of the values of a map. -/
def entryMapsValues : Entries → List Entries
  | [] => []
  | (_, v) :: es => entryMaps v ++ entryMapsValues es

end

mutual

/-- No map that is reached through values and items has a map as its class. -/
def PlainClasses : Node → Prop
  | .list items => PlainClassesList items
  | .map es => (Entries.field es "class").entries? = none ∧ PlainClassesValues es
  | _ => True

/-- No map of the items has a map as its class. -/
def PlainClassesList : List Node → Prop
  | [] => True
  | item :: items => PlainClasses item ∧ PlainClassesList items

/-- No map of the values has a map as its class. -/
def PlainClassesValues : Entries → Prop
  | [] => True
  | (_, v) :: es => PlainClasses v ∧ PlainClassesValues es

end

mutual

/-- Every map that is reached through values and items begins with the mark of a file, and none has
a map as its class. -/
def Traced (path : String) : Node → Prop
  | .list items => TracedList path items
  | .map es =>
    (es.head? = some (.null, .str path) ∧ (Entries.field es "class").entries? = none) ∧
      TracedValues path es
  | _ => True

/-- Every map of the items begins with the mark, and none has a map as its class. -/
def TracedList (path : String) : List Node → Prop
  | [] => True
  | item :: items => Traced path item ∧ TracedList path items

/-- Every map of the values begins with the mark, and none has a map as its class. -/
def TracedValues (path : String) : Entries → Prop
  | [] => True
  | (_, v) :: es => Traced path v ∧ TracedValues path es

end

variable {path : String}

/-- What is no map is none with marks. -/
private lemma entries?_mark_eq_none {n : Node} (h : n.entries? = none) :
    (n.mark path).entries? = none := by
  cases n with
  | map es => cases h
  | scalar _ | list _ | set _ | pair _ _ => rfl

mutual

/-- A document with marks is traced. -/
theorem PlainClasses.traced : ∀ n : Node, n.PlainClasses → (n.mark path).Traced path
  | .list items, h => PlainClassesList.traced items h
  | .map es, h => by
    refine ⟨⟨rfl, ?_⟩, trivial, PlainClassesValues.traced es h.2⟩
    have hclass : ((Entries.mark path es).field "class").entries? = none := by
      rw [Entries.field_mark]
      exact entries?_mark_eq_none h.1
    exact hclass
  | .scalar _, _ | .set _, _ | .pair .., _ => trivial

/-- The items of a marked list are traced, if their classes are plain. -/
theorem PlainClassesList.traced : ∀ items : List Node,
    PlainClassesList items → TracedList path (markList path items)
  | [], _ => trivial
  | item :: items, h => ⟨PlainClasses.traced item h.1, PlainClassesList.traced items h.2⟩

/-- The values of a marked map are traced, if their classes are plain. -/
theorem PlainClassesValues.traced : ∀ es : Entries,
    PlainClassesValues es → TracedValues path (markValues path es)
  | [], _ => trivial
  | (_, v) :: es, h => ⟨PlainClasses.traced v h.1, PlainClassesValues.traced es h.2⟩

end

/-- The values of a map stay traced when a text is set. -/
lemma TracedValues.insert {es : Entries} (h : TracedValues path es) (k : Scalar) (text : String) :
    TracedValues path (es.insert k (.str text)) := by
  induction es with
  | nil => exact ⟨trivial, trivial⟩
  | cons e es ih =>
    unfold Entries.insert
    split
    · exact ⟨trivial, h.2⟩
    · exact ⟨h.1, ih h.2⟩

/-- The values of a map stay traced when an entry is erased. -/
lemma TracedValues.erase {es : Entries} (h : TracedValues path es) (k : Scalar) :
    TracedValues path (es.erase k) := by
  induction es with
  | nil => trivial
  | cons e es ih =>
    unfold Entries.erase
    split
    · exact h.2
    · exact ⟨h.1, ih h.2⟩

/-- The values of two maps that are traced are traced together. -/
lemma TracedValues.append {es es' : Entries} (h : TracedValues path es)
    (h' : TracedValues path es') : TracedValues path (es ++ es') := by
  induction es with
  | nil => exact h'
  | cons e es ih => exact ⟨h.1, ih h.2⟩

/-- The entries of a value that takes the place of a text are added. -/
private lemma entryMapsValues_set {es : Entries} {name : String}
    (h : ((es.field name).text?).isSome) (document : Node) :
    (entryMapsValues (es.set name document)).Perm
      (entryMapsValues es ++ document.entryMaps) := by
  unfold Entries.set
  induction es with
  | nil => cases h
  | cons e es ih =>
    obtain ⟨k, v⟩ := e
    unfold Entries.insert
    by_cases hk : k = .str name
    · rw [if_pos (Scalar.sameKey_str.2 hk)]
      have hv : v.entryMaps = [] := by
        have hv : v.text?.isSome := by simpa [Entries.field, Entries.get?, hk] using h
        cases v with
        | scalar _ => rfl
        | list _ | map _ | set _ | pair _ _ => cases hv
      simp only [entryMapsValues, hv, List.nil_append]
      exact List.perm_append_comm
    · rw [if_neg fun hs => hk (Scalar.sameKey_str.1 hs)]
      have h : ((Entries.field es name).text?).isSome := by
        simpa [Entries.field, Entries.get?, hk] using h
      simp only [entryMapsValues, List.append_assoc]
      exact (ih h).append_left _

/-- The mark in front is no entry. -/
private lemma entryMapsValues_dropMark (es : Entries) :
    entryMapsValues es.dropMark = entryMapsValues es := by
  unfold Entries.dropMark
  split <;> rfl

mutual

/-- The entries of a document without marks are its entries without marks. -/
theorem entryMaps_unmark : ∀ n : Node, n.unmark.entryMaps = n.entryMaps.map Entries.unmark
  | .list items => entryMapsList_unmark items
  | .map es => by
    have hclass : (Entries.unmark es).entryClass? = Entries.entryClass? es := by
      unfold Entries.entryClass?
      rw [Entries.field_unmark, text?_unmark]
    have hvalues : entryMapsValues (Entries.unmark es) =
        (entryMapsValues es).map Entries.unmark := by
      rw [Entries.unmark, entryMapsValues_dropMark, entryMapsValues_unmark es]
    show (if (Entries.unmark es).entryClass?.isSome then [Entries.unmark es] else []) ++
      entryMapsValues (Entries.unmark es) = _
    rw [hclass, hvalues, entryMaps, List.map_append]
    split <;> rfl
  | .scalar _ | .set _ | .pair .. => rfl

/-- The entries of a list without its marks are those of the list without theirs. -/
theorem entryMapsList_unmark : ∀ items : List Node,
    entryMapsList (unmarkList items) = (entryMapsList items).map Entries.unmark
  | [] => rfl
  | item :: items => by
    simp only [unmarkList, entryMapsList, List.map_append, entryMaps_unmark item,
      entryMapsList_unmark items]

/-- The entries of the values of a map without their marks are those of the values without theirs.
-/
theorem entryMapsValues_unmark : ∀ es : Entries,
    entryMapsValues (unmarkValues es) = (entryMapsValues es).map Entries.unmark
  | [] => rfl
  | (_, v) :: es => by
    simp only [unmarkValues, entryMapsValues, List.map_append, entryMaps_unmark v,
      entryMapsValues_unmark es]

end

end Node

/-! ## Claimed ids -/

/-- Between the states `s` and `t` the ids of the entries `maps` were claimed, one after another:
each was free before, and the file that the mark of its entry names is recorded for it. -/
structure Claims (s t : ExpansionState) (maps : List Entries) : Prop where
  nodup : (maps.map (·.field "id")).Nodup
  claimed : ∀ es ∈ maps, ∃ id path, es.field "id" = .str id ∧ es.mark? = some path ∧
    Table.get? s.idPaths id = none ∧
    Table.get? t.idPaths id = some (Path.stripSlashes path)

/-- In a run that has come to the state `t`, no id was made that was that of another entry, no
document was merged into a map, and the documents that were read are traced. -/
structure Untangled (x : Expander) (t : ExpansionState) : Prop where
  clashes : t.clashes = 0
  merges : t.merges = 0
  traced : ∀ path document, ⟨some path, true⟩ ∈ t.requests →
    x.documentOf? ⟨some path, true⟩ = some document → document.Traced path

namespace Untangled

variable {x : Expander} {s t : ExpansionState}

/-- What is untangled later has been so before. -/
private lemma of_later (h : Untangled x t) (hst : Later s t) : Untangled x s where
  clashes := hst.clashes_eq_zero h.clashes
  merges := hst.merges_eq_zero h.merges
  traced path document hmem := h.traced path document (hst.requests.subset hmem)

/-- A path that is recorded for an id stays recorded. -/
lemma kept (h : Untangled x t) (hst : Later s t) {id path : String}
    (hs : Table.get? s.idPaths id = some path) : Table.get? t.idPaths id = some path :=
  hst.kept (h.clashes.trans (h.of_later hst).clashes.symm) id path hs

/-- An id that is free is free before. -/
private lemma free (h : Untangled x t) (hst : Later s t) {id : String}
    (ht : Table.get? t.idPaths id = none) : Table.get? s.idPaths id = none := by
  cases hs : Table.get? s.idPaths id with
  | none => rfl
  | some path =>
    rw [h.kept hst hs] at ht
    cases ht

end Untangled

namespace Claims

variable {x : Expander} {s t u : ExpansionState} {maps maps' : List Entries}

/-- Without entries there is nothing to be claimed. -/
lemma nil (s t : ExpansionState) : Claims s t [] :=
  ⟨List.nodup_nil, nofun⟩

/-- What was claimed in a part of a run was claimed in the run. -/
lemma weaken (h : Claims s t maps) {s' t' : ExpansionState} (ht : Untangled x t')
    (hs : Later s' s) (hst : Later s t) (htt : Later t t') : Claims s' t' maps where
  nodup := h.nodup
  claimed es hes := by
    obtain ⟨id, path, hid, hmark, hfree, hpath⟩ := h.claimed es hes
    exact ⟨id, path, hid, hmark, (ht.of_later (hst.trans htt)).free hs hfree, ht.kept htt hpath⟩

/-- What is claimed later has other ids. -/
lemma append (h : Claims s t maps) (h' : Claims t u maps') (hu : Untangled x u)
    (hst : Later s t) (htu : Later t u) : Claims s u (maps ++ maps') where
  nodup := by
    rw [List.map_append, List.nodup_append]
    refine ⟨h.nodup, h'.nodup, ?_⟩
    rintro a ha b hb rfl
    obtain ⟨es, hes, hid⟩ := List.mem_map.1 ha
    obtain ⟨es', hes', hid'⟩ := List.mem_map.1 hb
    obtain ⟨id, path, hfield, -, -, hpath⟩ := h.claimed es hes
    obtain ⟨id', path', hfield', -, hfree, -⟩ := h'.claimed es' hes'
    -- an id that was claimed in the first part is not free in the second one
    have heq : Node.str id = Node.str id' := by
      rw [← hfield, ← hfield', hid, hid']
    cases heq
    rw [hpath] at hfree
    cases hfree
  claimed es hes := by
    rcases List.mem_append.1 hes with hes | hes
    · exact (h.weaken hu (.refl s) hst htu).claimed es hes
    · exact (h'.weaken hu hst htu (.refl u)).claimed es hes

/-- The order of the entries does not matter for their claims. -/
private lemma perm (h : Claims s t maps) (hp : maps'.Perm maps) : Claims s t maps' where
  nodup := (hp.map _).nodup_iff.2 h.nodup
  claimed es hes := h.claimed es (hp.mem_iff.1 hes)

end Claims

/-- An entry claims an id when it is entered, and the path of its file is recorded. -/
private lemma enter_claims {x : Expander} {f g : Frame} {es : Entries} {newId : Option String}
    {s t : ExpansionState} (h : x.enter f es s = .ok (newId, g) t) (ht : t.clashes = 0)
    (hclass : es.entryClass?.isSome) :
    ∃ id, (withId es newId).field "id" = .str id ∧ Table.get? s.idPaths id = none ∧
      Table.get? t.idPaths id = some (Path.stripSlashes f.path) := by
  rcases enter_eq_ok h with ⟨hnone, -⟩ | ⟨-, hclaim, -⟩
  · rw [hnone] at hclass
    cases hclass
  · rcases claimId_cases x es f.path s with ⟨id, hid, hfree, hc⟩ | ⟨-, hc⟩
    · rw [hc] at hclaim
      cases hclaim
      refine ⟨id, ?_, Table.hasKey_eq_false_iff.1 hfree, ?_⟩
      · show es.field "id" = .str id
        generalize es.field "id" = v at hid
        cases v with
        | scalar v =>
          cases v <;> cases hid
          rfl
        | list _ | map _ | set _ | pair _ _ => cases hid
      · show Table.get? (Table.insert s.idPaths id _) id = _
        rw [Table.get?_insert, if_pos rfl]
    · rw [hc] at hclaim
      cases hclaim
      refine ⟨x.newId s.idCount, ?_, ?_, ?_⟩
      · show (es.set "id" (.str (x.newId s.idCount))).field "id" = _
        rw [Entries.field_set_self]
      · -- had the new id been taken, it would have been counted
        cases hk : Table.hasKey s.idPaths (x.newId s.idCount) with
        | false => exact Table.hasKey_eq_false_iff.1 hk
        | true =>
          have ht : (if Table.hasKey s.idPaths (x.newId s.idCount) then s.clashes + 1
            else s.clashes) = 0 := ht
          rw [hk] at ht
          cases ht
      · show Table.get? (Table.insert s.idPaths _ _) _ = _
        rw [Table.get?_insert, if_pos rfl]

/-! ## The ids of an expanded document -/

/-- The entries whose ids the expansion of a document claims: those of a map into which a mixin was
merged have claimed its own id before. -/
def Node.entryMapsFrom : Stage → Node → List Entries
  | .whole, n => n.entryMaps
  | .merged, .map es => entryMapsValues es
  | .merged, _ => []

section Claimed

variable {x : Expander}

/-- An entry claims its id, and then its values claim theirs. -/
private lemma claims_map {f g : Frame} {es es' : Entries} {newId : Option String}
    {s t u : ExpansionState} (henter : x.enter f es s = .ok (newId, g) t) (hu : Untangled x u)
    (htu : Later t u) (hhead : es'.head? = some (.null, .str f.path))
    (hclass : (es'.field "class").text? = (es.field "class").text?)
    (hid : ∀ id, (withId es newId).field "id" = .str id → es'.field "id" = .str id)
    (hvalues : Claims t u (Node.entryMapsValues es')) : Claims s u (Node.map es').entryMaps := by
  have hst := enter_later henter
  have hclass' : es'.entryClass? = es.entryClass? := by
    unfold Entries.entryClass?
    rw [hclass]
  unfold Node.entryMaps
  rw [hclass']
  split
  · next hentry =>
    refine Claims.append (t := t) ⟨List.nodup_singleton _, ?_⟩ hvalues hu hst htu
    intro es'' hes''
    obtain rfl := List.mem_singleton.1 hes''
    obtain ⟨id, hfield, hfree, hpath⟩ := enter_claims henter (hu.of_later htu).clashes hentry
    refine ⟨id, f.path, hid id hfield, ?_, hfree, hpath⟩
    cases es'' with
    | nil => cases hhead
    | cons e es'' =>
      cases hhead
      rfl
  · exact hvalues.weaken hu hst htu (.refl u)

/-- A traced map stays traced when it gets a new id. -/
lemma Node.Traced.withId {path : String} {es : Entries} (h : (Node.map es).Traced path)
    (newId : Option String) : (Node.map (withId es newId)).Traced path := by
  refine ⟨⟨head?_withId newId h.1.1, ?_⟩, ?_⟩
  · rw [field_withId newId (by decide)]
    exact h.1.2
  · cases newId with
    | none => exact h.2
    | some id => exact h.2.insert _ _

/-- A traced map stays traced when its mixin is removed. -/
lemma Node.Traced.eraseDirective {path : String} {es : Entries} (h : (Node.map es).Traced path) :
    (Node.map (es.eraseDirective .mixing)).Traced path := by
  refine ⟨⟨Entries.head?_eraseDirective h.1.1 .mixing, ?_⟩, ?_⟩
  · rw [Entries.field_eraseDirective (by decide)]
    exact h.1.2
  · unfold Entries.eraseDirective
    split
    · exact h.2
    · exact h.2.erase _

/-- A traced map stays traced when the entry for a new id is added. -/
lemma Node.Traced.missing {path : String} {es : Entries} (h : (Node.map es).Traced path)
    (r : Replacements) : (Node.map (es ++ r.missing es)).Traced path := by
  have hhead : (es ++ r.missing es).head? = some (.null, .str path) := by
    rw [List.head?_append, h.1.1]
    rfl
  refine ⟨⟨hhead, ?_⟩, ?_⟩
  · rw [field_missing _ _ (by decide)]
    exact h.1.2
  · refine h.2.append ?_
    rcases r.missing_eq es with hmissing | ⟨id, hmissing, -⟩
    · rw [hmissing]
      trivial
    · rw [hmissing]
      exact ⟨trivial, trivial⟩

/-- A map whose directives are not followed is the same entry behind its expansion. -/
private lemma claims_unchanged {levels : Nat} {f g : Frame} {es values es' : Entries}
    {newId run : Option String} {s t u v w : ExpansionState}
    (henter : x.enter f es s = .ok (newId, g) t) (hw : Untangled x w)
    (hn : (Node.map es).Traced f.path) (htu : Later t u)
    (hentries : ExpandsEntries x levels g ⟨newId, run⟩
      (es ++ Replacements.missing ⟨newId, run⟩ es) u values v)
    (hrun : ExpandsRun x levels g values v es' w)
    (hclaims : Claims u w (Node.entryMapsValues es')) : Claims s w (Node.map es').entryMaps := by
  have huw := hentries.later.trans hrun.later
  refine claims_map henter hw (htu.trans huw) ?_ ?_ ?_ (hclaims.weaken hw htu huw (.refl w))
  · exact hrun.head? (hentries.head? (hn.missing _).1.1)
  · rw [hrun.field (by decide), text?_class_of_unchanged hentries hn.1.2]
  · intro id hid
    rw [hrun.field (by decide)]
    exact field_id_of_unchanged hentries hid

/-- What is left of a map when its mixin is removed is the same entry. -/
private lemma claims_mixed {levels : Nat} {f g : Frame} {es entries : Entries}
    {newId : Option String}
    {r : Node} {s t u v : ExpansionState} (henter : x.enter f es s = .ok (newId, g) t)
    (hv : Untangled x v) (hn : (Node.map es).Traced f.path) (htu : Later t u)
    (hentries : entries = (withId es newId).eraseDirective .mixing)
    (hrest : Expands x levels .merged g (.map entries) u r v)
    (hclaims : Claims u v (r.entryMapsFrom .merged)) : Claims s v r.entryMaps := by
  subst hentries
  have hn' := (hn.withId newId).eraseDirective
  have huv := hrest.later
  cases hrest with
  | leaf hleaf => cases hleaf
  | merged hvalues hrun =>
    refine claims_map henter hv (htu.trans huv) ?_ ?_ ?_ (hclaims.weaken hv htu huv (.refl v))
    · exact hrun.head? (hvalues.head? hn'.1.1)
    · rw [hrun.field (by decide), hvalues.text?_class hn'.1.2,
        Entries.field_eraseDirective (by decide), field_withId _ (by decide)]
    · intro id hid
      rw [hrun.field (by decide)]
      refine hvalues.field_id rfl ?_
      rw [Entries.field_eraseDirective (by decide), hid]

mutual

/-- **An expansion without merges claims the ids of the entries of its result.**

**Proof sketch.** Induction on the derivation of the expansion of a traced document. An entry claims
its id before its values are expanded, and keeps its mark, its class and its id from then on. What
is loaded claims its ids where it is loaded, and no two parts of a document claim the same. -/
theorem Expands.claims : ∀ {levels : Nat} {stage : Stage} {f : Frame} {n r : Node}
    {s t : ExpansionState}, Expands x levels stage f n s r t → Untangled x t → n.Traced f.path →
      Claims s t (r.entryMapsFrom stage)
  | _, stage, _, n, _, _, _, .leaf hleaf _, _, _ => by
    cases n with
    | list _ | map _ => cases hleaf
    | scalar _ | set _ | pair _ _ => cases stage <;> exact .nil _ _
  | _, .merged, _, _, _, _, _, .list _ _, _, _ => .nil _ _
  | _, .whole, _, _, _, _, t, .list hcheck hitems, ht, hn => by
    have hclaims := hitems.claims ht hn
    exact hclaims.weaken ht (checkDepth_later hcheck) hitems.later (.refl t)
  | _, _, _, _, _, _, _, .merged hentries hrun, ht, hn => by
    have hclaims := hentries.claims (ht.of_later hrun.later) hn.2
    exact hrun.claims ht hentries.later hclaims
  | _, _, _, _, _, _, t, .replaced hcheck henter hdirect, ht, _ => by
    have hclaims := hdirect.claims ht
    have hbefore := (checkDepth_later hcheck).trans (enter_later henter)
    exact hclaims.weaken ht hbefore hdirect.later (.refl t)
  | _, _, _, _, _, _, t, @Expands.mixed _ _ _ _ _ _ newId _ _ _ _ _ _ hcheck henter hdirect hrest,
      ht, hn => by
    have hentries := hdirect.claims (ht.of_later hrest.later)
    have htraced := (hn.withId newId).eraseDirective
    rw [← hentries, ← path_of_enter henter] at htraced
    have hclaims := hrest.claims ht htraced
    have hmap := claims_mixed henter ht hn hdirect.later hentries hrest hclaims
    have hafter := (enter_later henter).trans (hdirect.later.trans hrest.later)
    exact hmap.weaken ht (checkDepth_later hcheck) hafter (.refl t)
  | _, _, _, _, _, _, t, @Expands.unchanged _ _ _ _ es _ _ newId _ _ _ _ _ _ hcheck henter hdirect
      hentries hrun, ht, hn => by
    have htraced := (hn.missing ⟨newId, es.importedRun?⟩).2
    rw [← path_of_enter henter] at htraced
    have hvalues := hentries.claims (ht.of_later hrun.later) htraced
    have hclaims := hrun.claims ht hentries.later hvalues
    have hmap := claims_unchanged henter ht hn hdirect.later hentries hrun hclaims
    have hafter := (enter_later henter).trans
      (hdirect.later.trans (hentries.later.trans hrun.later))
    exact hmap.weaken ht (checkDepth_later hcheck) hafter (.refl t)

/-- The entries of an expanded list have claimed their ids. -/
theorem ExpandsItems.claims : ∀ {levels : Nat} {f : Frame} {items items' : List Node}
    {s t : ExpansionState}, ExpandsItems x levels f items s items' t → Untangled x t →
      Node.TracedList f.path items → Claims s t (Node.entryMapsList items')
  | _, _, _, _, _, _, .nil, _, _ => .nil _ _
  | _, _, _, _, _, _, .cons hitem hitems, ht, hn => by
    have hfirst := hitem.claims (ht.of_later hitems.later) hn.1
    exact hfirst.append (hitems.claims ht hn.2) ht hitem.later hitems.later

/-- The entries of the expanded values of a map have claimed their ids. -/
theorem ExpandsEntries.claims : ∀ {levels : Nat} {f : Frame} {r : Replacements}
    {es es' : Entries} {s t : ExpansionState}, ExpandsEntries x levels f r es s es' t →
      Untangled x t → Node.TracedValues f.path es → Claims s t (Node.entryMapsValues es')
  | _, _, _, _, _, _, _, .nil, _, _ => .nil _ _
  | _, _, _, _, _, _, t, .text _ hcheck hentries, ht, hn => by
    have hclaims := hentries.claims ht hn.2
    exact hclaims.weaken ht (checkDepth_later hcheck) hentries.later (.refl t)
  | _, _, _, _, _, _, _, .value _ hvalue hentries, ht, hn => by
    have hfirst := hvalue.claims (ht.of_later hentries.later) hn.1
    exact hfirst.append (hentries.claims ht hn.2) ht hvalue.later hentries.later

/-- What a text at the key `run` is replaced by claims its ids behind those of the values. -/
theorem ExpandsRun.claims : ∀ {levels : Nat} {f : Frame} {es es' : Entries}
    {s t : ExpansionState}, ExpandsRun x levels f es s es' t → Untangled x t →
      ∀ {s₀ : ExpansionState}, Later s₀ s → Claims s₀ s (Node.entryMapsValues es) →
        Claims s₀ t (Node.entryMapsValues es')
  | _, _, _, _, _, _, .none _, _, _, _, h => h
  | _, _, _, _, _, _, .absent _ hload, ht, _, hs, h => h.weaken ht (.refl _) hs hload.later
  | _, _, _, _, _, _, .loaded hrun hload, ht, _, hs, h => by
    have hclaims := h.append (hload.claims ht) ht hs hload.later
    exact hclaims.perm (Node.entryMapsValues_set (Option.isSome_of_eq_some hrun) _)

/-- A document that takes the place of a map claims its ids; without merges nothing is added to a
map by its mixin. -/
theorem Directs.claims : ∀ {levels : Nat} {f : Frame} {es : Entries} {s t : ExpansionState}
    {directed : Directed}, Directs x levels f es s directed t → Untangled x t →
      match directed with
      | .replaced r => Claims s t r.entryMaps
      | .merged entries => entries = es.eraseDirective .mixing
      | .unchanged => True
  | _, _, _, _, _, _, @Directs.imported _ _ _ _ _ document _ _ _ hload, ht => by
    have h := hload.claims ht
    cases document with
    | none => exact .nil _ _
    | some document => exact h
  | _, _, _, _, _, _, .included _ _ _, _ => .nil _ _
  | _, _, _, _, _, _, .mixedAbsent _ _, _ => rfl
  | _, _, _, _, _, _, .mixedMap _ _, ht => by cases ht.merges
  | _, _, _, _, _, _, .mixedOther _ _ _, _ => trivial
  | _, _, _, _, _, _, .inert _, _ => trivial

/-- The entries of a loaded document have claimed their ids. -/
theorem Loads.claims : ∀ {levels : Nat} {f : Frame} {reference : String} {document : Option Node}
    {s t : ExpansionState}, Loads x levels f reference s document t → Untangled x t →
      Claims s t (document.elim [] Node.entryMaps)
  | _, _, _, _, _, _, .absent _, _ => .nil _ _
  | _, _, _, _, _, t, .found _ hload hread hexpand, ht => by
    obtain ⟨hrequests, hdocument⟩ := documentOf?_of_loadFile hload hread
    have hmem := hexpand.later.requests.subset (hrequests ▸ List.mem_append_right _
      (List.mem_singleton_self _))
    have h := hexpand.claims ht (ht.traced _ _ hmem hdocument)
    have hs : Later _ _ := loadFile_later hload
    split
    · exact .nil _ _
    · exact h.weaken ht hs hexpand.later (.refl t)

end

end Claimed

/-- With marks, the document of a request has the mark of its path. -/
private lemma documentOf?_marking (x : Expander) (path : String) :
    x.marking.documentOf? ⟨some path, true⟩ =
      (x.documentOf? ⟨some path, true⟩).map (Node.mark path) := by
  show (x.store.get? path).bind (fun text => ((x.read text (some path)).map _).toOption) =
    ((x.store.get? path).bind fun text => (x.read text (some path)).toOption).map _
  cases x.store.get? path with
  | none => rfl
  | some text =>
    show ((x.read text (some path)).map _).toOption = ((x.read text (some path)).toOption).map _
    cases x.read text (some path) <;> rfl

/-- **Ids are unique and lead to the files that entries come from.** Suppose that no new id is that
of another entry. Then every expansion, whether it succeeds or fails, keeps the paths that were
recorded before it. And if a first expansion succeeds without merging a document into a map, and no
map of the documents that it reads has a map as its class, then the entries of its result have texts
as ids, no two of them the same, and the path that is found for an id is that of the file from whose
text the entry was read: the expansion of the documents with marks goes the same, and the mark of
an entry is the path of its file.

**Proof sketch.** The expansion goes the same with marks by `Expands.mark`, and there the ids of the
entries of the result are claimed one after another by `Expands.claims`. -/
theorem expandWithin_ids (x : Expander) (levels : Nat) (frame : Frame) (document : Node) :
    (∀ s, (final (x.expandWithin levels .whole frame document) s).clashes = s.clashes →
      ∀ id path, Table.get? s.idPaths id = some path →
        Table.get? (final (x.expandWithin levels .whole frame document) s).idPaths id =
          some path) ∧
    ∀ r t, x.expandWithin levels .whole frame document {} = .ok r t → t.clashes = 0 →
      t.merges = 0 → document.PlainClasses →
      (∀ request ∈ t.requests, ∀ d, x.documentOf? request = some d → d.PlainClasses) →
      ∃ marked t', x.marking.expandWithin levels .whole frame (document.mark frame.path) {} =
          .ok marked t' ∧ t.Beside t' ∧ marked.unmark = r ∧
        r.entryMaps = marked.entryMaps.map Entries.unmark ∧
        (r.entryMaps.map (·.field "id")).Nodup ∧
        ∀ es ∈ marked.entryMaps, ∃ id path, es.unmark.field "id" = .str id ∧
          es.mark? = some path ∧ t.pathOfId (.str id) = .ok (some (Path.stripSlashes path)) := by
  refine ⟨fun s => (expandWithin_later x levels .whole frame document s).kept, ?_⟩
  intro r t h hclashes hmerges hdocument hdocuments
  obtain ⟨marked, t', hmarked, ⟨ws, rfl⟩, rfl⟩ :=
    (expands_iff.2 h).mark hmerges ⟨rfl, rfl, rfl⟩ ⟨_, rfl⟩ fun hstage => by cases hstage
  have huntangled : Untangled x.marking { t with warnings := ws } := by
    refine ⟨hclashes, hmerges, fun path d hmem hd => ?_⟩
    rw [documentOf?_marking, Option.map_eq_some_iff] at hd
    obtain ⟨d, hd, rfl⟩ := hd
    exact Node.PlainClasses.traced d (hdocuments _ hmem d hd)
  have hclaims := hmarked.claims huntangled (Node.PlainClasses.traced document hdocument)
  have hid : ∀ es ∈ marked.entryMaps, es.unmark.field "id" = es.field "id" := by
    intro es hes
    obtain ⟨id, path, hfield, -⟩ := hclaims.claimed es hes
    rw [Entries.field_unmark, hfield]
    rfl
  refine ⟨marked, _, expands_iff.1 hmarked, ⟨ws, rfl⟩, rfl, Node.entryMaps_unmark marked, ?_, ?_⟩
  · rw [Node.entryMaps_unmark, List.map_map]
    have hmap : marked.entryMaps.map ((·.field "id") ∘ Entries.unmark) =
        marked.entryMaps.map (·.field "id") := List.map_congr_left hid
    rw [hmap]
    exact hclaims.nodup
  · intro es hes
    obtain ⟨id, path, hfield, hmark, -, hpath⟩ := hclaims.claimed es hes
    exact ⟨id, path, (hid es hes).trans hfield, hmark, congrArg Except.ok hpath⟩

/-- A list of two entries with the same id and of an import. -/
def twins : Node :=
  .list [.map [(.str "class", .str "Workflow"), (.str "id", .str "a")],
    .map [(.str "class", .str "CommandLineTool"), (.str "id", .str "a")],
    .map [(.str "$import", .str "f")]]

/-- The two entries with the second one's new id, and what is imported. -/
def untwinned : Node :=
  .list [.map [(.str "class", .str "Workflow"), (.str "id", .str "a")],
    .map [(.str "class", .str "CommandLineTool"), (.str "id", .str "0")], .list []]

/-- The second of the entries gets a new id. -/
theorem twins_expandWithin_ids :
    ∃ t, shelf.expandWithin 1 .whole (.root "/main") twins {} = .ok untwinned t ∧
      t.clashes = 0 ∧ t.merges = 0 ∧ twins.PlainClasses ∧
      (∀ request ∈ t.requests, ∀ d, shelf.documentOf? request = some d → d.PlainClasses) ∧
      (untwinned.entryMaps.map (·.field "id")).Nodup ∧
      ∃ marked : Node, marked.unmark = untwinned ∧ ∀ es ∈ marked.entryMaps, ∃ id path,
        es.unmark.field "id" = .str id ∧ es.mark? = some path ∧
          t.pathOfId (.str id) = .ok (some (Path.stripSlashes path)) := by
  obtain ⟨t, h, hclashes, hmerges, hrequests⟩ :
      ∃ t, shelf.expandWithin 1 .whole (.root "/main") twins {} = .ok untwinned t ∧
        t.clashes = 0 ∧ t.merges = 0 ∧ t.requests = [⟨some "/f", true⟩] :=
    ⟨_, rfl, rfl, rfl, rfl⟩
  have hplain : twins.PlainClasses := by
    simp [twins, Node.PlainClasses, Node.PlainClassesList, Node.PlainClassesValues,
      Entries.field, Entries.get?, Node.entries?]
  have hread : ∀ request ∈ t.requests, ∀ d, shelf.documentOf? request = some d →
      d.PlainClasses := by
    intro request hmem d hd
    rw [hrequests, List.mem_singleton] at hmem
    subst hmem
    have hf : shelf.documentOf? ⟨some "/f", true⟩ = some (.list []) := rfl
    rw [hf] at hd
    cases hd
    trivial
  obtain ⟨marked, _, -, -, hunmark, -, hnodup, hmarks⟩ :=
    (expandWithin_ids shelf 1 (.root "/main") twins).2 untwinned t h hclashes hmerges hplain hread
  exact ⟨t, h, hclashes, hmerges, hplain, hread, hnodup, marked, hunmark, hmarks⟩

end CwlDescriptor

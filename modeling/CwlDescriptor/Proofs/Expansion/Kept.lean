import CwlDescriptor.Proofs.Entries
import CwlDescriptor.Proofs.Expansion.Derivation
set_option autoImplicit false

/-!
# What an expansion keeps of a map

The expansion of the values of a map keeps leaves, and makes no text of what is no map. So a map
keeps its first entry if that holds a text, its class if that is no map, and its id, which is the
new one if it has got one. What takes the place of a text at the key `run` changes no other key.

## Main definitions

* `Kept`: the value of a key behind the expansion of the values.

## Main results

* `ExpandsEntries.kept`: the values of a map are kept in this sense.
* `text?_class_of_unchanged`, `field_id_of_unchanged`: the class and the id of a map whose
  directives are not followed.
-/

namespace CwlDescriptor

open Expansion Expander

/-- The value of a key behind the expansion of the values: a text that took its place, or its
expansion, which keeps leaves and makes no text of what is no map. -/
def Kept (r : Replacements) (k : Scalar) (v v' : Node) : Prop :=
  match r.at? k with
  | some text => v' = .str text
  | none => (v.IsLeaf → v' = v) ∧ (v.entries? = none → v'.text? = v.text?)

/-- Where a text takes the place of a value, the new value is this text. -/
lemma kept_of_some {r : Replacements} {k : Scalar} {v v' : Node} {text : String}
    (h : r.at? k = some text) : Kept r k v v' ↔ v' = .str text := by
  unfold Kept
  rw [h]

/-- Where no text takes the place of a value, leaves are kept, and so is the text of what is no map.
-/
lemma kept_of_none {r : Replacements} {k : Scalar} {v v' : Node} (h : r.at? k = none) :
    Kept r k v v' ↔ (v.IsLeaf → v' = v) ∧ (v.entries? = none → v'.text? = v.text?) := by
  unfold Kept
  rw [h]

/-- At the key `id` stands the new id, if there is one. -/
private lemma Replacements.at?_id (r : Replacements) : r.at? (.str "id") = r.id :=
  if_pos rfl

/-- At the key `run` stands what its import stands for, if it is one. -/
private lemma Replacements.at?_run (r : Replacements) : r.at? (.str "run") = r.run := by
  rw [at?, if_neg (by decide), if_pos rfl]

/-- What takes the place of the value of `run` is the import there. -/
lemma Replacements.at?_run_of_get? {r : Replacements} {es : Entries} {v : Node}
    (hr : r.run = es.importedRun?) (hget : es.get? "run" = some v) :
    r.at? (.str "run") = v.entries?.bind (Entries.directive? .importing) := by
  rw [r.at?_run, hr, Entries.importedRun?, Entries.field, hget, Option.getD_some]

/-- An expansion keeps leaves, and the text of what is no map. -/
lemma Expands.kept {x : Expander} {levels : Nat} {f : Frame} {v v' : Node}
    {s t : ExpansionState} (h : Expands x levels .whole f v s v' t) :
    (v.IsLeaf → v' = v) ∧ (v.entries? = none → v'.text? = v.text?) := by
  cases h with
  | leaf hleaf hcheck => exact ⟨fun _ => rfl, fun _ => rfl⟩
  | list hcheck hitems => exact ⟨False.elim, fun _ => rfl⟩
  | replaced | mixed | unchanged => exact ⟨False.elim, nofun⟩

/-- The expansion of the values of a map keeps its keys, and values in so far as they are leaves. -/
lemma ExpandsEntries.kept {x : Expander} {levels : Nat} {f : Frame} {r : Replacements} :
    ∀ {es es' : Entries} {s t : ExpansionState}, ExpandsEntries x levels f r es s es' t →
      Entries.Related (Kept r) es es'
  | _, _, _, _, .nil => .nil
  | _, _, _, _, .text htext _ hentries =>
    .cons ⟨rfl, (kept_of_some htext).2 rfl⟩ hentries.kept
  | _, _, _, _, .value htext hvalue hentries =>
    .cons ⟨rfl, (kept_of_none htext).2 hvalue.kept⟩ hentries.kept

section Fields

variable {x : Expander} {levels : Nat} {f : Frame} {r : Replacements} {es es' : Entries}
  {s t : ExpansionState} {path : String}

/-- The mark of a map is expanded to itself. -/
lemma ExpandsEntries.head? (h : ExpandsEntries x levels f r es s es' t)
    (hhead : es.head? = some (.null, .str path)) : es'.head? = some (.null, .str path) := by
  cases h.kept with
  | nil => cases hhead
  | @cons e e' _ _ he _ =>
    obtain ⟨k, v⟩ := e
    obtain ⟨k', v'⟩ := e'
    obtain ⟨rfl, hv⟩ := he
    cases hhead
    have hmark : v' = .str path := ((kept_of_none rfl).1 hv).1 trivial
    rw [List.head?_cons, hmark]

/-- The class of a map is the same behind the expansion of its values, if it is no map itself. -/
lemma ExpandsEntries.text?_class (h : ExpandsEntries x levels f r es s es' t)
    (hclass : (es.field "class").entries? = none) :
    (es'.field "class").text? = (es.field "class").text? := by
  unfold Entries.field at hclass ⊢
  rcases h.kept.get? "class" with ⟨he, he'⟩ | ⟨v, v', he, he', hv⟩
  · rw [he, he']
  · rw [he] at hclass ⊢
    rw [he']
    exact ((kept_of_none rfl).1 hv).2 hclass

/-- A leaf is kept unless it is replaced. -/
lemma ExpandsEntries.field_of_isLeaf (h : ExpandsEntries x levels f r es s es' t) {name : String}
    (hr : r.at? (.str name) = none) (hleaf : (es.field name).IsLeaf) :
    es'.field name = es.field name := by
  unfold Entries.field at hleaf ⊢
  rcases h.kept.get? name with ⟨he, he'⟩ | ⟨v, v', he, he', hv⟩
  · rw [he, he']
  · rw [he] at hleaf ⊢
    have hkept := ((kept_of_none hr).1 hv).1 hleaf
    rw [he', hkept]

/-- An id that is a text is kept if there is no new one. -/
lemma ExpandsEntries.field_id (h : ExpandsEntries x levels f r es s es' t) (hr : r.id = none)
    {id : String} (hid : es.field "id" = .str id) : es'.field "id" = .str id := by
  have hleaf : (es.field "id").IsLeaf := by
    rw [hid]
    trivial
  rw [h.field_of_isLeaf (r.at?_id.trans hr) hleaf, hid]

/-- A new id takes the place of the value that was there. -/
private lemma ExpandsEntries.field_newId (h : ExpandsEntries x levels f r es s es' t) {id : String}
    (hr : r.id = some id) (hget : (es.get? "id").isSome) : es'.field "id" = .str id := by
  unfold Entries.field
  rcases h.kept.get? "id" with ⟨he, -⟩ | ⟨v, v', -, he', hv⟩
  · rw [he] at hget
    cases hget
  · rw [kept_of_some (r.at?_id.trans hr)] at hv
    rw [he', hv]
    rfl

/-- A new id does not change the entry at the key null in front of all others. -/
lemma head?_withId (newId : Option String) (hhead : es.head? = some (.null, .str path)) :
    (withId es newId).head? = some (.null, .str path) := by
  cases newId with
  | none => exact hhead
  | some id => exact Entries.head?_insert hhead rfl _

/-- What is loaded for `run` does not change the entry at the key null in front of all others. -/
lemma ExpandsRun.head? (h : ExpandsRun x levels f es s es' t)
    (hhead : es.head? = some (.null, .str path)) : es'.head? = some (.null, .str path) := by
  cases h with
  | none | absent => exact hhead
  | loaded => exact Entries.head?_insert hhead rfl _

/-- Nothing but the value of `run` is changed. -/
lemma ExpandsRun.field (h : ExpandsRun x levels f es s es' t) {name : String}
    (hname : "run" ≠ name) : es'.field name = es.field name := by
  cases h with
  | none | absent => rfl
  | loaded => exact Entries.field_set_of_ne hname _ _

/-- A new id is set at no other key. -/
lemma get?_withId (newId : Option String) {name : String} (hname : "id" ≠ name) :
    (withId es newId).get? name = es.get? name := by
  cases newId with
  | none => rfl
  | some id =>
    show (es.set "id" (.str id)).get? name = _
    rw [Entries.get?_set, if_neg hname]

/-- Nothing but the value of `id` is changed. -/
lemma field_withId (newId : Option String) {name : String} (hname : "id" ≠ name) :
    (withId es newId).field name = es.field name := by
  unfold Entries.field
  rw [get?_withId newId hname]

/-- The entry for a new id is one for no other key. -/
lemma get?_missing (r : Replacements) (es : Entries) {name : String} (h : "id" ≠ name) :
    Entries.get? (es ++ r.missing es) name = es.get? name := by
  rw [Entries.get?_append]
  rcases r.missing_eq es with hmissing | ⟨id, hmissing, -⟩
  · rw [hmissing]
    cases es.get? name <;> rfl
  · rw [hmissing]
    cases es.get? name <;> simp [Entries.get?, h]

/-- The entry for a new id changes no other value. -/
lemma field_missing (r : Replacements) (es : Entries) {name : String} (h : "id" ≠ name) :
    Entries.field (es ++ r.missing es) name = es.field name := by
  unfold Entries.field
  rw [get?_missing r es h]

/-- A new id does not change what an import at `run` stands for. -/
lemma importedRun?_missing (r : Replacements) (es : Entries) :
    Entries.importedRun? (es ++ r.missing es) = es.importedRun? := by
  unfold Entries.importedRun?
  rw [field_missing r es (by decide)]

end Fields

/-- A map that is replaced by no document has no import and no include. -/
lemma Directs.unreplaced {x : Expander} {levels : Nat} {f : Frame} {es : Entries}
    {directed : Directed} {s t : ExpansionState} (h : Directs x levels f es s directed t)
    (hdirected : ∀ r, directed ≠ .replaced r) :
    es.directive? .importing = none ∧ es.directive? .including = none := by
  cases h with
  | imported | included => exact absurd rfl (hdirected _)
  | mixedAbsent hmixes | mixedMap hmixes | mixedOther hmixes =>
    exact ⟨hmixes.importing, hmixes.including⟩
  | inert hinert => exact ⟨hinert.importing, hinert.including⟩

/-- A new id does not matter for directives. -/
lemma directive?_withId (kind : DirectiveKind) (es : Entries) (newId : Option String) :
    (withId es newId).directive? kind = es.directive? kind := by
  cases newId with
  | none => rfl
  | some id => exact Entries.directive?_set (by cases kind <;> decide) es _

/-- A map without an import and an include is replaced by no document. -/
lemma Directs.not_replaced {x : Expander} {levels : Nat} {f : Frame} {es : Entries}
    {newId : Option String} {r : Node} {s t : ExpansionState}
    (himport : es.directive? .importing = none) (hinclude : es.directive? .including = none) :
    ¬ Directs x levels f (withId es newId) s (.replaced r) t := by
  intro h
  cases h with
  | imported hfollowed =>
    rw [directive?_withId, himport] at hfollowed
    cases hfollowed
  | included _ hfollowed =>
    rw [directive?_withId, hinclude] at hfollowed
    cases hfollowed

section Unchanged

variable {x : Expander} {levels : Nat} {f : Frame} {newId run : Option String}
  {es values : Entries} {s t : ExpansionState}
  (h : ExpandsEntries x levels f ⟨newId, run⟩ (es ++ Replacements.missing ⟨newId, run⟩ es) s
    values t)

include h

/-- The class of a map that gets a new id is kept. -/
lemma text?_class_of_unchanged (hclass : (es.field "class").entries? = none) :
    (values.field "class").text? = (es.field "class").text? := by
  have hfield := field_missing ⟨newId, run⟩ es (show "id" ≠ "class" by decide)
  rw [h.text?_class (by rwa [hfield]), hfield]

/-- A map that gets a new id has it behind the expansion. -/
lemma field_id_of_unchanged {id : String} (hid : (withId es newId).field "id" = .str id) :
    values.field "id" = .str id := by
  cases newId with
  | none =>
    refine h.field_id rfl ?_
    have hm : Replacements.missing ⟨none, run⟩ es = [] := rfl
    rw [hm, List.append_nil]
    exact hid
  | some new =>
    have hnew : new = id := by
      have hid : (es.set "id" (.str new)).field "id" = .str id := hid
      rw [Entries.field_set_self] at hid
      cases hid
      rfl
    subst hnew
    refine h.field_newId rfl ?_
    rw [Entries.get?_append]
    unfold Replacements.missing
    cases es.get? "id" <;> rfl

end Unchanged

end CwlDescriptor

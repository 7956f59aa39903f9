import CwlDescriptor.Expansion.Basic
import Mathlib.Tactic
set_option autoImplicit false

/-!
# Which documents can be shown

A list or a map can be shown if all that it holds can be. As its text begins with a bracket or a
brace, it is no version of the language that has mixins.

## Main results

* `Node.quotedList?_isSome`, `Node.quotedEntries?_isSome`: what is needed to show a list or a map.
* `Node.supportsMixin_of_quoted`: a list or a map is no version that has mixins.
-/

namespace CwlDescriptor

/-- A document that is neither a list nor a map. -/
def Node.IsLeaf : Node → Prop
  | .list _ | .map _ => False
  | _ => True

namespace Node

/-- A list can be quoted if all its items can. -/
lemma quotedList?_isSome {items : List Node} :
    (quotedList? items).isSome ↔ ∀ item ∈ items, item.quoted?.isSome := by
  induction items with
  | nil => simp [quotedList?]
  | cons item items ih =>
    rw [List.forall_mem_cons, ← ih, quotedList?]
    cases item.quoted? <;> cases quotedList? items <;> simp

/-- The entries of a map can be quoted if all their keys and values can. -/
lemma quotedEntries?_isSome {es : Entries} :
    (quotedEntries? es).isSome ↔ ∀ e ∈ es, e.1.quoted?.isSome ∧ e.2.quoted?.isSome := by
  induction es with
  | nil => simp [quotedEntries?]
  | cons e es ih =>
    obtain ⟨k, v⟩ := e
    rw [List.forall_mem_cons, ← ih, quotedEntries?]
    cases k.quoted? <;> cases v.quoted? <;> cases quotedEntries? es <;> simp

/-- A document that is a list can be quoted if all its items can. -/
lemma quoted?_list_isSome {items : List Node} :
    (list items).quoted?.isSome ↔ ∀ item ∈ items, item.quoted?.isSome := by
  rw [quoted?, Option.isSome_map, quotedList?_isSome]

/-- A document that is a map can be quoted if all its keys and values can. -/
lemma quoted?_map_isSome {es : Entries} :
    (map es).quoted?.isSome ↔ ∀ e ∈ es, e.1.quoted?.isSome ∧ e.2.quoted?.isSome := by
  rw [quoted?, Option.isSome_map, quotedEntries?_isSome]

/-- A list or a map is shown as it is shown inside others. -/
lemma shown?_eq_quoted? {n : Node} (hn : ¬ n.IsLeaf) : n.shown? = n.quoted? := by
  cases n with
  | scalar _ => exact absurd trivial hn
  | list _ | map _ | set _ | pair _ _ => rfl

/-- A document is shown as a text if it can be. -/
lemma shown_eq_ok {n : Node} {text : String} : n.shown = .ok text ↔ n.shown? = some text := by
  unfold shown
  cases n.shown? <;> simp

/-- The text of a list or a map begins with a bracket or a brace. -/
lemma supportsMixin_of_quoted {n : Node} {text : String} (hn : ¬ n.IsLeaf)
    (h : n.quoted? = some text) : supportsMixin (some text) = false := by
  cases n with
  | list items =>
    simp only [quoted?, Option.map_eq_some_iff] at h
    obtain ⟨texts, -, rfl⟩ := h
    simp [supportsMixin, List.isPrefixOf]
  | map es =>
    simp only [quoted?, Option.map_eq_some_iff] at h
    obtain ⟨texts, -, rfl⟩ := h
    simp [supportsMixin, List.isPrefixOf]
  | scalar _ | set _ | pair _ _ => exact absurd trivial hn

/-- If one of two lists or maps can be shown whenever the other one can, then both or neither of
their texts are versions with mixins. -/
lemma shown_of_quoted {n n' : Node} (hn : ¬ n.IsLeaf) (hn' : ¬ n'.IsLeaf)
    (h : n.quoted?.isSome → n'.quoted?.isSome) {text : String} (htext : n.shown = .ok text) :
    ∃ text', n'.shown = .ok text' ∧ supportsMixin (some text') = supportsMixin (some text) := by
  rw [shown_eq_ok, shown?_eq_quoted? hn] at htext
  obtain ⟨text', htext'⟩ := Option.isSome_iff_exists.1 (h (Option.isSome_of_eq_some htext))
  refine ⟨text', shown_eq_ok.2 ((shown?_eq_quoted? hn').trans htext'), ?_⟩
  rw [supportsMixin_of_quoted hn htext, supportsMixin_of_quoted hn' htext']

end Node

end CwlDescriptor

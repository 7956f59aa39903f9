import CwlDescriptor.Text.Cut
import Mathlib.Data.List.TakeWhile
import Mathlib.Tactic
set_option autoImplicit false

/-!
# What stands beside a separator

A text is cut at its first separator if nothing in front of this one is a separator, and behind its
last one if nothing that follows is. So a text that was put together at a separator is taken apart
at the same place.

## Main results

* `Text.cutFirst_eq_some_iff`, `Text.cutFirst_eq_none_iff`: the two outcomes of cutting a text.
* `Text.afterLast_append`, `Text.exists_append_afterLast`: what stands behind the last separator.
* `Text.throughLast_append`: what stands in front of it, together with the separator.
-/

namespace CwlDescriptor.Text

variable {sep : Char} {s before after : List Char}

/-- Every character of a text without a separator is another one. -/
private lemma forall_ne_of_not_mem (h : sep ∉ s) : ∀ c ∈ s, decide (c ≠ sep) = true := by
  intro c hc
  simpa using ne_of_mem_of_not_mem hc h

/-- So is every character of the reversed text. -/
private lemma forall_reverse_ne_of_not_mem (h : sep ∉ s) :
    ∀ c ∈ s.reverse, decide (c ≠ sep) = true :=
  forall_ne_of_not_mem (by simpa using h)

/-! ## The first separator -/

/-- A text is cut at its first separator. -/
lemma cutFirst_append (h : sep ∉ before) (after : List Char) :
    cutFirst sep (before ++ sep :: after) = some (before, after) := by
  have hbefore := forall_ne_of_not_mem h
  unfold cutFirst
  rw [List.span_eq_takeWhile_dropWhile, List.takeWhile_append_of_pos hbefore,
    List.dropWhile_append_of_pos hbefore]
  simp

/-- A text is not cut if it has no separator. -/
lemma cutFirst_eq_none_iff : cutFirst sep s = none ↔ sep ∉ s := by
  constructor
  · intro h hmem
    obtain ⟨before, after, rfl, hbefore⟩ := List.eq_append_cons_of_mem hmem
    rw [cutFirst_append hbefore] at h
    cases h
  · intro h
    have hdrop : s.dropWhile (· ≠ sep) = [] :=
      List.dropWhile_eq_nil_iff.2 (forall_ne_of_not_mem h)
    unfold cutFirst
    rw [List.span_eq_takeWhile_dropWhile, hdrop]

/-- A text is cut into what stands before and behind its first separator. -/
lemma cutFirst_eq_some_iff :
    cutFirst sep s = some (before, after) ↔ sep ∉ before ∧ s = before ++ sep :: after := by
  constructor
  · intro h
    have hmem : sep ∈ s := by
      by_contra hnot
      rw [cutFirst_eq_none_iff.2 hnot] at h
      cases h
    obtain ⟨before', after', rfl, hbefore'⟩ := List.eq_append_cons_of_mem hmem
    rw [cutFirst_append hbefore'] at h
    cases h
    exact ⟨hbefore', rfl⟩
  · rintro ⟨hbefore, rfl⟩
    exact cutFirst_append hbefore after

/-! ## The last separator -/

/-- What stands behind the last separator has none. -/
lemma not_mem_afterLast (sep : Char) (s : List Char) : sep ∉ afterLast sep s := by
  unfold afterLast
  rw [List.mem_reverse]
  intro h
  simpa using List.mem_takeWhile_imp h

/-- Behind the last separator of a text without one stands the whole text. -/
lemma afterLast_of_not_mem (h : sep ∉ s) : afterLast sep s = s := by
  unfold afterLast
  rw [List.takeWhile_eq_self_iff.2 (forall_reverse_ne_of_not_mem h), List.reverse_reverse]

/-- Behind the last separator stands what has none. -/
lemma afterLast_append (before : List Char) (h : sep ∉ after) :
    afterLast sep (before ++ sep :: after) = after := by
  have hafter := forall_reverse_ne_of_not_mem h
  unfold afterLast
  rw [List.reverse_append, List.reverse_cons, List.append_assoc,
    List.takeWhile_append_of_pos hafter]
  simp

/-- A text is what follows its last separator, or ends with the separator and what follows it. -/
lemma exists_append_afterLast (sep : Char) (s : List Char) :
    afterLast sep s = s ∨ ∃ front, front ++ sep :: afterLast sep s = s := by
  by_cases hmem : sep ∈ s
  · obtain ⟨after, before, hs, hafter⟩ := List.eq_append_cons_of_mem (List.mem_reverse.2 hmem)
    have hs : s = before.reverse ++ sep :: after.reverse := by
      rw [← List.reverse_reverse s, hs]
      simp
    refine .inr ⟨before.reverse, ?_⟩
    rw [hs, afterLast_append _ (by simpa using hafter)]
  · exact .inl (afterLast_of_not_mem hmem)

/-- What is added without a separator belongs to what follows the last one. -/
lemma afterLast_append_of_not_mem {t : List Char} (h : sep ∉ t) (s : List Char) :
    afterLast sep (s ++ t) = afterLast sep s ++ t := by
  have hafter : sep ∉ afterLast sep s ++ t := by
    simpa [h] using not_mem_afterLast sep s
  rcases exists_append_afterLast sep s with hs | ⟨front, hs⟩
  · rw [hs] at hafter ⊢
    exact afterLast_of_not_mem hafter
  · have happend : s ++ t = front ++ sep :: (afterLast sep s ++ t) := by
      rw [← List.cons_append, ← List.append_assoc, hs]
    rw [happend, afterLast_append front hafter]

/-- Up to the last separator of a text without one there is nothing. -/
lemma throughLast_of_not_mem (h : sep ∉ s) : throughLast sep s = [] := by
  unfold throughLast
  rw [List.reverse_eq_nil_iff, List.dropWhile_eq_nil_iff]
  exact forall_reverse_ne_of_not_mem h

/-- Up to the last separator of a text stands all that is in front of it, and the separator. -/
lemma throughLast_append (before : List Char) (h : sep ∉ after) :
    throughLast sep (before ++ sep :: after) = before ++ [sep] := by
  have hafter := forall_reverse_ne_of_not_mem h
  unfold throughLast
  rw [List.reverse_append, List.reverse_cons, List.append_assoc,
    List.dropWhile_append_of_pos hafter]
  simp

end CwlDescriptor.Text

import Mathlib.Tactic
set_option autoImplicit false

/-!
# Computations that may fail

When a sequence of computations that may fail succeeds, and for what it fails.

## Main definitions

* `Except.Ensures`: what holds of the result, and what of the error.

## Main results

* `Except.bind_eq_ok`, `Except.bind_eq_error`: the two outcomes of a sequence.
* `Except.exists_of_mapM_eq_error`: a computation for each item fails as that for one of them does.
-/

namespace CwlDescriptor

namespace Except

variable {ε α β : Type}

/-- A result is handed to the second part of a sequence. -/
@[simp] lemma ok_bind (a : α) (f : α → Except ε β) : (.ok a >>= f) = f a := rfl

/-- A failure is that of the sequence. -/
@[simp] lemma error_bind (e : ε) (f : α → Except ε β) : (.error e >>= f) = .error e :=
  rfl

/-- A function of a result is one of it. -/
@[simp] lemma map_ok (f : α → β) (a : α) : f <$> (.ok a : Except ε α) = .ok (f a) := rfl

/-- A function of a failure is the failure. -/
@[simp] lemma map_error (f : α → β) (e : ε) :
    f <$> (.error e : Except ε α) = .error e := rfl

/-- A sequence has a result if both parts have. -/
lemma bind_eq_ok {x : Except ε α} {f : α → Except ε β} {b : β} :
    (x >>= f) = .ok b ↔ ∃ a, x = .ok a ∧ f a = .ok b := by
  cases x <;> simp

/-- A function of a computation has a result if the computation has. -/
lemma map_eq_ok {x : Except ε α} {f : α → β} {b : β} :
    f <$> x = .ok b ↔ ∃ a, x = .ok a ∧ f a = b := by
  cases x <;> simp

/-- A sequence fails if its first part does, or else its second part. -/
lemma bind_eq_error {x : Except ε α} {f : α → Except ε β} {e : ε} :
    (x >>= f) = .error e ↔ x = .error e ∨ ∃ a, x = .ok a ∧ f a = .error e := by
  cases x <;> simp

/-- A function of a computation fails if the computation does. -/
lemma map_eq_error {x : Except ε α} {f : α → β} {e : ε} :
    f <$> x = .error e ↔ x = .error e := by
  cases x <;> simp

/-- A change of the failures does not matter for the results. -/
lemma mapError_eq_ok {ε' : Type} {x : Except ε α} {f : ε → ε'} {a : α} :
    x.mapError f = .ok a ↔ x = .ok a := by
  cases x <;> simp [Except.mapError]

/-- A computation for each item succeeds if that for each of them does. -/
lemma exists_mapM_eq_ok {R : α → β → Prop} {f : α → Except ε β} {as : List α}
    (h : ∀ a ∈ as, ∃ b, f a = .ok b ∧ R a b) : ∃ bs, as.mapM f = .ok bs ∧ List.Forall₂ R as bs := by
  induction as with
  | nil => exact ⟨[], rfl, .nil⟩
  | cons a as ih =>
    obtain ⟨⟨b, hb, hab⟩, has⟩ := List.forall_mem_cons.1 h
    obtain ⟨bs, hbs, hall⟩ := ih has
    refine ⟨b :: bs, ?_, .cons hab hall⟩
    rw [List.mapM_cons, hb, hbs]
    rfl

/-- A computation for each item fails as that for one of them does. -/
lemma exists_of_mapM_eq_error {f : α → Except ε β} {as : List α} {e : ε}
    (h : as.mapM f = .error e) : ∃ a ∈ as, f a = .error e := by
  induction as with
  | nil => cases h
  | cons a as ih =>
    rw [List.mapM_cons] at h
    rcases bind_eq_error.1 h with ha | ⟨b, -, h⟩
    · exact ⟨a, List.mem_cons_self, ha⟩
    · rcases bind_eq_error.1 h with has | ⟨bs, -, h⟩
      · obtain ⟨a', ha', hfails⟩ := ih has
        exact ⟨a', List.mem_cons_of_mem a ha', hfails⟩
      · cases h

/-- The result satisfies `Q` if there is one, and the error satisfies `E` if there is none. -/
def Ensures (Q : α → Prop) (E : ε → Prop) : Except ε α → Prop
  | .ok a => Q a
  | .error e => E e

section Ensures

variable {P : α → Prop} {Q : β → Prop} {E : ε → Prop} {x : Except ε α}

/-- Every computation keeps the promise that says nothing. -/
lemma ensures_true (x : Except ε α) : Ensures (fun _ => True) (fun _ => True) x := by
  cases x <;> trivial

/-- What is promised about failures holds of a failure. -/
lemma Ensures.of_eq_error (h : Ensures P E x) {e : ε} (he : x = .error e) : E e := by
  rwa [he] at h

/-- A choice keeps a promise if both of its branches do. -/
lemma Ensures.ite {p : Prop} [Decidable p] {y : Except ε α} (hx : p → Ensures P E x)
    (hy : ¬ p → Ensures P E y) : Ensures P E (if p then x else y) := by
  split_ifs with hp
  · exact hx hp
  · exact hy hp

/-- A promise implies a weaker one. -/
lemma Ensures.imp {P' : α → Prop} (h : Ensures P E x) (hP : ∀ a, P a → P' a) :
    Ensures P' E x := by
  cases x with
  | ok a => exact hP a h
  | error e => exact h

/-- A sequence keeps a promise if its first part promises what its second part needs. -/
lemma Ensures.bind {f : α → Except ε β} (hx : Ensures P E x)
    (hf : ∀ a, P a → Ensures Q E (f a)) : Ensures Q E (x >>= f) := by
  cases x with
  | ok a => exact hf a hx
  | error e => exact hx

/-- A function of a result keeps a promise if it does so of what is promised about the result. -/
lemma Ensures.map {f : α → β} (hx : Ensures P E x) (hf : ∀ a, P a → Q (f a)) :
    Ensures Q E (x.map f) := by
  cases x with
  | ok a => exact hf a hx
  | error e => exact hx

end Ensures

/-- Computations that are the same for each element are the same for a list. -/
lemma mapM_congr {f g : α → Except ε β} {as : List α} (h : ∀ a ∈ as, f a = g a) :
    as.mapM f = as.mapM g := by
  induction as with
  | nil => rfl
  | cons a as ih =>
    rw [List.mapM_cons, List.mapM_cons, h a List.mem_cons_self,
      ih fun b hb => h b (List.mem_cons_of_mem _ hb)]

end Except

end CwlDescriptor

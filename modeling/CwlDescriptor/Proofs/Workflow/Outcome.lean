import CwlDescriptor.Proofs.Exceptions
import CwlDescriptor.Workflow.Walk
import Mathlib.Tactic
set_option autoImplicit false

/-!
# Outcomes of computations with a record

A walk carries a record that is also known when the walk fails. Where only successful walks count,
the record at a failure is of no interest, and a walk is a function from the record at its beginning
to a result that there may be none of. The lemmas of this module turn one into the other.

## Main definitions

* `Walk.outcome`: the result and the record at the end, or the reason for which there is none.

## Main results

* `Walk.outcome_bind`: the outcome of a sequence is composed of the outcomes of its parts.
-/

namespace CwlDescriptor

namespace Walk

variable {α β : Type}

/-- The result of a computation and the record at its end, or the reason for which there is none. -/
def outcome (m : Walk α) (r : WalkResult) : Except Failure (α × WalkResult) :=
  match m r with
  | .ok a r' => .ok (a, r')
  | .error e _ => .error e

/-- A walk has an outcome if it has a result. -/
lemma outcome_eq_ok {m : Walk α} {r r' : WalkResult} {a : α} :
    m.outcome r = .ok (a, r') ↔ m.run r = .ok a r' := by
  show _ ↔ m r = _
  unfold outcome
  cases m r <;> simp

/-- A walk fails if it has an error. -/
lemma outcome_eq_error {m : Walk α} {r : WalkResult} {e : Failure} :
    m.outcome r = .error e ↔ ∃ r', m.run r = .error e r' := by
  show _ ↔ ∃ r', m r = _
  unfold outcome
  cases m r <;> simp

variable (r : WalkResult)

/-- The outcome of a result that is there already. -/
@[simp] lemma outcome_pure (a : α) : (pure a : Walk α).outcome r = .ok (a, r) := rfl

/-- The outcome of a failure. -/
@[simp] lemma outcome_throw (e : Failure) : (throw e : Walk α).outcome r = .error e := rfl

/-- The outcome of reading what is recorded. -/
@[simp] lemma outcome_get : (get : Walk WalkResult).outcome r = .ok (r, r) := rfl

/-- The outcome of a change of what is recorded. -/
@[simp] lemma outcome_modify (f : WalkResult → WalkResult) :
    (modify f : Walk PUnit).outcome r = .ok ((), f r) := rfl

/-- The outcome of a result that is taken over. -/
@[simp] lemma outcome_lift (x : Except Failure α) :
    (Walker.lift x).outcome r = (·, r) <$> x := by
  cases x <;> rfl

/-- The outcome of a sequence. -/
@[simp] lemma outcome_bind (m : Walk α) (f : α → Walk β) :
    (m >>= f).outcome r = m.outcome r >>= fun p => (f p.1).outcome p.2 := by
  have h : (m >>= f) r = EStateM.bind m f r := rfl
  unfold outcome
  rw [h, EStateM.bind]
  cases m r <;> rfl

/-- The outcome of a function of a result. -/
@[simp] lemma outcome_map (f : α → β) (m : Walk α) :
    (f <$> m).outcome r = (fun p => (f p.1, p.2)) <$> m.outcome r := by
  have h : (f <$> m) r = EStateM.map f m r := rfl
  unfold outcome
  rw [h, EStateM.map]
  cases m r <;> rfl

end Walk

end CwlDescriptor

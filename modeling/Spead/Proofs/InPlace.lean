import Spead.Proofs.Except

/-!
States that are changed in place.

A computation that works on a state may fail after it has begun, so that what it leaves behind
matters. `atomically` is the one that changes the state as a whole or not at all.
-/

namespace Spead

section InPlace

variable {state result : Type}

/-- Change a state as a whole. A change that fails leaves the state as it was. -/
def atomically (change : state → Except Error (result × state)) : EStateM Error state result :=
  fun before =>
    match change before with
    | .ok (value, after) => .ok value after
    | .error cause => .error cause before

theorem run_atomically
    (change : state → Except Error (result × state)) (before : state) :
    (atomically change).run before =
      match change before with
      | .ok (value, after) => .ok value after
      | .error cause => .error cause before :=
  rfl

theorem atomically_eq_error_iff
    {change : state → Except Error (result × state)} {before after : state} {cause : Error} :
    (atomically change).run before = .error cause after ↔
      change before = .error cause ∧ after = before := by
  rw [run_atomically]
  cases change before with
  | error other => simp [eq_comm]
  | ok entry => simp

theorem atomically_eq_ok_iff
    {change : state → Except Error (result × state)} {before after : state} {value : result} :
    (atomically change).run before = .ok value after ↔ change before = .ok (value, after) := by
  rw [run_atomically]
  cases change before with
  | error other => simp
  | ok entry => simp [Prod.ext_iff]

/-- A computation that does not look at the state leaves it as it is. -/
theorem run_ofExcept (computation : Except Error result) (before : state) :
    (MonadExcept.ofExcept computation : EStateM Error state result).run before =
      match computation with
      | .ok value => .ok value before
      | .error cause => .error cause before := by
  cases computation with
  | error _ => rfl
  | ok _ => rfl

end InPlace

end Spead

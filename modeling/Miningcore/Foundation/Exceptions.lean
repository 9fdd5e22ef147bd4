import Mathlib.Data.List.Basic

/-! # What a computation may throw

A handler catches some exceptions and not others. Which ones a computation throws is found out
step by step, along its binds. -/

namespace Miningcore.Exceptions

variable {Failure Value Result : Type} {allowed : Failure → Prop}

/-- If the computation throws, then an exception that is allowed. -/
def ThrowsOnly (allowed : Failure → Prop) (outcome : Except Failure Result) : Prop :=
  ∀ failure, outcome = .error failure → allowed failure

@[simp] theorem throwsOnly_ok (result : Result) :
    ThrowsOnly allowed (.ok result : Except Failure Result) := by
  intro failure fails
  cases fails

@[simp] theorem throwsOnly_pure (result : Result) :
    ThrowsOnly allowed (pure result : Except Failure Result) := throwsOnly_ok result

@[simp] theorem throwsOnly_error (failure : Failure) :
    ThrowsOnly allowed (.error failure : Except Failure Result) ↔ allowed failure := by
  constructor
  · intro only
    exact only failure rfl
  · intro isAllowed other fails
    cases fails
    exact isAllowed

@[simp] theorem throwsOnly_bind (first : Except Failure Value)
    (next : Value → Except Failure Result) :
    ThrowsOnly allowed (first >>= next) ↔
      ThrowsOnly allowed first ∧ ∀ value, first = .ok value → ThrowsOnly allowed (next value) := by
  cases first with
  | error failure => simp [bind, Except.bind]
  | ok value => simp [bind, Except.bind]

@[simp] theorem throwsOnly_map (outcome : Except Failure Value) (transform : Value → Result) :
    ThrowsOnly allowed (outcome.map transform) ↔ ThrowsOnly allowed outcome := by
  cases outcome with
  | error failure => simp [Except.map]
  | ok value => simp [Except.map]

theorem throwsOnly_mapM {transform : Value → Except Failure Result} {values : List Value}
    (only : ∀ value ∈ values, ThrowsOnly allowed (transform value)) :
    ThrowsOnly allowed (values.mapM transform) := by
  induction values with
  | nil => exact throwsOnly_ok []
  | cons value values induction =>
      rw [List.mapM_cons, throwsOnly_bind]
      refine ⟨only value List.mem_cons_self, ?_⟩
      intro first _
      rw [throwsOnly_bind]
      refine ⟨induction fun other isOther => only other (List.mem_cons_of_mem _ isOther), ?_⟩
      intro rest _
      exact throwsOnly_pure _

theorem throwsOnly_iff_returns {outcome : Except Failure Result}
    (foreign : ThrowsOnly (fun failure => ¬allowed failure) outcome) :
    ThrowsOnly allowed outcome ↔ ∃ result, outcome = .ok result := by
  cases outcome with
  | error failure =>
      have isForeign := foreign failure rfl
      simp [isForeign]
  | ok result => simp

end Miningcore.Exceptions

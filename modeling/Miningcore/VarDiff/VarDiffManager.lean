import Miningcore.Configuration.ClusterConfig
import Mathlib.Algebra.Order.Ring.Rat
import Mathlib.Algebra.BigOperators.Group.List.Basic

/-! `VarDiffManager`: the difficulty of a worker follows the time between its
shares. Times are in seconds. A difficulty is computed exactly, and an average time is
rounded before it is compared with the two limits. -/

namespace Miningcore.VarDiff

open Miningcore.Configuration

/-- `VarDiffContext`, with the shares' times as the circular buffer enumerates
them. -/
structure VarDiffContext where
  config : VarDiffConfig
  lastTs : Option ℚ := none
  lastRtc : ℚ := 0
  timeBuffer : List ℚ := []
  lastUpdate : Option Int := none

def bufferSize : Nat := 10

/-- `PushBack`: a full buffer loses its oldest entry. -/
def pushBack (buffer : List ℚ) (value : ℚ) : List ℚ :=
  (if buffer.length < bufferSize then buffer else buffer.tail) ++ [value]

/-- `double.MaxValue`. -/
def doubleMaxValue : ℚ := (2 ^ 53 - 1) * 2 ^ 971

section Update

variable (options : VarDiffConfig)

def tMin : ℚ := options.targetTime - options.targetTime * (options.variancePercent / 100)

def tMax : ℚ := options.targetTime + options.targetTime * (options.variancePercent / 100)

def maximum : ℚ := options.maxDiff.getD (max options.minDiff doubleMaxValue)

def clamp (newDiff : ℚ) : ℚ :=
  let raised := if newDiff < options.minDiff then options.minDiff else newDiff
  if maximum options < raised then maximum options else raised

def deltaLimit : Option ℚ := options.maxDelta.filter fun delta => 0 < delta

def limitDelta (difficulty newDiff : ℚ) : ℚ :=
  match deltaLimit options with
  | none => newDiff
  | some maxDelta =>
      let delta := |newDiff - difficulty|
      if maxDelta < delta then
        if difficulty < newDiff then newDiff - (delta - maxDelta)
        else newDiff + (delta - maxDelta)
      else newDiff

/-- The new difficulty for an average time between shares; `none` is not a number.
An average of zero makes the proposal infinite or not a number at all, and an
infinite one stays so only if nothing is subtracted from it. -/
def newDifficulty (difficulty avg : ℚ) : Option ℚ :=
  let target := difficulty * options.targetTime
  if avg ≠ 0 then some (clamp options (limitDelta options difficulty (target / avg)))
  else if target = 0 ∨ (deltaLimit options).isSome then none
  else if 0 < target then some (maximum options)
  else some (min options.minDiff (maximum options))

end Update

/-- The fields of the manager. The limits and the averages are rounded by the runtime, but no
time is so short that it becomes zero. -/
structure VarDiffManager where
  options : VarDiffConfig
  tMin : ℚ
  tMax : ℚ
  round : ℚ → ℚ
  round_pos : ∀ time, 0 < time → 0 < round time

def VarDiffManager.exact (options : VarDiffConfig) : VarDiffManager where
  options
  tMin := VarDiff.tMin options
  tMax := VarDiff.tMax options
  round time := time
  round_pos _ positive := positive

section Update

variable (manager : VarDiffManager)

def update (context : VarDiffContext) (ts : ℚ) (now : Int) (difficulty : ℚ)
    (isIdleUpdate : Bool) : VarDiffContext × Option ℚ :=
  match context.lastTs with
  | none => ({ context with lastRtc := ts, lastTs := some ts, timeBuffer := [] }, none)
  | some lastTs =>
      let sinceLast := ts - lastTs
      let avg :=
        manager.round ((context.timeBuffer.sum + sinceLast) / (context.timeBuffer.length + 1))
      let counted :=
        if isIdleUpdate then context
        else { context with
          timeBuffer := pushBack context.timeBuffer sinceLast
          lastTs := some ts }
      if ts - context.lastRtc < manager.options.retargetTime ∨
          (manager.tMin ≤ avg ∧ avg ≤ manager.tMax) then
        (counted, none)
      else
        match newDifficulty manager.options difficulty avg with
        | none => (counted, none)
        | some newDiff =>
            if newDiff = difficulty then (counted, none)
            else ({ counted with lastRtc := ts, lastUpdate := some now, timeBuffer := [] },
              some newDiff)

/-! ## The minimum -/

variable {options : VarDiffConfig} {manager : VarDiffManager}

theorem minDiff_le_maximum (validates : options.validates = true) :
    options.minDiff ≤ maximum options := by
  simp only [VarDiffConfig.validates, Bool.and_eq_true] at validates
  rw [maximum]
  cases hasMaximum : options.maxDiff with
  | none => exact le_max_left _ _
  | some maxDiff =>
      have ordered := validates.1.1.1
      rw [hasMaximum] at ordered
      exact of_decide_eq_true ordered

theorem minDiff_le_clamp (validates : options.validates = true) (newDiff : ℚ) :
    options.minDiff ≤ clamp options newDiff := by
  simp only [clamp]
  by_cases below : newDiff < options.minDiff
  · rw [if_pos below]
    split_ifs
    · exact minDiff_le_maximum validates
    · exact le_rfl
  · rw [if_neg below]
    split_ifs
    · exact minDiff_le_maximum validates
    · exact not_lt.mp below

theorem minDiff_le_newDifficulty (validates : options.validates = true) {difficulty avg newDiff : ℚ}
    (proposed : newDifficulty options difficulty avg = some newDiff) :
    options.minDiff ≤ newDiff := by
  simp only [newDifficulty] at proposed
  split_ifs at proposed
  · cases proposed
    exact minDiff_le_clamp validates _
  · cases proposed
    exact minDiff_le_maximum validates
  · cases proposed
    exact le_min le_rfl (minDiff_le_maximum validates)

def counted (context : VarDiffContext) (lastTs ts : ℚ) (isIdleUpdate : Bool) : VarDiffContext :=
  if isIdleUpdate then context
  else { context with
    timeBuffer := pushBack context.timeBuffer (ts - lastTs)
    lastTs := some ts }

theorem counted_config (context : VarDiffContext) (lastTs ts : ℚ) (isIdleUpdate : Bool) :
    (counted context lastTs ts isIdleUpdate).config = context.config := by
  rw [counted]
  split_ifs
  · rfl
  · rfl

theorem update_of_lastTs {context : VarDiffContext} {lastTs avg : ℚ}
    (hasLast : context.lastTs = some lastTs) (ts : ℚ) (now : Int) (difficulty : ℚ)
    (isIdleUpdate : Bool)
    (average : manager.round
      ((context.timeBuffer.sum + (ts - lastTs)) / (context.timeBuffer.length + 1)) = avg) :
    (update manager context ts now difficulty isIdleUpdate =
        (counted context lastTs ts isIdleUpdate, none) ∧
      ((ts - context.lastRtc < manager.options.retargetTime ∨
          (manager.tMin ≤ avg ∧ avg ≤ manager.tMax)) ∨
        ∀ newDiff ∈ newDifficulty manager.options difficulty avg, newDiff = difficulty)) ∨
    ∃ newDiff, ¬(ts - context.lastRtc < manager.options.retargetTime ∨
        (manager.tMin ≤ avg ∧ avg ≤ manager.tMax)) ∧
      newDifficulty manager.options difficulty avg = some newDiff ∧ newDiff ≠ difficulty ∧
      update manager context ts now difficulty isIdleUpdate =
        ({ counted context lastTs ts isIdleUpdate with
           lastRtc := ts, lastUpdate := some now, timeBuffer := [] }, some newDiff) := by
  have unfolded : update manager context ts now difficulty isIdleUpdate =
      if ts - context.lastRtc < manager.options.retargetTime ∨
          (manager.tMin ≤ avg ∧ avg ≤ manager.tMax) then
        (counted context lastTs ts isIdleUpdate, none)
      else
        match newDifficulty manager.options difficulty avg with
        | none => (counted context lastTs ts isIdleUpdate, none)
        | some newDiff =>
            if newDiff = difficulty then (counted context lastTs ts isIdleUpdate, none)
            else ({ counted context lastTs ts isIdleUpdate with
              lastRtc := ts, lastUpdate := some now, timeBuffer := [] }, some newDiff) := by
    rw [update, hasLast, ← average]
    rfl
  rw [unfolded]
  by_cases steady : ts - context.lastRtc < manager.options.retargetTime ∨
    (manager.tMin ≤ avg ∧ avg ≤ manager.tMax)
  · rw [if_pos steady]
    exact .inl ⟨rfl, .inl steady⟩
  · rw [if_neg steady]
    cases proposed : newDifficulty manager.options difficulty avg with
    | none => exact .inl ⟨rfl, .inr (by simp)⟩
    | some newDiff =>
        by_cases same : newDiff = difficulty
        · exact .inl ⟨if_pos same, .inr (by simp [same])⟩
        · exact .inr ⟨newDiff, steady, rfl, same, if_neg same⟩

theorem update_spec (validates : manager.options.validates = true) (context : VarDiffContext)
    (ts : ℚ) (now : Int) (difficulty : ℚ) (isIdleUpdate : Bool) :
    (update manager context ts now difficulty isIdleUpdate).1.config = context.config ∧
      ∀ newDiff ∈ (update manager context ts now difficulty isIdleUpdate).2,
        manager.options.minDiff ≤ newDiff := by
  have noDifficulty : ∀ newDiff ∈ (none : Option ℚ), manager.options.minDiff ≤ newDiff := by
    intro newDiff member
    cases member
  cases hasLast : context.lastTs with
  | none =>
      simp only [update, hasLast]
      exact ⟨trivial, noDifficulty⟩
  | some lastTs =>
      have sameConfig := counted_config context lastTs ts isIdleUpdate
      rcases update_of_lastTs hasLast ts now difficulty isIdleUpdate rfl with ⟨updated, -⟩ |
        ⟨newDiff, -, proposed, -, updated⟩
      · rw [updated]
        exact ⟨sameConfig, noDifficulty⟩
      · rw [updated]
        refine ⟨sameConfig, ?_⟩
        intro returned isReturned
        cases isReturned
        exact minDiff_le_newDifficulty validates proposed

end Update

end Miningcore.VarDiff

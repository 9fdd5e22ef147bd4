import Miningcore.Util.CircularBuffer
import Miningcore.VarDiff.Retargeting

/-! `VarDiffManager.Update` on a `CircularDoubleBuffer`. -/

namespace Miningcore.VarDiff

open Miningcore.Configuration Util

def sum (timeBuffer : CircularBuffer ℚ) : ℚ := timeBuffer.enumerate.foldl (· + ·) 0

structure StoredContext where
  config : VarDiffConfig
  lastTs : Option ℚ := none
  lastRtc : ℚ := 0
  timeBuffer : Option (CircularBuffer ℚ) := none
  lastUpdate : Option Int := none

def StoredContext.count (context : StoredContext) (timeBuffer : CircularBuffer ℚ) (ts : ℚ)
    (sinceLast : ℚ) (isIdleUpdate : Bool) : Except Exception StoredContext :=
  if isIdleUpdate then return context
  else return { context with
    timeBuffer := some (← timeBuffer.pushBack sinceLast)
    lastTs := some ts }

def StoredContext.update (manager : VarDiffManager) (context : StoredContext) (ts : ℚ) (now : Int)
    (difficulty : ℚ) (isIdleUpdate : Bool) : Except Exception (StoredContext × Option ℚ) :=
  match context.lastTs with
  | none => do
      let timeBuffer ← CircularBuffer.new bufferSize []
      return ({ context with
        lastRtc := ts, lastTs := some ts, timeBuffer := some timeBuffer }, none)
  | some lastTs =>
      match context.timeBuffer with
      | none => .error .nullReference
      | some timeBuffer => do
          let sinceLast := ts - lastTs
          let avg := manager.round ((sum timeBuffer + sinceLast) / (timeBuffer.size + 1))
          let counted ← context.count timeBuffer ts sinceLast isIdleUpdate
          if ts - context.lastRtc < manager.options.retargetTime ∨
              (manager.tMin ≤ avg ∧ avg ≤ manager.tMax) then
            return (counted, none)
          else
            match newDifficulty manager.options difficulty avg with
            | none => return (counted, none)
            | some newDiff =>
                if newDiff = difficulty then return (counted, none)
                else
                  let cleared ← CircularBuffer.new bufferSize []
                  return ({ counted with
                    lastRtc := ts, lastUpdate := some now, timeBuffer := some cleared },
                    some newDiff)

/-- After the first update the buffer holds the times of the list. -/
structure Stores (stored : StoredContext) (context : VarDiffContext) : Prop where
  config : stored.config = context.config
  lastTs : stored.lastTs = context.lastTs
  lastRtc : stored.lastRtc = context.lastRtc
  lastUpdate : stored.lastUpdate = context.lastUpdate
  times : stored.lastTs ≠ none → ∃ timeBuffer, stored.timeBuffer = some timeBuffer ∧
    timeBuffer.capacity = bufferSize ∧ timeBuffer.Represents context.timeBuffer

theorem new_empty : ∃ timeBuffer : CircularBuffer ℚ,
    CircularBuffer.new bufferSize [] = .ok timeBuffer ∧ timeBuffer.capacity = bufferSize ∧
      timeBuffer.Represents [] := by
  have creates : CircularBuffer.new bufferSize ([] : List ℚ) =
      .ok ⟨List.replicate 10 default, 0, 0, 0⟩ := by rfl
  exact ⟨_, creates, CircularBuffer.new_represents creates⟩

theorem sum_eq {timeBuffer : CircularBuffer ℚ} {times : List ℚ}
    (represents : timeBuffer.Represents times) : sum timeBuffer = times.sum := by
  rw [sum, ← List.sum_eq_foldl, represents.enumerate_eq]
  split_ifs with empty
  · rw [empty, List.sum_replicate, List.sum_nil]
    exact nsmul_zero _
  · rfl

theorem pushBack_stores {timeBuffer : CircularBuffer ℚ} {times : List ℚ}
    (represents : timeBuffer.Represents times) (bounded : timeBuffer.capacity = bufferSize)
    (value : ℚ) : ∃ pushed, timeBuffer.pushBack value = .ok pushed ∧
      pushed.capacity = bufferSize ∧ pushed.Represents (pushBack times value) := by
  rcases represents.pushBack_eq value with ⟨pushed, pushes, kept, holds⟩
  rw [bounded] at kept holds
  exact ⟨pushed, pushes, kept, holds⟩

variable (manager : VarDiffManager)

theorem Stores.update {stored : StoredContext} {context : VarDiffContext}
    (stores : Stores stored context) (ts : ℚ) (now : Int) (difficulty : ℚ) (isIdleUpdate : Bool) :
    ∃ next, stored.update manager ts now difficulty isIdleUpdate =
        .ok (next, (VarDiff.update manager context ts now difficulty isIdleUpdate).2) ∧
      Stores next (VarDiff.update manager context ts now difficulty isIdleUpdate).1 := by
  rcases new_empty with ⟨cleared, creates, clearedBound, clearedHolds⟩
  cases hasLast : context.lastTs with
  | none =>
      have noLast := stores.lastTs.trans hasLast
      simp only [StoredContext.update, VarDiff.update, noLast, hasLast, creates]
      refine ⟨_, rfl, stores.config, rfl, rfl, stores.lastUpdate, ?_⟩
      intro _
      exact ⟨cleared, rfl, clearedBound, clearedHolds⟩
  | some lastTs =>
      have storedLast := stores.lastTs.trans hasLast
      rcases stores.times (by rw [storedLast]; exact Option.some_ne_none _) with
        ⟨timeBuffer, hasBuffer, bounded, represents⟩
      have counts : ∃ counted, stored.count timeBuffer ts (ts - lastTs) isIdleUpdate =
          .ok counted ∧ Stores counted (VarDiff.counted context lastTs ts isIdleUpdate) := by
        rw [StoredContext.count, VarDiff.counted]
        cases isIdleUpdate with
        | true => exact ⟨stored, rfl, stores⟩
        | false =>
            rcases pushBack_stores represents bounded (ts - lastTs) with
              ⟨pushed, pushes, pushedBound, holds⟩
            refine ⟨{ stored with timeBuffer := some pushed, lastTs := some ts }, ?_,
              stores.config, rfl, stores.lastRtc, stores.lastUpdate, ?_⟩
            · rw [pushes]
              rfl
            · intro _
              exact ⟨pushed, rfl, pushedBound, holds⟩
      rcases counts with ⟨counted, counts, countedStores⟩
      have unfolded (avg : ℚ) (average : manager.round ((context.timeBuffer.sum +
          (ts - lastTs)) / (context.timeBuffer.length + 1)) = avg) :
          stored.update manager ts now difficulty isIdleUpdate =
            if ts - context.lastRtc < manager.options.retargetTime ∨
                (manager.tMin ≤ avg ∧ avg ≤ manager.tMax) then .ok (counted, none)
            else
              match newDifficulty manager.options difficulty avg with
              | none => .ok (counted, none)
              | some newDiff =>
                  if newDiff = difficulty then .ok (counted, none)
                  else .ok ({ counted with
                    lastRtc := ts, lastUpdate := some now, timeBuffer := some cleared },
                    some newDiff) := by
        rw [← average, ← sum_eq represents, ← represents.counts, ← stores.lastRtc,
          StoredContext.update, storedLast, hasBuffer]
        simp only [counts, creates]
        rfl
      rw [unfolded _ rfl]
      rcases update_of_lastTs hasLast ts now difficulty isIdleUpdate rfl with
        ⟨updated, stays⟩ | ⟨newDiff, unsteady, proposed, different, updated⟩
      · rw [updated]
        refine ⟨counted, ?_, countedStores⟩
        rcases stays with steady | noChange
        · rw [if_pos steady]
        · split_ifs
          · rfl
          · split
            · rfl
            · rename_i newDiff proposed
              rw [if_pos (noChange newDiff proposed)]
      · rw [if_neg unsteady, proposed, updated]
        simp only [if_neg different]
        refine ⟨_, rfl, countedStores.config, countedStores.lastTs, rfl, rfl, ?_⟩
        intro _
        exact ⟨cleared, rfl, clearedBound, clearedHolds⟩

/-! ## Runs -/

/-- A call that throws leaves the context as it is. -/
def StoredContext.step (stored : StoredContext) (call : Call) : StoredContext :=
  match stored.update manager call.ts call.now call.difficulty call.isIdleUpdate with
  | .ok (next, _) => next
  | .error _ => stored

def StoredContext.returned (stored : StoredContext) (call : Call) : Except Exception (Option ℚ) :=
  (stored.update manager call.ts call.now call.difficulty call.isIdleUpdate).map Prod.snd

theorem stores_simulates :
    Refinement.Simulates (StoredContext.step manager) (StoredContext.returned manager)
      (step manager) (fun context call => .ok (returned manager context call)) Stores where
  steps := by
    intro stored context call stores
    rcases stores.update manager call.ts call.now call.difficulty call.isIdleUpdate with
      ⟨next, updated, nextStores⟩
    simp only [StoredContext.step, updated]
    exact nextStores
  alike := by
    intro stored context call stores
    rcases stores.update manager call.ts call.now call.difficulty call.isIdleUpdate with
      ⟨next, updated, _⟩
    simp only [StoredContext.returned, updated]
    rfl

/-- In every run of calls the stored context returns what the list of times says, without an
exception. -/
theorem stored_updates (calls : List Call) :
    Refinement.answers (StoredContext.step manager) (StoredContext.returned manager)
        { config := manager.options } calls =
      Refinement.answers (step manager)
        (fun context call => .ok (returned manager context call)) { config := manager.options }
        calls ∧
    Stores (Run.final (StoredContext.step manager) { config := manager.options } calls)
      (reached manager calls) := by
  have start : Stores { config := manager.options } { config := manager.options } :=
    ⟨rfl, rfl, rfl, rfl, fun noLast => absurd rfl noLast⟩
  exact ⟨(stores_simulates manager).answers_eq start calls,
    (stores_simulates manager).final start calls⟩

end Miningcore.VarDiff

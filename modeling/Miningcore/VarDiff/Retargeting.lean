import Mathlib.Algebra.Order.BigOperators.Group.List
import Mathlib.Tactic.Linarith
import Miningcore.Foundation.Run
import Miningcore.VarDiff.VarDiffManager

/-! What `VarDiffManager.Update` does to a difficulty, over the whole history of a worker.

A proposal is drawn back to the current difficulty and clamped, and neither turns it
around as long as the current difficulty is in the range. An idle update averages over the
earlier shares too, so that it may well propose more. -/

namespace Miningcore.VarDiff

open Miningcore.Configuration

/-! ## Limiting and clamping -/

section Proposal

variable (options : VarDiffConfig)

theorem clamp_eq (newDiff : ℚ) :
    clamp options newDiff = min (max options.minDiff newDiff) (maximum options) := by
  have raised : (if newDiff < options.minDiff then options.minDiff else newDiff) =
      max options.minDiff newDiff := by
    split_ifs with below
    · rw [max_eq_left below.le]
    · rw [max_eq_right (not_lt.mp below)]
  simp only [clamp, raised]
  split_ifs with above
  · rw [min_eq_right above.le]
  · rw [min_eq_left (not_lt.mp above)]

theorem clamp_le_maximum (newDiff : ℚ) : clamp options newDiff ≤ maximum options := by
  rw [clamp_eq]
  exact min_le_right _ _

theorem lt_clamp_iff (difficulty newDiff : ℚ) :
    difficulty < clamp options newDiff ↔
      (difficulty < options.minDiff ∨ difficulty < newDiff) ∧ difficulty < maximum options := by
  rw [clamp_eq, lt_min_iff, lt_max_iff]

theorem clamp_lt_iff (difficulty newDiff : ℚ) :
    clamp options newDiff < difficulty ↔
      (options.minDiff < difficulty ∧ newDiff < difficulty) ∨ maximum options < difficulty := by
  rw [clamp_eq, min_lt_iff, max_lt_iff]

theorem abs_clamp_sub_le {difficulty : ℚ} (above : options.minDiff ≤ difficulty)
    (below : difficulty ≤ maximum options) (newDiff : ℚ) :
    |clamp options newDiff - difficulty| ≤ |newDiff - difficulty| := by
  rw [clamp_eq]
  rcases le_total difficulty newDiff with more | less
  · have raised : max options.minDiff newDiff = newDiff := max_eq_right (above.trans more)
    have lower := le_min more below
    rw [raised, abs_of_nonneg (sub_nonneg.mpr lower), abs_of_nonneg (sub_nonneg.mpr more)]
    exact sub_le_sub_right (min_le_left _ _) _
  · have capped : min (max options.minDiff newDiff) (maximum options) =
        max options.minDiff newDiff := min_eq_left ((max_le above less).trans below)
    have upper := max_le above less
    rw [capped, abs_of_nonpos (sub_nonpos.mpr upper), abs_of_nonpos (sub_nonpos.mpr less)]
    have nearer := le_max_right options.minDiff newDiff
    linarith

theorem limitDelta_cases (difficulty newDiff : ℚ) :
    (limitDelta options difficulty newDiff = newDiff ∧
      ∀ maxDelta ∈ deltaLimit options, |newDiff - difficulty| ≤ maxDelta) ∨
    ∃ maxDelta, deltaLimit options = some maxDelta ∧ 0 < maxDelta ∧
      ((difficulty + maxDelta < newDiff ∧
          limitDelta options difficulty newDiff = difficulty + maxDelta) ∨
        (newDiff < difficulty - maxDelta ∧
          limitDelta options difficulty newDiff = difficulty - maxDelta)) := by
  cases isLimit : deltaLimit options with
  | none =>
      left
      simp only [limitDelta, isLimit]
      exact ⟨trivial, by simp⟩
  | some maxDelta =>
      have positive : 0 < maxDelta := of_decide_eq_true (Option.filter_eq_some_iff.mp isLimit).2
      simp only [limitDelta, isLimit]
      split_ifs with exceeds more
      · right
        rw [abs_of_pos (sub_pos.mpr more)] at exceeds ⊢
        exact ⟨maxDelta, rfl, positive, .inl ⟨by linarith, by linarith⟩⟩
      · right
        rw [abs_of_nonpos (sub_nonpos.mpr (not_lt.mp more))] at exceeds ⊢
        exact ⟨maxDelta, rfl, positive, .inr ⟨by linarith, by linarith⟩⟩
      · left
        refine ⟨rfl, ?_⟩
        intro limit isGiven
        rw [← Option.mem_some_iff.mp isGiven]
        exact not_lt.mp exceeds

theorem abs_limitDelta_sub_le {maxDelta : ℚ} (isLimit : deltaLimit options = some maxDelta)
    (difficulty newDiff : ℚ) :
    |limitDelta options difficulty newDiff - difficulty| ≤ maxDelta := by
  rcases limitDelta_cases options difficulty newDiff with ⟨same, within⟩ |
    ⟨limit, isGiven, positive, ⟨-, more⟩ | ⟨-, less⟩⟩
  · rw [same]
    exact within maxDelta isLimit
  · rw [isLimit, Option.some.injEq] at isGiven
    rw [more, add_sub_cancel_left, abs_of_pos positive, isGiven]
  · rw [isLimit, Option.some.injEq] at isGiven
    rw [less, sub_sub_cancel_left, abs_neg, abs_of_pos positive, isGiven]

theorem lt_limitDelta_iff (difficulty newDiff : ℚ) :
    difficulty < limitDelta options difficulty newDiff ↔ difficulty < newDiff := by
  rcases limitDelta_cases options difficulty newDiff with ⟨same, -⟩ |
    ⟨limit, -, positive, ⟨beyond, more⟩ | ⟨beyond, less⟩⟩
  · rw [same]
  · rw [more]
    constructor <;> intro _ <;> linarith
  · rw [less]
    constructor <;> intro _ <;> linarith

theorem limitDelta_lt_iff (difficulty newDiff : ℚ) :
    limitDelta options difficulty newDiff < difficulty ↔ newDiff < difficulty := by
  rcases limitDelta_cases options difficulty newDiff with ⟨same, -⟩ |
    ⟨limit, -, positive, ⟨beyond, more⟩ | ⟨beyond, less⟩⟩
  · rw [same]
  · rw [more]
    constructor <;> intro _ <;> linarith
  · rw [less]
    constructor <;> intro _ <;> linarith

variable {options}

theorem tMin_le_targetTime (validates : options.validates = true) :
    tMin options ≤ options.targetTime := by
  simp only [VarDiffConfig.validates, Bool.and_eq_true, decide_eq_true_eq] at validates
  rw [tMin, sub_le_self_iff]
  exact mul_nonneg validates.1.2.le (div_nonneg (by linarith [validates.1.1.2.1]) (by norm_num))

theorem targetTime_le_tMax (validates : options.validates = true) :
    options.targetTime ≤ tMax options := by
  simp only [VarDiffConfig.validates, Bool.and_eq_true, decide_eq_true_eq] at validates
  rw [tMax, le_add_iff_nonneg_right]
  exact mul_nonneg validates.1.2.le (div_nonneg (by linarith [validates.1.1.2.1]) (by norm_num))

theorem lt_proposal_iff {difficulty avg target : ℚ} (positive : 0 < avg) :
    difficulty < difficulty * target / avg ↔ 0 < difficulty * (target - avg) := by
  rw [lt_div_iff₀ positive, mul_sub, sub_pos]

theorem proposal_lt_iff {difficulty avg target : ℚ} (positive : 0 < avg) :
    difficulty * target / avg < difficulty ↔ difficulty * (target - avg) < 0 := by
  rw [div_lt_iff₀ positive, mul_sub, sub_neg]

theorem newDifficulty_of_pos {difficulty avg : ℚ} (positive : 0 < avg) :
    newDifficulty options difficulty avg = some (clamp options
      (limitDelta options difficulty (difficulty * options.targetTime / avg))) := by
  simp only [newDifficulty, if_pos positive.ne']

end Proposal

/-! ## One update -/

/-- One call of `Update`, with the current difficulty of the worker. -/
structure Call where
  ts : ℚ
  now : Int
  difficulty : ℚ
  isIdleUpdate : Bool

section Calls

variable (manager : VarDiffManager)

def averageTime (context : VarDiffContext) (ts : ℚ) : ℚ :=
  manager.round ((context.timeBuffer.sum + (ts - context.lastTs.getD ts)) /
    (context.timeBuffer.length + 1))

def step (context : VarDiffContext) (call : Call) : VarDiffContext :=
  (update manager context call.ts call.now call.difficulty call.isIdleUpdate).1

def returned (context : VarDiffContext) (call : Call) : Option ℚ :=
  (update manager context call.ts call.now call.difficulty call.isIdleUpdate).2

def IsSteady (context : VarDiffContext) (call : Call) : Prop :=
  call.ts - context.lastRtc < manager.options.retargetTime ∨
    (manager.tMin ≤ averageTime manager context call.ts ∧
      averageTime manager context call.ts ≤ manager.tMax)

instance (context : VarDiffContext) (call : Call) : Decidable (IsSteady manager context call) :=
  inferInstanceAs (Decidable (_ ∨ _))

variable {manager} {context : VarDiffContext}

theorem update_cases {lastTs : ℚ} (hasLast : context.lastTs = some lastTs) (call : Call) :
    (returned manager context call = none ∧
      (step manager context call).lastRtc = context.lastRtc ∧
      (step manager context call).lastUpdate = context.lastUpdate ∧
      (IsSteady manager context call ∨
        ∀ newDiff ∈ newDifficulty manager.options call.difficulty
          (averageTime manager context call.ts), newDiff = call.difficulty)) ∨
    ∃ newDiff, ¬IsSteady manager context call ∧
      newDifficulty manager.options call.difficulty (averageTime manager context call.ts) =
        some newDiff ∧
      newDiff ≠ call.difficulty ∧ returned manager context call = some newDiff ∧
      (step manager context call).lastRtc = call.ts ∧
      (step manager context call).timeBuffer = [] := by
  have average : manager.round ((context.timeBuffer.sum + (call.ts - lastTs)) /
      (context.timeBuffer.length + 1)) = averageTime manager context call.ts := by
    rw [averageTime, hasLast, Option.getD_some]
  have kept : (counted context lastTs call.ts call.isIdleUpdate).lastRtc = context.lastRtc ∧
      (counted context lastTs call.ts call.isIdleUpdate).lastUpdate = context.lastUpdate := by
    rw [counted]
    split_ifs
    · exact ⟨rfl, rfl⟩
    · exact ⟨rfl, rfl⟩
  rw [returned, step]
  rcases update_of_lastTs hasLast call.ts call.now call.difficulty call.isIdleUpdate average with
    ⟨updated, stays⟩ | ⟨newDiff, unsteady, proposed, different, updated⟩
  · rw [updated]
    exact .inl ⟨rfl, kept.1, kept.2, stays⟩
  · rw [updated]
    exact .inr ⟨newDiff, unsteady, proposed, different, rfl, rfl, rfl⟩

theorem step_hasLast (context : VarDiffContext) (call : Call) :
    ∃ lastTs, (step manager context call).lastTs = some lastTs := by
  cases hasLast : context.lastTs with
  | none =>
      simp only [step, update, hasLast]
      exact ⟨call.ts, rfl⟩
  | some lastTs =>
      have stillLast : ∃ ts,
          (counted context lastTs call.ts call.isIdleUpdate).lastTs = some ts := by
        rw [counted]
        split_ifs
        · exact ⟨lastTs, hasLast⟩
        · exact ⟨call.ts, rfl⟩
      rw [step]
      rcases update_of_lastTs hasLast call.ts call.now call.difficulty call.isIdleUpdate rfl with
        ⟨updated, -⟩ | ⟨newDiff, -, -, -, updated⟩
      · rw [updated]
        exact stillLast
      · rw [updated]
        exact stillLast

variable (manager)

def reached (calls : List Call) : VarDiffContext :=
  Run.final (step manager) { config := manager.options } calls

/-- A change is within the bounds of the configuration and goes where the average points;
it starts a new count. -/
structure Retargets (context : VarDiffContext) (call : Call) (newDiff : ℚ) : Prop where
  minDiff_le : manager.options.minDiff ≤ newDiff
  le_maximum : newDiff ≤ maximum manager.options
  changes : newDiff ≠ call.difficulty
  delta : ∀ maxDelta, manager.options.maxDelta = some maxDelta → 0 < maxDelta →
    |newDiff - call.difficulty| ≤ maxDelta
  raises : averageTime manager context call.ts < manager.tMin → call.difficulty < newDiff
  lowers : manager.tMax < averageTime manager context call.ts → newDiff < call.difficulty
  lastRtc : (step manager context call).lastRtc = call.ts
  timeBuffer : (step manager context call).timeBuffer = []

variable {manager}

theorem reached_hasLast {calls : List Call} (nonempty : calls ≠ []) :
    ∃ lastTs, (reached manager calls).lastTs = some lastTs := by
  rcases List.eq_nil_or_concat' calls with isEmpty | ⟨front, last, isConcat⟩
  · exact absurd isEmpty nonempty
  · rw [reached, isConcat, Run.final_append]
    exact step_hasLast _ last

/-! ## Exact arithmetic -/

section Exact

variable {options : VarDiffConfig}

theorem retargets_of_newDifficulty (validates : options.validates = true)
    (minPositive : 0 < options.minDiff) {call : Call} (above : options.minDiff ≤ call.difficulty)
    (below : call.difficulty ≤ maximum options)
    (avgPositive : 0 < averageTime (.exact options) context call.ts) {newDiff : ℚ}
    (proposed : newDifficulty options call.difficulty
      (averageTime (.exact options) context call.ts) = some newDiff)
    (changes : newDiff ≠ call.difficulty)
    (lastRtc : (step (.exact options) context call).lastRtc = call.ts)
    (timeBuffer : (step (.exact options) context call).timeBuffer = []) :
    Retargets (.exact options) context call newDiff := by
  have positive : 0 < call.difficulty := minPositive.trans_le above
  rw [newDifficulty_of_pos avgPositive, Option.some.injEq] at proposed
  have raises : averageTime (.exact options) context call.ts < tMin options →
      call.difficulty ≤ newDiff := by
    intro early
    have onTarget := early.trans_le (tMin_le_targetTime validates)
    rw [← proposed]
    apply not_lt.mp
    rw [clamp_lt_iff, limitDelta_lt_iff, proposal_lt_iff avgPositive]
    have more : 0 < call.difficulty *
        (options.targetTime - averageTime (.exact options) context call.ts) :=
      mul_pos positive (sub_pos.mpr onTarget)
    rintro (⟨-, less⟩ | beyond)
    · linarith
    · linarith
  have lowers : tMax options < averageTime (.exact options) context call.ts →
      newDiff ≤ call.difficulty := by
    intro late
    have onTarget := (targetTime_le_tMax validates).trans_lt late
    rw [← proposed]
    apply not_lt.mp
    rw [lt_clamp_iff, lt_limitDelta_iff, lt_proposal_iff avgPositive]
    have less : call.difficulty *
        (options.targetTime - averageTime (.exact options) context call.ts) < 0 :=
      mul_neg_of_pos_of_neg positive (sub_neg.mpr onTarget)
    rintro ⟨beneath | more, -⟩
    · linarith
    · linarith
  constructor
  · rw [← proposed]
    exact minDiff_le_clamp validates _
  · rw [← proposed]
    exact clamp_le_maximum options _
  · exact changes
  · intro maxDelta isGiven isPositive
    have isLimit : deltaLimit options = some maxDelta := by
      change options.maxDelta = some maxDelta at isGiven
      rw [deltaLimit, isGiven, Option.filter_some, if_pos (decide_eq_true isPositive)]
    rw [← proposed]
    exact (abs_clamp_sub_le options above below _).trans
      (abs_limitDelta_sub_le options isLimit _ _)
  · intro early
    exact lt_of_le_of_ne (raises early) changes.symm
  · intro late
    exact lt_of_le_of_ne (lowers late) changes
  · exact lastRtc
  · exact timeBuffer

/-- What `Update` returns after any earlier updates, if it returns a difficulty, and what
it leaves alone, if it does not. -/
theorem update_retargets (validates : options.validates = true) (minPositive : 0 < options.minDiff)
    {calls : List Call} (nonempty : calls ≠ []) {call : Call}
    (above : options.minDiff ≤ call.difficulty) (below : call.difficulty ≤ maximum options)
    (avgPositive : 0 < averageTime (.exact options) (reached (.exact options) calls) call.ts) :
    (∀ newDiff, returned (.exact options) (reached (.exact options) calls) call = some newDiff →
      Retargets (.exact options) (reached (.exact options) calls) call newDiff) ∧
    (IsSteady (.exact options) (reached (.exact options) calls) call →
      returned (.exact options) (reached (.exact options) calls) call = none ∧
      (step (.exact options) (reached (.exact options) calls) call).lastRtc =
        (reached (.exact options) calls).lastRtc ∧
      (step (.exact options) (reached (.exact options) calls) call).lastUpdate =
        (reached (.exact options) calls).lastUpdate) := by
  rcases reached_hasLast nonempty with ⟨lastTs, hasLast⟩
  rcases update_cases hasLast call with ⟨isNone, lastRtc, lastUpdate, -⟩ |
    ⟨newDiff, unsteady, proposed, changes, isReturned, lastRtc, timeBuffer⟩
  · constructor
    · intro newDiff isReturned
      rw [isNone] at isReturned
      cases isReturned
    · intro _
      exact ⟨isNone, lastRtc, lastUpdate⟩
  · constructor
    · intro other isOther
      rw [isReturned, Option.some.injEq] at isOther
      rw [← isOther]
      exact retargets_of_newDifficulty validates minPositive above below avgPositive proposed
        changes lastRtc timeBuffer
    · intro steady
      exact absurd steady unsteady

end Exact

/-! ## Idle updates -/

variable (manager)

/-- Calls come one after the other, and an idle update comes after a target time without a
share. -/
def Scheduled (context : VarDiffContext) (call : Call) : Prop :=
  ∀ lastTs ∈ context.lastTs, lastTs ≤ call.ts ∧
    (call.isIdleUpdate = true → lastTs + manager.options.targetTime ≤ call.ts)

def idleChange (context : VarDiffContext) (call : Call) : Option (ℚ × ℚ) :=
  if call.isIdleUpdate then (returned manager context call).map fun newDiff =>
    (call.difficulty, newDiff)
  else none

/-- An idle update does not raise a difficulty that is in the range and below its maximum
unless the shares have come too fast on the whole. -/
def IsSlow (context : VarDiffContext) (call : Call) : Prop :=
  call.isIdleUpdate = true → context.lastTs ≠ none → IsSteady manager context call ∨
    (manager.options.minDiff ≤ call.difficulty ∧ (maximum manager.options ≤ call.difficulty ∨
      call.difficulty * (manager.options.targetTime - averageTime manager context call.ts) ≤ 0))

instance (context : VarDiffContext) (call : Call) : Decidable (Scheduled manager context call) :=
  inferInstanceAs (Decidable (∀ lastTs ∈ context.lastTs, _))

instance (context : VarDiffContext) (call : Call) : Decidable (IsSlow manager context call) :=
  inferInstanceAs (Decidable (_ → _ → _))

def IsTimed (context : VarDiffContext) : Prop := ∀ time ∈ context.timeBuffer, 0 ≤ time

variable {manager}

theorem IsTimed.averageTime_pos (timed : IsTimed context) {lastTs ts : ℚ}
    (hasLast : context.lastTs = some lastTs) (later : lastTs < ts) :
    0 < averageTime manager context ts := by
  have total := List.sum_nonneg timed
  rw [averageTime, hasLast, Option.getD_some]
  apply manager.round_pos
  apply div_pos
  · linarith
  · exact add_pos_of_nonneg_of_pos (Nat.cast_nonneg _) one_pos

theorem step_isTimed {call : Call} (scheduled : Scheduled manager context call)
    (timed : IsTimed context) : IsTimed (step manager context call) := by
  cases hasLast : context.lastTs with
  | none =>
      simp only [step, update, hasLast]
      exact List.forall_mem_nil _
  | some lastTs =>
      have later := (scheduled lastTs hasLast).1
      have stillTimed : IsTimed (counted context lastTs call.ts call.isIdleUpdate) := by
        rw [counted]
        split_ifs
        · exact timed
        · intro time member
          rcases List.mem_append.mp member with old | new
          · split_ifs at old
            · exact timed time old
            · exact timed time (List.mem_of_mem_tail old)
          · rw [List.mem_singleton.mp new]
            exact sub_nonneg.mpr later
      rw [step]
      rcases update_of_lastTs hasLast call.ts call.now call.difficulty call.isIdleUpdate rfl with
        ⟨updated, -⟩ | ⟨newDiff, -, -, -, updated⟩
      · rw [updated]
        exact stillTimed
      · rw [updated]
        exact List.forall_mem_nil _

theorem clamp_le_iff (validates : options.validates = true) (difficulty : ℚ) {avg : ℚ}
    (positive : 0 < avg) :
    clamp options (limitDelta options difficulty (difficulty * options.targetTime / avg)) ≤
        difficulty ↔
      options.minDiff ≤ difficulty ∧
        (maximum options ≤ difficulty ∨ difficulty * (options.targetTime - avg) ≤ 0) := by
  have ordered := minDiff_le_maximum validates
  rw [← not_lt, lt_clamp_iff, lt_limitDelta_iff, lt_proposal_iff positive, not_and_or, not_or,
    not_lt, not_lt, not_lt]
  constructor
  · rintro (⟨above, less⟩ | beyond)
    · exact ⟨above, .inr less⟩
    · exact ⟨ordered.trans beyond, .inl beyond⟩
  · rintro ⟨above, beyond | less⟩
    · exact .inr beyond
    · exact .inl ⟨above, less⟩

theorem idleChange_lowers_iff (validates : manager.options.validates = true) {call : Call}
    (scheduled : Scheduled manager context call) (timed : IsTimed context) :
    (∀ change, idleChange manager context call = some change → change.2 < change.1) ↔
      IsSlow manager context call := by
  by_cases isIdle : call.isIdleUpdate = true
  swap
  · simp [idleChange, IsSlow, isIdle]
  cases hasLast : context.lastTs with
  | none => simp [idleChange, returned, update, IsSlow, hasLast]
  | some lastTs =>
      have targetPositive : 0 < manager.options.targetTime := by
        simp only [VarDiffConfig.validates, Bool.and_eq_true, decide_eq_true_eq] at validates
        exact validates.1.2
      have silent := (scheduled lastTs hasLast).2 isIdle
      have positive : 0 < averageTime manager context call.ts :=
        timed.averageTime_pos hasLast (by linarith)
      have noIncrease := clamp_le_iff validates call.difficulty positive
      have hasSlow : IsSlow manager context call ↔ IsSteady manager context call ∨
          (manager.options.minDiff ≤ call.difficulty ∧ (maximum manager.options ≤ call.difficulty ∨
            call.difficulty *
              (manager.options.targetTime - averageTime manager context call.ts) ≤ 0)) := by
        simp [IsSlow, isIdle, hasLast]
      rw [hasSlow, ← noIncrease]
      rcases update_cases hasLast call with ⟨isNone, -, -, unchanged⟩ |
        ⟨newDiff, unsteady, proposed, changes, isReturned, -, -⟩
      · have noChange : idleChange manager context call = none := by
          rw [idleChange, if_pos isIdle, isNone, Option.map_none]
        rw [noChange]
        apply iff_of_true
        · simp
        · apply unchanged.imp_right
          intro same
          exact (same _ (newDifficulty_of_pos positive)).le
      · have isChange : idleChange manager context call = some (call.difficulty, newDiff) := by
          rw [idleChange, if_pos isIdle, isReturned, Option.map_some]
        rw [newDifficulty_of_pos positive, Option.some.injEq] at proposed
        rw [isChange, proposed]
        constructor
        · intro lowers
          exact .inr (lowers _ rfl).le
        · rintro (steady | noMore) change isGiven
          · exact absurd steady unsteady
          · rw [← Option.some.inj isGiven]
            exact lt_of_le_of_ne noMore changes

end Calls

/-! ## A worker at difficulty 2000

Shares are expected every 15 seconds, and the difficulty may change every 20 seconds. -/

namespace SampleWorker

def config : VarDiffConfig where
  minDiff := 1000
  maxDiff := some 10000
  maxDelta := some 1000
  targetTime := 15
  retargetTime := 20
  variancePercent := 30

def call (isIdleUpdate : Bool) (ts : ℚ) : Call where
  ts
  now := 0
  difficulty := 2000
  isIdleUpdate

def share : ℚ → Call := call false

def idle : ℚ → Call := call true

def manager : VarDiffManager where
  options := config
  tMin := 21 / 2
  tMax := 39 / 2
  round time :=
    if time = 19 / 5 then 4278419646001971 / 2 ^ 50
    else if time = 34 / 5 then 7656119366529843 / 2 ^ 50
    else time
  round_pos time positive := by
    split_ifs
    · positivity
    · positivity
    · exact positive

end SampleWorker

open SampleWorker in
theorem update_retargets_late :
    returned (.exact config) (reached (.exact config) [share 0, share 1]) (share 101) =
        some 1000 ∧
      Retargets (.exact config) (reached (.exact config) [share 0, share 1]) (share 101) 1000 := by
  have returns : returned (.exact config) (reached (.exact config) [share 0, share 1])
      (share 101) = some 1000 := by
    decide +kernel
  refine ⟨returns, ?_⟩
  exact (update_retargets (by decide) (by decide) (by simp) (by decide) (by decide)
    (by decide +kernel)).1 _ returns

def SampleWorker.silence : List Call :=
  [share 0, share 1, share 2, share 3, share 4, idle 19, idle 34]

end Miningcore.VarDiff

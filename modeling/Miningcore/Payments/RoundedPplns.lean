import Miningcore.Foundation.Rounding
import Miningcore.Payments.PplnsWindow

/-! `PPLNSPaymentScheme` in the arithmetic of the runtime. Decimals and doubles are rounded
there and leave their range, and what a message of the log computes throws where the message
is written.

A pass over shares is described by lists: the scores it counts, what it leaves of the reward after
each of them, and the results that its decimals need room for. -/

namespace Miningcore.Payments.Rounded

open Persistence

/-- The arithmetic of a process, and whether it writes messages of the level `Info`. -/
structure Runtime where
  decimal : NumberFormat
  double : NumberFormat
  doubleToDecimal : NumberFormat
  decimalToDouble : ℚ → ℚ
  infoEnabled : Bool

def Runtime.exact : Runtime where
  decimal := .exact
  double := .exact
  doubleToDecimal := .exact
  decimalToDouble value := value
  infoEnabled := false

def Runtime.dotnet : Runtime where
  decimal := .decimal
  double := .double
  doubleToDecimal := .doubleToDecimal
  decimalToDouble := NumberFormat.double.round
  infoEnabled := true

/-- An operation with an exact result that may be out of range. -/
def checked (format : NumberFormat) (value : ℚ) : Except Exception ℚ :=
  if format.inRange value then .ok (format.round value) else .error .overflow

@[simp] theorem checked_eq_ok {format : NumberFormat} {value result : ℚ} :
    checked format value = .ok result ↔
      format.inRange value = true ∧ format.round value = result := by
  rw [checked]
  split_ifs with inRange
  · simp [inRange]
  · simp [inRange]

variable (runtime : Runtime)

def divide (dividend divisor : ℚ) : Except Exception ℚ :=
  if divisor = 0 then .error .divideByZero else checked runtime.decimal (dividend / divisor)

@[simp] theorem divide_eq_ok {dividend divisor result : ℚ} :
    divide runtime dividend divisor = .ok result ↔
      divisor ≠ 0 ∧ runtime.decimal.inRange (dividend / divisor) = true ∧
        runtime.decimal.round (dividend / divisor) = result := by
  rw [divide]
  split_ifs with zero
  · simp [zero]
  · simp [zero]

/-! ## Quantities -/

/-- A sum of doubles; `none` once it has left their range. -/
abbrev Quantity := Option ℚ

def addQuantity (sum : Quantity) (value : ℚ) : Quantity :=
  sum.bind fun sum =>
    if runtime.double.inRange (sum + value) then some (runtime.double.round (sum + value))
    else none

def difficultyUnits : List Text := [text " K", text " M", text " G", text " T", text " P"]

/-- The loop of `FormatQuantity`, with the units from the current index on. -/
def formatFinite (value : ℚ) : List Text → Except Exception (ℚ × Text)
  | [] => .error .indexOutOfRange
  | unit :: units =>
      let value := runtime.double.round (value / 1000)
      if 1000 < value then formatFinite value units else .ok (value, unit)

/-- The number and the unit that `FormatQuantity` writes. With an infinite quantity its loop does
not end; here it throws, like what becomes of such a quantity later on. -/
def formatQuantity (quantity : Quantity) : Except Exception (ℚ × Text) :=
  match quantity with
  | none => .error .overflow
  | some value => formatFinite runtime value difficultyUnits

def thousandth (value : ℚ) : ℚ := runtime.double.round (value / 1000)

/-- One of the thousandths that there is a unit for is at most a thousand. -/
def HasUnit : Quantity → Prop
  | none => False
  | some value => ∃ step < difficultyUnits.length, (thousandth runtime)^[step + 1] value ≤ 1000

instance : (quantity : Quantity) → Decidable (HasUnit runtime quantity)
  | none => inferInstanceAs (Decidable False)
  | some _ => inferInstanceAs (Decidable (∃ step < _, _))

theorem formatFinite_ok_iff (value : ℚ) (units : List Text) :
    (∃ shown, formatFinite runtime value units = .ok shown) ↔
      ∃ step < units.length, (thousandth runtime)^[step + 1] value ≤ 1000 := by
  induction units generalizing value with
  | nil => simp [formatFinite]
  | cons unit units induction =>
      rw [formatFinite]
      by_cases large : 1000 < runtime.double.round (value / 1000)
      · rw [if_pos large, induction]
        constructor
        · rintro ⟨step, inUnits, small⟩
          exact ⟨step + 1, by simpa using inUnits, small⟩
        · rintro ⟨step, inUnits, small⟩
          cases step with
          | zero => exact absurd small (not_le.mpr large)
          | succ step => exact ⟨step, by simpa using inUnits, small⟩
      · rw [if_neg large]
        exact ⟨fun _ => ⟨0, by simp, not_lt.mp large⟩, fun _ => ⟨_, rfl⟩⟩

theorem formatQuantity_ok_iff (quantity : Quantity) :
    (∃ shown, formatQuantity runtime quantity = .ok shown) ↔ HasUnit runtime quantity := by
  cases quantity with
  | none => simp [formatQuantity, HasUnit]
  | some value => exact formatFinite_ok_iff runtime value difficultyUnits

/-- Without rounding, there is a unit for whatever is at most a thousand of the last one. -/
theorem hasUnit_exact (value : ℚ) : HasUnit .exact (some value) ↔ value ≤ 10 ^ 18 := by
  have scaled : ∀ step : Nat, (thousandth Runtime.exact)^[step] value = value / 1000 ^ step := by
    intro step
    induction step with
    | zero => simp
    | succ step induction =>
        rw [Function.iterate_succ_apply', induction, pow_succ, ← div_div]
        rfl
  simp only [HasUnit, scaled]
  constructor
  · rintro ⟨step, inUnits, small⟩
    rw [div_le_iff₀ (by positivity), ← pow_succ'] at small
    refine small.trans ?_
    have most : step + 1 + 1 ≤ 6 := Nat.add_le_add_right inUnits 1
    calc (1000 : ℚ) ^ (step + 1 + 1) ≤ 1000 ^ 6 := pow_le_pow_right₀ (by norm_num) most
      _ = 10 ^ 18 := by norm_num
  · intro small
    refine ⟨4, by decide, ?_⟩
    rw [div_le_iff₀ (by positivity)]
    calc value ≤ 10 ^ 18 := small
      _ = 1000 * 1000 ^ (4 + 1) := by norm_num

/-! ## The pass over the shares -/

structure Progress where
  done : Bool := false
  accumulatedScore : ℚ := 0
  blockRewardRemaining : ℚ
  shareCutOffDate : Option Int := none
  shares : Tally Text Quantity := []
  rewards : Tally Text ℚ := []
deriving DecidableEq

def addShare (shares : Tally Text Quantity) (share : Share) : Tally Text Quantity :=
  shares.set share.address (match shares.find share.address with
    | none => some share.difficulty
    | some sum => addQuantity runtime sum share.difficulty)

def addReward (rewards : Tally Text ℚ) (address : Text) (reward : ℚ) :
    Except Exception (Tally Text ℚ) :=
  if 0 < reward then
    match rewards.find address with
    | none => .ok (rewards.set address reward)
    | some sum => do return rewards.set address (← checked runtime.decimal (sum + reward))
  else .ok rewards

variable (window blockReward : ℚ)

def applyScore (progress : Progress) (address : Text) (score : ℚ) : Except Exception Progress := do
  let reward ← divide runtime (← checked runtime.decimal (score * blockReward)) window
  let accumulatedScore ← checked runtime.decimal (progress.accumulatedScore + score)
  let blockRewardRemaining ← checked runtime.decimal (progress.blockRewardRemaining - reward)
  throwIf (blockRewardRemaining ≤ 0 ∧ progress.done = false) .overflow
  let rewards ← addReward runtime progress.rewards address reward
  return { progress with accumulatedScore, blockRewardRemaining, rewards }

/-- The body of the loop over a page. A quotient that is not finite cannot be converted. -/
def countShare (progress : Progress) (share : Share) : Except Exception Progress := do
  let progress := { progress with shares := addShare runtime progress.shares share }
  throwIf (share.networkDifficulty = 0) .overflow
  let score ← checked runtime.doubleToDecimal
    (runtime.double.round (share.difficulty / share.networkDifficulty))
  let sum ← checked runtime.decimal (progress.accumulatedScore + score)
  if sum ≥ window then
    let rest ← checked runtime.decimal (window - progress.accumulatedScore)
    applyScore runtime window blockReward
      { progress with shareCutOffDate := some share.created, done := true } share.address rest
  else
    applyScore runtime window blockReward progress share.address score

/-- `CalculateRewards`, up to its last message. -/
def calculateRewards (pageSize : Nat) (table : List Share) (poolId : Text) (created : Int) :
    Except Exception Progress :=
  KeysetPaging.readPages pageSize (countShare runtime window blockReward) Progress.done
    { blockRewardRemaining := blockReward } (Pplns.fetchPages table poolId created pageSize)

/-- The last message of `CalculateRewards` has the accumulated score in percents of the window. -/
def logScore (progress : Progress) : Except Exception Unit := do
  if runtime.infoEnabled then
    let _ ← checked runtime.decimal ((← divide runtime progress.accumulatedScore window) * 100)

/-! ## The pass as lists -/

def score (share : Share) : ℚ :=
  runtime.doubleToDecimal.round (runtime.double.round (share.difficulty / share.networkDifficulty))

def HasScore (share : Share) : Prop :=
  share.networkDifficulty ≠ 0 ∧ runtime.doubleToDecimal.inRange
    (runtime.double.round (share.difficulty / share.networkDifficulty)) = true

instance (share : Share) : Decidable (HasScore runtime share) :=
  inferInstanceAs (Decidable (_ ∧ _))

def rewardOf (score : ℚ) : ℚ :=
  runtime.decimal.round (runtime.decimal.round (score * blockReward) / window)

/-- The score of each share that is counted; that of the last one fills the window. -/
def cappedScores (accumulated : ℚ) : List Share → List (Share × ℚ)
  | [] => []
  | share :: shares =>
      let next := runtime.decimal.round (accumulated + score runtime share)
      if window ≤ next then [(share, runtime.decimal.round (window - accumulated))]
      else (share, score runtime share) :: cappedScores next shares

def cutOffDate (accumulated : ℚ) : List Share → Option Int
  | [] => none
  | share :: shares =>
      let next := runtime.decimal.round (accumulated + score runtime share)
      if window ≤ next then some share.created else cutOffDate next shares

/-- What is left of the reward after each share that does not fill the window. -/
def remainders (accumulated remaining : ℚ) : List Share → List ℚ
  | [] => []
  | share :: shares =>
      let next := runtime.decimal.round (accumulated + score runtime share)
      if window ≤ next then []
      else
        let left := runtime.decimal.round
          (remaining - rewardOf runtime window blockReward (score runtime share))
        left :: remainders next left shares

def rewarded (rewards : Tally Text ℚ) (address : Text) (reward : ℚ) : Tally Text ℚ :=
  if 0 < reward then
    rewards.set address (match rewards.find address with
      | none => reward
      | some sum => runtime.decimal.round (sum + reward))
  else rewards

def rewardSum (rewards : Tally Text ℚ) (address : Text) (reward : ℚ) : List ℚ :=
  if 0 < reward then ((rewards.find address).map fun sum => sum + reward).toList else []

/-- What the decimals for a score have to make room for. -/
def scoreResults (accumulated remaining : ℚ) (rewards : Tally Text ℚ) (address : Text)
    (score : ℚ) : List ℚ :=
  let reward := rewardOf runtime window blockReward score
  [score * blockReward, runtime.decimal.round (score * blockReward) / window,
    accumulated + score, remaining - reward] ++ rewardSum rewards address reward

def passResults (accumulated remaining : ℚ) (rewards : Tally Text ℚ) : List Share → List ℚ
  | [] => []
  | share :: shares =>
      let given := score runtime share
      let next := runtime.decimal.round (accumulated + given)
      if window ≤ next then
        [accumulated + given, window - accumulated] ++
          scoreResults runtime window blockReward accumulated remaining rewards share.address
            (runtime.decimal.round (window - accumulated))
      else
        let reward := rewardOf runtime window blockReward given
        scoreResults runtime window blockReward accumulated remaining rewards share.address given ++
          passResults next (runtime.decimal.round (remaining - reward))
            (rewarded runtime rewards share.address reward) shares

/-- A pass goes through if every share that it counts has a score, the window is not zero,
something of the reward is left after each share that does not fill the window, and the decimals
have room. -/
structure GoesThrough (accumulated remaining : ℚ) (rewards : Tally Text ℚ) (shares : List Share) :
    Prop where
  scores : ∀ counted ∈ cappedScores runtime window accumulated shares, HasScore runtime counted.1
  nonzero : shares ≠ [] → window ≠ 0
  positive : ∀ left ∈ remainders runtime window blockReward accumulated remaining shares, 0 < left
  inRange : ∀ result ∈ passResults runtime window blockReward accumulated remaining rewards shares,
    runtime.decimal.inRange result = true

def sharesOf (shares : Tally Text Quantity) (scores : List (Share × ℚ)) : Tally Text Quantity :=
  scores.foldl (fun known counted => addShare runtime known counted.1) shares

def rewardsOf (rewards : Tally Text ℚ) (scores : List (Share × ℚ)) : Tally Text ℚ :=
  scores.foldl (fun known counted =>
    rewarded runtime known counted.1.address
      (rewardOf runtime window blockReward counted.2)) rewards

def scoreSum (accumulated : ℚ) (scores : List (Share × ℚ)) : ℚ :=
  scores.foldl (fun sum counted => runtime.decimal.round (sum + counted.2)) accumulated

def rewardLeft (remaining : ℚ) (scores : List (Share × ℚ)) : ℚ :=
  scores.foldl (fun left counted =>
    runtime.decimal.round (left - rewardOf runtime window blockReward counted.2)) remaining

def passed (progress : Progress) (shares : List Share) : Progress :=
  let scores := cappedScores runtime window progress.accumulatedScore shares
  let cutOff := cutOffDate runtime window progress.accumulatedScore shares
  { done := cutOff.isSome
    accumulatedScore := scoreSum runtime progress.accumulatedScore scores
    blockRewardRemaining := rewardLeft runtime window blockReward progress.blockRewardRemaining
      scores
    shareCutOffDate := cutOff.or progress.shareCutOffDate
    shares := sharesOf runtime progress.shares scores
    rewards := rewardsOf runtime window blockReward progress.rewards scores }

variable {runtime window blockReward}

theorem goesThrough_nil (accumulated remaining : ℚ) (rewards : Tally Text ℚ) :
    GoesThrough runtime window blockReward accumulated remaining rewards [] where
  scores _ member := by cases member
  nonzero nonempty := absurd rfl nonempty
  positive _ member := by cases member
  inRange _ member := by cases member

theorem goesThrough_fills {accumulated remaining : ℚ} {rewards : Tally Text ℚ} {share : Share}
    {shares : List Share}
    (fills : window ≤ runtime.decimal.round (accumulated + score runtime share)) :
    GoesThrough runtime window blockReward accumulated remaining rewards (share :: shares) ↔
      HasScore runtime share ∧ window ≠ 0 ∧
        ∀ result ∈ [accumulated + score runtime share, window - accumulated] ++
          scoreResults runtime window blockReward accumulated remaining rewards share.address
            (runtime.decimal.round (window - accumulated)),
          runtime.decimal.inRange result = true := by
  constructor
  · rintro ⟨scores, nonzero, -, inRange⟩
    rw [cappedScores, if_pos fills] at scores
    rw [passResults, if_pos fills] at inRange
    exact ⟨scores _ (List.mem_singleton_self _), nonzero (List.cons_ne_nil _ _), inRange⟩
  · rintro ⟨hasScore, nonzero, inRange⟩
    refine ⟨?_, fun _ => nonzero, ?_, ?_⟩
    · rw [cappedScores, if_pos fills]
      intro counted member
      rw [List.mem_singleton.mp member]
      exact hasScore
    · rw [remainders, if_pos fills]
      intro left member
      cases member
    · rw [passResults, if_pos fills]
      exact inRange

theorem goesThrough_goesOn {accumulated remaining : ℚ} {rewards : Tally Text ℚ} {share : Share}
    {shares : List Share}
    (goesOn : ¬window ≤ runtime.decimal.round (accumulated + score runtime share)) :
    GoesThrough runtime window blockReward accumulated remaining rewards (share :: shares) ↔
      HasScore runtime share ∧ window ≠ 0 ∧
        0 < runtime.decimal.round
          (remaining - rewardOf runtime window blockReward (score runtime share)) ∧
        (∀ result ∈ scoreResults runtime window blockReward accumulated remaining rewards
          share.address (score runtime share), runtime.decimal.inRange result = true) ∧
        GoesThrough runtime window blockReward
          (runtime.decimal.round (accumulated + score runtime share))
          (runtime.decimal.round
            (remaining - rewardOf runtime window blockReward (score runtime share)))
          (rewarded runtime rewards share.address
            (rewardOf runtime window blockReward (score runtime share))) shares := by
  constructor
  · rintro ⟨scores, nonzero, positive, inRange⟩
    rw [cappedScores, if_neg goesOn] at scores
    rw [remainders, if_neg goesOn] at positive
    rw [passResults, if_neg goesOn] at inRange
    rw [List.forall_mem_cons] at scores positive
    rw [List.forall_mem_append] at inRange
    have window_ne := nonzero (List.cons_ne_nil _ _)
    exact ⟨scores.1, window_ne, positive.1, inRange.1,
      ⟨scores.2, fun _ => window_ne, positive.2, inRange.2⟩⟩
  · rintro ⟨hasScore, nonzero, positive, inRange, through⟩
    refine ⟨?_, fun _ => nonzero, ?_, ?_⟩
    · rw [cappedScores, if_neg goesOn]
      exact List.forall_mem_cons.mpr ⟨hasScore, through.scores⟩
    · rw [remainders, if_neg goesOn]
      exact List.forall_mem_cons.mpr ⟨positive, through.positive⟩
    · rw [passResults, if_neg goesOn]
      exact List.forall_mem_append.mpr ⟨inRange, through.inRange⟩

theorem passed_fills {progress : Progress} {share : Share} {shares : List Share}
    (fills : window ≤ runtime.decimal.round (progress.accumulatedScore + score runtime share)) :
    passed runtime window blockReward progress (share :: shares) = { progress with
      done := true
      accumulatedScore := runtime.decimal.round (progress.accumulatedScore +
        runtime.decimal.round (window - progress.accumulatedScore))
      blockRewardRemaining := runtime.decimal.round (progress.blockRewardRemaining -
        rewardOf runtime window blockReward
          (runtime.decimal.round (window - progress.accumulatedScore)))
      shareCutOffDate := some share.created
      shares := addShare runtime progress.shares share
      rewards := rewarded runtime progress.rewards share.address
        (rewardOf runtime window blockReward
          (runtime.decimal.round (window - progress.accumulatedScore))) } := by
  rw [passed, cappedScores, cutOffDate, if_pos fills, if_pos fills]
  rfl

theorem passed_goesOn {progress : Progress} {share : Share} {shares : List Share}
    (goesOn : ¬window ≤ runtime.decimal.round (progress.accumulatedScore + score runtime share)) :
    passed runtime window blockReward progress (share :: shares) =
      passed runtime window blockReward { progress with
        accumulatedScore := runtime.decimal.round (progress.accumulatedScore + score runtime share)
        blockRewardRemaining := runtime.decimal.round (progress.blockRewardRemaining -
          rewardOf runtime window blockReward (score runtime share))
        shares := addShare runtime progress.shares share
        rewards := rewarded runtime progress.rewards share.address
          (rewardOf runtime window blockReward (score runtime share)) } shares := by
  rw [passed, cappedScores, cutOffDate, if_neg goesOn, if_neg goesOn]
  rfl

theorem addReward_eq_ok {rewards result : Tally Text ℚ} {address : Text} {reward : ℚ} :
    addReward runtime rewards address reward = .ok result ↔
      (∀ sum ∈ rewardSum rewards address reward, runtime.decimal.inRange sum = true) ∧
        rewarded runtime rewards address reward = result := by
  rw [addReward, rewardSum, rewarded]
  split_ifs with positive
  · cases known : rewards.find address with
    | none => simp
    | some sum => simp only [bind_eq_ok, checked_eq_ok, pure_eq_ok, Option.map_some,
        Option.toList_some, List.forall_mem_singleton, and_assoc, exists_and_left,
        exists_eq_left']
  · simp

theorem applyScore_eq_ok {progress result : Progress} {address : Text} {score : ℚ} :
    applyScore runtime window blockReward progress address score = .ok result ↔
      window ≠ 0 ∧ (progress.done = false → 0 < runtime.decimal.round
        (progress.blockRewardRemaining - rewardOf runtime window blockReward score)) ∧
      (∀ value ∈ scoreResults runtime window blockReward progress.accumulatedScore
        progress.blockRewardRemaining progress.rewards address score,
        runtime.decimal.inRange value = true) ∧
      { progress with
        accumulatedScore := runtime.decimal.round (progress.accumulatedScore + score)
        blockRewardRemaining := runtime.decimal.round (progress.blockRewardRemaining -
          rewardOf runtime window blockReward score)
        rewards := rewarded runtime progress.rewards address
          (rewardOf runtime window blockReward score) } = result := by
  simp only [applyScore, bind_eq_ok, pure_eq_ok, checked_eq_ok, divide_eq_ok, throwIf_eq_ok,
    addReward_eq_ok, scoreResults, List.forall_mem_append, List.forall_mem_cons, List.not_mem_nil,
    IsEmpty.forall_iff, implies_true, and_true, rewardOf]
  constructor
  · rintro ⟨_, ⟨productFits, rfl⟩, _, ⟨nonzero, quotientFits, rfl⟩, _, ⟨sumFits, rfl⟩, _,
      ⟨leftFits, rfl⟩, _, notSpent, _, ⟨rewardFits, rfl⟩, rfl⟩
    rw [not_and', not_le] at notSpent
    exact ⟨nonzero, notSpent, ⟨⟨productFits, quotientFits, sumFits, leftFits⟩, rewardFits⟩, rfl⟩
  · rintro ⟨nonzero, notSpent, ⟨⟨productFits, quotientFits, sumFits, leftFits⟩, rewardFits⟩, rfl⟩
    refine ⟨_, ⟨productFits, rfl⟩, _, ⟨nonzero, quotientFits, rfl⟩, _, ⟨sumFits, rfl⟩, _,
      ⟨leftFits, rfl⟩, (), ?_, _, ⟨rewardFits, rfl⟩, rfl⟩
    rw [not_and', not_le]
    exact notSpent

theorem countShare_fills {progress result : Progress} {share : Share}
    (fills : window ≤ runtime.decimal.round (progress.accumulatedScore + score runtime share)) :
    countShare runtime window blockReward progress share = .ok result ↔
      HasScore runtime share ∧
      runtime.decimal.inRange (progress.accumulatedScore + score runtime share) = true ∧
      runtime.decimal.inRange (window - progress.accumulatedScore) = true ∧
      applyScore runtime window blockReward { progress with
        done := true
        shareCutOffDate := some share.created
        shares := addShare runtime progress.shares share } share.address
        (runtime.decimal.round (window - progress.accumulatedScore)) = .ok result := by
  simp only [countShare, bind_eq_ok, checked_eq_ok, throwIf_eq_ok, HasScore, score, ge_iff_le]
    at fills ⊢
  constructor
  · rintro ⟨_, nonzero, _, ⟨converts, rfl⟩, _, ⟨sumFits, rfl⟩, counted⟩
    rw [if_pos fills, bind_eq_ok] at counted
    rcases counted with ⟨_, rest, applied⟩
    rcases checked_eq_ok.mp rest with ⟨restFits, rfl⟩
    exact ⟨⟨nonzero, converts⟩, sumFits, restFits, applied⟩
  · rintro ⟨⟨nonzero, converts⟩, sumFits, restFits, applied⟩
    refine ⟨(), nonzero, _, ⟨converts, rfl⟩, _, ⟨sumFits, rfl⟩, ?_⟩
    rw [if_pos fills, bind_eq_ok]
    exact ⟨_, checked_eq_ok.mpr ⟨restFits, rfl⟩, applied⟩

theorem countShare_goesOn {progress result : Progress} {share : Share}
    (goesOn : ¬window ≤ runtime.decimal.round (progress.accumulatedScore + score runtime share)) :
    countShare runtime window blockReward progress share = .ok result ↔
      HasScore runtime share ∧
      runtime.decimal.inRange (progress.accumulatedScore + score runtime share) = true ∧
      applyScore runtime window blockReward { progress with
        shares := addShare runtime progress.shares share } share.address
        (score runtime share) = .ok result := by
  simp only [countShare, bind_eq_ok, checked_eq_ok, throwIf_eq_ok, HasScore, score, ge_iff_le]
    at goesOn ⊢
  constructor
  · rintro ⟨_, nonzero, _, ⟨converts, rfl⟩, _, ⟨sumFits, rfl⟩, counted⟩
    rw [if_neg goesOn] at counted
    exact ⟨⟨nonzero, converts⟩, sumFits, counted⟩
  · rintro ⟨⟨nonzero, converts⟩, sumFits, applied⟩
    refine ⟨(), nonzero, _, ⟨converts, rfl⟩, _, ⟨sumFits, rfl⟩, ?_⟩
    rw [if_neg goesOn]
    exact applied

/-- A running pass goes through the shares exactly if the lists say so, and comes to what they say
it does. -/
theorem readRows_eq_ok (shares : List Share) {progress result : Progress}
    (running : progress.done = false) (notCut : progress.shareCutOffDate = none) :
    KeysetPaging.readRows (countShare runtime window blockReward) Progress.done progress shares =
        .ok result ↔
      GoesThrough runtime window blockReward progress.accumulatedScore
        progress.blockRewardRemaining progress.rewards shares ∧
      passed runtime window blockReward progress shares = result := by
  induction shares generalizing progress with
  | nil =>
      have same : passed runtime window blockReward progress [] = progress := by
        rcases progress with ⟨_, _, _, _, _, _⟩
        cases running
        cases notCut
        rfl
      rw [KeysetPaging.readRows, Except.ok.injEq, same]
      exact ⟨fun equal => ⟨goesThrough_nil _ _ _, equal⟩, fun through => through.2⟩
  | cons share shares induction =>
      rw [KeysetPaging.readRows, if_neg (by simp [running]), bind_eq_ok]
      by_cases fills : window ≤
          runtime.decimal.round (progress.accumulatedScore + score runtime share)
      · rw [goesThrough_fills fills, passed_fills fills]
        simp only [countShare_fills fills, applyScore_eq_ok, List.forall_mem_append,
          List.forall_mem_cons, List.not_mem_nil, IsEmpty.forall_iff, implies_true, and_true]
        constructor
        · rintro ⟨_, ⟨hasScore, sumFits, restFits, nonzero, -, fits, rfl⟩, rest⟩
          rw [KeysetPaging.readRows_done _ _ (by rfl), Except.ok.injEq] at rest
          exact ⟨⟨hasScore, nonzero, ⟨sumFits, restFits⟩, fits⟩, rest⟩
        · rintro ⟨⟨hasScore, nonzero, ⟨sumFits, restFits⟩, fits⟩, equal⟩
          refine ⟨_, ⟨hasScore, sumFits, restFits, nonzero, ?_, fits, rfl⟩, ?_⟩
          · intro contra
            cases contra
          · rw [KeysetPaging.readRows_done _ _ (by rfl), Except.ok.injEq]
            exact equal
      · rw [goesThrough_goesOn fills, passed_goesOn fills]
        simp only [countShare_goesOn fills, applyScore_eq_ok]
        constructor
        · rintro ⟨_, ⟨hasScore, -, nonzero, left, fits, rfl⟩, rest⟩
          rcases (induction (by exact running) (by exact notCut)).mp rest with ⟨through, equal⟩
          exact ⟨⟨hasScore, nonzero, left running, fits, through⟩, equal⟩
        · rintro ⟨⟨hasScore, nonzero, left, fits, through⟩, equal⟩
          have sumFits := fits (progress.accumulatedScore + score runtime share) (by
            simp [scoreResults])
          exact ⟨_, ⟨hasScore, sumFits, nonzero, fun _ => left, fits, rfl⟩,
            (induction (by exact running) (by exact notCut)).mpr ⟨through, equal⟩⟩

theorem calculateRewards_eq_ok {pageSize : Nat} {table : List Share} {poolId : Text}
    {created : Int} {result : Progress} :
    calculateRewards runtime window blockReward pageSize table poolId created = .ok result ↔
      GoesThrough runtime window blockReward 0 blockReward []
        (Pplns.shownShares pageSize table poolId created) ∧
      passed runtime window blockReward { blockRewardRemaining := blockReward }
        (Pplns.shownShares pageSize table poolId created) = result := by
  rw [calculateRewards, KeysetPaging.readPages_eq, Pplns.untilShort_fetchPages]
  exact readRows_eq_ok _ rfl rfl

/-! ## Exact arithmetic -/

def Progress.ofExact (progress : Pplns.Progress) : Progress where
  done := progress.done
  accumulatedScore := progress.accumulatedScore
  blockRewardRemaining := progress.blockRewardRemaining
  shareCutOffDate := progress.shareCutOffDate
  shares := progress.shares.map fun entry => (entry.1, some entry.2)
  rewards := progress.rewards

theorem checked_exact (value : ℚ) : checked Runtime.exact.decimal value = .ok value := rfl

theorem divide_exact (dividend : ℚ) {divisor : ℚ} (nonzero : divisor ≠ 0) :
    divide .exact dividend divisor = .ok (dividend / divisor) := by
  rw [divide, if_neg nonzero]
  rfl

theorem addShare_exact (shares : Tally Text ℚ) (share : Share) :
    addShare .exact (shares.map fun entry => (entry.1, some entry.2)) share =
      (shares.add share.address share.difficulty).map fun entry => (entry.1, some entry.2) := by
  induction shares with
  | nil => rfl
  | cons entry shares induction =>
      rcases entry with ⟨known, sum⟩
      rw [addShare] at induction ⊢
      rw [List.map_cons, Tally.set, Tally.find, Tally.add]
      by_cases same : known = share.address
      · rw [if_pos same, if_pos same, if_pos same]
        rfl
      · rw [if_neg same, if_neg same, if_neg same, List.map_cons, ← induction]

theorem addReward_exact (rewards : Tally Text ℚ) (address : Text) (reward : ℚ) :
    addReward .exact rewards address reward = .ok (Pplns.addReward rewards address reward) := by
  rw [addReward, Pplns.addReward, Tally.add_eq_set]
  cases rewards.find address with
  | none =>
      split_ifs
      · rfl
      · rfl
  | some sum =>
      split_ifs
      · rfl
      · rfl

theorem applyScore_exact (progress : Pplns.Progress) (address : Text) (score : ℚ) :
    applyScore .exact window blockReward (.ofExact progress) address score =
      if window = 0 then .error .divideByZero
      else ((Pplns.applyScore window blockReward progress address score).mapError Prod.fst).map
        Progress.ofExact := by
  by_cases zero : window = 0
  · rw [if_pos zero, zero]
    rfl
  rw [if_neg zero]
  simp only [applyScore, checked_exact, divide_exact _ zero, addReward_exact, Pplns.applyScore]
  change (throwIf (progress.blockRewardRemaining - score * blockReward / window ≤ 0 ∧
    progress.done = false) .overflow >>= fun _ => .ok _) = _
  by_cases spent : progress.blockRewardRemaining - score * blockReward / window ≤ 0 ∧
      progress.done = false
  · rw [throwIf, if_pos spent, if_pos spent]
    rfl
  · rw [throwIf, if_neg spent, if_neg spent]
    rfl

theorem countShare_exact (progress : Pplns.Progress) (share : Share) :
    countShare .exact window blockReward (.ofExact progress) share =
      ((Pplns.countShare window blockReward progress share).mapError Prod.fst).map
        Progress.ofExact := by
  rw [countShare, Pplns.countShare]
  by_cases zeroDifficulty : share.networkDifficulty = 0
  · rw [throwIf, if_pos zeroDifficulty, if_pos zeroDifficulty]
    rfl
  rw [throwIf, if_neg zeroDifficulty, if_neg zeroDifficulty]
  have counted : ({ Progress.ofExact progress with
      shares := addShare .exact (Progress.ofExact progress).shares share } : Progress) =
      .ofExact { progress with
        counted := progress.counted ++ [share]
        shares := progress.shares.add share.address share.difficulty } := by
    rw [Progress.ofExact, addShare_exact]
    rfl
  rw [counted]
  change (if progress.accumulatedScore + share.score ≥ window then _ else _) = _
  by_cases fills : progress.accumulatedScore + share.score ≥ window
  · rw [if_pos fills, if_pos fills]
    refine (applyScore_exact { progress with
      counted := progress.counted ++ [share]
      shares := progress.shares.add share.address share.difficulty
      shareCutOffDate := some share.created
      done := true } share.address (window - progress.accumulatedScore)).trans ?_
    split_ifs
    · rfl
    · rfl
  · rw [if_neg fills, if_neg fills]
    refine (applyScore_exact { progress with
      counted := progress.counted ++ [share]
      shares := progress.shares.add share.address share.difficulty } share.address
      share.score).trans ?_
    split_ifs
    · rfl
    · rfl

theorem readRows_exact (shares : List Share) (progress : Pplns.Progress) :
    KeysetPaging.readRows (countShare .exact window blockReward) Progress.done (.ofExact progress)
        shares =
      ((Pplns.countShares window blockReward progress shares).mapError Prod.fst).map
        Progress.ofExact := by
  induction shares generalizing progress with
  | nil => rfl
  | cons share shares induction =>
      rw [KeysetPaging.readRows, Pplns.countShares]
      by_cases done : progress.done = true
      · rw [if_pos (by exact done), if_pos done]
        rfl
      · rw [if_neg (by exact done), if_neg done, countShare_exact]
        cases Pplns.countShare window blockReward progress share with
        | error failure => rfl
        | ok next => exact induction next

/-- In exact arithmetic the pass is that of the exact model. -/
theorem calculateRewards_exact (pageSize : Nat) (table : List Share) (poolId : Text)
    (created : Int) :
    calculateRewards .exact window blockReward pageSize table poolId created =
      ((Pplns.calculateRewards pageSize window blockReward table poolId created).mapError
        Prod.fst).map Progress.ofExact := by
  rw [calculateRewards, KeysetPaging.readPages_eq, Pplns.calculateRewards, Pplns.countPages_eq]
  exact readRows_exact _ (.start blockReward)

end Miningcore.Payments.Rounded

import Miningcore.Foundation.KeysetPaging
import Miningcore.Foundation.Tally
import Miningcore.Persistence.Database
import Mathlib.Tactic.Linarith
import Mathlib.Tactic.Positivity
import Mathlib.Tactic.FieldSimp

/-! `PPLNSPaymentScheme`: the reward of a block is distributed over the last
shares before it until their scores fill a window.

Decimals and doubles are computed exactly. -/

namespace Miningcore

namespace Persistence.Share

/-- `PayoutConstants.PayoutInfoSeperator`. -/
def payoutInfoSeparator : CodeUnit := 46

def address (share : Share) : Text :=
  match share.payoutInfo with
  | some (unit :: rest) => share.miner ++ payoutInfoSeparator :: unit :: rest
  | _ => share.miner

def score (share : Share) : ℚ := share.difficulty / share.networkDifficulty

end Persistence.Share

namespace Payments.Pplns

open Persistence

/-- The variables of `CalculateRewards`, and the shares it went through. -/
structure Progress where
  done : Bool := false
  accumulatedScore : ℚ := 0
  blockRewardRemaining : ℚ
  shareCutOffDate : Option Int := none
  shares : Tally Text ℚ := []
  rewards : Tally Text ℚ := []
  counted : List Share := []
deriving DecidableEq

def Progress.start (blockReward : ℚ) : Progress where
  blockRewardRemaining := blockReward

/-- A computation that may throw, leaving the variables as they are then. -/
abbrev Outcome := Except (Exception × Progress) Progress

variable (window blockReward : ℚ)

def addReward (rewards : Tally Text ℚ) (address : Text) (reward : ℚ) : Tally Text ℚ :=
  if 0 < reward then rewards.add address reward else rewards

/-- What follows once the score of a share is known: the variables are updated,
the remaining reward is checked and the miner is rewarded. -/
def applyScore (progress : Progress) (address : Text) (score : ℚ) : Outcome :=
  let reward := score * blockReward / window
  let progress := { progress with
    accumulatedScore := progress.accumulatedScore + score
    blockRewardRemaining := progress.blockRewardRemaining - reward }
  if progress.blockRewardRemaining ≤ 0 ∧ progress.done = false then
    .error (.overflow, progress)
  else
    .ok { progress with rewards := addReward progress.rewards address reward }

/-- The body of the loop over a page. The conversion to a decimal throws if the
network difficulty is zero, and the division if the window is. -/
def countShare (progress : Progress) (share : Share) : Outcome :=
  let progress := { progress with
    counted := progress.counted ++ [share]
    shares := progress.shares.add share.address share.difficulty }
  if share.networkDifficulty = 0 then
    .error (.overflow, progress)
  else
    let (capped, score) :=
      if progress.accumulatedScore + share.score ≥ window then
        ({ progress with shareCutOffDate := some share.created, done := true },
          window - progress.accumulatedScore)
      else
        (progress, share.score)
    if window = 0 then
      .error (.divideByZero, capped)
    else
      applyScore window blockReward capped share.address score

def countShares (progress : Progress) : List Share → Outcome
  | [] => .ok progress
  | share :: shares =>
      if progress.done then .ok progress
      else
        match countShare window blockReward progress share with
        | .error failure => .error failure
        | .ok next => countShares next shares

def countPages (pageSize : Nat) (progress : Progress) : List (List Share) → Outcome
  | [] => .ok progress
  | page :: pages =>
      match countShares window blockReward progress page with
      | .error failure => .error failure
      | .ok next =>
          if page.length < pageSize ∨ next.done then .ok next
          else countPages pageSize next pages

/-- The pages `CalculateRewards` fetches for a block. Every page after the first
lies strictly before the one it follows, so that there are not more pages than
shares. -/
def fetchPages (table : List Share) (poolId : Text) (created : Int) (pageSize : Nat) :
    List (List Share) :=
  KeysetPaging.pages Share.created pageSize
    (fun before => readSharesBeforeCreated table poolId before false pageSize) table.length
    (readSharesBeforeCreated table poolId created true pageSize)

def calculateRewards (pageSize : Nat) (window blockReward : ℚ) (table : List Share)
    (poolId : Text) (created : Int) : Outcome :=
  countPages window blockReward pageSize (Progress.start blockReward)
    (fetchPages table poolId created pageSize)

def sharePageSize : Nat := 50000

/-- The balance changes `UpdateBalancesAsync` makes for the rewards. -/
def credits (rewards : Tally Text ℚ) : Tally Text ℚ :=
  rewards.filter fun reward => 0 < reward.2

/-! ## How the loops compose -/

section Loops

variable (window blockReward : ℚ)

theorem countShares_done {progress : Progress} (done : progress.done = true)
    (shares : List Share) : countShares window blockReward progress shares = .ok progress := by
  cases shares with
  | nil => rfl
  | cons share shares => rw [countShares, if_pos done]

theorem countShares_append (progress : Progress) (front back : List Share) :
    countShares window blockReward progress (front ++ back) =
      (countShares window blockReward progress front).bind fun next =>
        countShares window blockReward next back := by
  induction front generalizing progress with
  | nil => rfl
  | cons share front induction =>
      rw [List.cons_append, countShares, countShares]
      by_cases done : progress.done = true
      · rw [if_pos done, if_pos done]
        exact (countShares_done window blockReward done back).symm
      · rw [if_neg done, if_neg done]
        cases countShare window blockReward progress share with
        | error failure => rfl
        | ok next => exact induction next

theorem countShares_concat_ok {progress result : Progress} {shares : List Share} {share : Share}
    (counted : countShares window blockReward progress (shares ++ [share]) = .ok result) :
    ∃ before, countShares window blockReward progress shares = .ok before ∧
      (before.done = true ∧ before = result ∨
        before.done = false ∧ countShare window blockReward before share = .ok result) := by
  rw [countShares_append] at counted
  cases earlier : countShares window blockReward progress shares with
  | error failure =>
      rw [earlier] at counted
      cases counted
  | ok before =>
      rw [earlier] at counted
      simp only [Except.bind, countShares] at counted
      refine ⟨before, rfl, ?_⟩
      split_ifs at counted with done
      · exact .inl ⟨done, Except.ok.inj counted⟩
      · cases counts : countShare window blockReward before share with
        | error failure =>
            rw [counts] at counted
            cases counted
        | ok next =>
            rw [counts] at counted
            exact .inr ⟨Bool.eq_false_of_not_eq_true done, counted⟩

theorem countPages_eq (pageSize : Nat) (progress : Progress) (pages : List (List Share)) :
    countPages window blockReward pageSize progress pages =
      countShares window blockReward progress (KeysetPaging.untilShort pageSize pages) := by
  induction pages generalizing progress with
  | nil => rfl
  | cons page pages induction =>
      rw [countPages, KeysetPaging.untilShort, countShares_append]
      cases counted : countShares window blockReward progress page with
      | error failure => rfl
      | ok next =>
          simp only [Except.bind]
          by_cases short : page.length < pageSize
          · rw [if_pos (.inl short), if_pos short]
            rfl
          · rw [if_neg short]
            by_cases done : next.done = true
            · rw [if_pos (.inr done), countShares_done window blockReward done]
            · rw [if_neg (by tauto), induction next]

theorem countShare_ok {progress next : Progress} {share : Share}
    (running : progress.done = false)
    (counted : countShare window blockReward progress share = .ok next) :
    share.networkDifficulty ≠ 0 ∧ window ≠ 0 ∧
      next.counted = progress.counted ++ [share] ∧
      next.shares = progress.shares.add share.address share.difficulty ∧
      ((window ≤ progress.accumulatedScore + share.score ∧ next.done = true ∧
        next.shareCutOffDate = some share.created ∧ next.accumulatedScore = window ∧
        next.rewards = addReward progress.rewards share.address
          ((window - progress.accumulatedScore) * blockReward / window)) ∨
      (progress.accumulatedScore + share.score < window ∧ next.done = false ∧
        next.shareCutOffDate = progress.shareCutOffDate ∧
        next.accumulatedScore = progress.accumulatedScore + share.score ∧
        next.blockRewardRemaining =
          progress.blockRewardRemaining - share.score * blockReward / window ∧
        0 < next.blockRewardRemaining ∧
        next.rewards = addReward progress.rewards share.address
          (share.score * blockReward / window))) := by
  simp only [countShare, applyScore] at counted
  split_ifs at counted with zeroDifficulty zeroWindow reaches check check
  · simp only [Except.ok.injEq] at counted
    subst counted
    exact ⟨zeroDifficulty, zeroWindow, rfl, rfl, .inl ⟨reaches, rfl, rfl, by simp, rfl⟩⟩
  · simp only [Except.ok.injEq] at counted
    subst counted
    rw [not_and_or, not_le] at check
    refine ⟨zeroDifficulty, zeroWindow, rfl, rfl, .inr ⟨not_le.mp reaches, running, rfl, rfl, rfl,
      check.resolve_right (not_not.mpr running), rfl⟩⟩

end Loops

end Payments.Pplns

end Miningcore

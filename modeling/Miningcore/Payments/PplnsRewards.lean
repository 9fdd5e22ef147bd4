import Miningcore.Payments.Pplns

/-! What `CalculateRewards` makes of a sequence of shares: scores are counted up
to the window, and the block reward is distributed in proportion to them. -/

namespace Miningcore.Payments.Pplns

open Persistence

/-- The scores a PPLNS window assigns to a sequence of shares: the share that
reaches the window gets what is left of it, and the shares behind it nothing. -/
def cappedScores (window accumulated : ℚ) : List Share → List (Share × ℚ)
  | [] => []
  | share :: shares =>
      if window ≤ accumulated + share.score then [(share, window - accumulated)]
      else (share, share.score) :: cappedScores window (accumulated + share.score) shares

def scoreOf (address : Text) (scores : List (Share × ℚ)) : ℚ :=
  ((scores.filter fun counted => counted.1.address = address).map Prod.snd).sum

def scoreSum (scores : List (Share × ℚ)) : ℚ := (scores.map Prod.snd).sum

theorem scoreOf_cons (address : Text) (share : Share) (score : ℚ) (scores : List (Share × ℚ)) :
    scoreOf address ((share, score) :: scores) =
      (if share.address = address then score else 0) + scoreOf address scores := by
  by_cases same : share.address = address <;> simp [scoreOf, same]

@[simp] theorem scoreSum_cons (share : Share) (score : ℚ) (scores : List (Share × ℚ)) :
    scoreSum ((share, score) :: scores) = score + scoreSum scores := by
  simp [scoreSum]

variable (window blockReward : ℚ)

theorem cappedScores_sum {accumulated : ℚ} (below : accumulated < window) (shares : List Share) :
    accumulated + scoreSum (cappedScores window accumulated shares) ≤ window := by
  induction shares generalizing accumulated with
  | nil => simpa [cappedScores, scoreSum] using below.le
  | cons share shares induction =>
      rw [cappedScores]
      split_ifs with reaches
      · simp [scoreSum]
      · rw [scoreSum_cons, ← add_assoc]
        exact induction (not_le.mp reaches)

section Rewards

variable (rewards : Tally Text ℚ) (address : Text) {reward : ℚ}

theorem amountOf_addReward (other : Text) (nonneg : 0 ≤ reward) :
    Tally.amountOf other (addReward rewards address reward) =
      Tally.amountOf other rewards + if address = other then reward else 0 := by
  rw [addReward]
  split_ifs with positive same same
  · rw [Tally.amountOf_add, if_pos same]
  · rw [Tally.amountOf_add, if_neg same]
  · rw [le_antisymm (not_lt.mp positive) nonneg, add_zero]
  · rw [add_zero]

theorem total_addReward (nonneg : 0 ≤ reward) :
    Tally.total (addReward rewards address reward) = Tally.total rewards + reward := by
  rw [addReward]
  split_ifs with positive
  · rw [Tally.total_add]
  · rw [le_antisymm (not_lt.mp positive) nonneg, add_zero]

theorem positive_addReward (positive : ∀ entry ∈ rewards, 0 < entry.2) :
    ∀ entry ∈ addReward rewards address reward, 0 < entry.2 := by
  rw [addReward]
  split_ifs with gain
  · exact Tally.forall_add gain (fun _ sum => add_pos sum gain) positive
  · exact positive

end Rewards

/-- A pass that has not reached the window, with the reward it has not given away. -/
structure Running (progress : Progress) : Prop where
  done : progress.done = false
  shareCutOffDate : progress.shareCutOffDate = none
  below : progress.accumulatedScore < window
  remaining : progress.blockRewardRemaining =
    blockReward - progress.accumulatedScore * blockReward / window
  positive : ∀ entry ∈ progress.rewards, 0 < entry.2

theorem Running.start (windowPositive : 0 < window) :
    Running window blockReward (Progress.start blockReward) where
  done := rfl
  shareCutOffDate := rfl
  below := windowPositive
  remaining := by simp [Progress.start]
  positive := by simp [Progress.start]

/-- What a running pass gained on the way to a later state, for the capped scores
of the shares in between. -/
structure Gained (progress result : Progress) (scores : List (Share × ℚ)) : Prop where
  counted : result.counted = progress.counted ++ scores.map Prod.fst
  accumulated : result.accumulatedScore = progress.accumulatedScore + scoreSum scores
  amounts : ∀ address, Tally.amountOf address result.rewards =
    Tally.amountOf address progress.rewards + blockReward / window * scoreOf address scores
  total : Tally.total result.rewards =
    Tally.total progress.rewards + blockReward / window * scoreSum scores
  positive : ∀ entry ∈ result.rewards, 0 < entry.2
  cutOff : (result.accumulatedScore = window ∧ result.shareCutOffDate.isSome = true) ∨
    (result.accumulatedScore < window ∧ result.shareCutOffDate = none)

namespace Gained

variable {window blockReward} {progress next result : Progress}

theorem of_share {share : Share} {score : ℚ} (gain : 0 ≤ score * blockReward / window)
    (positive : ∀ entry ∈ progress.rewards, 0 < entry.2)
    (counted : next.counted = progress.counted ++ [share])
    (accumulated : next.accumulatedScore = progress.accumulatedScore + score)
    (rewards : next.rewards =
      addReward progress.rewards share.address (score * blockReward / window))
    (cutOff : (next.accumulatedScore = window ∧ next.shareCutOffDate.isSome = true) ∨
      (next.accumulatedScore < window ∧ next.shareCutOffDate = none)) :
    Gained window blockReward progress next [(share, score)] where
  counted := counted
  accumulated := by simp [scoreSum, accumulated]
  amounts address := by
    have part : score * blockReward / window = blockReward / window * score := by ring
    rw [rewards, amountOf_addReward _ _ _ gain, scoreOf_cons, part]
    split_ifs <;> simp [scoreOf]
  total := by
    have part : score * blockReward / window = blockReward / window * score := by ring
    rw [rewards, total_addReward _ _ gain, scoreSum_cons, part]
    simp [scoreSum]
  positive := rewards ▸ positive_addReward _ _ positive
  cutOff := cutOff

theorem cons {share : Share} {score : ℚ} {scores : List (Share × ℚ)}
    (first : Gained window blockReward progress next [(share, score)])
    (rest : Gained window blockReward next result scores) :
    Gained window blockReward progress result ((share, score) :: scores) where
  counted := by
    rw [rest.counted, first.counted]
    simp
  accumulated := by
    rw [rest.accumulated, first.accumulated, scoreSum_cons, scoreSum_cons]
    simp [scoreSum, add_assoc]
  amounts address := by
    rw [rest.amounts, first.amounts, scoreOf_cons, scoreOf_cons]
    simp only [scoreOf, List.filter_nil, List.map_nil, List.sum_nil]
    ring
  total := by
    rw [rest.total, first.total, scoreSum_cons, scoreSum_cons]
    simp only [scoreSum, List.map_nil, List.sum_nil]
    ring
  positive := rest.positive
  cutOff := rest.cutOff

end Gained

section Domain

variable (windowPositive : 0 < window) (rewardPositive : 0 < blockReward)

include windowPositive rewardPositive in
theorem countShare_succeeds {progress : Progress} (running : Running window blockReward progress)
    {share : Share} (networkDifficulty : 0 < share.networkDifficulty) :
    ∃ next, countShare window blockReward progress share = .ok next := by
  simp only [countShare, applyScore, if_neg networkDifficulty.ne', if_neg windowPositive.ne']
  split_ifs with reaches check check
  · exact absurd check.2 (by simp)
  · exact ⟨_, rfl⟩
  · exfalso
    -- The score stays below the window, so a part of the reward remains.
    have part : (progress.accumulatedScore + share.score) * blockReward / window < blockReward := by
      rw [div_lt_iff₀ windowPositive, mul_comm blockReward]
      exact mul_lt_mul_of_pos_right (not_le.mp reaches) rewardPositive
    have left := check.1
    rw [running.remaining] at left
    have spent : progress.accumulatedScore * blockReward / window +
        share.score * blockReward / window =
        (progress.accumulatedScore + share.score) * blockReward / window := by ring
    linarith
  · exact ⟨_, rfl⟩

include windowPositive rewardPositive in
theorem countShares_gained (shares : List Share)
    (sound : ∀ share ∈ shares, 0 ≤ share.difficulty ∧ 0 < share.networkDifficulty)
    (progress : Progress) (running : Running window blockReward progress) :
    ∃ result, countShares window blockReward progress shares = .ok result ∧
      Gained window blockReward progress result
        (cappedScores window progress.accumulatedScore shares) := by
  induction shares generalizing progress with
  | nil =>
      refine ⟨progress, rfl, ?_⟩
      exact {
        counted := by simp [cappedScores]
        accumulated := by simp [cappedScores, scoreSum]
        amounts := by simp [cappedScores, scoreOf]
        total := by simp [cappedScores, scoreSum]
        positive := running.positive
        cutOff := .inr ⟨running.below, running.shareCutOffDate⟩ }
  | cons share shares induction =>
      have shareSound := sound share List.mem_cons_self
      have scoreNonneg : 0 ≤ share.score := div_nonneg shareSound.1 shareSound.2.le
      rcases countShare_succeeds window blockReward windowPositive rewardPositive running
        shareSound.2 with ⟨next, counted⟩
      rcases countShare_ok window blockReward running.done counted with
        ⟨-, -, nextCounted, -, reached | below⟩
      · rcases reached with ⟨reaches, nextDone, cutOff, accumulated, rewards⟩
        have gain : 0 ≤ (window - progress.accumulatedScore) * blockReward / window := by
          have := sub_pos.mpr running.below
          positivity
        refine ⟨next, ?_, ?_⟩
        · rw [countShares, if_neg (by simp [running.done]), counted]
          exact countShares_done window blockReward nextDone shares
        · rw [cappedScores, if_pos reaches]
          apply Gained.of_share gain running.positive nextCounted _ rewards
          · exact .inl ⟨accumulated, by rw [cutOff]; rfl⟩
          · rw [accumulated, add_sub_cancel]
      · rcases below with ⟨below, nextDone, cutOff, accumulated, remaining, -, rewards⟩
        have gain : 0 ≤ share.score * blockReward / window := by positivity
        have nextRunning : Running window blockReward next := {
          done := nextDone
          shareCutOffDate := cutOff.trans running.shareCutOffDate
          below := accumulated ▸ below
          remaining := by
            rw [remaining, running.remaining, accumulated]
            ring
          positive := rewards ▸ positive_addReward _ _ running.positive }
        have first := Gained.of_share gain running.positive nextCounted accumulated rewards
          (.inr ⟨nextRunning.below, nextRunning.shareCutOffDate⟩)
        rcases induction (fun other member => sound other (List.mem_cons_of_mem _ member)) next
          nextRunning with ⟨result, resultCounted, gained⟩
        refine ⟨result, ?_, ?_⟩
        · rw [countShares, if_neg (by simp [running.done]), counted]
          exact resultCounted
        · rw [cappedScores, if_neg (not_le.mpr below), ← accumulated]
          exact first.cons gained

include windowPositive rewardPositive in
/-- The PPLNS reward law, for whatever pages the repository returns. -/
theorem countPages_reward_law (pageSize : Nat) (pages : List (List Share))
    (sound : ∀ page ∈ pages, ∀ share ∈ page, 0 ≤ share.difficulty ∧ 0 < share.networkDifficulty) :
    ∃ result, countPages window blockReward pageSize (Progress.start blockReward) pages =
        .ok result ∧
      let scores := cappedScores window 0 (KeysetPaging.untilShort pageSize pages)
      result.counted = scores.map Prod.fst ∧
      result.accumulatedScore = scoreSum scores ∧ scoreSum scores ≤ window ∧
      (∀ address, Tally.amountOf address (credits result.rewards) =
        blockReward / window * scoreOf address scores) ∧
      Tally.total (credits result.rewards) ≤ blockReward ∧
      (Tally.total (credits result.rewards) = blockReward ↔
        result.shareCutOffDate.isSome = true) := by
  have readSound : ∀ share ∈ KeysetPaging.untilShort pageSize pages,
      0 ≤ share.difficulty ∧ 0 < share.networkDifficulty := by
    intro share member
    rcases KeysetPaging.mem_untilShort pageSize member with ⟨page, pageMember, shareMember⟩
    exact sound page pageMember share shareMember
  rcases countShares_gained window blockReward windowPositive rewardPositive _ readSound
    (Progress.start blockReward) (Running.start window blockReward windowPositive) with
    ⟨result, counted, gained⟩
  have fits := cappedScores_sum window windowPositive (KeysetPaging.untilShort pageSize pages)
  have credited : credits result.rewards = result.rewards := by
    rw [credits, List.filter_eq_self]
    exact fun entry member => decide_eq_true (gained.positive entry member)
  have total : Tally.total result.rewards = blockReward / window * result.accumulatedScore := by
    rw [gained.total, gained.accumulated]
    simp [Progress.start]
  have rate : 0 < blockReward / window := div_pos rewardPositive windowPositive
  have whole : blockReward / window * window = blockReward :=
    div_mul_cancel₀ blockReward windowPositive.ne'
  refine ⟨result, (countPages_eq window blockReward pageSize _ pages).trans counted, ?_⟩
  rw [zero_add] at fits
  refine ⟨by simpa [Progress.start] using gained.counted,
    by simpa [Progress.start] using gained.accumulated, fits, ?_, ?_, ?_⟩
  · intro address
    rw [credited, gained.amounts]
    simp [Progress.start]
  · rw [credited, total]
    rcases gained.cutOff with ⟨reached, -⟩ | ⟨below, -⟩
    · rw [reached, whole]
    · exact (mul_le_mul_of_nonneg_left below.le rate.le).trans_eq whole
  · rw [credited, total]
    rcases gained.cutOff with ⟨reached, cutOff⟩ | ⟨below, cutOff⟩
    · simp only [reached, whole, cutOff]
    · have less := (mul_lt_mul_of_pos_left below rate).trans_eq whole
      simp [less.ne, cutOff]

end Domain

namespace SampleShare

def share (miner : String) (created : Int) : Share where
  poolId := text "excc1"
  miner := text miner
  payoutInfo := none
  difficulty := 10
  networkDifficulty := 100
  created := created

end SampleShare

/-- Two full pages of two shares and a short one. The window of four tenths is
reached exactly at the end of the second page. -/
theorem countPages_reward_law_three_pages :
    let pages := [[SampleShare.share "alice" 9, SampleShare.share "bob" 8],
      [SampleShare.share "alice" 7, SampleShare.share "carol" 6], [SampleShare.share "bob" 5]]
    ∃ result, countPages (2 / 5) 50 2 (Progress.start 50) pages = .ok result ∧
      let scores := cappedScores (2 / 5) 0 (KeysetPaging.untilShort 2 pages)
      result.counted = scores.map Prod.fst ∧
      result.accumulatedScore = scoreSum scores ∧ scoreSum scores ≤ 2 / 5 ∧
      (∀ address, Tally.amountOf address (credits result.rewards) =
        50 / (2 / 5) * scoreOf address scores) ∧
      Tally.total (credits result.rewards) ≤ 50 ∧
      (Tally.total (credits result.rewards) = 50 ↔ result.shareCutOffDate.isSome = true) :=
  countPages_reward_law (2 / 5) 50 (by norm_num) (by norm_num) 2 _ (by decide)

end Miningcore.Payments.Pplns

import Miningcore.Payments.RoundedRewards

/-! The transaction of a block in exact arithmetic, for a configuration that nothing is
missing from: whatever it comes to, the exact model comes to as well. -/

namespace Miningcore.Payments.Rounded

open Miningcore.Configuration Persistence Transaction

def GivenRecipient.ofConfig (recipient : RewardRecipient) : GivenRecipient :=
  ⟨some recipient.address, recipient.percentage, recipient.type⟩

def GivenPool.ofConfig (pool : PoolConfig) : GivenPool where
  id := pool.id
  address := pool.address
  rewardRecipients := some (pool.rewardRecipients.map fun recipient => some (.ofConfig recipient))
  payoutScheme := match pool.payoutScheme with
    | .pplns factor => .pplns (.ok factor)
    | .solo => .solo

variable {pool : PoolConfig} {block : Block} {database next : Database}

theorem reduceOption_map_some {α β : Type} (transform : α → β) (values : List α) :
    (values.map fun value => some (transform value)).reduceOption = values.map transform := by
  induction values with
  | nil => rfl
  | cons value values induction =>
      rw [List.map_cons, List.reduceOption_cons_of_some, induction, List.map_cons]

theorem config_ofConfig (coin : pool.coin = .EXCC) : (GivenPool.ofConfig pool).config = pool := by
  rcases pool with ⟨id, poolCoin, address, recipients, scheme⟩
  cases coin
  rw [GivenPool.config, GivenPool.ofConfig]
  have same : (recipients.map GivenRecipient.ofConfig).filterMap (fun recipient =>
      recipient.address.map fun address =>
        (⟨address, recipient.percentage, recipient.type⟩ : RewardRecipient)) = recipients := by
    rw [List.filterMap_map]
    exact List.filterMap_some
  simp only [Option.getD_some, reduceOption_map_some, same]
  cases scheme with
  | pplns factor => rfl
  | solo => rfl

/-! ## Reward recipients -/

theorem paying_ofConfig (recipients : List RewardRecipient) :
    paying (recipients.map fun recipient => some (.ofConfig recipient)) =
      (recipients.filter fun recipient => 0 < recipient.percentage).map .ofConfig := by
  rw [paying, reduceOption_map_some, List.filter_map]
  rfl

theorem recipientCredits_exact (reward : ℚ) (recipients : List RewardRecipient) :
    recipientCredits .exact pool.address reward (recipients.map .ofConfig) =
      Payments.recipientCredits pool reward recipients := by
  induction recipients with
  | nil => rfl
  | cons recipient recipients induction =>
      rw [List.map_cons, Payments.recipientCredits]
      by_cases own : recipient.address = pool.address
      · rw [recipientCredits_own (congrArg some own), induction,
          List.filter_cons_of_neg (by simpa using own)]
        rfl
      · rw [recipientCredits_foreign rfl own, induction,
          List.filter_cons_of_pos (by simpa using own)]
        rfl

theorem poolCredits_exact (reward : ℚ) : poolCredits .exact (.ofConfig pool) reward =
    Payments.recipientCredits pool reward (payingRecipients pool) := by
  rw [poolCredits, GivenPool.ofConfig, Option.getD_some, paying_ofConfig, payingRecipients]
  exact recipientCredits_exact reward _

theorem schemeReward_exact (coin : pool.coin = .EXCC) (reward : ℚ) :
    schemeReward .exact (.ofConfig pool) reward = Payments.schemeReward pool reward := by
  have leaves : ∀ (recipients : List RewardRecipient) (remaining : ℚ),
      recipientsLeave .exact reward remaining (recipients.map .ofConfig) =
        remaining - (recipients.map (Payments.recipientAmount reward)).sum := by
    intro recipients
    induction recipients with
    | nil => simp [recipientsLeave]
    | cons recipient recipients induction =>
        intro remaining
        have rest := induction (remaining - Payments.recipientAmount reward recipient)
        rw [recipientsLeave] at rest ⊢
        rw [List.map_cons, List.map_cons, List.sum_cons, List.foldl_cons, ← sub_sub, ← rest]
        rfl
  have noReserve : feeReserve .EXCC = 0 := rfl
  rw [schemeReward, GivenPool.ofConfig, Option.getD_some, paying_ofConfig, leaves,
    Payments.schemeReward, coin, noReserve, sub_zero, payingRecipients]

/-! ## Payout schemes -/

theorem Pplns.blockRewards_exact {factor : Option ℚ} {blockReward : ℚ} {table : List Share}
    (through : GoesThrough .exact (Pplns.window factor) blockReward 0 blockReward []
      (Pplns.shownShares Pplns.sharePageSize table pool.id block.created)) :
    ∃ result, Pplns.blockRewards pool factor block blockReward table = .ok result ∧
      .ofExact result =
        Pplns.outcome .exact (Pplns.window factor) blockReward pool.id block.created table := by
  have computed := calculateRewards_eq_ok.mpr ⟨through, rfl⟩
  rw [calculateRewards_exact] at computed
  cases rewards : Pplns.blockRewards pool factor block blockReward table with
  | error failure =>
      rw [Pplns.blockRewards] at rewards
      rw [rewards] at computed
      cases computed
  | ok result =>
      rw [Pplns.blockRewards] at rewards
      rw [rewards] at computed
      exact ⟨result, rfl, Except.ok.inj computed⟩

/-- A tally with one entry for each address has only one to set. -/
theorem Solo.setReward_eq {rewards : Tally Text ℚ} (unique : (rewards.map Prod.fst).Nodup)
    (address : Text) (reward : ℚ) :
    Payments.Solo.setReward rewards address reward = rewards.set address reward := by
  induction rewards with
  | nil => rfl
  | cons entry rewards induction =>
      rcases entry with ⟨known, sum⟩
      rw [List.map_cons, List.nodup_cons] at unique
      have rest := induction unique.2
      rw [Payments.Solo.setReward] at rest ⊢
      rw [Tally.set]
      by_cases same : known = address
      · have others : rewards.map (fun entry =>
            if entry.1 = address then (address, reward) else entry) = rewards := by
          refine (List.map_congr_left fun entry member => ?_).trans (List.map_id rewards)
          have other : entry.1 ≠ address := fun isAddress =>
            unique.1 (List.mem_map.mpr ⟨entry, member, isAddress.trans same.symm⟩)
          exact if_neg other
        simp [same, others]
      · rw [if_neg same, ← rest]
        simp only [List.any_cons, same, decide_false, Bool.false_or, List.map_cons, if_false]
        split_ifs
        · rfl
        · rfl

theorem Solo.setRewards_exact (reward : ℚ) (addresses : List Text) {known : Tally Text ℚ}
    (unique : (known.map Prod.fst).Nodup) :
    addresses.foldl (fun rewards address => rewards.set address reward) known =
      addresses.foldl (fun rewards address => Payments.Solo.setReward rewards address reward)
        known := by
  induction addresses generalizing known with
  | nil => rfl
  | cons address addresses induction =>
      rw [List.foldl_cons, List.foldl_cons, Solo.setReward_eq unique]
      exact induction (Tally.nodup_set unique address reward)

theorem Solo.addresses_ofConfig :
    Solo.addresses (.ofConfig pool) = (Payments.Solo.recipients pool).map some := by
  rw [Solo.addresses, GivenPool.ofConfig, Option.getD_some, reduceOption_map_some,
    Payments.Solo.recipients, List.filter_map, List.map_map, List.map_map]
  rfl

theorem Solo.calculateRewards_exact {blockReward : ℚ}
    (distributed : Solo.Distributed .exact (.ofConfig pool) blockReward) :
    Payments.Solo.calculateRewards pool blockReward =
      .ok (Solo.rewards .exact (.ofConfig pool) blockReward) := by
  have configured := distributed.configured
  have flat : ((Payments.Solo.recipients pool).map some).reduceOption =
      Payments.Solo.recipients pool := by
    rw [reduceOption_map_some, List.map_id']
  rw [Solo.rewards]
  rw [Solo.addresses_ofConfig] at configured ⊢
  rw [flat, List.length_map, Payments.Solo.calculateRewards]
  cases recipients : Payments.Solo.recipients pool with
  | nil =>
      rw [recipients] at configured
      exact absurd rfl configured
  | cons address addresses =>
      have same := @Solo.setRewards_exact (blockReward / (address :: addresses).length)
        (address :: addresses) [] List.nodup_nil
      exact congrArg Except.ok same.symm

/-! ## The block -/

theorem creditRecipients_eq (pool : PoolConfig) (block : Block) (remaining : ℚ)
    (recipients : List RewardRecipient) :
    Payments.creditRecipients pool block remaining recipients = (do
      creditAll pool block (Payments.recipientCredits pool block.reward recipients)
      return remaining - (recipients.map (Payments.recipientAmount block.reward)).sum) := by
  induction recipients generalizing remaining with
  | nil => simp [Payments.creditRecipients, Payments.recipientCredits, creditAll]
  | cons recipient recipients induction =>
      have rest : remaining - Payments.recipientAmount block.reward recipient -
          (recipients.map (Payments.recipientAmount block.reward)).sum =
          remaining -
            ((recipient :: recipients).map (Payments.recipientAmount block.reward)).sum := by
        rw [List.map_cons, List.sum_cons]
        ring
      rw [Payments.creditRecipients]
      by_cases own : recipient.address = pool.address
      · simp only [own, ne_eq, not_true_eq_false, if_false, induction, rest]
        simp [Payments.recipientCredits, own]
      · simp only [own, ne_eq, not_false_eq_true, if_true, induction, rest]
        simp [Payments.recipientCredits, own, creditAll]

theorem updateBlockRewardBalances_exact (coin : pool.coin = .EXCC) {left : ℚ}
    (returns : Returns (updateBlockRewardBalances .exact (.ofConfig pool) block) database left
      next) : Returns (Payments.updateBlockRewardBalances pool block) database left next := by
  rcases updateBlockRewardBalances_returns.mp returns with ⟨-, rfl, credits⟩
  rw [config_ofConfig coin, poolCredits_exact] at credits
  rw [schemeReward_exact coin, updateBlockRewardBalances_eq, distributeReward, creditRecipients_eq]
  exact returns_bind (returns_bind credits (returns_pure _ next)) (returns_pure _ next)

theorem Pplns.updateBalances_exact (coin : pool.coin = .EXCC) {factor : Option ℚ}
    {blockReward : ℚ}
    (returns : Returns (Pplns.updateBalances .exact (.ok factor) (.ofConfig pool) block blockReward)
      database () next) :
    Returns (Payments.Pplns.updateBalances pool factor block blockReward) database () next := by
  rcases Pplns.updateBalances_returns.mp returns with ⟨distributed, paid, credits, rfl⟩
  rcases Pplns.blockRewards_exact distributed.through with ⟨result, computed, same⟩
  have rewards : result.rewards = (Progress.ofExact result).rewards := rfl
  have cutOff : result.shareCutOffDate = (Progress.ofExact result).shareCutOffDate := rfl
  have isId : (GivenPool.ofConfig pool).id = pool.id := rfl
  rw [config_ofConfig coin, isId, ← same, ← rewards] at credits
  rw [isId, ← same, ← cutOff, Payments.Pplns.updateBalances]
  have reads : (Pplns.blockRewards pool factor block blockReward database.shares).mapError
      Prod.fst = .ok result := by
    rw [computed]
    rfl
  refine returns_bind (returns_query reads) ?_
  rw [creditRewards_eq]
  refine returns_bind credits ?_
  cases result.shareCutOffDate with
  | none => exact returns_pure () paid
  | some cutOffDate => exact Payments.deleteDiscardedShares_returns.mpr rfl

theorem Solo.updateBalances_exact (coin : pool.coin = .EXCC) {reward blockReward : ℚ}
    (poolPaid : PoolPaid .exact (.ofConfig pool) reward)
    (returns : Returns (Solo.updateBalances .exact (.ofConfig pool) block blockReward) database ()
      next) :
    Returns (Payments.Solo.updateBalances pool block blockReward) database () next := by
  rcases (Solo.updateBalances_returns poolPaid).mp returns with ⟨distributed, paid, credits, rfl⟩
  rw [config_ofConfig coin] at credits
  rw [Payments.Solo.updateBalances, Solo.calculateRewards_exact distributed]
  refine returns_bind (returns_attempt rfl database) ?_
  rw [creditRewards_eq]
  exact returns_bind credits (Payments.deleteDiscardedShares_returns.mpr rfl)

theorem updateBalances_exact (coin : pool.coin = .EXCC) {reward blockReward : ℚ}
    (poolPaid : PoolPaid .exact (.ofConfig pool) reward)
    (returns : Returns (updateBalances .exact (.ofConfig pool) block blockReward) database ()
      next) :
    Returns (Payments.updateBalances pool block blockReward) database () next := by
  rw [updateBalances] at returns
  rw [Payments.updateBalances]
  cases scheme : pool.payoutScheme with
  | pplns factor =>
      have given : (GivenPool.ofConfig pool).payoutScheme = .pplns (.ok factor) := by
        simp only [GivenPool.ofConfig, scheme]
      rw [given] at returns
      exact Pplns.updateBalances_exact coin returns
  | solo =>
      have given : (GivenPool.ofConfig pool).payoutScheme = .solo := by
        simp only [GivenPool.ofConfig, scheme]
      rw [given] at returns
      exact Solo.updateBalances_exact coin poolPaid returns

theorem settleBlock_exact (coin : pool.coin = .EXCC)
    (returns : Returns (settleBlock .exact (.ofConfig pool) block) database () next) :
    Returns (Payments.settleBlock pool block) database () next := by
  rw [settleBlock] at returns
  rw [Payments.settleBlock]
  cases status : block.status with
  | orphaned =>
      rw [status] at returns
      exact returns
  | pending =>
      rw [status] at returns
      exact returns
  | confirmed =>
      rw [status] at returns
      simp only [returns_bind_iff unlimited_updateBlockRewardBalances,
        returns_bind_iff (unlimited_updateBalances _)] at returns
      rcases returns with ⟨blockReward, shared, recipients, _, distributed, scheme, updates⟩
      have poolPaid := (updateBlockRewardBalances_returns.mp recipients).1
      exact returns_bind (updateBlockRewardBalances_exact coin recipients)
        (returns_bind (updateBalances_exact coin poolPaid scheme) updates)

/-- Only the usage of an amount, if there is no unit for its shares, makes a difference to the
exact model. -/
theorem processBlock_exact (coin : pool.coin = .EXCC) {processed : Block}
    (returns : Returns (processBlock .exact (.ofConfig pool) block) database processed next) :
    Returns (Payments.processBlock pool block) database processed next := by
  rw [processBlock, config_ofConfig coin, returns_bind_iff (unlimited_effort pool)] at returns
  rcases returns with ⟨current, start, computes, rest⟩
  rw [returns_bind_iff unlimited_settleBlock] at rest
  rcases rest with ⟨_, settled, settles, returned⟩
  exact returns_bind computes (returns_bind (settleBlock_exact coin settles) returned)

end Miningcore.Payments.Rounded

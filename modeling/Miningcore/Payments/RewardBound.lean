import Miningcore.Payments.RoundedRewards

/-! What a confirmed block distributes, compared with its reward.

Nothing keeps the percentages of the reward recipients below a hundred, a scheme that has
nothing left to distribute throws at the first share that leaves its window open, and the
columns round each amount for itself. The theorem at the end says exactly which blocks are
credited without an exception and within their reward. -/

namespace Miningcore.Payments.Rounded

open Miningcore.Configuration Persistence Transaction

variable (runtime : Runtime)

/-! ## The credits of a block -/

def schemeCredits (pool : GivenPool) (reward : ℚ) (created : Int) (table : List Share) :
    List (Text × ℚ) :=
  match pool.payoutScheme with
  | .pplns (.ok factor) => Pplns.credits (Pplns.outcome runtime (Pplns.window factor)
      (schemeReward runtime pool reward) pool.id created table).rewards
  | .pplns (.error _) => []
  | .solo => Pplns.credits (Solo.rewards runtime pool (schemeReward runtime pool reward))

def schemeCutOffDate (pool : GivenPool) (reward : ℚ) (created : Int) (table : List Share) :
    Option Int :=
  match pool.payoutScheme with
  | .pplns (.ok factor) => (Pplns.outcome runtime (Pplns.window factor)
      (schemeReward runtime pool reward) pool.id created table).shareCutOffDate
  | .pplns (.error _) => none
  | .solo => some created

/-- The configuration of the scheme can be read, and the scheme distributes what the
recipients leave. -/
def SchemeDistributes (pool : GivenPool) (reward : ℚ) (created : Int) (table : List Share) : Prop :=
  match pool.payoutScheme with
  | .pplns (.ok factor) => Pplns.Distributed runtime (Pplns.window factor)
      (schemeReward runtime pool reward) pool.id created table
  | .pplns (.error _) => False
  | .solo => Solo.Distributed runtime pool (schemeReward runtime pool reward)

def blockCredits (pool : GivenPool) (reward : ℚ) (created : Int) (table : List Share) :
    List (Text × ℚ) :=
  poolCredits runtime pool reward ++ schemeCredits runtime pool reward created table

/-- The sum of the difficulties behind the effort of a block fits 64 bits, if it is asked for. -/
def EffortFits (pool : GivenPool) (block : Block) (database : Database) : Prop :=
  block.effort.isNone = true → ∃ accumulated, getAccumulatedShareDifficultyBetweenCreated
    database.shares pool.id
    ((getBlockBefore database.blocks pool.id [.confirmed, .orphaned, .pending]
      block.created).map Block.created) block.created = .ok accumulated

/-- The transaction of a block is committed, and the amounts that it adds to the balance
changes are not negative and sum to at most the reward. -/
def DistributesWithinReward (pool : GivenPool) (block : Block) (database : Database) : Prop :=
  ∃ next processed changes,
    run .database (processBlock runtime pool block) none database = (next, .ok processed) ∧
    next.balanceChanges = database.balanceChanges ++ changes ∧
    (∀ change ∈ changes, 0 ≤ change.amount) ∧
    (changes.map BalanceChange.amount).sum ≤ block.reward

/-- The recipients and the scheme come to their ends, what they credit is within the reward
once the columns have rounded it, and the columns have room. -/
structure Distributable (pool : GivenPool) (block : Block) (database : Database) : Prop where
  reward : 0 ≤ block.reward
  recipients : PoolPaid runtime pool block.reward
  scheme : SchemeDistributes runtime pool block.reward block.created database.shares
  within : ((blockCredits runtime pool block.reward block.created database.shares).map
    fun credit => storedAmount credit.2).sum ≤ block.reward
  effort : EffortFits pool block database
  rewardFits : storedAmount block.reward < 10 ^ 16
  creditsFit : CreditsFit database pool.config
    (blockCredits runtime pool block.reward block.created database.shares)

section Transaction

variable {runtime} {pool : GivenPool} {block : Block} {database next : Database}

theorem schemeCredits_positive {reward : ℚ} {created : Int} {table : List Share} :
    ∀ credit ∈ schemeCredits runtime pool reward created table, 0 < credit.2 := by
  have positive : ∀ rewards : Tally Text ℚ, ∀ credit ∈ Pplns.credits rewards, 0 < credit.2 := by
    intro rewards credit member
    simpa using (List.mem_filter.mp member).2
  intro credit member
  rw [schemeCredits] at member
  cases scheme : pool.payoutScheme with
  | solo =>
      simp only [scheme] at member
      exact positive _ credit member
  | pplns factor =>
      cases factor with
      | error failure =>
          simp only [scheme] at member
          cases member
      | ok factor =>
          simp only [scheme] at member
          exact positive _ credit member

theorem blockCredits_nonneg {reward : ℚ} (nonneg : 0 ≤ reward) {created : Int}
    {table : List Share} :
    ∀ credit ∈ blockCredits runtime pool reward created table, 0 ≤ credit.2 := by
  intro credit member
  rcases List.mem_append.mp member with isPool | isScheme
  · exact poolCredits_nonneg nonneg credit isPool
  · exact (schemeCredits_positive credit isScheme).le

theorem updateBalances_returns (paid : PoolPaid runtime pool block.reward) :
    Returns (updateBalances runtime pool block (schemeReward runtime pool block.reward)) database ()
        next ↔
      SchemeDistributes runtime pool block.reward block.created database.shares ∧
      ∃ credited, Returns (creditAll pool.config block
          (schemeCredits runtime pool block.reward block.created database.shares)) database ()
          credited ∧
        { credited with
          shares := keptShares credited.shares pool.id
            (schemeCutOffDate runtime pool block.reward block.created
              database.shares) } = next := by
  rw [updateBalances, SchemeDistributes, schemeCredits, schemeCutOffDate]
  cases pool.payoutScheme with
  | solo => exact Solo.updateBalances_returns paid
  | pplns factor =>
      cases factor with
      | ok factor => exact Pplns.updateBalances_returns
      | error failure =>
          simp only [Pplns.updateBalances, returns_attempt_bind_iff]
          simp

theorem unlimited_processBlock : Unlimited (processBlock runtime pool block) := by
  refine unlimited_bind (unlimited_effort pool.config) fun current => ?_
  exact unlimited_bind unlimited_settleBlock fun _ => unlimited_pure current

theorem settleBlock_changes (confirmed : block.status = .confirmed)
    (returns : Returns (settleBlock runtime pool block) database () next) :
    PoolPaid runtime pool block.reward ∧
      SchemeDistributes runtime pool block.reward block.created database.shares ∧
      (∃ stored, numeric block.reward = .ok stored) ∧
      ∃ credited, Returns (creditAll pool.config block
          (blockCredits runtime pool block.reward block.created database.shares)) database ()
          credited ∧ next.balanceChanges = credited.balanceChanges := by
  rw [settleBlock, confirmed] at returns
  simp only [returns_bind_iff unlimited_updateBlockRewardBalances,
    returns_bind_iff (unlimited_updateBalances _), updateBlockRewardBalances_returns] at returns
  rcases returns with ⟨_, shared, ⟨paid, rfl, recipients⟩, _, distributed, scheme, updates⟩
  rcases (updateBalances_returns paid).mp scheme with ⟨distributes, credited, credits, rfl⟩
  rw [creditAll_shares recipients] at distributes credits
  rcases updateBlock_leads updates.leads with ⟨stored, isStored, rfl⟩
  exact ⟨paid, distributes, ⟨stored, isStored⟩, credited,
    creditAll_append_returns.mpr ⟨shared, recipients, credits⟩, rfl⟩

theorem updateBlock_returns {stored : ℚ} (isStored : numeric block.reward = .ok stored)
    (database : Database) : ∃ next, Returns (updateBlock block) database () next := by
  let updated : Database := { database with blocks := database.blocks.map fun known =>
    if known.id = block.id then block.update known stored else known }
  have update : Returns (updateBlock block) database () updated := by
    apply returns_execute
    rw [isStored]
    rfl
  exact ⟨updated, update⟩

theorem settleBlock_returns {credited : Database} {stored : ℚ}
    (confirmed : block.status = .confirmed) (paid : PoolPaid runtime pool block.reward)
    (distributes : SchemeDistributes runtime pool block.reward block.created database.shares)
    (isStored : numeric block.reward = .ok stored)
    (credits : Returns (creditAll pool.config block
      (blockCredits runtime pool block.reward block.created database.shares)) database ()
      credited) :
    ∃ next, Returns (settleBlock runtime pool block) database () next := by
  rcases creditAll_append_returns.mp credits with ⟨shared, recipients, scheme⟩
  rw [← creditAll_shares recipients] at distributes scheme
  have distributed := (updateBalances_returns paid).mpr ⟨distributes, credited, scheme, rfl⟩
  rcases updateBlock_returns isStored _ with ⟨next, updates⟩
  refine ⟨next, ?_⟩
  rw [settleBlock, confirmed]
  exact returns_bind (updateBlockRewardBalances_returns.mpr ⟨paid, rfl, recipients⟩)
    (returns_bind distributed updates)

theorem calculateBlockEffort_fits {config : PoolConfig} {result : Block}
    (leads : Leads (calculateBlockEffort config block) database result next) :
    ∃ accumulated, getAccumulatedShareDifficultyBetweenCreated database.shares config.id
      ((getBlockBefore database.blocks config.id [.confirmed, .orphaned, .pending]
        block.created).map Block.created) block.created = .ok accumulated := by
  rcases leads_bind leads with ⟨lastBlock, first, readsBlock, rest⟩
  rcases leads_query readsBlock with ⟨found, rfl⟩
  rcases leads_bind rest with ⟨accumulated, second, readsShares, -⟩
  rcases leads_query readsShares with ⟨sum, -⟩
  cases found
  exact ⟨accumulated, sum⟩

theorem calculateBlockEffort_returns {config : PoolConfig}
    (fits : ∃ accumulated, getAccumulatedShareDifficultyBetweenCreated database.shares config.id
      ((getBlockBefore database.blocks config.id [.confirmed, .orphaned, .pending]
        block.created).map Block.created) block.created = .ok accumulated) :
    ∃ effort, Returns (calculateBlockEffort config block) database { block with effort }
      database := by
  rcases fits with ⟨accumulated, sum⟩
  cases accumulated with
  | none =>
      exact ⟨block.effort, returns_bind (returns_query rfl)
        (returns_bind (returns_query sum) (returns_pure _ database))⟩
  | some difficulty =>
      exact ⟨some (difficulty / block.networkDifficulty), returns_bind (returns_query rfl)
        (returns_bind (returns_query sum) (returns_pure _ database))⟩

/-- The credits of a block do not depend on its effort. -/
theorem creditAll_effort (config : PoolConfig) (effort : Option ℚ) (credits : List (Text × ℚ)) :
    creditAll config { block with effort } credits = creditAll config block credits := by
  induction credits with
  | nil => rfl
  | cons credit credits induction =>
      rcases credit with ⟨address, amount⟩
      rw [creditAll, creditAll, induction]

theorem processBlock_changes {processed : Block} (confirmed : block.status = .confirmed)
    (returns : Returns (processBlock runtime pool block) database processed next) :
    EffortFits pool block database ∧ PoolPaid runtime pool block.reward ∧
      SchemeDistributes runtime pool block.reward block.created database.shares ∧
      (∃ stored, numeric block.reward = .ok stored) ∧
      ∃ credited, Returns (creditAll pool.config block
          (blockCredits runtime pool block.reward block.created database.shares)) database ()
          credited ∧ next.balanceChanges = credited.balanceChanges := by
  rw [processBlock, returns_bind_iff (unlimited_effort pool.config)] at returns
  rcases returns with ⟨current, start, computes, rest⟩
  rw [returns_bind_iff unlimited_settleBlock] at rest
  rcases rest with ⟨_, settled, settles, returned⟩
  rcases returns_pure_iff.mp returned with ⟨rfl, rfl⟩
  have started : EffortFits pool block database ∧ start = database ∧
      ∃ effort, current = { block with effort } := by
    split_ifs at computes with missing
    · rcases calculateBlockEffort_leads computes.leads with ⟨rfl, effort⟩
      exact ⟨fun _ => calculateBlockEffort_fits computes.leads, rfl, effort⟩
    · rcases returns_pure_iff.mp computes with ⟨rfl, rfl⟩
      exact ⟨fun isMissing => absurd isMissing missing, rfl, block.effort, rfl⟩
  rcases started with ⟨fits, rfl, effort, rfl⟩
  have changes := settleBlock_changes (by exact confirmed) settles
  rw [creditAll_effort] at changes
  exact ⟨fits, changes⟩

theorem processBlock_returns {credited : Database} {stored : ℚ}
    (confirmed : block.status = .confirmed) (effort : EffortFits pool block database)
    (paid : PoolPaid runtime pool block.reward)
    (distributes : SchemeDistributes runtime pool block.reward block.created database.shares)
    (isStored : numeric block.reward = .ok stored)
    (credits : Returns (creditAll pool.config block
      (blockCredits runtime pool block.reward block.created database.shares)) database ()
      credited) :
    ∃ processed next, Returns (processBlock runtime pool block) database processed next := by
  have settles : ∀ effort, ∃ next,
      Returns (settleBlock runtime pool { block with effort }) database () next := by
    intro effort
    rw [← creditAll_effort pool.config effort] at credits
    exact settleBlock_returns confirmed paid distributes isStored credits
  by_cases missing : block.effort.isNone = true
  · have computed : ∃ effort, Returns (calculateBlockEffort pool.config block) database
        { block with effort } database := calculateBlockEffort_returns (effort missing)
    rcases computed with ⟨computed, computes⟩
    rcases settles computed with ⟨next, returns⟩
    refine ⟨{ block with effort := computed }, next, ?_⟩
    rw [processBlock, if_pos missing]
    exact returns_bind computes (returns_bind returns (returns_pure _ next))
  · rcases settles block.effort with ⟨next, returns⟩
    refine ⟨block, next, ?_⟩
    rw [processBlock, if_neg missing]
    exact returns_bind (returns_pure block database) (returns_bind returns (returns_pure _ next))

theorem DistributesWithinReward.distributable (confirmed : block.status = .confirmed)
    (consistent : database.Consistent)
    (distributes : DistributesWithinReward runtime pool block database) :
    Distributable runtime pool block database := by
  rcases distributes with ⟨next, processed, changes, committed, changed, nonneg, bounded⟩
  have reward : 0 ≤ block.reward := by
    refine le_trans (List.sum_nonneg ?_) bounded
    intro amount member
    rcases List.mem_map.mp member with ⟨change, isChange, rfl⟩
    exact nonneg change isChange
  rw [run_eq_ok_iff unlimited_processBlock] at committed
  rcases processBlock_changes confirmed committed with
    ⟨effort, recipients, scheme, ⟨stored, isStored⟩, credited, credits, same⟩
  rw [same, creditAll_changes credits] at changed
  rw [← List.append_cancel_left changed, List.map_map] at bounded
  exact {
    reward
    recipients
    scheme
    within := bounded
    effort
    rewardFits := ((numeric_ok_iff reward).mp isStored).2
    creditsFit := (creditAll_returns_iff block consistent (blockCredits_nonneg reward)).mp
      ⟨credited, credits⟩ }

theorem Distributable.distributes (confirmed : block.status = .confirmed)
    (consistent : database.Consistent) (distributable : Distributable runtime pool block database) :
    DistributesWithinReward runtime pool block database := by
  have reward := distributable.reward
  rcases (creditAll_returns_iff block consistent (blockCredits_nonneg reward)).mpr
    distributable.creditsFit with ⟨credited, credits⟩
  rcases processBlock_returns confirmed distributable.effort distributable.recipients
    distributable.scheme ((numeric_ok_iff reward).mpr ⟨rfl, distributable.rewardFits⟩) credits with
    ⟨processed, next, returns⟩
  rcases processBlock_changes confirmed returns with ⟨-, -, -, -, again, creditsAgain, same⟩
  refine ⟨next, processed, _, returns.run .database,
    same.trans (creditAll_changes creditsAgain), ?_, ?_⟩
  · intro change member
    rcases List.mem_map.mp member with ⟨credit, isCredit, rfl⟩
    exact storedAmount_nonneg (blockCredits_nonneg reward credit isCredit)
  · rw [List.map_map]
    exact distributable.within

end Transaction

namespace SampleRewards

def recipient (address : String) (percentage : ℚ) : Option GivenRecipient :=
  some ⟨some (text address), percentage, none⟩

def pool (recipients : Option (List (Option GivenRecipient))) (factor : Option ℚ) : GivenPool where
  id := text "excc1"
  address := text "pool"
  rewardRecipients := recipients
  payoutScheme := .pplns (.ok factor)

def block : Block where
  id := 1
  poolId := text "excc1"
  blockHeight := 100
  networkDifficulty := 100
  status := .confirmed
  type := none
  confirmationProgress := 1
  effort := some 1
  transactionConfirmationData := text "c0"
  reward := 50
  hash := none
  created := 10

def share (miner : String) (difficulty networkDifficulty : ℚ) (created : Int) : Share where
  poolId := text "excc1"
  miner := text miner
  payoutInfo := none
  difficulty
  networkDifficulty
  created

def database (shares : List Share) : Database := { Database.empty with shares }

theorem database_consistent (shares : List Share) : (database shares).Consistent where
  unique := List.nodup_nil
  nonneg _ member := by cases member
  isStored _ member := by cases member
  changes _ := rfl

/-- Two shares fill the window, and a third one is discarded. -/
def threeShares : List Share :=
  [share "carol" 100 100 7, share "bob" 150 100 8, share "alice" 100 100 9]

end SampleRewards

open SampleRewards

end Miningcore.Payments.Rounded

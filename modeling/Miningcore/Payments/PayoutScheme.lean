import Miningcore.Payments.Pplns

/-! What a confirmed block credits: the reward recipients of the pool first, the
rest by the payout scheme. The credits of a block are computed twice here, as the
calls that the code makes inside the transaction of the block and as a list. -/

namespace Miningcore.Payments

open Miningcore.Configuration Persistence Transaction

/-! ## Reward recipients -/

def Ethereum.staticTransactionFeeReserve : ℚ := 25 / 10000

def Monero.staticTransactionFeeReserve : ℚ := 3 / 100

def recipientAmount (reward : ℚ) (recipient : RewardRecipient) : ℚ :=
  reward * (recipient.percentage / 100)

def payingRecipients (pool : PoolConfig) : List RewardRecipient :=
  pool.rewardRecipients.filter fun recipient => 0 < recipient.percentage

/-- The loop over the recipients. Transfers from the pool wallet to the pool wallet
are skipped. -/
def creditRecipients (pool : PoolConfig) (block : Block) (remaining : ℚ) :
    List RewardRecipient → Tx ℚ
  | [] => pure remaining
  | recipient :: recipients => do
      let amount := recipientAmount block.reward recipient
      if recipient.address ≠ pool.address then
        addAmount pool.id pool.coin recipient.address amount (some block.id)
      creditRecipients pool block (remaining - amount) recipients

/-- The common body of the `UpdateBlockRewardBalancesAsync` methods. The result is
what the payout scheme distributes. -/
def distributeReward (reserve : ℚ) (pool : PoolConfig) (block : Block) : Tx ℚ := do
  let remaining ← creditRecipients pool block block.reward (payingRecipients pool)
  return remaining - reserve

def Bitcoin.updateBlockRewardBalances : PoolConfig → Block → Tx ℚ := distributeReward 0

def ExchangeCoin.updateBlockRewardBalances : PoolConfig → Block → Tx ℚ := distributeReward 0

def Flo.updateBlockRewardBalances : PoolConfig → Block → Tx ℚ := distributeReward 0

def Ethereum.updateBlockRewardBalances : PoolConfig → Block → Tx ℚ :=
  distributeReward Ethereum.staticTransactionFeeReserve

def Monero.updateBlockRewardBalances : PoolConfig → Block → Tx ℚ :=
  distributeReward Monero.staticTransactionFeeReserve

/-- The method of the handler of the coin. Those for ZCash and Dash inherit it. -/
def updateBlockRewardBalances (pool : PoolConfig) : Block → Tx ℚ :=
  match pool.coin with
  | .EXCC => ExchangeCoin.updateBlockRewardBalances pool
  | .FLO => Flo.updateBlockRewardBalances pool
  | .ETH | .ETC | .EXP | .ELLA | .CLO => Ethereum.updateBlockRewardBalances pool
  | .XMR | .AEON | .ETN => Monero.updateBlockRewardBalances pool
  | _ => Bitcoin.updateBlockRewardBalances pool

def feeReserve : CoinType → ℚ
  | .ETH | .ETC | .EXP | .ELLA | .CLO => Ethereum.staticTransactionFeeReserve
  | .XMR | .AEON | .ETN => Monero.staticTransactionFeeReserve
  | _ => 0

theorem updateBlockRewardBalances_eq (pool : PoolConfig) :
    updateBlockRewardBalances pool = distributeReward (feeReserve pool.coin) pool := by
  rw [updateBlockRewardBalances]
  cases pool.coin <;> rfl

/-! ## Payout schemes -/

def creditRewards (pool : PoolConfig) (block : Block) : Tally Text ℚ → Tx Unit
  | [] => pure ()
  | (address, amount) :: rewards => do
      if 0 < amount then
        addAmount pool.id pool.coin address amount (some block.id)
      creditRewards pool block rewards

def deleteDiscardedShares (pool : PoolConfig) (cutOffDate : Int) : Tx Unit := do
  let count ← query .database fun database =>
    .ok (countSharesBeforeCreated database.shares pool.id cutOffDate)
  if 0 < count then
    execute .database fun database =>
      .ok { database with shares := deleteSharesBeforeCreated database.shares pool.id cutOffDate }

namespace Pplns

def window (factor : Option ℚ) : ℚ := factor.getD 2

/-- What `CalculateRewards` makes of the shares of a table for a block. -/
def blockRewards (pool : PoolConfig) (factor : Option ℚ) (block : Block) (blockReward : ℚ)
    (table : List Share) : Outcome :=
  calculateRewards sharePageSize (window factor) blockReward table pool.id block.created

/-- `UpdateBalancesAsync`. The pages are read on other connections. The
transaction has not touched the shares by then, so that they are one query here. -/
def updateBalances (pool : PoolConfig) (factor : Option ℚ) (block : Block) (blockReward : ℚ) :
    Tx Unit := do
  let result ← query .database fun database =>
    (blockRewards pool factor block blockReward database.shares).mapError Prod.fst
  creditRewards pool block result.rewards
  match result.shareCutOffDate with
  | none => pure ()
  | some cutOffDate => deleteDiscardedShares pool cutOffDate

end Pplns

namespace Solo

/-- The recipients of type solo. No other letter becomes one of the word in lower
case. -/
def recipients (pool : PoolConfig) : List Text :=
  (pool.rewardRecipients.filter fun recipient =>
    recipient.type.map (List.map CodeUnit.asciiLower) = some (text "solo")).map
      RewardRecipient.address

def setReward (rewards : Tally Text ℚ) (address : Text) (reward : ℚ) : Tally Text ℚ :=
  if rewards.any fun entry => entry.1 = address then
    rewards.map fun entry => if entry.1 = address then (address, reward) else entry
  else rewards ++ [(address, reward)]

def calculateRewards (pool : PoolConfig) (blockReward : ℚ) : Except Exception (Tally Text ℚ) :=
  match recipients pool with
  | [] => .error (.exception "No reward-recipients of type = 'solo' configured")
  | addresses => .ok (addresses.foldl
      (fun rewards address => setReward rewards address (blockReward / addresses.length)) [])

/-- `UpdateBalancesAsync`. The cut-off date is the time of the block. -/
def updateBalances (pool : PoolConfig) (block : Block) (blockReward : ℚ) : Tx Unit := do
  let rewards ← attempt (calculateRewards pool blockReward)
  creditRewards pool block rewards
  deleteDiscardedShares pool block.created

end Solo

def updateBalances (pool : PoolConfig) (block : Block) (blockReward : ℚ) : Tx Unit :=
  match pool.payoutScheme with
  | .pplns factor => Pplns.updateBalances pool factor block blockReward
  | .solo => Solo.updateBalances pool block blockReward

/-! ## The credits of a block -/

def recipientCredits (pool : PoolConfig) (reward : ℚ) (recipients : List RewardRecipient) :
    List (Text × ℚ) :=
  (recipients.filter fun recipient => recipient.address ≠ pool.address).map
    fun recipient => (recipient.address, recipientAmount reward recipient)

def schemeReward (pool : PoolConfig) (reward : ℚ) : ℚ :=
  reward - ((payingRecipients pool).map (recipientAmount reward)).sum - feeReserve pool.coin

def schemeCredits (pool : PoolConfig) (block : Block) (blockReward : ℚ) (table : List Share) :
    Except Exception (List (Text × ℚ)) :=
  match pool.payoutScheme with
  | .pplns factor => ((Pplns.blockRewards pool factor block blockReward table).mapError
      Prod.fst).map fun result => Pplns.credits result.rewards
  | .solo => (Solo.calculateRewards pool blockReward).map Pplns.credits

def schemeCutOffDate (pool : PoolConfig) (block : Block) (blockReward : ℚ) (table : List Share) :
    Option Int :=
  match pool.payoutScheme with
  | .pplns factor =>
      match Pplns.blockRewards pool factor block blockReward table with
      | .ok result => result.shareCutOffDate
      | .error _ => none
  | .solo => some block.created

def keptShares (table : List Share) (poolId : Text) : Option Int → List Share
  | none => table
  | some cutOffDate => deleteSharesBeforeCreated table poolId cutOffDate

def schemeShares (pool : PoolConfig) (block : Block) (blockReward : ℚ) (table : List Share) :
    List Share :=
  keptShares table pool.id (schemeCutOffDate pool block blockReward table)

def blockCredits (pool : PoolConfig) (block : Block) (table : List Share) :
    Except Exception (List (Text × ℚ)) :=
  (schemeCredits pool block (schemeReward pool block.reward) table).map fun credits =>
    recipientCredits pool block.reward (payingRecipients pool) ++ credits

def ledgerRow (pool : PoolConfig) (block : Block) (credit : Text × ℚ) : BalanceChange where
  poolId := pool.id
  coin := pool.coin
  address := credit.1
  amount := roundHalfAway (credit.2 * 10 ^ 12) / 10 ^ 12
  block := some block.id

def Credited (pool : PoolConfig) (block : Block) (credits : List (Text × ℚ))
    (database next : Database) : Prop :=
  next = { database with
    balanceChanges := database.balanceChanges ++ credits.map (ledgerRow pool block)
    balances := next.balances }

section Leads

variable {pool : PoolConfig} {block : Block} {database middle next : Database}

theorem Credited.refl : Credited pool block [] database database := by
  simp [Credited]

theorem Credited.trans {first second : List (Text × ℚ)}
    (one : Credited pool block first database middle)
    (two : Credited pool block second middle next) :
    Credited pool block (first ++ second) database next := by
  rw [Credited] at one two ⊢
  rw [two, one]
  simp

theorem credited_of_addAmount {address : Text} {amount : ℚ} {result : Unit}
    (leads : Leads (addAmount pool.id pool.coin address amount (some block.id)) database result
      next) : Credited pool block [(address, amount)] database next := by
  rcases addAmount_leads leads with ⟨stored, isStored, equal⟩
  rw [Credited, equal, numeric_ok isStored]
  rfl

theorem creditRecipients_leads {remaining left : ℚ} {recipients : List RewardRecipient}
    (leads : Leads (creditRecipients pool block remaining recipients) database left next) :
    left = remaining - (recipients.map (recipientAmount block.reward)).sum ∧
      Credited pool block (recipientCredits pool block.reward recipients) database next := by
  induction recipients generalizing remaining database with
  | nil =>
      rcases leads_pure leads with ⟨rfl, rfl⟩
      exact ⟨by simp, Credited.refl⟩
  | cons recipient recipients induction =>
      rw [creditRecipients] at leads
      by_cases own : recipient.address = pool.address
      · simp only [own, ne_eq, not_true_eq_false, if_false] at leads
        rcases induction leads with ⟨equal, credited⟩
        refine ⟨?_, ?_⟩
        · rw [equal, List.map_cons, List.sum_cons]
          ring
        · simpa [recipientCredits, own] using credited
      · simp only [own, ne_eq, not_false_eq_true, if_true] at leads
        rcases leads_bind leads with ⟨_, middle, adds, rest⟩
        rcases induction rest with ⟨equal, credited⟩
        refine ⟨?_, ?_⟩
        · rw [equal, List.map_cons, List.sum_cons]
          ring
        · simpa [recipientCredits, own] using (credited_of_addAmount adds).trans credited

theorem creditRewards_leads {rewards : Tally Text ℚ} {result : Unit}
    (leads : Leads (creditRewards pool block rewards) database result next) :
    Credited pool block (Pplns.credits rewards) database next := by
  induction rewards generalizing database with
  | nil =>
      rcases leads_pure leads with ⟨-, rfl⟩
      exact Credited.refl
  | cons reward rewards induction =>
      rcases reward with ⟨address, amount⟩
      rw [creditRewards] at leads
      by_cases positive : 0 < amount
      · simp only [positive, if_true] at leads
        rcases leads_bind leads with ⟨_, middle, adds, rest⟩
        simpa [Pplns.credits, positive] using (credited_of_addAmount adds).trans (induction rest)
      · simp only [positive, if_false] at leads
        simpa [Pplns.credits, positive] using induction leads

theorem deleteSharesBeforeCreated_eq_self {table : List Share} {poolId : Text} {cutOffDate : Int}
    (found : ¬0 < countSharesBeforeCreated table poolId cutOffDate) :
    deleteSharesBeforeCreated table poolId cutOffDate = table := by
  have zero := Nat.eq_zero_of_not_pos found
  rw [countSharesBeforeCreated, List.countP_eq_zero] at zero
  rw [deleteSharesBeforeCreated, List.filter_eq_self]
  intro share member
  simpa [or_iff_not_imp_left] using zero share member

theorem deleteDiscardedShares_returns {cutOffDate : Int} :
    Returns (deleteDiscardedShares pool cutOffDate) database () next ↔
      { database with
        shares := deleteSharesBeforeCreated database.shares pool.id cutOffDate } = next := by
  rw [deleteDiscardedShares, returns_query_bind_iff]
  simp only [Except.ok.injEq, exists_eq_left']
  split_ifs with found
  · rw [returns_execute_iff, Except.ok.injEq]
  · rw [returns_pure_iff, deleteSharesBeforeCreated_eq_self found]
    simp

theorem deleteDiscardedShares_leads {cutOffDate : Int} {result : Unit}
    (leads : Leads (deleteDiscardedShares pool cutOffDate) database result next) :
    next = { database with
      shares := deleteSharesBeforeCreated database.shares pool.id cutOffDate } := by
  rcases leads_bind leads with ⟨count, middle, reads, rest⟩
  rcases leads_query reads with ⟨counted, rfl⟩
  cases counted
  split_ifs at rest with found
  · have deleted := leads_execute rest
    cases deleted
    rfl
  · rcases leads_pure rest with ⟨-, rfl⟩
    rw [deleteSharesBeforeCreated_eq_self found]

theorem Credited.deleted {credits : List (Text × ℚ)} {shares : List Share}
    (credited : Credited pool block credits database next) :
    Credited pool block credits { database with shares } { next with shares } := by
  rw [Credited] at credited ⊢
  rw [credited]

theorem Pplns.updateBalances_leads {factor : Option ℚ} {blockReward : ℚ} {result : Unit}
    (leads : Leads (Pplns.updateBalances pool factor block blockReward) database result next) :
    ∃ outcome, Pplns.blockRewards pool factor block blockReward database.shares = .ok outcome ∧
      Credited pool block (Pplns.credits outcome.rewards)
        { database with shares := keptShares database.shares pool.id outcome.shareCutOffDate }
        next := by
  rcases leads_bind leads with ⟨outcome, middle, reads, rest⟩
  rcases leads_query reads with ⟨computed, rfl⟩
  rcases leads_bind rest with ⟨_, paid, credits, deletes⟩
  have credited := creditRewards_leads credits
  refine ⟨outcome, ?_, ?_⟩
  · cases rewards : Pplns.blockRewards pool factor block blockReward middle.shares with
    | error failure =>
        rw [rewards] at computed
        cases computed
    | ok value =>
        rw [rewards] at computed
        cases computed
        rfl
  · cases cutOff : outcome.shareCutOffDate with
    | none =>
        rw [cutOff] at deletes
        rcases leads_pure deletes with ⟨-, rfl⟩
        exact credited
    | some cutOffDate =>
        rw [cutOff] at deletes
        have deleted := deleteDiscardedShares_leads deletes
        have unchanged : paid.shares = middle.shares := by rw [credited]
        rw [deleted, unchanged]
        exact credited.deleted

theorem Solo.updateBalances_leads {blockReward : ℚ} {result : Unit}
    (leads : Leads (Solo.updateBalances pool block blockReward) database result next) :
    ∃ rewards, Solo.calculateRewards pool blockReward = .ok rewards ∧
      Credited pool block (Pplns.credits rewards)
        { database with shares := keptShares database.shares pool.id (some block.created) }
        next := by
  rcases leads_bind leads with ⟨rewards, middle, computes, rest⟩
  rcases leads_attempt computes with ⟨computed, rfl⟩
  rcases leads_bind rest with ⟨_, paid, credits, deletes⟩
  have credited := creditRewards_leads credits
  have deleted := deleteDiscardedShares_leads deletes
  have unchanged : paid.shares = middle.shares := by rw [credited]
  refine ⟨rewards, computed, ?_⟩
  rw [deleted, unchanged]
  exact credited.deleted

theorem updateBalances_leads {blockReward : ℚ} {result : Unit}
    (leads : Leads (updateBalances pool block blockReward) database result next) :
    ∃ credits, schemeCredits pool block blockReward database.shares = .ok credits ∧
      Credited pool block credits
        { database with shares := schemeShares pool block blockReward database.shares } next := by
  rw [updateBalances] at leads
  rw [schemeCredits, schemeShares, schemeCutOffDate]
  cases scheme : pool.payoutScheme with
  | pplns factor =>
      rw [scheme] at leads
      rcases Pplns.updateBalances_leads leads with ⟨outcome, computed, credited⟩
      simp only [computed]
      exact ⟨Pplns.credits outcome.rewards, rfl, credited⟩
  | solo =>
      rw [scheme] at leads
      rcases Solo.updateBalances_leads leads with ⟨rewards, computed, credited⟩
      refine ⟨Pplns.credits rewards, ?_, credited⟩
      simp only [computed]
      rfl

end Leads

end Miningcore.Payments

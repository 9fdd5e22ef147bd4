import Miningcore.Foundation.Run
import Miningcore.Payments.PayoutScheme

/-! `PayoutManager`: the rounds in which pending blocks are classified and credited.

A round fetches the pending blocks of a pool, has the payout handler classify
them and then runs one transaction for each block the handler returns. The first
exception ends the round. Between the transactions of a round, shares and blocks
are recorded. -/

namespace Miningcore.Payments

open Miningcore.Configuration Persistence Transaction

/-! ## Recording shares and payments -/

/-- The fields of a share that `ShareRecorder` maps to rows. -/
structure ShareRecord where
  share : Share
  blockHeight : Nat
  isBlockCandidate : Bool
  blockReward : ℚ
  blockHash : Option Text
  transactionConfirmationData : Text

def ShareRecord.block (record : ShareRecord) : Block where
  id := 0
  poolId := record.share.poolId
  blockHeight := record.blockHeight
  networkDifficulty := record.share.networkDifficulty
  status := .pending
  type := none
  confirmationProgress := 0
  effort := none
  transactionConfirmationData := record.transactionConfirmationData
  reward := record.blockReward
  hash := record.blockHash
  created := record.share.created

def persistShares : List ShareRecord → Tx Unit
  | [] => pure ()
  | record :: records => do
      insertShare record.share
      if record.isBlockCandidate then insertBlock record.block
      persistShares records

def persistPayments (pool : PoolConfig) (transactionConfirmation : Option Text) :
    List (Text × ℚ) → Tx Unit
  | [] => pure ()
  | (address, amount) :: balances => do
      let confirmation := transactionConfirmation.getD []
      if confirmation ≠ [] ∧
          ¬pool.rewardRecipients.any (fun recipient => recipient.address = address) then
        insertPayment {
          poolId := pool.id
          coin := pool.coin
          address
          amount
          transactionConfirmationData := confirmation }
      addAmount pool.id pool.coin address (-amount) none
      persistPayments pool transactionConfirmation balances

/-! ## Rounds -/

/-- What a payout handler finds out about a pending block, in the fields of the
block that `ClassifyBlocksAsync` sets. -/
structure Verdict where
  status : BlockStatus
  blockHeight : Nat
  type : Option Text
  confirmationProgress : ℚ
  reward : ℚ

def Block.classified (block : Block) (verdict : Verdict) : Block :=
  { block with
    status := verdict.status
    blockHeight := verdict.blockHeight
    type := verdict.type
    confirmationProgress := verdict.confirmationProgress
    reward := verdict.reward }

/-- `ClassifyBlocksAsync`. All handlers go through the blocks one after the other
and add each of them to the result at most once. -/
def classifyBlocks (verdict : Block → Option Verdict) (blocks : List Block) : List Block :=
  blocks.filterMap fun block => (verdict block).map (Block.classified block)

/-- The blocks a round of `UpdatePoolBalancesAsync` goes through. -/
def updatedBlocks (pool : PoolConfig) (verdict : Block → Option Verdict) (database : Database) :
    List Block :=
  KeyOrder.ascending Block.created
    (classifyBlocks verdict (getPendingBlocksForPool database.blocks pool.id))

/-- `CalculateBlockEffort`. The effort of a block with a network difficulty of
zero is not a number; it is zero here. -/
def calculateBlockEffort (pool : PoolConfig) (block : Block) : Tx Block := do
  let lastBlock ← query .database fun database =>
    .ok (getBlockBefore database.blocks pool.id [.confirmed, .orphaned, .pending] block.created)
  let accumulated ← query .database fun database =>
    getAccumulatedShareDifficultyBetweenCreated database.shares pool.id
      (lastBlock.map Block.created) block.created
  return match accumulated with
    | none => block
    | some difficulty => { block with effort := some (difficulty / block.networkDifficulty) }

/-- The switch over the status of a block in `UpdatePoolBalancesAsync`. -/
def settleBlock (pool : PoolConfig) (block : Block) : Tx Unit :=
  match block.status with
  | .confirmed => do
      let blockReward ← updateBlockRewardBalances pool block
      updateBalances pool block blockReward
      updateBlock block
  | .orphaned => updateBlock block
  | .pending => updateBlock block

/-- The transaction that `UpdatePoolBalancesAsync` runs for a block. -/
def processBlock (pool : PoolConfig) (updated : Block) : Tx Block := do
  let block ← (if updated.effort.isNone then calculateBlockEffort pool updated else pure updated)
  settleBlock pool block
  return block

/-- A block that was credited, with the shares that were stored and those that
were ever recorded at that time. -/
structure Credit where
  pool : PoolConfig
  block : Block
  shares : List Share
  recorded : List Share

/-- The database, the rest of the round that is going on, and what happened so
far: the shares recorded and the blocks credited. -/
structure State where
  database : Database
  round : Option (PoolConfig × List Block)
  recorded : List Share
  credited : List Credit

def State.initial : State where
  database := .empty
  round := none
  recorded := []
  credited := []

/-- A transaction takes as many calls as succeed before one is lost, and a round
may also end by an exception between two transactions. -/
inductive Event
  | persistShares (records : List ShareRecord) (callsLeft : Option Nat)
  | persistPayments (poolId : Text) (transactionConfirmation : Option Text)
      (balances : List (Text × ℚ)) (callsLeft : Option Nat)
  | startRound (poolId : Text) (verdict : Block → Option Verdict)
  | processBlock (callsLeft : Option Nat)
  | abortRound

def findPool (pools : List PoolConfig) (poolId : Text) : Option PoolConfig :=
  pools.find? fun pool => pool.id = poolId

theorem findPool_id (pools : List PoolConfig) {poolId : Text} {pool : PoolConfig}
    (found : findPool pools poolId = some pool) : pool.id = poolId := by
  simpa using List.find?_some found

def State.commit (state : State) (tx : Tx Unit) (callsLeft : Option Nat) (committed : State) :
    State :=
  match Transaction.run .database tx callsLeft state.database with
  | (database, .ok _) => { committed with database }
  | (database, .error _) => { state with database }

def State.processNext (state : State) (pool : PoolConfig) (block : Block) (blocks : List Block)
    (callsLeft : Option Nat) : State :=
  match Transaction.run .database (processBlock pool block) callsLeft state.database with
  | (database, .ok processed) =>
      { state with
        database
        round := some (pool, blocks)
        credited :=
          if processed.status = .confirmed then
            state.credited ++ [⟨pool, processed, state.database.shares, state.recorded⟩]
          else state.credited }
  | (database, .error _) => { state with database, round := none }

variable (pools : List PoolConfig)

def step (state : State) : Event → State
  | .persistShares records callsLeft =>
      state.commit (persistShares records) callsLeft
        { state with recorded := state.recorded ++ records.map ShareRecord.share }
  | .persistPayments poolId transactionConfirmation balances callsLeft =>
      match findPool pools poolId with
      | none => state
      | some pool =>
          state.commit (persistPayments pool transactionConfirmation balances) callsLeft state
  | .startRound poolId verdict =>
      match state.round, findPool pools poolId with
      | none, some pool =>
          { state with round := some (pool, updatedBlocks pool verdict state.database) }
      | _, _ => state
  | .processBlock callsLeft =>
      match state.round with
      | none => state
      | some (_, []) => { state with round := none }
      | some (pool, block :: blocks) => state.processNext pool block blocks callsLeft
  | .abortRound => { state with round := none }

/-! ## What the transactions lead to -/

section Leads

variable {pool : PoolConfig} {database next : Database}

theorem persistShares_cons {record : ShareRecord} {records : List ShareRecord} {result : Unit}
    (leads : Leads (persistShares (record :: records)) database result next) :
    ∃ middle, Leads (persistShares records) middle result next ∧
      (middle = { database with shares := database.shares ++ [record.share] } ∨
      ∃ added, Leads (insertBlock record.block)
        { database with shares := database.shares ++ [record.share] } added middle) := by
  rw [persistShares] at leads
  rcases leads_bind leads with ⟨_, stored, inserts, rest⟩
  have inserted := leads_execute inserts
  cases inserted
  by_cases candidate : record.isBlockCandidate = true
  · simp only [candidate, if_true] at rest
    rcases leads_bind rest with ⟨added, middle, insertsBlock, later⟩
    exact ⟨middle, later, .inr ⟨added, insertsBlock⟩⟩
  · simp only [candidate, Bool.false_eq_true, if_false] at rest
    exact ⟨_, rest, .inl rfl⟩

theorem persistShares_shares {records : List ShareRecord} {result : Unit}
    (leads : Leads (persistShares records) database result next) :
    next.shares = database.shares ++ records.map ShareRecord.share := by
  induction records generalizing database with
  | nil =>
      rcases leads_pure leads with ⟨-, rfl⟩
      simp
  | cons record records induction =>
      rcases persistShares_cons leads with ⟨middle, rest, rfl | ⟨added, inserts⟩⟩
      · rw [induction rest]
        simp
      · rcases insertBlock_leads inserts with ⟨reward, rfl⟩
        rw [induction rest]
        simp

def IsRecorded (pool : PoolConfig) (transactionConfirmation : Option Text) (address : Text) :
    Prop :=
  transactionConfirmation.getD [] ≠ [] ∧
    ¬pool.rewardRecipients.any (fun recipient => recipient.address = address)

instance (pool : PoolConfig) (transactionConfirmation : Option Text) (address : Text) :
    Decidable (IsRecorded pool transactionConfirmation address) :=
  inferInstanceAs (Decidable (_ ∧ _))

theorem persistPayments_cons {transactionConfirmation : Option Text} {address : Text} {amount : ℚ}
    {balances : List (Text × ℚ)} {result : Unit}
    (leads : Leads (persistPayments pool transactionConfirmation ((address, amount) :: balances))
      database result next) :
    ∃ rows middle added,
      (¬IsRecorded pool transactionConfirmation address ∧ rows = [] ∨
        IsRecorded pool transactionConfirmation address ∧ ∃ stored, numeric amount = .ok stored ∧
          rows = [⟨pool.id, pool.coin, address, stored, transactionConfirmation.getD []⟩]) ∧
      Leads (addAmount pool.id pool.coin address (-amount) none)
        { database with payments := database.payments ++ rows } added middle ∧
      Leads (persistPayments pool transactionConfirmation balances) middle result next := by
  rw [persistPayments] at leads
  split_ifs at leads with recorded
  · rcases leads_bind leads with ⟨_, paid, inserts, later⟩
    have inserted := leads_execute inserts
    simp only [bind_eq_ok, pure_eq_ok] at inserted
    rcases inserted with ⟨stored, isStored, rfl⟩
    rcases leads_bind later with ⟨added, middle, adds, further⟩
    exact ⟨_, middle, added, .inr ⟨recorded, stored, isStored, rfl⟩, adds, further⟩
  · rcases leads_bind leads with ⟨added, middle, adds, further⟩
    refine ⟨[], middle, added, .inl ⟨recorded, rfl⟩, ?_, further⟩
    rw [List.append_nil]
    exact adds

theorem calculateBlockEffort_leads {block result : Block}
    (leads : Leads (calculateBlockEffort pool block) database result next) :
    next = database ∧ ∃ effort, result = { block with effort } := by
  rcases leads_bind leads with ⟨lastBlock, first, readsBlock, rest⟩
  rcases leads_query readsBlock with ⟨-, rfl⟩
  rcases leads_bind rest with ⟨accumulated, second, readsShares, returns⟩
  rcases leads_query readsShares with ⟨-, rfl⟩
  rcases leads_pure returns with ⟨rfl, rfl⟩
  refine ⟨rfl, ?_⟩
  cases accumulated with
  | none => exact ⟨block.effort, rfl⟩
  | some difficulty => exact ⟨_, rfl⟩

def updatedRow (block : Block) (reward : ℚ) (stored : Block) : Block :=
  if stored.id = block.id then block.update stored reward else stored

theorem processBlock_leads {updated block : Block}
    (leads : Leads (processBlock pool updated) database block next) :
    ∃ effort reward, block = { updated with effort } ∧
      ((block.status ≠ .confirmed ∧
        next = { database with blocks := database.blocks.map (updatedRow block reward) }) ∨
      (block.status = .confirmed ∧ ∃ credits,
        blockCredits pool block database.shares = .ok credits ∧
        next = { database with
          blocks := database.blocks.map (updatedRow block reward)
          shares := schemeShares pool block (schemeReward pool block.reward) database.shares
          balanceChanges := database.balanceChanges ++ credits.map (ledgerRow pool block)
          balances := next.balances })) := by
  rcases leads_bind leads with ⟨current, first, effort, rest⟩
  have start : first = database ∧ ∃ effort, current = { updated with effort } := by
    split_ifs at effort
    · exact calculateBlockEffort_leads effort
    · rcases leads_pure effort with ⟨rfl, rfl⟩
      exact ⟨rfl, current.effort, rfl⟩
  rcases start with ⟨rfl, computed, isCurrent⟩
  rcases leads_bind rest with ⟨_, stored, stores, returns⟩
  rcases leads_pure returns with ⟨rfl, rfl⟩
  rw [settleBlock] at stores
  cases status : block.status with
  | pending =>
      rw [status] at stores
      rcases updateBlock_leads stores with ⟨reward, -, equal⟩
      exact ⟨computed, reward, isCurrent, .inl ⟨by simp, equal⟩⟩
  | orphaned =>
      rw [status] at stores
      rcases updateBlock_leads stores with ⟨reward, -, equal⟩
      exact ⟨computed, reward, isCurrent, .inl ⟨by simp, equal⟩⟩
  | confirmed =>
      rw [status] at stores
      rcases leads_bind stores with ⟨blockReward, shared, distributes, afterRecipients⟩
      rcases leads_bind afterRecipients with ⟨_, paid, credits, updates⟩
      rw [updateBlockRewardBalances_eq] at distributes
      rcases leads_bind distributes with ⟨remaining, _, recipients, reserves⟩
      rcases leads_pure reserves with ⟨isReward, rfl⟩
      rcases creditRecipients_leads recipients with ⟨isRemaining, recipientsCredited⟩
      have reward : blockReward = schemeReward pool block.reward := by
        rw [isReward, isRemaining, schemeReward]
      rcases updateBalances_leads credits with ⟨schemeAmounts, computedCredits, schemeCredited⟩
      have untouched : shared.shares = first.shares := by rw [recipientsCredited]
      rw [untouched, reward] at computedCredits schemeCredited
      rcases updateBlock_leads updates with ⟨storedReward, -, equal⟩
      refine ⟨computed, storedReward, isCurrent, .inr ⟨rfl, ?_⟩⟩
      refine ⟨recipientCredits pool block.reward (payingRecipients pool) ++ schemeAmounts, ?_, ?_⟩
      · rw [blockCredits, computedCredits]
        rfl
      · have credited := recipientsCredited.deleted.trans schemeCredited
        rw [equal, credited]
        rfl

end Leads

/-! ## What a step can do -/

theorem State.commit_cases (state : State) (tx : Tx Unit) (callsLeft : Option Nat)
    (committed : State) :
    (∃ result next, Leads tx state.database result next ∧
      state.commit tx callsLeft committed = { committed with database := next }) ∨
    state.commit tx callsLeft committed = state := by
  rw [State.commit]
  rcases run_cases .database tx callsLeft state.database with
    ⟨result, next, leads, equal⟩ | ⟨failure, equal⟩
  · rw [equal]
    exact .inl ⟨result, next, leads, rfl⟩
  · rw [equal]
    exact .inr rfl

/-- The transaction of a block throws. -/
def Throws (pool : PoolConfig) (block : Block) (callsLeft : Option Nat) (database : Database) :
    Prop :=
  ∃ exception,
    (Transaction.run .database (processBlock pool block) callsLeft database).2 = .error exception

theorem State.processNext_cases (state : State) (pool : PoolConfig) (updated : Block)
    (queue : List Block) (callsLeft : Option Nat) :
    (∃ block next, Leads (processBlock pool updated) state.database block next ∧
      state.processNext pool updated queue callsLeft = { state with
        database := next
        round := some (pool, queue)
        credited := state.credited ++ if block.status = .confirmed then
          [⟨pool, block, state.database.shares, state.recorded⟩] else [] }) ∨
    (Throws pool updated callsLeft state.database ∧
      state.processNext pool updated queue callsLeft = { state with round := none }) := by
  rw [State.processNext, Throws]
  rcases run_cases .database (processBlock pool updated) callsLeft state.database with
    ⟨block, next, leads, equal⟩ | ⟨failure, equal⟩
  · rw [equal]
    refine .inl ⟨block, next, leads, ?_⟩
    by_cases status : block.status = .confirmed <;> simp [status]
  · rw [equal]
    exact .inr ⟨⟨failure, rfl⟩, rfl⟩

/-- The ways a step changes the state. A transaction that goes wrong changes nothing
but the round. -/
inductive Transition (state : State) : Event → State → Prop
  | stays {event : Event} : Transition state event state
  | recorded {records : List ShareRecord} {callsLeft : Option Nat} {result : Unit}
      {database : Database} (leads : Leads (persistShares records) state.database result database) :
      Transition state (.persistShares records callsLeft) { state with
        database
        recorded := state.recorded ++ records.map ShareRecord.share }
  | paid {poolId : Text} {pool : PoolConfig} {transactionConfirmation : Option Text}
      {balances : List (Text × ℚ)} {callsLeft : Option Nat} {result : Unit} {database : Database}
      (leads : Leads (persistPayments pool transactionConfirmation balances) state.database result
        database) :
      Transition state (.persistPayments poolId transactionConfirmation balances callsLeft)
        { state with database }
  | started {poolId : Text} (pool : PoolConfig) (verdict : Block → Option Verdict)
      (found : findPool pools poolId = some pool) :
      Transition state (.startRound poolId verdict)
        { state with round := some (pool, updatedBlocks pool verdict state.database) }
  | processed {pool : PoolConfig} {updated block : Block} {queue : List Block}
      {callsLeft : Option Nat} {database : Database}
      (going : state.round = some (pool, updated :: queue))
      (leads : Leads (processBlock pool updated) state.database block database) :
      Transition state (.processBlock callsLeft) { state with
        database
        round := some (pool, queue)
        credited := state.credited ++ if block.status = .confirmed then
          [⟨pool, block, state.database.shares, state.recorded⟩] else [] }
  | ended {event : Event} : Transition state event { state with round := none }

theorem step_transition (state : State) (event : Event) :
    Transition pools state event (step pools state event) := by
  cases event with
  | persistShares records callsLeft =>
      rw [step]
      rcases state.commit_cases (persistShares records) callsLeft _ with
        ⟨result, next, leads, equal⟩ | equal
      · rw [equal]
        exact .recorded leads
      · rw [equal]
        exact .stays
  | persistPayments poolId transactionConfirmation balances callsLeft =>
      rw [step]
      cases findPool pools poolId with
      | none => exact .stays
      | some pool =>
          rcases state.commit_cases (persistPayments pool transactionConfirmation balances)
            callsLeft state with ⟨result, next, leads, equal⟩ | equal
          · simp only [equal]
            exact .paid leads
          · simp only [equal]
            exact .stays
  | startRound poolId verdict =>
      rw [step]
      cases state.round with
      | some round => exact .stays
      | none =>
          cases found : findPool pools poolId with
          | none => exact .stays
          | some pool => exact .started pool verdict found
  | processBlock callsLeft =>
      rw [step]
      cases going : state.round with
      | none => exact .stays
      | some round =>
          rcases round with ⟨pool, _ | ⟨updated, queue⟩⟩
          · exact .ended
          · rcases state.processNext_cases pool updated queue callsLeft with
              ⟨block, next, leads, equal⟩ | ⟨-, equal⟩
            · simp only [equal]
              exact .processed going leads
            · simp only [equal]
              exact .ended
  | abortRound => exact .ended

namespace SampleRounds

def poolId : Text := text "excc1"

def pool : PoolConfig where
  id := poolId
  coin := .EXCC
  address := text "pool"
  rewardRecipients := []
  payoutScheme := .pplns none

def record (miner : String) (created : Int) (isBlockCandidate : Bool) : ShareRecord where
  share := {
    poolId
    miner := text miner
    payoutInfo := none
    difficulty := 100
    networkDifficulty := 100
    created }
  blockHeight := created.toNat
  isBlockCandidate
  blockReward := 50
  blockHash := none
  transactionConfirmationData := []

def confirm (ids : List Nat) (block : Block) : Option Verdict :=
  if block.id ∈ ids then
    some {
      status := .confirmed
      blockHeight := block.blockHeight
      type := none
      confirmationProgress := 1
      reward := block.reward }
  else none

end SampleRounds

end Miningcore.Payments

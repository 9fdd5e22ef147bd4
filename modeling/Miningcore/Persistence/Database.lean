import Miningcore.Configuration.ClusterConfig
import Miningcore.Foundation.KeyOrder
import Miningcore.Foundation.Transaction
import Miningcore.Stratum.ShareAcceptance
import Mathlib.Data.Rat.Floor

/-! The tables of the pool and the queries of the repositories on them.

Columns that no query of the payment processing reads are left out. Times are
ticks, and rows with equal sort keys come in the order of their table. -/

namespace Miningcore.Persistence

open Miningcore.Configuration Transaction

structure Share where
  poolId : Text
  miner : Text
  payoutInfo : Option Text
  difficulty : ℚ
  networkDifficulty : ℚ
  created : Int
deriving DecidableEq

inductive BlockStatus
  | pending
  | orphaned
  | confirmed
deriving DecidableEq

structure Block where
  id : Nat
  poolId : Text
  blockHeight : Nat
  networkDifficulty : ℚ
  status : BlockStatus
  type : Option Text
  confirmationProgress : ℚ
  effort : Option ℚ
  transactionConfirmationData : Text
  reward : ℚ
  hash : Option Text
  created : Int
deriving DecidableEq

/-- A row of the ledger. The block it was written for is not a column; the usage
text names its height. -/
structure BalanceChange where
  poolId : Text
  coin : CoinType
  address : Text
  amount : ℚ
  block : Option Nat
deriving DecidableEq

structure Balance where
  poolId : Text
  coin : CoinType
  address : Text
  amount : ℚ
deriving DecidableEq

structure Payment where
  poolId : Text
  coin : CoinType
  address : Text
  amount : ℚ
  transactionConfirmationData : Text
deriving DecidableEq

structure Database where
  shares : List Share
  blocks : List Block
  nextBlockId : Nat
  balanceChanges : List BalanceChange
  balances : List Balance
  payments : List Payment

def Database.empty : Database where
  shares := []
  blocks := []
  nextBlockId := 1
  balanceChanges := []
  balances := []
  payments := []

abbrev Tx := Body Database Exception

def roundHalfAway (value : ℚ) : ℤ :=
  if 0 ≤ value then ⌊value + 1 / 2⌋ else -⌊-value + 1 / 2⌋

example : roundHalfAway (5 / 2) = 3 ∧ roundHalfAway (-5 / 2) = -3 := by decide +kernel

/-- What a column of type `decimal(28,12)` stores. -/
def numeric (value : ℚ) : Except Exception ℚ :=
  let units := roundHalfAway (value * 10 ^ 12)
  if units.natAbs < 10 ^ 28 then .ok (units / 10 ^ 12) else .error .database

/-! ## ShareRepository -/

def readSharesBeforeCreated (table : List Share) (poolId : Text) (before : Int)
    (inclusive : Bool) (pageSize : Nat) : List Share :=
  (KeyOrder.descending Share.created (table.filter fun share =>
    share.poolId = poolId ∧
      (if inclusive then share.created ≤ before else share.created < before))).take pageSize

def countSharesBeforeCreated (table : List Share) (poolId : Text) (before : Int) : Nat :=
  table.countP fun share => share.poolId = poolId ∧ share.created < before

def deleteSharesBeforeCreated (table : List Share) (poolId : Text) (before : Int) : List Share :=
  table.filter fun share => ¬(share.poolId = poolId ∧ share.created < before)

/-- `Convert.ToUInt64` of a floating-point number: halves are rounded to even. -/
def toUInt64 (value : ℚ) : Except Exception Nat :=
  let down := ⌊value⌋
  let rounded :=
    if value - down < 1 / 2 then down
    else if 1 / 2 < value - down then down + 1
    else if down % 2 = 0 then down else down + 1
  if 0 ≤ rounded ∧ rounded < 2 ^ 64 then .ok rounded.toNat else .error .overflow

def getAccumulatedShareDifficultyBetweenCreated (table : List Share) (poolId : Text)
    (start : Option Int) (finish : Int) : Except Exception (Option Nat) :=
  match table.filter fun share =>
      share.poolId = poolId ∧ (∀ time ∈ start, time < share.created) ∧ share.created < finish with
  | [] => .ok none
  | share :: shares => some <$> toUInt64 ((share :: shares).map Share.difficulty).sum

/-! ## BlockRepository -/

def getPendingBlocksForPool (blocks : List Block) (poolId : Text) : List Block :=
  blocks.filter fun block => block.poolId = poolId ∧ block.status = .pending

def getBlockBefore (blocks : List Block) (poolId : Text) (status : List BlockStatus)
    (before : Int) : Option Block :=
  (KeyOrder.descending Block.created (blocks.filter fun block =>
    block.poolId = poolId ∧ block.status ∈ status ∧ block.created < before)).head?

def Block.update (block stored : Block) (reward : ℚ) : Block :=
  { stored with
    blockHeight := block.blockHeight
    status := block.status
    type := block.type
    reward
    effort := block.effort
    confirmationProgress := block.confirmationProgress }

def updateBlock (block : Block) : Tx Unit :=
  execute .database fun database => do
    let reward ← numeric block.reward
    return { database with blocks := database.blocks.map fun stored =>
      if stored.id = block.id then block.update stored reward else stored }

def insertBlock (block : Block) : Tx Unit :=
  execute .database fun database => do
    let reward ← numeric block.reward
    return { database with
      blocks := database.blocks ++ [{ block with id := database.nextBlockId, reward }]
      nextBlockId := database.nextBlockId + 1 }

def insertShare (share : Share) : Tx Unit :=
  execute .database fun database =>
    .ok { database with shares := database.shares ++ [share] }

/-! ## BalanceRepository -/

/-- `AddAmount`. The names of all coins are in upper case, so that the update
finds the row the query before it found. The sum is rounded when it is stored. -/
def addAmount (poolId : Text) (coin : CoinType) (address : Text) (amount : ℚ)
    (block : Option Nat) : Tx Unit := do
  execute .database fun database => do
    let stored ← numeric amount
    return { database with balanceChanges :=
      database.balanceChanges ++ [{ poolId, coin, address, amount := stored, block }] }
  let isRow (balance : Balance) : Bool :=
    balance.poolId = poolId ∧ balance.coin = coin ∧ balance.address = address
  let balance ← query .database fun database => .ok (database.balances.find? isRow)
  match balance with
  | none => execute .database fun database => do
      let stored ← numeric amount
      return { database with balances :=
        database.balances ++ [{ poolId, coin, address, amount := stored }] }
  | some _ => execute .database fun database => do
      let balances ← database.balances.mapM fun balance =>
        if isRow balance then do
          let stored ← numeric (balance.amount + amount)
          return { balance with amount := stored }
        else return balance
      return { database with balances }

def insertPayment (payment : Payment) : Tx Unit :=
  execute .database fun database => do
    let amount ← numeric payment.amount
    return { database with payments := database.payments ++ [{ payment with amount }] }

/-! ## What the calls lead to -/

section Leads

variable {database next : Database} {result : Unit}

theorem numeric_ok {value stored : ℚ} (ok : numeric value = .ok stored) :
    stored = roundHalfAway (value * 10 ^ 12) / 10 ^ 12 := by
  rw [numeric] at ok
  split_ifs at ok
  cases ok
  rfl

theorem updateBlock_leads {block : Block} (leads : Leads (updateBlock block) database result next) :
    ∃ reward, numeric block.reward = .ok reward ∧
      next = { database with blocks := database.blocks.map fun stored =>
        if stored.id = block.id then block.update stored reward else stored } := by
  have returns := leads_execute leads
  simp only [bind_eq_ok, pure_eq_ok] at returns
  rcases returns with ⟨reward, stored, rfl⟩
  exact ⟨reward, stored, rfl⟩

theorem insertBlock_leads {block : Block} (leads : Leads (insertBlock block) database result next) :
    ∃ reward, next = { database with
      blocks := database.blocks ++ [{ block with id := database.nextBlockId, reward }]
      nextBlockId := database.nextBlockId + 1 } := by
  have returns := leads_execute leads
  simp only [bind_eq_ok, pure_eq_ok] at returns
  rcases returns with ⟨reward, -, rfl⟩
  exact ⟨reward, rfl⟩

theorem addAmount_leads {poolId : Text} {coin : CoinType} {address : Text} {amount : ℚ}
    {block : Option Nat}
    (leads : Leads (addAmount poolId coin address amount block) database result next) :
    ∃ stored, numeric amount = .ok stored ∧
      next = { database with
        balanceChanges :=
          database.balanceChanges ++ [{ poolId, coin, address, amount := stored, block }]
        balances := next.balances } := by
  rcases leads_bind leads with ⟨_, changed, changes, rest⟩
  have change := leads_execute changes
  simp only [bind_eq_ok, pure_eq_ok] at change
  rcases change with ⟨stored, isStored, rfl⟩
  refine ⟨stored, isStored, ?_⟩
  rcases leads_bind rest with ⟨known, middle, reads, writes⟩
  rcases leads_query reads with ⟨-, rfl⟩
  cases known with
  | none =>
      have write := leads_execute writes
      simp only [bind_eq_ok, pure_eq_ok] at write
      rcases write with ⟨_, -, rfl⟩
      rfl
  | some balance =>
      have write := leads_execute writes
      simp only [bind_eq_ok, pure_eq_ok] at write
      rcases write with ⟨_, -, rfl⟩
      rfl

end Leads

end Miningcore.Persistence

import Miningcore.Payments.BalanceHistory
import Miningcore.Payments.PayoutHandlerBase
import Miningcore.Payments.CreditAll

/-! What credits and persisted payments do to the three tables of an account: the rows of
the ledger, the balance and the recorded payments. -/

namespace Miningcore.Payments

open Miningcore.Configuration Persistence Transaction

def Payment.account (payment : Payment) : Account :=
  ⟨payment.poolId, payment.coin, payment.address⟩

def paymentsOf (database : Database) (account : Account) : ℚ :=
  Tally.amountOf account (database.payments.map fun payment =>
    (Payment.account payment, payment.amount))

def ledgerSum (forBlock : Bool) (database : Database) (account : Account) : ℚ :=
  Tally.amountOf account ((database.balanceChanges.filter fun change =>
    change.block.isSome = forBlock).map fun change => (change.account, change.amount))

def creditedOf : Database → Account → ℚ := ledgerSum true

def debitedOf (database : Database) (account : Account) : ℚ := -ledgerSum false database account

theorem changesOf_eq (database : Database) (account : Account) :
    database.changesOf account = creditedOf database account - debitedOf database account := by
  rw [Database.changesOf, Database.changeTally, creditedOf, debitedOf, ledgerSum, ledgerSum,
    sub_neg_eq_add]
  induction database.balanceChanges with
  | nil => simp
  | cons change changes induction =>
      rw [List.map_cons, Tally.amountOf_cons, induction, List.filter_cons, List.filter_cons]
      cases forBlock : change.block.isSome with
      | true =>
          simp only [decide_true, if_true, List.map_cons, Tally.amountOf_cons, reduceCtorEq,
            decide_false, Bool.false_eq_true, if_false]
          ring
      | false =>
          simp only [decide_true, if_true, List.map_cons, Tally.amountOf_cons, decide_false,
            Bool.false_eq_true, if_false]
          ring

section Effects

variable {database next : Database} {pool : PoolConfig} {address : Text} {amount : ℚ}
variable {block : Option Nat} {result : Unit}

theorem addAmount_ledgerSum {stored : ℚ} (isStored : numeric amount = .ok stored)
    (leads : Leads (addAmount pool.id pool.coin address amount block) database result next)
    (forBlock : Bool) (account : Account) :
    ledgerSum forBlock next account = ledgerSum forBlock database account +
      if block.isSome = forBlock ∧ ⟨pool.id, pool.coin, address⟩ = account then stored else 0 := by
  rcases addAmount_leads leads with ⟨written, isWritten, equal⟩
  have same : written = stored := Except.ok.inj (isWritten.symm.trans isStored)
  rw [ledgerSum, equal, List.filter_append, List.map_append, Tally.amountOf_append, ← ledgerSum,
    same]
  by_cases side : block.isSome = forBlock
  · simp [side, BalanceChange.account, Tally.amountOf_cons]
  · simp [side]

theorem addAmount_paymentsOf
    (leads : Leads (addAmount pool.id pool.coin address amount block) database result next) :
    paymentsOf next = paymentsOf database := by
  rcases addAmount_leads leads with ⟨stored, -, equal⟩
  rw [equal]
  rfl

end Effects

/-! ## Credits -/

section Credits

variable {pools : List PoolConfig} {pool : PoolConfig} {block : Block} {unpaid : List Balance}
variable {database next : Database} {result : Unit}

theorem creditAll_effect {credits : List (Text × ℚ)} (nonneg : ∀ credit ∈ credits, 0 ≤ credit.2)
    (found : findPool pools pool.id = some pool)
    (sound : BalanceHistory.Ledger.Sound pools ⟨database, unpaid⟩)
    (leads : Leads (creditAll pool block credits) database result next) :
    BalanceHistory.Ledger.Sound pools ⟨next, unpaid⟩ ∧ debitedOf next = debitedOf database ∧
      paymentsOf next = paymentsOf database := by
  induction credits generalizing database with
  | nil =>
      rcases leads_pure leads with ⟨-, rfl⟩
      exact ⟨sound, rfl, rfl⟩
  | cons credit credits induction =>
      rcases credit with ⟨address, amount⟩
      rcases leads_bind leads with ⟨_, middle, adds, rest⟩
      have amountNonneg : 0 ≤ amount := nonneg (address, amount) List.mem_cons_self
      have middleSound := sound.credit pools found amountNonneg adds
      rcases addAmount_leads adds with ⟨stored, isStored, -⟩
      have debited : debitedOf middle = debitedOf database := by
        funext account
        rw [debitedOf, addAmount_ledgerSum isStored adds, debitedOf]
        simp
      rcases induction (fun other member => nonneg other (List.mem_cons_of_mem _ member))
        middleSound rest with ⟨nextSound, nextDebited, nextPayments⟩
      exact ⟨nextSound, nextDebited.trans debited,
        nextPayments.trans (addAmount_paymentsOf adds)⟩

end Credits

/-! ## Payments -/

def paidTo (pool : PoolConfig) (balances : List Balance) (account : Account) : ℚ :=
  Tally.amountOf account (balances.map fun balance =>
    (⟨pool.id, pool.coin, balance.address⟩, balance.amount))

@[simp] theorem paidTo_nil (pool : PoolConfig) (account : Account) : paidTo pool [] account = 0 :=
  rfl

theorem paidTo_cons (pool : PoolConfig) (balance : Balance) (balances : List Balance)
    (account : Account) : paidTo pool (balance :: balances) account =
      (if ⟨pool.id, pool.coin, balance.address⟩ = account then balance.amount else 0) +
        paidTo pool balances account := Tally.amountOf_cons _ _ _ _

theorem paidTo_other {pool : PoolConfig} {account : Account} (other : account.poolId ≠ pool.id)
    (balances : List Balance) : paidTo pool balances account = 0 := by
  apply Tally.amountOf_of_notMem
  rw [List.map_map]
  intro member
  rcases List.mem_map.mp member with ⟨balance, -, rfl⟩
  exact other rfl

theorem paidTo_nonneg {pool : PoolConfig} {balances : List Balance}
    (nonneg : ∀ balance ∈ balances, 0 ≤ balance.amount) (account : Account) :
    0 ≤ paidTo pool balances account := by
  induction balances with
  | nil => rfl
  | cons balance balances induction =>
      rw [paidTo_cons]
      have rest := induction fun other member => nonneg other (List.mem_cons_of_mem _ member)
      have first := nonneg balance List.mem_cons_self
      split_ifs
      · exact add_nonneg first rest
      · exact add_nonneg le_rfl rest

theorem amount_le_paidTo {pool : PoolConfig} {balances : List Balance}
    (nonneg : ∀ balance ∈ balances, 0 ≤ balance.amount) {balance : Balance}
    (member : balance ∈ balances) :
    balance.amount ≤ paidTo pool balances ⟨pool.id, pool.coin, balance.address⟩ := by
  induction balances with
  | nil => cases member
  | cons first balances induction =>
      rw [paidTo_cons]
      have restNonneg : ∀ other ∈ balances, 0 ≤ other.amount :=
        fun other isOther => nonneg other (List.mem_cons_of_mem _ isOther)
      rcases List.mem_cons.mp member with rfl | later
      · rw [if_pos rfl]
        exact le_add_of_nonneg_right (paidTo_nonneg restNonneg _)
      · refine (induction restNonneg later).trans (le_add_of_nonneg_left ?_)
        split_ifs
        · exact nonneg first List.mem_cons_self
        · rfl

/-- Persisted payments are taken from the balances, and recorded where they have an id and
go to no reward recipient. -/
structure Persisted (pool : PoolConfig) (payments : PersistPayments) (database next : Database) :
    Prop where
  balance : ∀ account, next.balanceOf account =
    database.balanceOf account - paidTo pool payments.balances account
  debited : ∀ account, debitedOf next account =
    debitedOf database account + paidTo pool payments.balances account
  recorded : ∀ account, paymentsOf next account = paymentsOf database account +
    if IsRecorded pool payments.transactionConfirmation account.address then
      paidTo pool payments.balances account else 0

section Persist

variable {pools : List PoolConfig} {pool : PoolConfig} {txId : Option Text}
variable {balances unpaid : List Balance} {database next : Database} {result : Unit}

theorem sound_payments {rows : List Payment}
    (sound : BalanceHistory.Ledger.Sound pools ⟨database, unpaid⟩) :
    BalanceHistory.Ledger.Sound pools ⟨{ database with payments := rows }, unpaid⟩ where
  consistent := {
    unique := sound.consistent.unique
    nonneg := sound.consistent.nonneg
    isStored := sound.consistent.isStored
    changes := sound.consistent.changes }
  coins := sound.coins
  unique := sound.unique
  unpaidCoins := sound.unpaidCoins
  unpaidStored := sound.unpaidStored
  covered := sound.covered

theorem persistOne_effect {balance : Balance} {rows : List Payment}
    (sound : BalanceHistory.Ledger.Sound pools ⟨database, unpaid⟩) (member : balance ∈ unpaid)
    (found : findPool pools balance.poolId = some pool)
    (isRows : ¬IsRecorded pool txId balance.address ∧ rows = [] ∨
      IsRecorded pool txId balance.address ∧ ∃ stored, numeric balance.amount = .ok stored ∧
        rows = [⟨pool.id, pool.coin, balance.address, stored, txId.getD []⟩])
    (leads : Leads (addAmount pool.id pool.coin balance.address (-balance.amount) none)
      { database with payments := database.payments ++ rows } result next) :
    Persisted pool ⟨[balance], txId⟩ database next := by
  have paidSound : BalanceHistory.Ledger.Sound pools
      ⟨{ database with payments := database.payments ++ rows }, unpaid⟩ := sound_payments sound
  have isStored := sound.unpaidStored balance member
  rcases addAmount_leads leads with ⟨stored, storedOk, -⟩
  have exact : stored = -balance.amount := numeric_of_isStored isStored.neg storedOk
  have adds := paidSound.adds pools member found
  refine ⟨?_, ?_, ?_⟩
  · intro account
    rw [addAmount_balanceOf paidSound.consistent adds storedOk leads, exact, paidTo_cons]
    show database.balanceOf account + _ = _
    rw [paidTo_nil, add_zero]
    split_ifs <;> ring
  · intro account
    rw [debitedOf, addAmount_ledgerSum storedOk leads, exact, paidTo_cons]
    show -(ledgerSum false database account + _) = _
    rw [paidTo_nil, add_zero, debitedOf]
    by_cases same : (⟨pool.id, pool.coin, balance.address⟩ : Account) = account
    · simp only [Option.isSome_none, same, and_self, if_true]
      ring
    · simp only [same, and_false, if_false]
      ring
  · intro account
    rw [addAmount_paymentsOf leads, paymentsOf, List.map_append, Tally.amountOf_append,
      ← paymentsOf, paidTo_cons, paidTo_nil, add_zero]
    congr 1
    by_cases same : (⟨pool.id, pool.coin, balance.address⟩ : Account) = account
    · cases same
      rcases isRows with ⟨unrecorded, rfl⟩ | ⟨recorded, amount, amountOk, rfl⟩
      · rw [if_neg unrecorded]
        rfl
      · rw [if_pos recorded, if_pos rfl, numeric_of_isStored isStored amountOk]
        simp [Payment.account, Tally.amountOf_cons]
    · rw [if_neg same, ite_self]
      rcases isRows with ⟨-, rfl⟩ | ⟨-, amount, -, rfl⟩
      · rfl
      · simp [Payment.account, Tally.amountOf_cons, same]

theorem Persisted.trans {middle : Database} {first later : List Balance}
    (one : Persisted pool ⟨first, txId⟩ database middle)
    (two : Persisted pool ⟨later, txId⟩ middle next) :
    Persisted pool ⟨first ++ later, txId⟩ database next := by
  have sums : ∀ account, paidTo pool (first ++ later) account =
      paidTo pool first account + paidTo pool later account := by
    intro account
    rw [paidTo, List.map_append, Tally.amountOf_append]
    rfl
  refine ⟨?_, ?_, ?_⟩
  · intro account
    rw [two.balance, one.balance, sums]
    ring
  · intro account
    rw [two.debited, one.debited, sums]
    ring
  · intro account
    rw [two.recorded, one.recorded, sums]
    split_ifs <;> ring

theorem persist_effect (found : findPool pools pool.id = some pool) (nodup : balances.Nodup)
    (isUnpaid : balances ⊆ unpaid) (owned : ∀ balance ∈ balances, balance.poolId = pool.id)
    (sound : BalanceHistory.Ledger.Sound pools ⟨database, unpaid⟩)
    (leads : Leads (PersistPayments.transaction pool ⟨balances, txId⟩) database result next) :
    Persisted pool ⟨balances, txId⟩ database next ∧
      BalanceHistory.Ledger.Sound pools ⟨next, unpaid.filter (· ∉ balances)⟩ := by
  induction balances generalizing database unpaid with
  | nil =>
      rcases leads_pure leads with ⟨-, rfl⟩
      refine ⟨⟨by simp, by simp, by simp⟩, ?_⟩
      simpa using sound
  | cons balance balances induction =>
      rw [List.nodup_cons] at nodup
      rw [List.cons_subset] at isUnpaid
      rcases persistPayments_cons leads with ⟨rows, middle, added, isRows, adds, rest⟩
      have isPool : findPool pools balance.poolId = some pool := by
        rw [owned balance List.mem_cons_self]
        exact found
      have one := persistOne_effect sound isUnpaid.1 isPool isRows adds
      have others : ∀ other ∈ unpaid.filter (· ≠ balance), balance.account ≠ other.account := by
        intro other isOther same
        rw [List.mem_filter, decide_eq_true_eq] at isOther
        exact isOther.2 (List.inj_on_of_nodup_map sound.unique isUnpaid.1 isOther.1 same).symm
      have middleSound : BalanceHistory.Ledger.Sound pools
          ⟨middle, unpaid.filter (· ≠ balance)⟩ :=
        (sound_payments sound).debit pools isUnpaid.1 isPool adds List.filter_sublist others
      have laterUnpaid : balances ⊆ unpaid.filter (· ≠ balance) := by
        intro other member
        rw [List.mem_filter, decide_eq_true_eq]
        refine ⟨isUnpaid.2 member, ?_⟩
        rintro rfl
        exact nodup.1 member
      rcases induction nodup.2 laterUnpaid
        (fun other member => owned other (List.mem_cons_of_mem _ member)) middleSound rest with
        ⟨later, nextSound⟩
      refine ⟨one.trans later, ?_⟩
      have left : unpaid.filter (· ∉ balance :: balances) =
          (unpaid.filter (· ≠ balance)).filter (· ∉ balances) := by
        rw [List.filter_filter]
        apply List.filter_congr
        intro other _
        rw [Bool.eq_iff_iff]
        simp only [List.mem_cons, not_or, decide_eq_true_eq, Bool.and_eq_true]
        exact and_comm
      rw [left]
      exact nextSound

theorem persistOne_returns {balance : Balance}
    (sound : BalanceHistory.Ledger.Sound pools ⟨database, unpaid⟩) (member : balance ∈ unpaid)
    (found : findPool pools balance.poolId = some pool) (nonneg : 0 ≤ balance.amount)
    (fits : ∀ account, database.balanceOf account < 10 ^ 16) (txId : Option Text) :
    ∃ middle, ∀ rest final, Returns (persistPayments pool txId rest) middle () final →
      Returns (persistPayments pool txId ((balance.address, balance.amount) :: rest)) database ()
        final := by
  have isStored := sound.unpaidStored balance member
  have covered := sound.covered balance member
  have small : |balance.amount| < 10 ^ 16 := by
    rw [abs_of_nonneg nonneg]
    exact covered.trans_lt (fits _)
  rw [← sound.account pools member found] at covered
  by_cases recorded : txId.getD [] ≠ [] ∧
      ¬pool.rewardRecipients.any (fun recipient => recipient.address = balance.address)
  · let paid : Database := { database with payments := database.payments ++
      [⟨pool.id, pool.coin, balance.address, balance.amount, txId.getD []⟩] }
    have inserts : (do
        let amount ← numeric balance.amount
        return { database with payments := database.payments ++
          [⟨pool.id, pool.coin, balance.address, amount, txId.getD []⟩] } :
        Except Exception Database) = .ok paid := by
      rw [numeric_stored isStored small]
      rfl
    have paidSound : BalanceHistory.Ledger.Sound pools ⟨paid, unpaid⟩ := sound_payments sound
    rcases addAmount_neg_returns paidSound.consistent isStored nonneg covered (fits _) none with
      ⟨middle, returns⟩
    refine ⟨middle, ?_⟩
    intro rest final later
    rw [persistPayments]
    simp only [if_pos recorded]
    exact returns_bind (returns_execute inserts) (returns_bind returns later)
  · rcases addAmount_neg_returns sound.consistent isStored nonneg covered (fits _) none with
      ⟨middle, returns⟩
    refine ⟨middle, ?_⟩
    intro rest final later
    rw [persistPayments]
    simp only [if_neg recorded]
    exact returns_bind returns later

theorem persist_returns (found : findPool pools pool.id = some pool) (nodup : balances.Nodup)
    (isUnpaid : balances ⊆ unpaid) (owned : ∀ balance ∈ unpaid, balance.poolId = pool.id)
    (nonneg : ∀ balance ∈ unpaid, 0 ≤ balance.amount)
    (sound : BalanceHistory.Ledger.Sound pools ⟨database, unpaid⟩)
    (fits : ∀ account, database.balanceOf account < 10 ^ 16) (txId : Option Text) :
    ∃ next, Returns (PersistPayments.transaction pool ⟨balances, txId⟩) database () next := by
  induction balances generalizing database unpaid with
  | nil => exact ⟨database, returns_pure () database⟩
  | cons balance balances induction =>
      rw [List.nodup_cons] at nodup
      rw [List.cons_subset] at isUnpaid
      have isPool := owned balance isUnpaid.1
      have balanceNonneg := nonneg balance isUnpaid.1
      rcases persistOne_returns sound isUnpaid.1 (isPool ▸ found) balanceNonneg fits txId with
        ⟨middle, goesOn⟩
      have only : [balance] ⊆ unpaid := List.cons_subset.mpr ⟨isUnpaid.1, List.nil_subset _⟩
      rcases persist_effect found (List.nodup_singleton balance) only
        (fun other member => owned other (only member)) sound
        (goesOn [] middle (returns_pure () middle)).leads with ⟨persisted, middleSound⟩
      have left : ∀ other ∈ unpaid.filter (· ∉ [balance]), other ∈ unpaid :=
        fun other member => (List.mem_filter.mp member).1
      have laterUnpaid : balances ⊆ unpaid.filter (· ∉ [balance]) := by
        intro other member
        rw [List.mem_filter, decide_eq_true_eq, List.mem_singleton]
        refine ⟨isUnpaid.2 member, ?_⟩
        rintro rfl
        exact nodup.1 member
      have laterFits : ∀ account, middle.balanceOf account < 10 ^ 16 := by
        intro account
        have taken : 0 ≤ paidTo pool [balance] account :=
          paidTo_nonneg (fun other member => nonneg other (only member)) account
        rw [persisted.balance]
        linarith [fits account]
      rcases induction nodup.2 laterUnpaid (fun other member => owned other (left other member))
        (fun other member => nonneg other (left other member)) middleSound laterFits with
        ⟨next, rest⟩
      exact ⟨next, goesOn _ next rest⟩

theorem executeWithRetry_cases (transaction : Tx Unit) (callsLeft : Nat → Option Nat)
    (retries : Nat) (database : Database) :
    (∃ result next, Leads transaction database result next ∧
      executeWithRetry transaction callsLeft retries database = (next, .ok result)) ∨
    ∃ exception,
      executeWithRetry transaction callsLeft retries database = (database, .error exception) := by
  induction retries with
  | zero => exact run_cases .database transaction (callsLeft 0) database
  | succ retries induction =>
      rw [executeWithRetry]
      rcases run_cases .database transaction (callsLeft (retries + 1)) database with
        ⟨result, next, leads, equal⟩ | ⟨exception, equal⟩
      · rw [equal]
        exact .inl ⟨result, next, leads, rfl⟩
      · rw [equal]
        by_cases isDatabase : exception = .database
        · rw [isDatabase]
          exact induction
        · right
          refine ⟨exception, ?_⟩
          split
          · rename_i same
            cases same
            exact absurd rfl isDatabase
          · rfl

theorem bind_throws {α β : Type} {failure : Exception} {first : Except Exception α}
    {next : α → Except Exception β} (one : ∀ other, first = .error other → other = failure)
    (two : ∀ value other, next value = .error other → other = failure) :
    ∀ other, (first >>= next) = .error other → other = failure := by
  intro other throws
  cases outcome : first with
  | error thrown =>
      rw [outcome] at throws
      cases throws
      exact one other outcome
  | ok value =>
      rw [outcome] at throws
      exact two value other throws

theorem numeric_throws {value : ℚ} : ∀ other, numeric value = .error other → other = .database := by
  intro other throws
  rw [numeric] at throws
  split_ifs at throws
  cases throws
  rfl

theorem mapM_throws {α β : Type} {failure : Exception} {transform : α → Except Exception β}
    (throws : ∀ value other, transform value = .error other → other = failure) (values : List α) :
    ∀ other, values.mapM transform = .error other → other = failure := by
  induction values with
  | nil =>
      intro other thrown
      cases thrown
  | cons value values induction =>
      rw [List.mapM_cons]
      apply bind_throws (throws value)
      intro first
      apply bind_throws induction
      intro rest other thrown
      cases thrown

theorem addAmount_throwsOnly (poolId : Text) (coin : CoinType) (address : Text) (amount : ℚ)
    (block : Option Nat) : ThrowsOnly .database (addAmount poolId coin address amount block) := by
  have stores : ∀ (value : ℚ) (write : ℚ → Database),
      ∀ other, (do let stored ← numeric value; return write stored : Except Exception Database) =
        .error other → other = .database := by
    intro value write
    apply bind_throws numeric_throws
    intro stored other thrown
    cases thrown
  apply throwsOnly_bind
  · apply throwsOnly_execute
    intro database
    exact stores amount _
  · intro _
    apply throwsOnly_bind
    · apply throwsOnly_query
      intro _ _ thrown
      cases thrown
    · intro known
      cases known with
      | none =>
          apply throwsOnly_execute
          intro database
          exact stores amount _
      | some row =>
          apply throwsOnly_execute
          intro database
          apply bind_throws
          · apply mapM_throws
            intro balance
            split_ifs
            · apply bind_throws numeric_throws
              intro stored other thrown
              cases thrown
            · intro other thrown
              cases thrown
          · intro rows other thrown
            cases thrown

theorem persistPayments_throwsOnly (pool : PoolConfig) (txId : Option Text)
    (balances : List (Text × ℚ)) : ThrowsOnly .database (persistPayments pool txId balances) := by
  induction balances with
  | nil => exact throwsOnly_pure _ ()
  | cons balance balances induction =>
      rcases balance with ⟨address, amount⟩
      have rest : ThrowsOnly .database (do
          addAmount pool.id pool.coin address (-amount) none
          persistPayments pool txId balances) := by
        apply throwsOnly_bind (addAmount_throwsOnly _ _ _ _ _)
        intro _
        exact induction
      rw [persistPayments]
      split_ifs
      · apply throwsOnly_bind
        · apply throwsOnly_execute
          intro database
          apply bind_throws numeric_throws
          intro stored other thrown
          cases thrown
        · intro _
          exact rest
      · exact rest

theorem executeWithRetry_commits {transaction : Tx Unit} (only : ThrowsOnly .database transaction)
    {callsLeft : Nat → Option Nat} {retries attempt : Nat} (isAttempt : attempt ≤ retries)
    {committed : Database}
    (commits : Transaction.run .database transaction (callsLeft attempt) database =
      (committed, .ok ())) :
    ∃ next, executeWithRetry transaction callsLeft retries database = (next, .ok ()) := by
  induction retries with
  | zero =>
      rw [Nat.le_zero.mp isAttempt] at commits
      exact ⟨committed, commits⟩
  | succ retries induction =>
      rw [executeWithRetry]
      rcases run_cases .database transaction (callsLeft (retries + 1)) database with
        ⟨result, next, leads, equal⟩ | ⟨exception, equal⟩
      · rw [equal]
        exact ⟨next, rfl⟩
      · cases only.run equal
        rw [equal]
        apply induction
        by_contra last
        have isLast : attempt = retries + 1 := by omega
        rw [isLast, equal] at commits
        cases commits

end Persist

end Miningcore.Payments

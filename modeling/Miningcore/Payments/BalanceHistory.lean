import Miningcore.Foundation.Run
import Miningcore.Payments.PayoutManager
import Miningcore.Persistence.Balances
import Mathlib.Data.NNRat.Defs

/-! Sequences of `AddAmount` calls as the program makes them.

A transaction credits any amounts that are not negative. A payout reads the balances of
a pool and debits each of them at most once, by the amount it read. A call that throws
rolls its transaction back, and the payout may then try the same debits again. -/

namespace Miningcore.Payments.BalanceHistory

open Miningcore.Configuration Persistence Transaction

/-- The database, and the balances read for a payout that are not debited yet. -/
structure Ledger where
  database : Database
  unpaid : List Balance

/-- What the last transaction committed, and what the one going on has made of it. -/
structure State where
  committed : Ledger
  current : Ledger

def State.initial : State where
  committed := ⟨.empty, []⟩
  current := ⟨.empty, []⟩

inductive Event
  | credit (poolId address : Text) (amount : ℚ≥0) (block : Nat) (callsLeft : Option Nat)
  | getPoolBalancesOverThreshold (poolId : Text) (minimum : ℚ)
  | debit (index : Nat) (callsLeft : Option Nat)
  | commit
  | rollback

/-- A call of `AddAmount`, after which other balances are left to debit. -/
def State.addAmount (state : State) (pool : PoolConfig) (address : Text) (amount : ℚ)
    (block : Option Nat) (unpaid : List Balance) (callsLeft : Option Nat) : State :=
  match Persistence.addAmount pool.id pool.coin address amount block
      ⟨state.current.database, callsLeft⟩ with
  | .ok (_, session) => { state with current := ⟨session.store, unpaid⟩ }
  | .error _ => { state with current := state.committed }

variable (pools : List PoolConfig)

def step (state : State) : Event → State
  | .credit poolId address amount block callsLeft =>
      match findPool pools poolId with
      | none => state
      | some pool =>
          state.addAmount pool address amount (some block) state.current.unpaid callsLeft
  | .getPoolBalancesOverThreshold poolId minimum =>
      let ledger : Ledger := { state.committed with
        unpaid := state.committed.database.balances.filter fun balance =>
          balance.poolId = poolId ∧ minimum ≤ balance.amount }
      ⟨ledger, ledger⟩
  | .debit index callsLeft =>
      match state.current.unpaid[index]? with
      | none => state
      | some balance =>
          match findPool pools balance.poolId with
          | none => state
          | some pool =>
              state.addAmount pool balance.address (-balance.amount) none
                (state.current.unpaid.eraseIdx index) callsLeft
  | .commit => { state with committed := state.current }
  | .rollback => { state with current := state.committed }

def PoolCoin (balance : Balance) : Prop :=
  ∃ pool, findPool pools balance.poolId = some pool ∧ pool.coin = balance.coin

/-- The tables are consistent, and what is left to debit is there. -/
structure Ledger.Sound (ledger : Ledger) : Prop where
  consistent : ledger.database.Consistent
  coins : ∀ balance ∈ ledger.database.balances, PoolCoin pools balance
  unique : (ledger.unpaid.map Balance.account).Nodup
  unpaidCoins : ∀ balance ∈ ledger.unpaid, PoolCoin pools balance
  unpaidStored : ∀ balance ∈ ledger.unpaid, IsStored balance.amount
  covered : ∀ balance ∈ ledger.unpaid, balance.amount ≤ ledger.database.balanceOf balance.account

structure State.Sound (state : State) : Prop where
  committed : state.committed.Sound pools
  current : state.current.Sound pools

theorem Ledger.sound_empty : Ledger.Sound pools ⟨.empty, []⟩ where
  consistent := Database.consistent_empty
  coins _ member := by cases member
  unique := List.nodup_nil
  unpaidCoins _ member := by cases member
  unpaidStored _ member := by cases member
  covered _ member := by cases member

theorem Ledger.Sound.sublist {database : Database} {left unpaid : List Balance}
    (sound : Ledger.Sound pools ⟨database, unpaid⟩) (fewer : left.Sublist unpaid) :
    Ledger.Sound pools ⟨database, left⟩ where
  consistent := sound.consistent
  coins := sound.coins
  unique := (fewer.map _).nodup sound.unique
  unpaidCoins balance member := sound.unpaidCoins balance (fewer.subset member)
  unpaidStored balance member := sound.unpaidStored balance (fewer.subset member)
  covered balance member := sound.covered balance (fewer.subset member)

theorem State.addAmount_cases (state : State) (pool : PoolConfig) (address : Text) (amount : ℚ)
    (block : Option Nat) (unpaid : List Balance) (callsLeft : Option Nat) :
    (∃ result next, Leads (Persistence.addAmount pool.id pool.coin address amount block)
        state.current.database result next ∧
      state.addAmount pool address amount block unpaid callsLeft =
        { state with current := ⟨next, unpaid⟩ }) ∨
    state.addAmount pool address amount block unpaid callsLeft =
      { state with current := state.committed } := by
  rw [State.addAmount]
  rcases outcome : Persistence.addAmount pool.id pool.coin address amount block
    ⟨state.current.database, callsLeft⟩ with exception | ⟨result, session⟩
  · exact .inr rfl
  · exact .inl ⟨result, session.store, ⟨callsLeft, session.callsLeft, outcome⟩, rfl⟩

theorem addAmount_accounts {database next : Database} {account : Account} {amount : ℚ}
    {block : Option Nat} {result : Unit} (consistent : database.Consistent)
    (adds : Adds database account amount)
    (leads : Leads (Persistence.addAmount account.poolId account.coin account.address amount block)
      database result next) :
    ∀ balance ∈ next.balances, balance.account = account ∨
      ∃ known ∈ database.balances, known.account = balance.account := by
  rcases addAmount_leads leads with ⟨stored, isStored, -⟩
  intro balance member
  rcases addAmount_row consistent adds isStored leads with
    ⟨-, -, isNext⟩ | ⟨front, row, back, isRow, isAccount, -, isNext⟩
  · rw [isNext, List.mem_append, List.mem_singleton] at member
    rcases member with old | rfl
    · exact .inr ⟨balance, old, rfl⟩
    · exact .inl rfl
  · rw [isNext, List.mem_append, List.mem_cons, or_left_comm] at member
    rcases member with rfl | others
    · exact .inl isAccount
    · refine .inr ⟨balance, ?_, rfl⟩
      rw [isRow, List.mem_append]
      exact others.imp_right (List.mem_cons_of_mem _)

theorem PoolCoin.of_account {balance known : Balance} (same : known.account = balance.account)
    (coin : PoolCoin pools known) : PoolCoin pools balance := by
  rcases coin with ⟨pool, found, isCoin⟩
  simp only [Balance.account, Account.mk.injEq] at same
  refine ⟨pool, ?_, ?_⟩
  · rw [← same.1, found]
  · rw [isCoin, same.2.1]

theorem Ledger.Sound.addAmount {ledger : Ledger} {pool : PoolConfig} {address : Text} {amount : ℚ}
    {block : Option Nat} {unpaid : List Balance} {result : Unit} {next : Database}
    (sound : ledger.Sound pools) (found : findPool pools pool.id = some pool)
    (adds : Adds ledger.database ⟨pool.id, pool.coin, address⟩ amount)
    (leads : Leads (Persistence.addAmount pool.id pool.coin address amount block)
      ledger.database result next)
    (fewer : unpaid.Sublist ledger.unpaid)
    (covered : ∀ balance ∈ unpaid, balance.amount ≤ next.balanceOf balance.account) :
    Ledger.Sound pools ⟨next, unpaid⟩ where
  consistent := addAmount_consistent sound.consistent adds leads
  coins balance member := by
    rcases addAmount_accounts sound.consistent adds leads balance member with
      isAccount | ⟨known, isKnown, same⟩
    · simp only [Balance.account, Account.mk.injEq] at isAccount
      exact ⟨pool, by rw [isAccount.1, found], isAccount.2.1.symm⟩
    · exact (sound.coins known isKnown).of_account pools same
  unique := (fewer.map _).nodup sound.unique
  unpaidCoins balance member := sound.unpaidCoins balance (fewer.subset member)
  unpaidStored balance member := sound.unpaidStored balance (fewer.subset member)
  covered := covered

theorem Ledger.Sound.credit {ledger : Ledger} {pool : PoolConfig} {address : Text} {amount : ℚ}
    {block : Option Nat} {result : Unit} {next : Database} (sound : ledger.Sound pools)
    (found : findPool pools pool.id = some pool) (nonneg : 0 ≤ amount)
    (leads : Leads (Persistence.addAmount pool.id pool.coin address amount block)
      ledger.database result next) : Ledger.Sound pools ⟨next, ledger.unpaid⟩ := by
  have adds : Adds ledger.database ⟨pool.id, pool.coin, address⟩ amount := .inl nonneg
  refine sound.addAmount pools found adds leads (List.Sublist.refl _) ?_
  intro balance member
  rcases addAmount_leads leads with ⟨stored, isStored, -⟩
  have grows := addAmount_balanceOf sound.consistent adds isStored leads balance.account
  have storedNonneg := numeric_nonneg nonneg isStored
  have before := sound.covered balance member
  rw [grows]
  split_ifs <;> linarith

theorem credit_sound {state : State} (sound : state.Sound pools) {pool : PoolConfig}
    (found : findPool pools pool.id = some pool) (address : Text) (amount : ℚ≥0)
    (block callsLeft : Option Nat) :
    (state.addAmount pool address amount block state.current.unpaid callsLeft).Sound pools := by
  rcases state.addAmount_cases pool address amount block state.current.unpaid callsLeft with
    ⟨result, next, leads, equal⟩ | equal
  · rw [equal]
    exact ⟨sound.committed, sound.current.credit pools found amount.coe_nonneg leads⟩
  · rw [equal]
    exact ⟨sound.committed, sound.committed⟩

theorem Ledger.Sound.account {ledger : Ledger} (sound : ledger.Sound pools) {balance : Balance}
    (member : balance ∈ ledger.unpaid) {pool : PoolConfig}
    (found : findPool pools balance.poolId = some pool) :
    (⟨pool.id, pool.coin, balance.address⟩ : Account) = balance.account := by
  rcases sound.unpaidCoins balance member with ⟨known, isKnown, isCoin⟩
  rw [found] at isKnown
  cases isKnown
  rw [Balance.account, findPool_id pools found, isCoin]

theorem Ledger.Sound.adds {ledger : Ledger} (sound : ledger.Sound pools) {balance : Balance}
    (member : balance ∈ ledger.unpaid) {pool : PoolConfig}
    (found : findPool pools balance.poolId = some pool) :
    Adds ledger.database ⟨pool.id, pool.coin, balance.address⟩ (-balance.amount) := by
  right
  rw [sound.account pools member found]
  refine ⟨(sound.unpaidStored balance member).neg, ?_⟩
  linarith [sound.covered balance member]

theorem Ledger.Sound.debit {ledger : Ledger} (sound : ledger.Sound pools) {balance : Balance}
    (member : balance ∈ ledger.unpaid) {pool : PoolConfig}
    (found : findPool pools balance.poolId = some pool) {result : Unit} {next : Database}
    (leads : Leads (Persistence.addAmount pool.id pool.coin balance.address (-balance.amount) none)
      ledger.database result next)
    {left : List Balance} (fewer : left.Sublist ledger.unpaid)
    (others : ∀ other ∈ left, balance.account ≠ other.account) :
    Ledger.Sound pools ⟨next, left⟩ := by
  have isPool := findPool_id pools found
  have adds := sound.adds pools member found
  refine sound.addAmount pools (isPool ▸ found) adds leads fewer ?_
  intro other isOther
  rcases addAmount_leads leads with ⟨stored, isStored, -⟩
  rw [addAmount_balanceOf sound.consistent adds isStored leads, sound.account pools member found,
    if_neg (others other isOther), add_zero]
  exact sound.covered other (fewer.subset isOther)

theorem debit_sound {state : State} (sound : state.Sound pools) {index : Nat} {balance : Balance}
    (next : state.current.unpaid[index]? = some balance) {pool : PoolConfig}
    (found : findPool pools balance.poolId = some pool) (callsLeft : Option Nat) :
    (state.addAmount pool balance.address (-balance.amount) none
      (state.current.unpaid.eraseIdx index) callsLeft).Sound pools := by
  have member : balance ∈ state.current.unpaid := List.mem_of_getElem? next
  rcases state.addAmount_cases pool balance.address (-balance.amount) none
    (state.current.unpaid.eraseIdx index) callsLeft with ⟨result, after, leads, equal⟩ | equal
  · rw [equal]
    refine ⟨sound.committed, sound.current.debit pools member found leads
      (List.eraseIdx_sublist _ _) ?_⟩
    intro other isOther same
    rcases List.mem_eraseIdx_iff_getElem?.mp isOther with ⟨position, elsewhere, isAt⟩
    apply elsewhere
    have inside : position < (state.current.unpaid.map Balance.account).length := by
      rw [List.length_map]
      exact (List.getElem?_eq_some_iff.mp isAt).1
    apply (List.getElem?_inj inside sound.current.unique).mp
    rw [List.getElem?_map, List.getElem?_map, isAt, next, Option.map_some, Option.map_some, same]
  · rw [equal]
    exact ⟨sound.committed, sound.committed⟩

theorem read_sound {ledger : Ledger} (sound : ledger.Sound pools) (poolId : Text) (minimum : ℚ) :
    Ledger.Sound pools { ledger with unpaid := ledger.database.balances.filter fun balance =>
      balance.poolId = poolId ∧ minimum ≤ balance.amount } where
  consistent := sound.consistent
  coins := sound.coins
  unique := (List.filter_sublist.map _).nodup sound.consistent.unique
  unpaidCoins balance member := sound.coins balance (List.mem_filter.mp member).1
  unpaidStored balance member := sound.consistent.isStored balance (List.mem_filter.mp member).1
  covered balance member := by
    rcases List.append_of_mem (List.mem_filter.mp member).1 with ⟨front, back, isRow⟩
    exact (balanceOf_row sound.consistent.unique isRow).ge

theorem step_sound (state : State) (event : Event) (sound : state.Sound pools) :
    (step pools state event).Sound pools := by
  cases event with
  | credit poolId address amount block callsLeft =>
      rw [step]
      cases found : findPool pools poolId with
      | none => exact sound
      | some pool =>
          have isPool := findPool_id pools found
          exact credit_sound pools sound (isPool ▸ found) address amount (some block) callsLeft
  | getPoolBalancesOverThreshold poolId minimum =>
      have read := read_sound pools sound.committed poolId minimum
      exact ⟨read, read⟩
  | debit index callsLeft =>
      rw [step]
      cases next : state.current.unpaid[index]? with
      | none => exact sound
      | some balance =>
          cases found : findPool pools balance.poolId with
          | none =>
              simp only [found]
              exact sound
          | some pool =>
              simp only [found]
              exact debit_sound pools sound next found callsLeft
  | commit => exact ⟨sound.current, sound.current⟩
  | rollback => exact ⟨sound.committed, sound.committed⟩

/-- After every call every balance is the sum of its changes, no account has two rows,
and no balance is negative. -/
theorem balance_eq_sum_of_changes (events : List Event) :
    let database := (Run.final (step pools) .initial events).current.database
    (∀ balance ∈ database.balances, balance.amount = database.changesOf balance.account) ∧
      (∀ account, database.balanceOf account = database.changesOf account) ∧
      (database.balances.map Balance.account).Nodup ∧
      ∀ balance ∈ database.balances, 0 ≤ balance.amount := by
  have sound := Run.final_invariant (step pools) (State.Sound pools) (step_sound pools) .initial
    ⟨Ledger.sound_empty pools, Ledger.sound_empty pools⟩ events
  have consistent := sound.current.consistent
  refine ⟨?_, consistent.changes, consistent.unique, consistent.nonneg⟩
  intro balance member
  rcases List.append_of_mem member with ⟨front, back, isRow⟩
  rw [← consistent.changes, balanceOf_row consistent.unique isRow]

end Miningcore.Payments.BalanceHistory

import Miningcore.Foundation.Tally
import Miningcore.Persistence.Database
import Mathlib.Tactic.Linarith
import Mathlib.Tactic.Positivity

/-! The tables `balances` and `balance_changes` beside each other.

`AddAmount` rounds an amount when it writes the change and rounds the new balance when
it updates the row. The two agree on what the program adds: a balance is a whole number
of units, and rounding a sum with a whole number rounds the other summand. -/

namespace Miningcore.Persistence

open Miningcore.Configuration Transaction

/-! ## Rounding -/

/-- A value that a column of type `decimal(28,12)` can hold, size aside. -/
def IsStored (value : ℚ) : Prop := ∃ units : ℤ, value = units / 10 ^ 12

theorem roundHalfAway_intCast (units : ℤ) : roundHalfAway units = units := by
  have half : ∀ number : ℤ, ⌊(number : ℚ) + 1 / 2⌋ = number := by
    intro number
    rw [Int.floor_eq_iff]
    constructor <;> linarith
  rw [roundHalfAway]
  split_ifs
  · exact half units
  · have negated := half (-units)
    push_cast at negated
    rw [negated, neg_neg]

theorem roundHalfAway_add {units : ℤ} {value : ℚ} (unitsNonneg : 0 ≤ units) (nonneg : 0 ≤ value) :
    roundHalfAway (units + value) = units + roundHalfAway value := by
  have sum : (0 : ℚ) ≤ units + value := by positivity
  rw [roundHalfAway, roundHalfAway, if_pos sum, if_pos nonneg, add_assoc, Int.floor_intCast_add]

theorem roundHalfAway_nonneg {value : ℚ} (nonneg : 0 ≤ value) : 0 ≤ roundHalfAway value := by
  rw [roundHalfAway, if_pos nonneg, Int.floor_nonneg]
  positivity

theorem numeric_isStored {value stored : ℚ} (ok : numeric value = .ok stored) : IsStored stored :=
  ⟨roundHalfAway (value * 10 ^ 12), numeric_ok ok⟩

theorem numeric_of_isStored {value stored : ℚ} (isStored : IsStored value)
    (ok : numeric value = .ok stored) : stored = value := by
  rcases isStored with ⟨units, rfl⟩
  rw [numeric_ok ok, div_mul_cancel₀ _ (by positivity), roundHalfAway_intCast]

theorem numeric_nonneg {value stored : ℚ} (nonneg : 0 ≤ value) (ok : numeric value = .ok stored) :
    0 ≤ stored := by
  have units : 0 ≤ roundHalfAway (value * 10 ^ 12) := roundHalfAway_nonneg (by positivity)
  rw [numeric_ok ok]
  positivity

theorem IsStored.add {left right : ℚ} (leftStored : IsStored left) (rightStored : IsStored right) :
    IsStored (left + right) := by
  rcases leftStored with ⟨leftUnits, rfl⟩
  rcases rightStored with ⟨rightUnits, rfl⟩
  refine ⟨leftUnits + rightUnits, ?_⟩
  push_cast
  ring

theorem IsStored.neg {value : ℚ} (isStored : IsStored value) : IsStored (-value) := by
  rcases isStored with ⟨units, rfl⟩
  refine ⟨-units, ?_⟩
  push_cast
  ring

def storedAmount (amount : ℚ) : ℚ := roundHalfAway (amount * 10 ^ 12) / 10 ^ 12

theorem storedAmount_nonneg {amount : ℚ} (nonneg : 0 ≤ amount) : 0 ≤ storedAmount amount := by
  have units : 0 ≤ roundHalfAway (amount * 10 ^ 12) := roundHalfAway_nonneg (by positivity)
  rw [storedAmount]
  positivity

theorem numeric_ok_iff {amount stored : ℚ} (nonneg : 0 ≤ amount) :
    numeric amount = .ok stored ↔ stored = storedAmount amount ∧ storedAmount amount < 10 ^ 16 := by
  have units : 0 ≤ roundHalfAway (amount * 10 ^ 12) := roundHalfAway_nonneg (by positivity)
  have fits : (roundHalfAway (amount * 10 ^ 12)).natAbs < 10 ^ 28 ↔
      storedAmount amount < 10 ^ 16 := by
    rw [storedAmount, div_lt_iff₀ (by positivity), ← pow_add]
    have natural : ((roundHalfAway (amount * 10 ^ 12)).natAbs : ℤ) =
        roundHalfAway (amount * 10 ^ 12) := Int.natAbs_of_nonneg units
    rw [← @Nat.cast_lt ℤ, natural]
    push_cast
    exact_mod_cast Iff.rfl
  rw [numeric]
  split_ifs with small
  · rw [fits] at small
    rw [Except.ok.injEq]
    exact ⟨fun same => ⟨same.symm, small⟩, fun same => same.1.symm⟩
  · rw [fits] at small
    simp [small]

theorem numeric_stored {value : ℚ} (isStored : IsStored value) (small : |value| < 10 ^ 16) :
    numeric value = .ok value := by
  rcases isStored with ⟨units, rfl⟩
  have fits : units.natAbs < 10 ^ 28 := by
    rw [abs_div, abs_of_pos (by positivity : (0 : ℚ) < 10 ^ 12), div_lt_iff₀ (by positivity),
      ← pow_add] at small
    have natural : ((units.natAbs : ℤ) : ℚ) = |(units : ℚ)| := by
      rw [Int.natCast_natAbs, Int.cast_abs]
    rw [← natural] at small
    exact_mod_cast small
  rw [numeric, div_mul_cancel₀ _ (by positivity), roundHalfAway_intCast]
  exact if_pos fits

theorem storedAmount_add {balance amount : ℚ} (isStored : IsStored balance)
    (balanceNonneg : 0 ≤ balance) (nonneg : 0 ≤ amount) :
    storedAmount (balance + amount) = balance + storedAmount amount := by
  rcases isStored with ⟨units, rfl⟩
  have unitsNonneg : 0 ≤ units := by
    have scaled : (0 : ℚ) ≤ units / 10 ^ 12 * 10 ^ 12 := mul_nonneg balanceNonneg (by positivity)
    rw [div_mul_cancel₀ _ (by positivity)] at scaled
    exact_mod_cast scaled
  rw [storedAmount, storedAmount, add_mul, div_mul_cancel₀ _ (by positivity),
    roundHalfAway_add unitsNonneg (by positivity)]
  push_cast
  ring

theorem numeric_add {balance value sum stored : ℚ} (isStored : IsStored balance)
    (balanceNonneg : 0 ≤ balance) (nonneg : 0 ≤ value) (sumOk : numeric (balance + value) = .ok sum)
    (ok : numeric value = .ok stored) : sum = balance + stored := by
  rw [((numeric_ok_iff (add_nonneg balanceNonneg nonneg)).mp sumOk).1,
    storedAmount_add isStored balanceNonneg nonneg, ((numeric_ok_iff nonneg).mp ok).1]

/-! ## The two tables -/

/-- The primary key of `balances`. -/
structure Account where
  poolId : Text
  coin : CoinType
  address : Text
deriving DecidableEq

def Balance.account (balance : Balance) : Account :=
  ⟨balance.poolId, balance.coin, balance.address⟩

def BalanceChange.account (change : BalanceChange) : Account :=
  ⟨change.poolId, change.coin, change.address⟩

def Database.balanceTally (database : Database) : Tally Account ℚ :=
  database.balances.map fun balance => (balance.account, balance.amount)

def Database.changeTally (database : Database) : Tally Account ℚ :=
  database.balanceChanges.map fun change => (change.account, change.amount)

/-- `balances.amount` of an account, zero if it has no row. -/
def Database.balanceOf (database : Database) (account : Account) : ℚ :=
  database.balanceTally.amountOf account

/-- The sum of `balance_changes.amount` of an account. -/
def Database.changesOf (database : Database) (account : Account) : ℚ :=
  database.changeTally.amountOf account

def getPoolBalancesOverThreshold (balances : List Balance) (poolId : Text) (minimum : ℚ) :
    List Balance :=
  balances.filter fun balance => balance.poolId = poolId ∧ minimum ≤ balance.amount

/-- An account has at most one row, no balance is negative, and every balance is the
sum of its changes. -/
structure Database.Consistent (database : Database) : Prop where
  unique : (database.balances.map Balance.account).Nodup
  nonneg : ∀ balance ∈ database.balances, 0 ≤ balance.amount
  isStored : ∀ balance ∈ database.balances, IsStored balance.amount
  changes : ∀ account, database.balanceOf account = database.changesOf account

theorem Database.consistent_empty : Database.empty.Consistent where
  unique := List.nodup_nil
  nonneg _ member := by cases member
  isStored _ member := by cases member
  changes _ := rfl

section AddAmount

variable {database next : Database} {account : Account} {amount : ℚ} {block : Option Nat}
variable {result : Unit}

/-- What the update of `AddAmount` makes of a row. -/
def addToRow (account : Account) (amount : ℚ) (balance : Balance) : Except Exception Balance :=
  if balance.account = account then do
    let stored ← numeric (balance.amount + amount)
    return { balance with amount := stored }
  else return balance

theorem mapM_addToRow_absent {balances : List Balance}
    (absent : account ∉ balances.map Balance.account) :
    balances.mapM (addToRow account amount) = .ok balances := by
  induction balances with
  | nil => rfl
  | cons balance balances induction =>
      rw [List.map_cons, List.mem_cons, not_or] at absent
      have untouched : addToRow account amount balance = .ok balance := by
        rw [addToRow, if_neg (Ne.symm absent.1)]
        rfl
      rw [List.mapM_cons, untouched, induction absent.2]
      rfl

theorem mapM_addToRow {balances updated : List Balance}
    (unique : (balances.map Balance.account).Nodup)
    (found : account ∈ balances.map Balance.account)
    (mapped : balances.mapM (addToRow account amount) = .ok updated) :
    ∃ front row back stored, balances = front ++ row :: back ∧ row.account = account ∧
      numeric (row.amount + amount) = .ok stored ∧
      updated = front ++ { row with amount := stored } :: back := by
  induction balances generalizing updated with
  | nil => cases found
  | cons balance balances induction =>
      rw [List.mapM_cons, bind_eq_ok] at mapped
      rcases mapped with ⟨first, isFirst, rest⟩
      rw [bind_eq_ok] at rest
      rcases rest with ⟨others, isOthers, returned⟩
      rw [pure_eq_ok] at returned
      rw [List.map_cons, List.nodup_cons] at unique
      by_cases same : balance.account = account
      · rw [mapM_addToRow_absent (same ▸ unique.1)] at isOthers
        cases isOthers
        rw [addToRow, if_pos same, bind_eq_ok] at isFirst
        rcases isFirst with ⟨stored, isStored, isRow⟩
        cases isRow
        exact ⟨[], balance, balances, stored, rfl, same, isStored, returned.symm⟩
      · rw [addToRow, if_neg same] at isFirst
        cases isFirst
        have later : account ∈ balances.map Balance.account := by
          rw [List.map_cons, List.mem_cons] at found
          exact found.resolve_left (Ne.symm same)
        rcases induction unique.2 later isOthers with
          ⟨front, row, back, stored, rfl, isRow, isStored, rfl⟩
        exact ⟨balance :: front, row, back, stored, rfl, isRow, isStored, returned.symm⟩

theorem isRow_eq (balance : Balance) : (decide (balance.poolId = account.poolId ∧
    balance.coin = account.coin ∧ balance.address = account.address)) =
      decide (balance.account = account) := by
  rcases account with ⟨poolId, coin, address⟩
  simp only [Balance.account, Account.mk.injEq]

theorem addAmount_balances (unique : (database.balances.map Balance.account).Nodup)
    (leads : Leads (addAmount account.poolId account.coin account.address amount block)
      database result next) :
    (∃ stored, numeric amount = .ok stored ∧ account ∉ database.balances.map Balance.account ∧
      next.balances = database.balances ++
        [⟨account.poolId, account.coin, account.address, stored⟩]) ∨
    ∃ front row back stored, database.balances = front ++ row :: back ∧ row.account = account ∧
      numeric (row.amount + amount) = .ok stored ∧
      next.balances = front ++ { row with amount := stored } :: back := by
  rcases leads_bind leads with ⟨_, changed, changes, rest⟩
  have change := leads_execute changes
  simp only [bind_eq_ok, pure_eq_ok] at change
  rcases change with ⟨_, -, rfl⟩
  rcases leads_bind rest with ⟨known, middle, reads, writes⟩
  rcases leads_query reads with ⟨search, rfl⟩
  simp only [isRow_eq, Except.ok.injEq] at search
  cases known with
  | none =>
      left
      have write := leads_execute writes
      simp only [bind_eq_ok, pure_eq_ok] at write
      rcases write with ⟨stored, isStored, rfl⟩
      refine ⟨stored, isStored, ?_, rfl⟩
      intro member
      rcases List.mem_map.mp member with ⟨balance, isBalance, same⟩
      have missed := List.find?_eq_none.mp search balance isBalance
      exact missed (decide_eq_true same)
  | some balance =>
      right
      have write := leads_execute writes
      simp only [bind_eq_ok, pure_eq_ok] at write
      rcases write with ⟨balances, mapped, rfl⟩
      have found : account ∈ database.balances.map Balance.account := by
        have same : balance.account = account := by simpa using List.find?_some search
        exact same ▸ List.mem_map_of_mem (List.mem_of_find?_eq_some search)
      refine mapM_addToRow unique found ?_
      rw [← mapped]
      congr 1
      funext balance
      rw [addToRow]
      simp only [isRow_eq, decide_eq_true_eq]

/-- What the program adds: a credit of any size, or a debit of a stored amount that is
there. -/
def Adds (database : Database) (account : Account) (amount : ℚ) : Prop :=
  0 ≤ amount ∨ IsStored amount ∧ 0 ≤ database.balanceOf account + amount

theorem balanceOf_row {front back : List Balance} {row : Balance}
    (unique : (database.balances.map Balance.account).Nodup)
    (isRow : database.balances = front ++ row :: back) :
    database.balanceOf row.account = row.amount := by
  rw [isRow, List.map_append, List.map_cons, List.nodup_middle, List.nodup_cons,
    List.mem_append, not_or] at unique
  have absent : ∀ balances : List Balance, row.account ∉ balances.map Balance.account →
      Tally.amountOf row.account
        (balances.map fun balance => (balance.account, balance.amount)) = 0 := by
    intro balances missing
    apply Tally.amountOf_of_notMem
    rw [List.map_map]
    exact missing
  rw [Database.balanceOf, Database.balanceTally, isRow, List.map_append, List.map_cons,
    Tally.amountOf_append, Tally.amountOf_cons, if_pos rfl, absent front unique.1.1,
    absent back unique.1.2, zero_add, add_zero]

theorem addAmount_row (consistent : database.Consistent) (adds : Adds database account amount)
    {stored : ℚ} (isStored : numeric amount = .ok stored)
    (leads : Leads (addAmount account.poolId account.coin account.address amount block)
      database result next) :
    (account ∉ database.balances.map Balance.account ∧ 0 ≤ stored ∧
      next.balances = database.balances ++
        [⟨account.poolId, account.coin, account.address, stored⟩]) ∨
    ∃ front row back, database.balances = front ++ row :: back ∧ row.account = account ∧
      0 ≤ row.amount + stored ∧
      next.balances = front ++ { row with amount := row.amount + stored } :: back := by
  rcases addAmount_balances consistent.unique leads with
    ⟨same, isSame, absent, isNext⟩ | ⟨front, row, back, sum, isRow, isAccount, isSum, isNext⟩
  · left
    rw [isStored] at isSame
    cases isSame
    have nonneg : 0 ≤ amount := by
      rcases adds with credit | ⟨-, covered⟩
      · exact credit
      · have missing : database.balanceOf account = 0 := by
          apply Tally.amountOf_of_notMem
          rw [Database.balanceTally, List.map_map]
          exact absent
        rwa [missing, zero_add] at covered
    exact ⟨absent, numeric_nonneg nonneg isStored, isNext⟩
  · right
    have member : row ∈ database.balances := by
      rw [isRow]
      exact List.mem_append_right _ List.mem_cons_self
    have rowNonneg := consistent.nonneg row member
    have rowStored := consistent.isStored row member
    have isBalance : database.balanceOf account = row.amount :=
      isAccount ▸ balanceOf_row consistent.unique isRow
    have sums : sum = row.amount + stored ∧ 0 ≤ row.amount + stored := by
      rcases adds with credit | ⟨debitStored, covered⟩
      · refine ⟨numeric_add rowStored rowNonneg credit isSum isStored, ?_⟩
        exact add_nonneg rowNonneg (numeric_nonneg credit isStored)
      · rw [numeric_of_isStored debitStored isStored, ← isBalance]
        refine ⟨?_, covered⟩
        rw [isBalance]
        exact numeric_of_isStored (rowStored.add debitStored) isSum
    rw [sums.1] at isNext
    exact ⟨front, row, back, isRow, isAccount, sums.2, isNext⟩

theorem addAmount_balanceOf (consistent : database.Consistent)
    (adds : Adds database account amount) {stored : ℚ} (isStored : numeric amount = .ok stored)
    (leads : Leads (addAmount account.poolId account.coin account.address amount block)
      database result next) (other : Account) :
    next.balanceOf other = database.balanceOf other + if account = other then stored else 0 := by
  rcases addAmount_row consistent adds isStored leads with
    ⟨-, -, isNext⟩ | ⟨front, row, back, isRow, rfl, -, isNext⟩
  · rw [Database.balanceOf, Database.balanceTally, isNext, List.map_append,
      Tally.amountOf_append, List.map_singleton, Tally.amountOf_cons, Tally.amountOf_nil, add_zero]
    rfl
  · have sameAccount : ({ row with amount := row.amount + stored } : Balance).account =
        row.account := rfl
    rw [Database.balanceOf, Database.balanceOf, Database.balanceTally, Database.balanceTally,
      isNext, isRow]
    simp only [List.map_append, List.map_cons, Tally.amountOf_append, Tally.amountOf_cons,
      sameAccount]
    split_ifs
    · ring
    · ring

theorem addAmount_consistent (consistent : database.Consistent)
    (adds : Adds database account amount)
    (leads : Leads (addAmount account.poolId account.coin account.address amount block)
      database result next) : next.Consistent := by
  rcases addAmount_leads leads with ⟨stored, isStored, isNext⟩
  have rowStored : IsStored stored := numeric_isStored isStored
  have changes : ∀ other, next.balanceOf other = next.changesOf other := by
    intro other
    have appended : next.balanceChanges = database.balanceChanges ++
        [⟨account.poolId, account.coin, account.address, stored, block⟩] := by rw [isNext]
    rw [addAmount_balanceOf consistent adds isStored leads, consistent.changes,
      Database.changesOf, Database.changesOf, Database.changeTally, Database.changeTally, appended,
      List.map_append, Tally.amountOf_append, List.map_singleton, Tally.amountOf_cons,
      Tally.amountOf_nil, add_zero]
    rfl
  rcases addAmount_row consistent adds isStored leads with
    ⟨absent, nonneg, isNew⟩ | ⟨front, row, back, isRow, isAccount, nonneg, isNew⟩
  · constructor
    · rw [isNew, List.map_append, List.map_singleton, List.nodup_append]
      refine ⟨consistent.unique, List.nodup_singleton _, ?_⟩
      intro known isKnown new isRowAccount same
      rw [List.mem_singleton] at isRowAccount
      rw [same, isRowAccount] at isKnown
      exact absent isKnown
    · intro balance member
      rw [isNew, List.mem_append, List.mem_singleton] at member
      rcases member with old | rfl
      · exact consistent.nonneg balance old
      · exact nonneg
    · intro balance member
      rw [isNew, List.mem_append, List.mem_singleton] at member
      rcases member with old | rfl
      · exact consistent.isStored balance old
      · exact rowStored
    · exact changes
  · have old : ∀ balance ∈ front ++ back, balance ∈ database.balances := by
      intro balance member
      rw [isRow]
      rw [List.mem_append] at member ⊢
      exact member.imp_right (List.mem_cons_of_mem _)
    have isMember : row ∈ database.balances := by
      rw [isRow]
      exact List.mem_append_right _ List.mem_cons_self
    constructor
    · have unique := consistent.unique
      rw [isRow, List.map_append, List.map_cons] at unique
      rw [isNew, List.map_append, List.map_cons]
      exact unique
    · intro balance member
      rw [isNew, List.mem_append, List.mem_cons, or_left_comm] at member
      rcases member with rfl | others
      · exact nonneg
      · exact consistent.nonneg balance (old balance (List.mem_append.mpr others))
    · intro balance member
      rw [isNew, List.mem_append, List.mem_cons, or_left_comm] at member
      rcases member with rfl | others
      · exact (consistent.isStored row isMember).add rowStored
      · exact consistent.isStored balance (old balance (List.mem_append.mpr others))
    · exact changes

theorem Database.Consistent.balanceOf_nonneg (consistent : database.Consistent)
    (account : Account) : 0 ≤ database.balanceOf account := by
  apply List.sum_nonneg
  intro amount member
  rcases List.mem_map.mp member with ⟨entry, isEntry, rfl⟩
  rcases List.mem_map.mp (List.mem_filter.mp isEntry).1 with ⟨balance, isBalance, rfl⟩
  exact consistent.nonneg balance isBalance

theorem mapM_addToRow_ok {balances : List Balance}
    (fits : ∀ balance ∈ balances, balance.account = account →
      ∃ stored, numeric (balance.amount + amount) = .ok stored) :
    ∃ updated, balances.mapM (addToRow account amount) = .ok updated := by
  apply mapM_ok_iff.mpr
  intro balance member
  rw [addToRow]
  split_ifs with same
  · rcases fits balance member same with ⟨stored, isStored⟩
    rw [isStored]
    exact ⟨_, rfl⟩
  · exact ⟨balance, rfl⟩

theorem addAmount_returns_of {stored : ℚ} (isStored : numeric amount = .ok stored)
    (rowFits : ∀ balance ∈ database.balances, balance.account = account →
      ∃ sum, numeric (balance.amount + amount) = .ok sum) (block : Option Nat) :
    ∃ next, Returns (addAmount account.poolId account.coin account.address amount block)
      database () next := by
  let changed : Database := { database with balanceChanges := database.balanceChanges ++
    [⟨account.poolId, account.coin, account.address, stored, block⟩] }
  have change : (do
      let stored ← numeric amount
      return { database with balanceChanges := database.balanceChanges ++
        [⟨account.poolId, account.coin, account.address, stored, block⟩] } :
      Except Exception Database) = .ok changed := by
    rw [isStored]
    rfl
  cases search : database.balances.find? fun balance =>
      decide (balance.poolId = account.poolId ∧ balance.coin = account.coin ∧
        balance.address = account.address) with
  | none =>
      refine ⟨{ changed with balances := database.balances ++
          [⟨account.poolId, account.coin, account.address, stored⟩] },
        returns_bind (returns_execute change)
          (returns_bind (returns_query (congrArg Except.ok search)) (returns_execute ?_))⟩
      rw [isStored]
      rfl
  | some balance =>
      rcases mapM_addToRow_ok rowFits with ⟨updated, mapped⟩
      refine ⟨{ changed with balances := updated }, returns_bind (returns_execute change)
        (returns_bind (returns_query (congrArg Except.ok search)) (returns_execute ?_))⟩
      have same : (fun balance : Balance =>
          if decide (balance.poolId = account.poolId ∧ balance.coin = account.coin ∧
              balance.address = account.address) = true then do
            let stored ← numeric (balance.amount + amount)
            return { balance with amount := stored }
          else return balance) = addToRow account amount := by
        funext balance
        simp only [isRow_eq, decide_eq_true_eq, addToRow]
      rw [bind_eq_ok]
      refine ⟨updated, ?_, rfl⟩
      rw [← mapped, ← same]

theorem Database.Consistent.amount_eq (consistent : database.Consistent) {balance : Balance}
    (member : balance ∈ database.balances) :
    balance.amount = database.balanceOf balance.account := by
  rcases List.append_of_mem member with ⟨front, back, isRow⟩
  exact (balanceOf_row consistent.unique isRow).symm

theorem addAmount_returns (consistent : database.Consistent) (nonneg : 0 ≤ amount)
    (room : database.balanceOf account + storedAmount amount < 10 ^ 16) (block : Option Nat) :
    ∃ next, Returns (addAmount account.poolId account.coin account.address amount block)
      database () next := by
  have balanceNonneg := consistent.balanceOf_nonneg account
  have isStored : numeric amount = .ok (storedAmount amount) :=
    (numeric_ok_iff nonneg).mpr ⟨rfl, by linarith⟩
  apply addAmount_returns_of isStored
  rintro balance member rfl
  have rowNonneg := consistent.nonneg balance member
  refine ⟨_, (numeric_ok_iff (add_nonneg rowNonneg nonneg)).mpr ⟨rfl, ?_⟩⟩
  rwa [storedAmount_add (consistent.isStored balance member) rowNonneg nonneg,
    consistent.amount_eq member]

theorem addAmount_neg_returns (consistent : database.Consistent) (isStored : IsStored amount)
    (nonneg : 0 ≤ amount) (covered : amount ≤ database.balanceOf account)
    (fits : database.balanceOf account < 10 ^ 16) (block : Option Nat) :
    ∃ next, Returns (addAmount account.poolId account.coin account.address (-amount) block)
      database () next := by
  have small : |(-amount)| < 10 ^ 16 := by
    rw [abs_neg, abs_of_nonneg nonneg]
    linarith
  apply addAmount_returns_of (numeric_stored isStored.neg small)
  rintro balance member rfl
  have left : |balance.amount + -amount| < 10 ^ 16 := by
    rw [consistent.amount_eq member, abs_of_nonneg (by linarith)]
    linarith
  exact ⟨_, numeric_stored ((consistent.isStored balance member).add isStored.neg) left⟩

theorem addAmount_room (consistent : database.Consistent) (nonneg : 0 ≤ amount)
    (leads : Leads (addAmount account.poolId account.coin account.address amount block)
      database result next) : database.balanceOf account + storedAmount amount < 10 ^ 16 := by
  rcases addAmount_balances consistent.unique leads with
    ⟨stored, isStored, absent, -⟩ | ⟨front, row, back, stored, isRow, rfl, isStored, -⟩
  · have missing : database.balanceOf account = 0 := by
      apply Tally.amountOf_of_notMem
      rw [Database.balanceTally, List.map_map]
      exact absent
    rw [missing, zero_add]
    exact ((numeric_ok_iff nonneg).mp isStored).2
  · have member : row ∈ database.balances := by
      rw [isRow]
      exact List.mem_append_right _ List.mem_cons_self
    have rowNonneg := consistent.nonneg row member
    rw [balanceOf_row consistent.unique isRow,
      ← storedAmount_add (consistent.isStored row member) rowNonneg nonneg]
    exact ((numeric_ok_iff (add_nonneg rowNonneg nonneg)).mp isStored).2

end AddAmount

end Miningcore.Persistence

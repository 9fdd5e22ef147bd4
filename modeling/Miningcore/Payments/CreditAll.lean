import Miningcore.Payments.PayoutManager
import Miningcore.Persistence.Balances

/-! The credits of a block as a list of amounts that are added one after the other. They are all
stored if and only if each balance has room for what it gets. -/

namespace Miningcore.Payments

open Miningcore.Configuration Persistence Transaction

def creditAll (pool : PoolConfig) (block : Block) : List (Text × ℚ) → Tx Unit
  | [] => pure ()
  | (address, amount) :: credits => do
      addAmount pool.id pool.coin address amount (some block.id)
      creditAll pool block credits

theorem creditRewards_eq (pool : PoolConfig) (block : Block) (rewards : Tally Text ℚ) :
    creditRewards pool block rewards = creditAll pool block (Pplns.credits rewards) := by
  induction rewards with
  | nil => rfl
  | cons reward rewards induction =>
      rcases reward with ⟨address, amount⟩
      rw [creditRewards, induction]
      by_cases positive : 0 < amount
      · simp [Pplns.credits, positive, creditAll]
      · simp [Pplns.credits, positive]

def creditTally (credits : List (Text × ℚ)) : Tally Text ℚ :=
  credits.map fun credit => (credit.1, storedAmount credit.2)

def CreditsFit (database : Database) (pool : PoolConfig) (credits : List (Text × ℚ)) : Prop :=
  ∀ address ∈ credits.map Prod.fst,
    database.balanceOf ⟨pool.id, pool.coin, address⟩ +
      Tally.amountOf address (creditTally credits) < 10 ^ 16

instance (database : Database) (pool : PoolConfig) (credits : List (Text × ℚ)) :
    Decidable (CreditsFit database pool credits) :=
  inferInstanceAs (Decidable (∀ address ∈ credits.map Prod.fst, _ < _))

section CreditAll

variable {pool : PoolConfig} {block : Block} {database next : Database}

theorem creditTally_cons (address other : Text) (amount : ℚ) (credits : List (Text × ℚ)) :
    Tally.amountOf other (creditTally ((address, amount) :: credits)) =
      (if address = other then storedAmount amount else 0) +
        Tally.amountOf other (creditTally credits) := by
  rw [creditTally, List.map_cons, Tally.amountOf_cons]
  rfl

theorem creditTally_nonneg {credits : List (Text × ℚ)} (nonneg : ∀ credit ∈ credits, 0 ≤ credit.2)
    (address : Text) : 0 ≤ Tally.amountOf address (creditTally credits) := by
  apply List.sum_nonneg
  intro amount member
  rcases List.mem_map.mp member with ⟨entry, isEntry, rfl⟩
  rcases List.mem_map.mp (List.mem_filter.mp isEntry).1 with ⟨credit, isCredit, rfl⟩
  exact storedAmount_nonneg (nonneg credit isCredit)

theorem creditTally_absent {credits : List (Text × ℚ)} {address : Text}
    (absent : address ∉ credits.map Prod.fst) :
    Tally.amountOf address (creditTally credits) = 0 := by
  apply Tally.amountOf_of_notMem
  rw [creditTally, List.map_map]
  exact absent

theorem addAmount_credited (consistent : database.Consistent) {address : Text} {amount : ℚ}
    (nonneg : 0 ≤ amount) {result : Unit}
    (leads : Leads (addAmount pool.id pool.coin address amount (some block.id)) database result
      next) :
    next.Consistent ∧ ∀ other, next.balanceOf ⟨pool.id, pool.coin, other⟩ =
      database.balanceOf ⟨pool.id, pool.coin, other⟩ +
        if address = other then storedAmount amount else 0 := by
  have adds : Adds database ⟨pool.id, pool.coin, address⟩ amount := .inl nonneg
  rcases addAmount_leads leads with ⟨stored, isStored, -⟩
  refine ⟨addAmount_consistent consistent adds leads, ?_⟩
  intro other
  rw [addAmount_balanceOf consistent adds isStored leads, ((numeric_ok_iff nonneg).mp isStored).1]
  simp

theorem credited_of_creditAll {credits : List (Text × ℚ)} {result : Unit}
    (leads : Leads (creditAll pool block credits) database result next) :
    Credited pool block credits database next := by
  induction credits generalizing database with
  | nil =>
      rcases leads_pure leads with ⟨-, rfl⟩
      exact Credited.refl
  | cons credit credits induction =>
      rw [creditAll] at leads
      rcases leads_bind leads with ⟨_, middle, adds, rest⟩
      exact (credited_of_addAmount adds).trans (induction rest)

theorem creditAll_shares {credits : List (Text × ℚ)}
    (returns : Returns (creditAll pool block credits) database () next) :
    next.shares = database.shares := by
  have credited := credited_of_creditAll returns.leads
  rw [Credited] at credited
  rw [credited]

theorem creditAll_changes {credits : List (Text × ℚ)}
    (returns : Returns (creditAll pool block credits) database () next) :
    next.balanceChanges = database.balanceChanges ++ credits.map (ledgerRow pool block) := by
  have credited := credited_of_creditAll returns.leads
  rw [Credited] at credited
  rw [credited]

theorem creditAll_leads {credits : List (Text × ℚ)} {result : Unit}
    (consistent : database.Consistent) (nonneg : ∀ credit ∈ credits, 0 ≤ credit.2)
    (leads : Leads (creditAll pool block credits) database result next) :
    CreditsFit database pool credits ∧
      ∀ address, next.balanceOf ⟨pool.id, pool.coin, address⟩ =
        database.balanceOf ⟨pool.id, pool.coin, address⟩ +
          Tally.amountOf address (creditTally credits) := by
  induction credits generalizing database with
  | nil =>
      rcases leads_pure leads with ⟨-, rfl⟩
      constructor
      · intro address member
        cases member
      · intro address
        rw [creditTally, List.map_nil, Tally.amountOf_nil, add_zero]
  | cons credit credits induction =>
      rcases credit with ⟨address, amount⟩
      rw [creditAll] at leads
      rcases leads_bind leads with ⟨_, middle, adds, rest⟩
      have amountNonneg : 0 ≤ amount := nonneg (address, amount) List.mem_cons_self
      rcases addAmount_credited consistent amountNonneg adds with ⟨middleConsistent, grows⟩
      rcases induction middleConsistent
        (fun other member => nonneg other (List.mem_cons_of_mem _ member)) rest with
        ⟨fits, sums⟩
      constructor
      · intro other member
        rw [creditTally_cons, ← add_assoc, ← grows]
        by_cases later : other ∈ credits.map Prod.fst
        · exact fits other later
        · have isFirst : other = address := by
            rw [List.map_cons, List.mem_cons] at member
            exact member.resolve_right later
          rw [creditTally_absent later, add_zero, grows, isFirst, if_pos rfl]
          exact addAmount_room consistent amountNonneg adds
      · intro other
        rw [sums, grows, creditTally_cons, add_assoc]

theorem creditAll_returns (block : Block) {credits : List (Text × ℚ)}
    (consistent : database.Consistent) (nonneg : ∀ credit ∈ credits, 0 ≤ credit.2)
    (fits : CreditsFit database pool credits) :
    ∃ next, Returns (creditAll pool block credits) database () next := by
  induction credits generalizing database with
  | nil => exact ⟨database, returns_pure () database⟩
  | cons credit credits induction =>
      rcases credit with ⟨address, amount⟩
      have amountNonneg : 0 ≤ amount := nonneg (address, amount) List.mem_cons_self
      have laterNonneg : ∀ credit ∈ credits, 0 ≤ credit.2 :=
        fun other member => nonneg other (List.mem_cons_of_mem _ member)
      have room : database.balanceOf ⟨pool.id, pool.coin, address⟩ + storedAmount amount <
          10 ^ 16 := by
        have whole := fits address (by simp)
        rw [creditTally_cons, if_pos rfl] at whole
        linarith [creditTally_nonneg laterNonneg address]
      rcases addAmount_returns consistent amountNonneg room (some block.id) with
        ⟨middle, returns⟩
      rcases addAmount_credited consistent amountNonneg returns.leads with
        ⟨middleConsistent, grows⟩
      have laterFits : CreditsFit middle pool credits := by
        intro other member
        have whole := fits other (by
          rw [List.map_cons]
          exact List.mem_cons_of_mem _ member)
        rwa [creditTally_cons, ← add_assoc, ← grows] at whole
      rcases induction middleConsistent laterNonneg laterFits with ⟨next, rest⟩
      exact ⟨next, returns_bind returns rest⟩

theorem creditAll_returns_iff (block : Block) {credits : List (Text × ℚ)}
    (consistent : database.Consistent) (nonneg : ∀ credit ∈ credits, 0 ≤ credit.2) :
    (∃ next, Returns (creditAll pool block credits) database () next) ↔
      CreditsFit database pool credits := by
  constructor
  · rintro ⟨next, returns⟩
    exact (creditAll_leads consistent nonneg returns.leads).1
  · exact creditAll_returns block consistent nonneg

theorem unlimited_addAmount (poolId : Text) (coin : CoinType) (address : Text) (amount : ℚ)
    (block : Option Nat) : Unlimited (addAmount poolId coin address amount block) := by
  refine unlimited_bind (unlimited_execute _ _) fun _ => unlimited_bind (unlimited_query _ _) ?_
  intro balance
  cases balance with
  | none => exact unlimited_execute _ _
  | some balance => exact unlimited_execute _ _

theorem unlimited_creditAll (pool : PoolConfig) (block : Block) (credits : List (Text × ℚ)) :
    Unlimited (creditAll pool block credits) := by
  induction credits with
  | nil => exact unlimited_pure ()
  | cons credit credits induction =>
      rw [creditAll]
      exact unlimited_bind (unlimited_addAmount _ _ _ _ _) fun _ => induction

theorem creditAll_cons_returns {address : Text} {amount : ℚ} {credits : List (Text × ℚ)} :
    Returns (creditAll pool block ((address, amount) :: credits)) database () next ↔
      ∃ middle, Returns (addAmount pool.id pool.coin address amount (some block.id)) database ()
          middle ∧
        Returns (creditAll pool block credits) middle () next := by
  rw [creditAll, returns_bind_iff (unlimited_addAmount _ _ _ _ _)]
  exact ⟨fun ⟨_, middle, both⟩ => ⟨middle, both⟩, fun ⟨middle, both⟩ => ⟨(), middle, both⟩⟩

theorem creditAll_append_returns {front back : List (Text × ℚ)} :
    Returns (creditAll pool block (front ++ back)) database () next ↔
      ∃ middle, Returns (creditAll pool block front) database () middle ∧
        Returns (creditAll pool block back) middle () next := by
  induction front generalizing database with
  | nil =>
      rw [List.nil_append, creditAll]
      simp only [returns_pure_iff, true_and, exists_eq_left']
  | cons credit front induction =>
      rcases credit with ⟨address, amount⟩
      simp only [List.cons_append, creditAll_cons_returns, induction]
      constructor
      · rintro ⟨added, adds, middle, first, second⟩
        exact ⟨middle, ⟨added, adds, first⟩, second⟩
      · rintro ⟨middle, ⟨added, adds, first⟩, second⟩
        exact ⟨added, adds, middle, first, second⟩

end CreditAll

end Miningcore.Payments

import Miningcore.Payments.CreditAll
import Miningcore.Payments.RoundedPplns
import Mathlib.Data.List.ReduceOption

/-! The transaction of a confirmed ExchangeCoin block in the arithmetic of the runtime, for a
pool as its configuration gives it: the reward recipients may be missing, and so may their
addresses.

Each part of the transaction returns if and only if conditions on its input hold; what it
adds to the balances is then a list of credits. -/

namespace Miningcore.Payments.Rounded

open Miningcore.Configuration Persistence Transaction

structure GivenRecipient where
  address : Option Text
  percentage : ℚ
  type : Option Text
deriving DecidableEq

/-- `PayoutScheme`, with what comes of reading the configuration of the scheme. -/
inductive GivenScheme
  | pplns (factor : Except Exception (Option ℚ))
  | solo

structure GivenPool where
  id : Text
  address : Text
  rewardRecipients : Option (List (Option GivenRecipient))
  payoutScheme : GivenScheme

/-- What is there of the configuration of a pool. -/
def GivenPool.config (pool : GivenPool) : PoolConfig where
  id := pool.id
  coin := .EXCC
  address := pool.address
  rewardRecipients := (pool.rewardRecipients.getD []).reduceOption.filterMap fun recipient =>
    recipient.address.map fun address => ⟨address, recipient.percentage, recipient.type⟩
  payoutScheme := match pool.payoutScheme with
    | .pplns (.ok factor) => .pplns factor
    | .pplns (.error _) => .pplns none
    | .solo => .solo

variable (runtime : Runtime)

/-! ## Reward recipients -/

/-- A missing address violates the columns of `balance_changes`. -/
def addGivenAmount (pool : GivenPool) (block : Block) (address : Option Text) (amount : ℚ) :
    Tx Unit :=
  match address with
  | none => attempt (.error .database)
  | some address => addAmount pool.id .EXCC address amount (some block.id)

def recipientAmount (reward percentage : ℚ) : Except Exception ℚ := do
  checked runtime.decimal (reward * (← divide runtime percentage 100))

/-- The loop over the recipients. Transfers from the pool wallet to the pool wallet are skipped. -/
def creditRecipients (pool : GivenPool) (block : Block) (remaining : ℚ) :
    List (Option GivenRecipient) → Tx ℚ
  | [] => pure remaining
  | none :: _ => attempt (.error .nullReference)
  | some recipient :: recipients =>
      if 0 < recipient.percentage then do
        let amount ← attempt (recipientAmount runtime block.reward recipient.percentage)
        let remaining ← attempt (checked runtime.decimal (remaining - amount))
        if recipient.address ≠ some pool.address then
          addGivenAmount pool block recipient.address amount
        creditRecipients pool block remaining recipients
      else creditRecipients pool block remaining recipients

def updateBlockRewardBalances (pool : GivenPool) (block : Block) : Tx ℚ :=
  match pool.rewardRecipients with
  | none => attempt (.error (.argument "source"))
  | some recipients => creditRecipients runtime pool block block.reward recipients

/-! ## PPLNS -/

namespace Pplns

/-- `FormatQuantity` of the shares of an address, for the log and for the usage of the amount. -/
def formatShares (shares : Tally Text Quantity) (address : Text) : Except Exception (ℚ × Text) :=
  match shares.find address with
  | none => .error (.exception "The given key was not present in the dictionary.")
  | some quantity => formatQuantity runtime quantity

def creditRewards (pool : GivenPool) (block : Block) (shares : Tally Text Quantity) :
    Tally Text ℚ → Tx Unit
  | [] => pure ()
  | (address, amount) :: rewards =>
      if 0 < amount then do
        let _ ← attempt (formatShares runtime shares address)
        addAmount pool.id .EXCC address amount (some block.id)
        creditRewards pool block shares rewards
      else creditRewards pool block shares rewards

def fetchDiscarded (table : List Share) (poolId : Text) (cutOffDate : Int) : List (List Share) :=
  KeysetPaging.pages Share.created Pplns.sharePageSize
    (fun before => readSharesBeforeCreated table poolId before false Pplns.sharePageSize)
    table.length (readSharesBeforeCreated table poolId cutOffDate false Pplns.sharePageSize)

def discarded (table : List Share) (poolId : Text) (cutOffDate : Int) : Tally Text Quantity :=
  (KeysetPaging.untilShort Pplns.sharePageSize (fetchDiscarded table poolId cutOffDate)).foldl
    (addShare runtime) []

def sumQuantities (quantities : List Quantity) : Quantity :=
  quantities.foldl (fun sum quantity => sum.bind fun sum => quantity.bind fun value =>
    addQuantity runtime (some sum) value) (some 0)

/-- The messages about the addresses stand in the order of their shares, which no exception
depends on. -/
def logDiscardedShares (table : List Share) (poolId : Text) (cutOffDate : Int) :
    Except Exception Unit := do
  let shares := discarded runtime table poolId cutOffDate
  if runtime.infoEnabled ∧ shares ≠ [] then
    let _ ← formatQuantity runtime (sumQuantities runtime (shares.map Prod.snd))
    let _ ← shares.mapM fun entry => formatQuantity runtime entry.2

def deleteDiscardedShares (pool : GivenPool) (cutOffDate : Int) : Tx Unit := do
  let count ← query .database fun database =>
    .ok (countSharesBeforeCreated database.shares pool.id cutOffDate)
  if 0 < count then do
    let _ ← query .database fun database =>
      logDiscardedShares runtime database.shares pool.id cutOffDate
    execute .database fun database =>
      .ok { database with shares := deleteSharesBeforeCreated database.shares pool.id cutOffDate }
  else pure ()

def toDecimal (quantity : Quantity) : Except Exception ℚ :=
  match quantity with
  | none => .error .overflow
  | some value => checked runtime.doubleToDecimal value

def sumDecimals (sum : ℚ) : List ℚ → Except Exception ℚ
  | [] => .ok sum
  | value :: values => do sumDecimals (← checked runtime.decimal (sum + value)) values

def sumShares (sum : ℚ) : List Quantity → Except Exception ℚ
  | [] => .ok sum
  | quantity :: quantities => do
      let value ← toDecimal runtime quantity
      sumShares (← checked runtime.decimal (sum + value)) quantities

/-- The diagnostics at the end. The sums are computed whether they are logged or not. -/
def diagnostics (blockReward : ℚ) (progress : Progress) : Except Exception Unit := do
  let totalShareCount ← sumShares runtime 0 (progress.shares.map Prod.snd)
  let totalRewards ← sumDecimals runtime 0 (progress.rewards.map Prod.snd)
  if 0 < totalRewards ∧ runtime.infoEnabled then
    let _ ← formatQuantity runtime (some (runtime.decimalToDouble totalShareCount))
    let _ ← checked runtime.decimal ((← divide runtime totalRewards blockReward) * 100)

/-- `UpdateBalancesAsync`. -/
def updateBalances (factor : Except Exception (Option ℚ)) (pool : GivenPool) (block : Block)
    (blockReward : ℚ) : Tx Unit := do
  let window := Pplns.window (← attempt factor)
  let progress ← query .database fun database => do
    let progress ← calculateRewards runtime window blockReward Pplns.sharePageSize
      database.shares pool.id block.created
    logScore runtime window progress
    return progress
  creditRewards runtime pool block progress.shares progress.rewards
  match progress.shareCutOffDate with
  | none => attempt (diagnostics runtime blockReward progress)
  | some cutOffDate => do
      deleteDiscardedShares runtime pool cutOffDate
      attempt (diagnostics runtime blockReward progress)

end Pplns

/-! ## Solo -/

namespace Solo

def isSolo (recipient : GivenRecipient) : Bool :=
  recipient.type.map (List.map CodeUnit.asciiLower) = some (text "solo")

/-- The addresses of the recipients of type solo. -/
def recipients (pool : GivenPool) : Except Exception (List (Option Text)) := do
  match pool.rewardRecipients with
  | none => .error (.argument "source")
  | some recipients => do
      throwIf (none ∈ recipients) .nullReference
      return (recipients.reduceOption.filter isSolo).map GivenRecipient.address

def setRewards (blockReward : ℚ) (count : Nat) (rewards : Tally Text ℚ) :
    List (Option Text) → Except Exception (Tally Text ℚ)
  | [] => .ok rewards
  | address :: addresses => do
      let reward ← divide runtime blockReward count
      match address with
      | none => .error (.argument "key")
      | some address => setRewards blockReward count (rewards.set address reward) addresses

def calculateRewards (pool : GivenPool) (blockReward : ℚ) : Except Exception (Tally Text ℚ) := do
  let addresses ← recipients pool
  throwIf (addresses = []) (.exception "No reward-recipients of type = 'solo' configured")
  setRewards runtime blockReward addresses.length [] addresses

/-- `UpdateBalancesAsync`. -/
def updateBalances (pool : GivenPool) (block : Block) (blockReward : ℚ) : Tx Unit := do
  let rewards ← attempt (calculateRewards runtime pool blockReward)
  creditRewards pool.config block rewards
  Payments.deleteDiscardedShares pool.config block.created

end Solo

/-! ## The block -/

def updateBalances (pool : GivenPool) (block : Block) (blockReward : ℚ) : Tx Unit :=
  match pool.payoutScheme with
  | .pplns factor => Pplns.updateBalances runtime factor pool block blockReward
  | .solo => Solo.updateBalances runtime pool block blockReward

/-- The switch over the status of a block in `UpdatePoolBalancesAsync`. -/
def settleBlock (pool : GivenPool) (block : Block) : Tx Unit :=
  match block.status with
  | .confirmed => do
      let blockReward ← updateBlockRewardBalances runtime pool block
      updateBalances runtime pool block blockReward
      updateBlock block
  | .orphaned => updateBlock block
  | .pending => updateBlock block

/-- The transaction that `UpdatePoolBalancesAsync` runs for a block. -/
def processBlock (pool : GivenPool) (updated : Block) : Tx Block := do
  let block ← (if updated.effort.isNone then calculateBlockEffort pool.config updated
    else pure updated)
  settleBlock runtime pool block
  return block

/-! ## When the recipients are paid -/

section Recipients

def paying (recipients : List (Option GivenRecipient)) : List GivenRecipient :=
  recipients.reduceOption.filter fun recipient => 0 < recipient.percentage

def amountOf (reward : ℚ) (recipient : GivenRecipient) : ℚ :=
  runtime.decimal.round (reward * runtime.decimal.round (recipient.percentage / 100))

/-- What the decimals for the recipients have to make room for. -/
def recipientResults (reward remaining : ℚ) : List GivenRecipient → List ℚ
  | [] => []
  | recipient :: recipients =>
      let amount := amountOf runtime reward recipient
      [recipient.percentage / 100, reward * runtime.decimal.round (recipient.percentage / 100),
        remaining - amount] ++
        recipientResults reward (runtime.decimal.round (remaining - amount)) recipients

def recipientsLeave (reward remaining : ℚ) (recipients : List GivenRecipient) : ℚ :=
  recipients.foldl (fun left recipient =>
    runtime.decimal.round (left - amountOf runtime reward recipient)) remaining

def recipientCredits (ownAddress : Text) (reward : ℚ) (recipients : List GivenRecipient) :
    List (Text × ℚ) :=
  recipients.filterMap fun recipient => recipient.address.bind fun address =>
    if address ≠ ownAddress then some (address, amountOf runtime reward recipient) else none

/-- The recipients are paid if none of them is missing, those with a percentage have an
address, and the decimals have room. -/
structure RecipientsPaid (reward remaining : ℚ) (recipients : List (Option GivenRecipient)) :
    Prop where
  given : none ∉ recipients
  addresses : ∀ recipient ∈ paying recipients, recipient.address.isSome = true
  inRange : ∀ result ∈ recipientResults runtime reward remaining (paying recipients),
    runtime.decimal.inRange result = true

variable {runtime} {pool : GivenPool} {block : Block} {database next : Database}

theorem recipientAmount_eq_ok {reward : ℚ} {recipient : GivenRecipient} {amount : ℚ} :
    recipientAmount runtime reward recipient.percentage = .ok amount ↔
      runtime.decimal.inRange (recipient.percentage / 100) = true ∧
      runtime.decimal.inRange (reward * runtime.decimal.round (recipient.percentage / 100)) = true ∧
      amountOf runtime reward recipient = amount := by
  simp only [recipientAmount, bind_eq_ok, divide_eq_ok, checked_eq_ok, amountOf]
  constructor
  · rintro ⟨_, ⟨-, quotientFits, rfl⟩, productFits, rfl⟩
    exact ⟨quotientFits, productFits, rfl⟩
  · rintro ⟨quotientFits, productFits, rfl⟩
    exact ⟨_, ⟨by norm_num, quotientFits, rfl⟩, productFits, rfl⟩

theorem unlimited_addGivenAmount (address : Option Text) (amount : ℚ) :
    Unlimited (addGivenAmount pool block address amount) := by
  cases address with
  | none => exact unlimited_attempt _
  | some address => exact unlimited_addAmount _ _ _ _ _

theorem addGivenAmount_returns (address : Option Text) (amount : ℚ) :
    Returns (addGivenAmount pool block address amount) database () next ↔
      ∃ given, address = some given ∧
        Returns (addAmount pool.id .EXCC given amount (some block.id)) database () next := by
  cases address with
  | none =>
      rw [addGivenAmount, returns_attempt_iff]
      simp
  | some address => simp [addGivenAmount]

theorem recipientsPaid_nil (reward remaining : ℚ) : RecipientsPaid runtime reward remaining [] where
  given := List.not_mem_nil
  addresses _ member := by cases member
  inRange _ member := by cases member

theorem paying_skipped {recipient : GivenRecipient} {recipients : List (Option GivenRecipient)}
    (skipped : ¬0 < recipient.percentage) :
    paying (some recipient :: recipients) = paying recipients := by
  rw [paying, List.reduceOption_cons_of_some, List.filter_cons_of_neg (by simpa using skipped)]
  rfl

theorem paying_cons {recipient : GivenRecipient} {recipients : List (Option GivenRecipient)}
    (positive : 0 < recipient.percentage) :
    paying (some recipient :: recipients) = recipient :: paying recipients := by
  rw [paying, List.reduceOption_cons_of_some, List.filter_cons_of_pos (by simpa using positive)]
  rfl

theorem recipientsPaid_skipped {reward remaining : ℚ} {recipient : GivenRecipient}
    {recipients : List (Option GivenRecipient)} (skipped : ¬0 < recipient.percentage) :
    RecipientsPaid runtime reward remaining (some recipient :: recipients) ↔
      RecipientsPaid runtime reward remaining recipients := by
  constructor
  · rintro ⟨given, addresses, inRange⟩
    rw [paying_skipped skipped] at addresses inRange
    exact ⟨fun missing => given (List.mem_cons_of_mem _ missing), addresses, inRange⟩
  · rintro ⟨given, addresses, inRange⟩
    refine ⟨?_, ?_, ?_⟩
    · rw [List.mem_cons, not_or]
      exact ⟨(Option.some_ne_none recipient).symm, given⟩
    · rw [paying_skipped skipped]
      exact addresses
    · rw [paying_skipped skipped]
      exact inRange

theorem recipientsPaid_cons {reward remaining : ℚ} {recipient : GivenRecipient}
    {recipients : List (Option GivenRecipient)} (positive : 0 < recipient.percentage) :
    RecipientsPaid runtime reward remaining (some recipient :: recipients) ↔
      runtime.decimal.inRange (recipient.percentage / 100) = true ∧
      runtime.decimal.inRange (reward * runtime.decimal.round (recipient.percentage / 100)) = true ∧
      runtime.decimal.inRange (remaining - amountOf runtime reward recipient) = true ∧
      recipient.address.isSome = true ∧
      RecipientsPaid runtime reward
        (runtime.decimal.round (remaining - amountOf runtime reward recipient)) recipients := by
  constructor
  · rintro ⟨given, addresses, inRange⟩
    rw [paying_cons positive] at addresses inRange
    rw [recipientResults, List.forall_mem_append] at inRange
    rcases inRange with ⟨first, rest⟩
    refine ⟨first _ (by simp), first _ (by simp), first _ (by simp),
      addresses _ List.mem_cons_self, ?_, ?_, rest⟩
    · exact fun missing => given (List.mem_cons_of_mem _ missing)
    · exact fun other member => addresses other (List.mem_cons_of_mem _ member)
  · rintro ⟨quotientFits, productFits, restFits, hasAddress, given, addresses, inRange⟩
    refine ⟨?_, ?_, ?_⟩
    · rw [List.mem_cons, not_or]
      exact ⟨(Option.some_ne_none recipient).symm, given⟩
    · rw [paying_cons positive]
      exact List.forall_mem_cons.mpr ⟨hasAddress, addresses⟩
    · rw [paying_cons positive, recipientResults, List.forall_mem_append]
      exact ⟨by simpa using ⟨quotientFits, productFits, restFits⟩, inRange⟩

theorem recipientCredits_own {reward : ℚ} {recipient : GivenRecipient} {ownAddress : Text}
    (own : recipient.address = some ownAddress) (recipients : List GivenRecipient) :
    recipientCredits runtime ownAddress reward (recipient :: recipients) =
      recipientCredits runtime ownAddress reward recipients := by
  simp [recipientCredits, own]

theorem recipientCredits_foreign {reward : ℚ} {recipient : GivenRecipient}
    {address ownAddress : Text} (isAddress : recipient.address = some address)
    (foreign : address ≠ ownAddress) (recipients : List GivenRecipient) :
    recipientCredits runtime ownAddress reward (recipient :: recipients) =
      (address, amountOf runtime reward recipient) ::
        recipientCredits runtime ownAddress reward recipients := by
  simp [recipientCredits, isAddress, foreign]

theorem creditRecipients_returns (recipients : List (Option GivenRecipient)) {remaining left : ℚ} :
    Returns (creditRecipients runtime pool block remaining recipients) database left next ↔
      RecipientsPaid runtime block.reward remaining recipients ∧
      recipientsLeave runtime block.reward remaining (paying recipients) = left ∧
      Returns (creditAll pool.config block
        (recipientCredits runtime pool.address block.reward (paying recipients)))
        database () next := by
  induction recipients generalizing remaining database with
  | nil =>
      rw [creditRecipients, returns_pure_iff]
      constructor
      · rintro ⟨rfl, rfl⟩
        exact ⟨recipientsPaid_nil _ _, rfl, returns_pure () database⟩
      · rintro ⟨-, rfl, returns⟩
        exact ⟨rfl, (returns_pure_iff.mp returns).2⟩
  | cons recipient recipients induction =>
      cases recipient with
      | none =>
          rw [creditRecipients, returns_attempt_iff]
          constructor
          · rintro ⟨contra, -⟩
            cases contra
          · rintro ⟨paid, -, -⟩
            exact absurd List.mem_cons_self paid.given
      | some recipient =>
          rw [creditRecipients]
          by_cases positive : 0 < recipient.percentage
          · rw [if_pos positive, recipientsPaid_cons positive, paying_cons positive,
              returns_attempt_bind_iff]
            simp only [recipientAmount_eq_ok, returns_attempt_bind_iff, checked_eq_ok]
            constructor
            · rintro ⟨_, ⟨quotientFits, productFits, rfl⟩, _, ⟨restFits, rfl⟩, rest⟩
              by_cases own : recipient.address = some pool.address
              · rw [if_neg (not_not.mpr own)] at rest
                rcases induction.mp rest with ⟨paid, leaves, credits⟩
                refine ⟨⟨quotientFits, productFits, restFits, by simp [own], paid⟩, leaves, ?_⟩
                rw [recipientCredits_own own]
                exact credits
              · rw [if_pos own, returns_bind_iff (unlimited_addGivenAmount _ _)] at rest
                rcases rest with ⟨_, added, adds, rest⟩
                rcases (addGivenAmount_returns _ _).mp adds with ⟨address, isAddress, adds⟩
                rcases induction.mp rest with ⟨paid, leaves, credits⟩
                have foreign : address ≠ pool.address := fun same => own (same ▸ isAddress)
                refine ⟨⟨quotientFits, productFits, restFits, by simp [isAddress], paid⟩,
                  leaves, ?_⟩
                rw [recipientCredits_foreign isAddress foreign, creditAll_cons_returns]
                exact ⟨added, adds, credits⟩
            · rintro ⟨⟨quotientFits, productFits, restFits, hasAddress, paid⟩, leaves, credits⟩
              refine ⟨_, ⟨quotientFits, productFits, rfl⟩, _, ⟨restFits, rfl⟩, ?_⟩
              by_cases own : recipient.address = some pool.address
              · rw [if_neg (not_not.mpr own)]
                rw [recipientCredits_own own] at credits
                exact induction.mpr ⟨paid, leaves, credits⟩
              · rcases Option.isSome_iff_exists.mp hasAddress with ⟨address, isAddress⟩
                have foreign : address ≠ pool.address := fun same => own (same ▸ isAddress)
                rw [recipientCredits_foreign isAddress foreign, creditAll_cons_returns] at credits
                rcases credits with ⟨added, adds, credits⟩
                rw [if_pos own]
                exact returns_bind ((addGivenAmount_returns _ _).mpr ⟨address, isAddress, adds⟩)
                  (induction.mpr ⟨paid, leaves, credits⟩)
          · rw [if_neg positive, induction, recipientsPaid_skipped positive,
              paying_skipped positive]

/-- What the recipients leave for the payout scheme. -/
def schemeReward (runtime : Runtime) (pool : GivenPool) (reward : ℚ) : ℚ :=
  recipientsLeave runtime reward reward (paying (pool.rewardRecipients.getD []))

def poolCredits (runtime : Runtime) (pool : GivenPool) (reward : ℚ) : List (Text × ℚ) :=
  recipientCredits runtime pool.address reward (paying (pool.rewardRecipients.getD []))

def PoolPaid (runtime : Runtime) (pool : GivenPool) (reward : ℚ) : Prop :=
  pool.rewardRecipients.isSome = true ∧
    RecipientsPaid runtime reward reward (pool.rewardRecipients.getD [])

theorem updateBlockRewardBalances_returns {left : ℚ} :
    Returns (updateBlockRewardBalances runtime pool block) database left next ↔
      PoolPaid runtime pool block.reward ∧ schemeReward runtime pool block.reward = left ∧
      Returns (creditAll pool.config block (poolCredits runtime pool block.reward)) database ()
        next := by
  rw [updateBlockRewardBalances, PoolPaid, schemeReward, poolCredits]
  cases pool.rewardRecipients with
  | none =>
      rw [returns_attempt_iff]
      simp
  | some recipients => simp only [creditRecipients_returns, Option.isSome_some, true_and,
      Option.getD_some]

theorem poolCredits_nonneg {reward : ℚ} (nonneg : 0 ≤ reward) :
    ∀ credit ∈ poolCredits runtime pool reward, 0 ≤ credit.2 := by
  intro credit member
  rcases List.mem_filterMap.mp member with ⟨recipient, isPaying, isCredit⟩
  rcases Option.bind_eq_some_iff.mp isCredit with ⟨address, -, isCredit⟩
  split_ifs at isCredit
  · cases isCredit
    have positive := (List.mem_filter.mp isPaying).2
    rw [decide_eq_true_eq] at positive
    have part := runtime.decimal.round_nonneg (recipient.percentage / 100) (by positivity)
    exact runtime.decimal.round_nonneg _ (mul_nonneg nonneg part)

theorem unlimited_creditRecipients (recipients : List (Option GivenRecipient)) (remaining : ℚ) :
    Unlimited (creditRecipients runtime pool block remaining recipients) := by
  induction recipients generalizing remaining with
  | nil => exact unlimited_pure _
  | cons recipient recipients induction =>
      cases recipient with
      | none => exact unlimited_attempt _
      | some recipient =>
          rw [creditRecipients]
          split_ifs with positive foreign
          · refine unlimited_bind (unlimited_attempt _) fun amount => ?_
            refine unlimited_bind (unlimited_attempt _) fun left => ?_
            exact unlimited_bind (unlimited_addGivenAmount _ _) fun _ => induction _
          · refine unlimited_bind (unlimited_attempt _) fun amount => ?_
            exact unlimited_bind (unlimited_attempt _) fun left => induction _
          · exact induction _

theorem unlimited_updateBlockRewardBalances :
    Unlimited (updateBlockRewardBalances runtime pool block) := by
  rw [updateBlockRewardBalances]
  cases pool.rewardRecipients with
  | none => exact unlimited_attempt _
  | some recipients => exact unlimited_creditRecipients recipients _

end Recipients

/-! ## When PPLNS distributes -/

namespace Pplns

section Sums

def sumResults (sum : ℚ) : List ℚ → List ℚ
  | [] => []
  | value :: values => (sum + value) :: sumResults (runtime.decimal.round (sum + value)) values

def decimalSum (sum : ℚ) (values : List ℚ) : ℚ :=
  values.foldl (fun sum value => runtime.decimal.round (sum + value)) sum

def Converts : Quantity → Prop
  | none => False
  | some value => runtime.doubleToDecimal.inRange value = true

instance : (quantity : Quantity) → Decidable (Converts runtime quantity)
  | none => inferInstanceAs (Decidable False)
  | some _ => inferInstanceAs (Decidable (_ = _))

def decimalOf (quantity : Quantity) : ℚ := runtime.doubleToDecimal.round (quantity.getD 0)

/-- A part of a whole can be shown in percents. -/
structure PercentsFit (part whole : ℚ) : Prop where
  nonzero : whole ≠ 0
  quotient : runtime.decimal.inRange (part / whole) = true
  percents : runtime.decimal.inRange (runtime.decimal.round (part / whole) * 100) = true

variable {runtime}

theorem sumDecimals_eq_ok {sum result : ℚ} {values : List ℚ} :
    sumDecimals runtime sum values = .ok result ↔
      (∀ value ∈ sumResults runtime sum values, runtime.decimal.inRange value = true) ∧
        decimalSum runtime sum values = result := by
  induction values generalizing sum with
  | nil => simp [sumDecimals, sumResults, decimalSum]
  | cons value values induction =>
      simp only [sumDecimals, bind_eq_ok, checked_eq_ok, induction, sumResults,
        List.forall_mem_cons, decimalSum, List.foldl_cons]
      constructor
      · rintro ⟨_, ⟨fits, rfl⟩, rest, equal⟩
        exact ⟨⟨fits, rest⟩, equal⟩
      · rintro ⟨⟨fits, rest⟩, equal⟩
        exact ⟨_, ⟨fits, rfl⟩, rest, equal⟩

theorem toDecimal_eq_ok {quantity : Quantity} {result : ℚ} :
    toDecimal runtime quantity = .ok result ↔
      Converts runtime quantity ∧ decimalOf runtime quantity = result := by
  cases quantity with
  | none => simp [toDecimal, Converts]
  | some value => simp [toDecimal, Converts, decimalOf]

theorem sumShares_eq_ok {sum result : ℚ} {quantities : List Quantity} :
    sumShares runtime sum quantities = .ok result ↔
      (∀ quantity ∈ quantities, Converts runtime quantity) ∧
        sumDecimals runtime sum (quantities.map (decimalOf runtime)) = .ok result := by
  induction quantities generalizing sum with
  | nil => simp [sumShares, sumDecimals]
  | cons quantity quantities induction =>
      simp only [sumShares, bind_eq_ok, toDecimal_eq_ok, checked_eq_ok, induction,
        List.forall_mem_cons, List.map_cons, sumDecimals]
      constructor
      · rintro ⟨_, ⟨converts, rfl⟩, _, ⟨fits, rfl⟩, rest, equal⟩
        exact ⟨⟨converts, rest⟩, _, ⟨fits, rfl⟩, equal⟩
      · rintro ⟨⟨converts, rest⟩, _, ⟨fits, rfl⟩, equal⟩
        exact ⟨_, ⟨converts, rfl⟩, _, ⟨fits, rfl⟩, rest, equal⟩

end Sums

/-- The diagnostics can be computed, and written if they are. -/
structure Reported (blockReward : ℚ) (progress : Progress) : Prop where
  converts : ∀ quantity ∈ progress.shares.map Prod.snd, Converts runtime quantity
  shareCount : ∀ sum ∈ sumResults runtime 0
    ((progress.shares.map Prod.snd).map (decimalOf runtime)), runtime.decimal.inRange sum = true
  rewards : ∀ sum ∈ sumResults runtime 0 (progress.rewards.map Prod.snd),
    runtime.decimal.inRange sum = true
  message : 0 < decimalSum runtime 0 (progress.rewards.map Prod.snd) → runtime.infoEnabled = true →
    HasUnit runtime (some (runtime.decimalToDouble
      (decimalSum runtime 0 ((progress.shares.map Prod.snd).map (decimalOf runtime))))) ∧
    PercentsFit runtime (decimalSum runtime 0 (progress.rewards.map Prod.snd)) blockReward

/-- The discarded shares can be written. -/
def DiscardedShown (table : List Share) (poolId : Text) (cutOffDate : Int) : Prop :=
  runtime.infoEnabled = true →
    0 < countSharesBeforeCreated table poolId cutOffDate →
    discarded runtime table poolId cutOffDate ≠ [] →
    HasUnit runtime (sumQuantities runtime ((discarded runtime table poolId cutOffDate).map
      Prod.snd)) ∧
    ∀ entry ∈ discarded runtime table poolId cutOffDate, HasUnit runtime entry.2

section Messages

variable {runtime} {window blockReward : ℚ} {progress : Progress}

theorem logScore_ok_iff : logScore runtime window progress = .ok () ↔
    (runtime.infoEnabled = true → PercentsFit runtime progress.accumulatedScore window) := by
  rw [logScore]
  split_ifs with enabled
  · simp only [bind_eq_ok, divide_eq_ok, checked_eq_ok, pure_eq_ok, enabled, true_implies]
    constructor
    · rintro ⟨_, ⟨nonzero, quotient, rfl⟩, _, ⟨percents, rfl⟩, -⟩
      exact ⟨nonzero, quotient, percents⟩
    · rintro ⟨nonzero, quotient, percents⟩
      exact ⟨_, ⟨nonzero, quotient, rfl⟩, _, ⟨percents, rfl⟩, trivial⟩
  · simp [enabled]

theorem diagnostics_ok_iff : diagnostics runtime blockReward progress = .ok () ↔
    Reported runtime blockReward progress := by
  simp only [diagnostics, bind_eq_ok, sumShares_eq_ok, sumDecimals_eq_ok]
  constructor
  · rintro ⟨_, ⟨converts, shareCount, rfl⟩, _, ⟨rewards, rfl⟩, message⟩
    refine ⟨converts, shareCount, rewards, fun positive enabled => ?_⟩
    rw [if_pos ⟨positive, enabled⟩] at message
    simp only [bind_eq_ok, divide_eq_ok, checked_eq_ok] at message
    rcases message with ⟨shown, hasUnit, _, ⟨nonzero, quotient, rfl⟩, _, ⟨percents, -⟩, -⟩
    exact ⟨(formatQuantity_ok_iff runtime _).mp ⟨shown, hasUnit⟩, nonzero, quotient, percents⟩
  · rintro ⟨converts, shareCount, rewards, message⟩
    refine ⟨_, ⟨converts, shareCount, rfl⟩, _, ⟨rewards, rfl⟩, ?_⟩
    split_ifs with shows
    · rcases message shows.1 shows.2 with ⟨hasUnit, nonzero, quotient, percents⟩
      rcases (formatQuantity_ok_iff runtime _).mpr hasUnit with ⟨shown, formats⟩
      simp only [bind_eq_ok, divide_eq_ok, checked_eq_ok]
      exact ⟨shown, formats, _, ⟨nonzero, quotient, rfl⟩, _, ⟨percents, rfl⟩, rfl⟩
    · rfl

theorem logDiscardedShares_ok_iff {table : List Share} {poolId : Text} {cutOffDate : Int} :
    logDiscardedShares runtime table poolId cutOffDate = .ok () ↔
      (runtime.infoEnabled = true → discarded runtime table poolId cutOffDate ≠ [] →
        HasUnit runtime (sumQuantities runtime ((discarded runtime table poolId cutOffDate).map
          Prod.snd)) ∧
        ∀ entry ∈ discarded runtime table poolId cutOffDate, HasUnit runtime entry.2) := by
  simp only [logDiscardedShares, ← formatQuantity_ok_iff, ← mapM_ok_iff]
  by_cases shows : runtime.infoEnabled = true ∧ discarded runtime table poolId cutOffDate ≠ []
  · rw [if_pos shows]
    simp only [bind_eq_ok, pure_eq_ok, exists_and_right, and_true]
    exact ⟨fun both _ _ => both, fun both => both shows.1 shows.2⟩
  · rw [if_neg shows]
    exact ⟨fun _ enabled some => absurd ⟨enabled, some⟩ shows, fun _ => rfl⟩

end Messages

/-- What the pass over the shares of a table comes to. -/
def outcome (window blockReward : ℚ) (poolId : Text) (created : Int) (table : List Share) :
    Progress :=
  passed runtime window blockReward { blockRewardRemaining := blockReward }
    (Pplns.shownShares Pplns.sharePageSize table poolId created)

/-- The pass goes through, and whatever is written about it can be. -/
structure Distributed (window blockReward : ℚ) (poolId : Text) (created : Int)
    (table : List Share) : Prop where
  through : GoesThrough runtime window blockReward 0 blockReward []
    (Pplns.shownShares Pplns.sharePageSize table poolId created)
  score : runtime.infoEnabled = true → PercentsFit runtime
    (outcome runtime window blockReward poolId created table).accumulatedScore window
  shares : ∀ credit ∈
    Pplns.credits (outcome runtime window blockReward poolId created table).rewards,
    HasUnit runtime
      (((outcome runtime window blockReward poolId created table).shares.find credit.1).getD none)
  discarded : ∀ cutOffDate ∈
    (outcome runtime window blockReward poolId created table).shareCutOffDate,
    DiscardedShown runtime table poolId cutOffDate
  reported : Reported runtime blockReward (outcome runtime window blockReward poolId created table)

section Distributes

variable {runtime} {pool : GivenPool} {block : Block} {database next : Database}

theorem formatShares_ok_iff {shares : Tally Text Quantity} {address : Text} :
    (∃ shown, formatShares runtime shares address = .ok shown) ↔
      HasUnit runtime ((shares.find address).getD none) := by
  rw [formatShares]
  cases shares.find address with
  | none => simp [HasUnit]
  | some quantity => exact formatQuantity_ok_iff runtime quantity

theorem creditRewards_returns {shares : Tally Text Quantity} {rewards : Tally Text ℚ} :
    Returns (creditRewards runtime pool block shares rewards) database () next ↔
      (∀ credit ∈ Pplns.credits rewards, HasUnit runtime ((shares.find credit.1).getD none)) ∧
      Returns (creditAll pool.config block (Pplns.credits rewards)) database () next := by
  induction rewards generalizing database with
  | nil =>
      refine ⟨fun returns => ⟨?_, returns⟩, fun both => both.2⟩
      intro credit member
      cases member
  | cons reward rewards induction =>
      rcases reward with ⟨address, amount⟩
      rw [creditRewards]
      by_cases positive : 0 < amount
      · have credits : Pplns.credits ((address, amount) :: rewards) =
            (address, amount) :: Pplns.credits rewards :=
          List.filter_cons_of_pos (by simpa using positive)
        rw [if_pos positive, credits, returns_attempt_bind_iff, List.forall_mem_cons,
          creditAll_cons_returns, ← formatShares_ok_iff]
        constructor
        · rintro ⟨shown, formats, rest⟩
          rw [returns_bind_iff (unlimited_addAmount _ _ _ _ _)] at rest
          rcases rest with ⟨_, added, adds, rest⟩
          rcases induction.mp rest with ⟨units, credited⟩
          exact ⟨⟨⟨shown, formats⟩, units⟩, added, adds, credited⟩
        · rintro ⟨⟨⟨shown, formats⟩, units⟩, added, adds, credited⟩
          exact ⟨shown, formats, returns_bind adds (induction.mpr ⟨units, credited⟩)⟩
      · have credits : Pplns.credits ((address, amount) :: rewards) = Pplns.credits rewards :=
          List.filter_cons_of_neg (by simpa using positive)
        rw [if_neg positive, credits, induction]

theorem unlimited_creditRewards (shares : Tally Text Quantity) (rewards : Tally Text ℚ) :
    Unlimited (creditRewards runtime pool block shares rewards) := by
  induction rewards with
  | nil => exact unlimited_pure ()
  | cons reward rewards induction =>
      rcases reward with ⟨address, amount⟩
      rw [creditRewards]
      split_ifs
      · refine unlimited_bind (unlimited_attempt _) fun _ => ?_
        exact unlimited_bind (unlimited_addAmount _ _ _ _ _) fun _ => induction
      · exact induction

theorem deleteDiscardedShares_returns {cutOffDate : Int} :
    Returns (deleteDiscardedShares runtime pool cutOffDate) database () next ↔
      DiscardedShown runtime database.shares pool.id cutOffDate ∧
      { database with
        shares := deleteSharesBeforeCreated database.shares pool.id cutOffDate } = next := by
  rw [deleteDiscardedShares, returns_query_bind_iff]
  simp only [Except.ok.injEq, exists_eq_left', DiscardedShown]
  split_ifs with found
  · simp only [returns_query_bind_iff, returns_execute_iff, Except.ok.injEq, found, true_implies]
    constructor
    · rintro ⟨_, logged, equal⟩
      exact ⟨logDiscardedShares_ok_iff.mp logged, equal⟩
    · rintro ⟨shown, equal⟩
      exact ⟨(), logDiscardedShares_ok_iff.mpr shown, equal⟩
  · rw [returns_pure_iff, deleteSharesBeforeCreated_eq_self found]
    simp [found]

/-- The query that reads the shares and computes the rewards, with its message. -/
theorem calculates_ok_iff {window blockReward : ℚ} {table : List Share} {result : Progress} :
    (do
      let progress ← calculateRewards runtime window blockReward Pplns.sharePageSize table pool.id
        block.created
      logScore runtime window progress
      return progress) = Except.ok result ↔
      GoesThrough runtime window blockReward 0 blockReward []
        (Pplns.shownShares Pplns.sharePageSize table pool.id block.created) ∧
      (runtime.infoEnabled = true → PercentsFit runtime
        (outcome runtime window blockReward pool.id block.created table).accumulatedScore window) ∧
      outcome runtime window blockReward pool.id block.created table = result := by
  simp only [bind_eq_ok, pure_eq_ok, calculateRewards_eq_ok, outcome]
  constructor
  · rintro ⟨_, ⟨through, rfl⟩, _, logged, rfl⟩
    exact ⟨through, logScore_ok_iff.mp logged, rfl⟩
  · rintro ⟨through, score, rfl⟩
    exact ⟨_, ⟨through, rfl⟩, (), logScore_ok_iff.mpr score, rfl⟩

theorem unlimited_deleteDiscardedShares (cutOffDate : Int) :
    Unlimited (deleteDiscardedShares runtime pool cutOffDate) := by
  refine unlimited_bind (unlimited_query _ _) fun count => ?_
  split_ifs
  · exact unlimited_bind (unlimited_query _ _) fun _ => unlimited_execute _ _
  · exact unlimited_pure ()

theorem updateBalances_returns {factor : Option ℚ} {blockReward : ℚ} :
    Returns (updateBalances runtime (.ok factor) pool block blockReward) database () next ↔
      Distributed runtime (Pplns.window factor) blockReward pool.id block.created database.shares ∧
      ∃ paid, Returns (creditAll pool.config block (Pplns.credits
          (outcome runtime (Pplns.window factor) blockReward pool.id block.created
            database.shares).rewards))
          database () paid ∧
        { paid with
          shares := keptShares paid.shares pool.id
            (outcome runtime (Pplns.window factor) blockReward pool.id block.created
              database.shares).shareCutOffDate } = next := by
  rw [updateBalances, returns_attempt_bind_iff]
  simp only [Except.ok.injEq, exists_eq_left', returns_query_bind_iff, calculates_ok_iff]
  constructor
  · rintro ⟨_, ⟨through, score, rfl⟩, rest⟩
    rw [returns_bind_iff (unlimited_creditRewards _ _)] at rest
    rcases rest with ⟨_, paid, credited, rest⟩
    rcases creditRewards_returns.mp credited with ⟨units, credited⟩
    have untouched := creditAll_shares credited
    cases cutOff : (outcome runtime (Pplns.window factor) blockReward pool.id block.created
        database.shares).shareCutOffDate with
    | none =>
        rw [cutOff] at rest
        rcases returns_attempt_iff.mp rest with ⟨reported, rfl⟩
        refine ⟨⟨through, score, units, ?_, diagnostics_ok_iff.mp reported⟩, paid, credited, rfl⟩
        intro cutOffDate isCutOff
        rw [cutOff] at isCutOff
        cases isCutOff
    | some cutOffDate =>
        rw [cutOff] at rest
        rw [returns_bind_iff (unlimited_deleteDiscardedShares _)] at rest
        rcases rest with ⟨_, left, deletes, reports⟩
        rcases deleteDiscardedShares_returns.mp deletes with ⟨shown, rfl⟩
        rcases returns_attempt_iff.mp reports with ⟨reported, rfl⟩
        refine ⟨⟨through, score, units, ?_, diagnostics_ok_iff.mp reported⟩, paid, credited, rfl⟩
        intro other isCutOff
        rw [cutOff] at isCutOff
        cases isCutOff
        rw [← untouched]
        exact shown
  · rintro ⟨distributed, paid, credited, rfl⟩
    refine ⟨_, ⟨distributed.through, distributed.score, rfl⟩, ?_⟩
    refine returns_bind (creditRewards_returns.mpr ⟨distributed.shares, credited⟩) ?_
    have reports := diagnostics_ok_iff.mpr distributed.reported
    cases cutOff : (outcome runtime (Pplns.window factor) blockReward pool.id block.created
        database.shares).shareCutOffDate with
    | none => exact returns_attempt_iff.mpr ⟨reports, rfl⟩
    | some cutOffDate =>
        have shown := distributed.discarded cutOffDate cutOff
        rw [← creditAll_shares credited] at shown
        exact returns_bind (deleteDiscardedShares_returns.mpr ⟨shown, rfl⟩)
          (returns_attempt_iff.mpr ⟨reports, rfl⟩)

theorem unlimited_updateBalances (factor : Except Exception (Option ℚ)) (blockReward : ℚ) :
    Unlimited (updateBalances runtime factor pool block blockReward) := by
  refine unlimited_bind (unlimited_attempt _) fun factor => ?_
  refine unlimited_bind (unlimited_query _ _) fun progress => ?_
  refine unlimited_bind (unlimited_creditRewards _ _) fun _ => ?_
  cases progress.shareCutOffDate with
  | none => exact unlimited_attempt _
  | some cutOffDate =>
      exact unlimited_bind (unlimited_deleteDiscardedShares cutOffDate) fun _ => unlimited_attempt _

end Distributes

end Pplns

/-! ## When Solo distributes -/

namespace Solo

def addresses (pool : GivenPool) : List (Option Text) :=
  ((pool.rewardRecipients.getD []).reduceOption.filter isSolo).map GivenRecipient.address

/-- Everyone has the same part, also an address that is configured more than once. -/
def rewards (pool : GivenPool) (blockReward : ℚ) : Tally Text ℚ :=
  (addresses pool).reduceOption.foldl (fun rewards address =>
    rewards.set address (runtime.decimal.round (blockReward / (addresses pool).length))) []

structure Distributed (pool : GivenPool) (blockReward : ℚ) : Prop where
  configured : addresses pool ≠ []
  given : none ∉ addresses pool
  inRange : runtime.decimal.inRange (blockReward / (addresses pool).length) = true

variable {runtime} {pool : GivenPool} {block : Block} {database next : Database}

theorem recipients_eq {reward : ℚ} (paid : PoolPaid runtime pool reward) :
    recipients pool = .ok (addresses pool) := by
  rcases paid with ⟨isSome, paid⟩
  rcases Option.isSome_iff_exists.mp isSome with ⟨recipients, isRecipients⟩
  have given := paid.given
  rw [isRecipients, Option.getD_some] at given
  simp only [Solo.recipients, addresses, isRecipients, throwIf, if_neg given]
  rfl

theorem setRewards_eq_ok {blockReward : ℚ} {count : Nat} (positive : count ≠ 0)
    (given : List (Option Text)) {known result : Tally Text ℚ} :
    setRewards runtime blockReward count known given = .ok result ↔
      (given ≠ [] → runtime.decimal.inRange (blockReward / count) = true) ∧ none ∉ given ∧
        given.reduceOption.foldl (fun rewards address =>
          rewards.set address (runtime.decimal.round (blockReward / count))) known = result := by
  induction given generalizing known with
  | nil => simp [setRewards]
  | cons address given induction =>
      have nonzero : (count : ℚ) ≠ 0 := Nat.cast_ne_zero.mpr positive
      simp only [setRewards, bind_eq_ok, divide_eq_ok]
      cases address with
      | none => simp
      | some address =>
          simp only [induction, List.reduceOption_cons_of_some, List.foldl_cons]
          constructor
          · rintro ⟨_, ⟨-, inRange, rfl⟩, -, rest, equal⟩
            exact ⟨fun _ => inRange, by simpa using rest, equal⟩
          · rintro ⟨inRange, rest, equal⟩
            have fits := inRange (List.cons_ne_nil _ _)
            exact ⟨_, ⟨nonzero, fits, rfl⟩, fun _ => fits, by simpa using rest, equal⟩

theorem calculateRewards_eq_ok {reward blockReward : ℚ} {result : Tally Text ℚ}
    (paid : PoolPaid runtime pool reward) :
    calculateRewards runtime pool blockReward = .ok result ↔
      Distributed runtime pool blockReward ∧ rewards runtime pool blockReward = result := by
  simp only [calculateRewards, recipients_eq paid, bind_eq_ok, throwIf_eq_ok, Except.ok.injEq,
    exists_eq_left', exists_const, rewards]
  constructor
  · rintro ⟨configured, sets⟩
    have positive : (addresses pool).length ≠ 0 := by simpa using configured
    rcases (setRewards_eq_ok positive _).mp sets with ⟨inRange, given, equal⟩
    exact ⟨⟨configured, given, inRange configured⟩, equal⟩
  · rintro ⟨⟨configured, given, inRange⟩, equal⟩
    have positive : (addresses pool).length ≠ 0 := by simpa using configured
    exact ⟨configured, (setRewards_eq_ok positive _).mpr ⟨fun _ => inRange, given, equal⟩⟩

theorem updateBalances_returns {reward blockReward : ℚ} (paid : PoolPaid runtime pool reward) :
    Returns (updateBalances runtime pool block blockReward) database () next ↔
      Distributed runtime pool blockReward ∧
      ∃ credited, Returns (creditAll pool.config block
          (Pplns.credits (rewards runtime pool blockReward))) database () credited ∧
        { credited with
          shares := keptShares credited.shares pool.id (some block.created) } = next := by
  rw [updateBalances, returns_attempt_bind_iff]
  simp only [calculateRewards_eq_ok paid, creditRewards_eq,
    returns_bind_iff (unlimited_creditAll _ _ _), Payments.deleteDiscardedShares_returns]
  constructor
  · rintro ⟨_, ⟨distributed, rfl⟩, _, credited, credits, equal⟩
    exact ⟨distributed, credited, credits, equal⟩
  · rintro ⟨distributed, credited, credits, equal⟩
    exact ⟨_, ⟨distributed, rfl⟩, (), credited, credits, equal⟩

theorem unlimited_updateBalances (blockReward : ℚ) :
    Unlimited (updateBalances runtime pool block blockReward) := by
  refine unlimited_bind (unlimited_attempt _) fun rewards => ?_
  rw [creditRewards_eq]
  refine unlimited_bind (unlimited_creditAll _ _ _) fun _ => ?_
  refine unlimited_bind (unlimited_query _ _) fun count => ?_
  split_ifs
  · exact unlimited_execute _ _
  · exact unlimited_pure ()

end Solo

section Unlimited

variable {runtime} {pool : GivenPool} {block : Block}

theorem unlimited_updateBalances (blockReward : ℚ) :
    Unlimited (updateBalances runtime pool block blockReward) := by
  rw [updateBalances]
  cases pool.payoutScheme with
  | solo => exact Solo.unlimited_updateBalances blockReward
  | pplns factor => exact Pplns.unlimited_updateBalances factor blockReward

theorem unlimited_settleBlock : Unlimited (settleBlock runtime pool block) := by
  rw [settleBlock]
  cases block.status with
  | confirmed =>
      refine unlimited_bind unlimited_updateBlockRewardBalances fun blockReward => ?_
      exact unlimited_bind (unlimited_updateBalances blockReward) fun _ => unlimited_execute _ _
  | orphaned => exact unlimited_execute _ _
  | pending => exact unlimited_execute _ _

theorem unlimited_effort (config : PoolConfig) : Unlimited
    (if block.effort.isNone then calculateBlockEffort config block else pure block) := by
  split_ifs
  · refine unlimited_bind (unlimited_query _ _) fun lastBlock => ?_
    exact unlimited_bind (unlimited_query _ _) fun accumulated => unlimited_pure _
  · exact unlimited_pure block

end Unlimited

end Miningcore.Payments.Rounded

import Miningcore.Stratum.ShareAcceptance
import Mathlib.Algebra.BigOperators.Group.List.Basic
import Mathlib.Algebra.Order.BigOperators.Group.List
import Mathlib.Tactic.Linarith

/-! `CreateOutputTransaction` of the jobs for Bitcoin, Dash, Straks and Bitcoin Gold: who is
paid by the coinbase transaction, and what the pool takes for its reward. -/

namespace Miningcore.CoinbaseOutputs

/-! ## Money -/

def isLong (value : Int) : Bool := -2 ^ 63 ≤ value && value < 2 ^ 63

/-- An operation on `Money` or a conversion to it, which is checked. -/
def checked (satoshis : Int) : Except Exception Int :=
  if isLong satoshis then .ok satoshis else .error .overflow

/-- `new Money(amount, MoneyUnit.Satoshi)`, which drops a fraction. -/
def money (amount : ℚ) : Except Exception Int := checked (amount.num.tdiv amount.den)

theorem checked_ok {satoshis value : Int} (isValue : checked satoshis = .ok value) :
    value = satoshis := by
  rw [checked] at isValue
  split_ifs at isValue
  cases isValue
  rfl

theorem money_ok {amount : Int} {value : Int} (isValue : money amount = .ok value) :
    value = amount := by
  have same := checked_ok isValue
  rw [Rat.num_intCast, Rat.den_intCast] at same
  exact same.trans (Int.tdiv_one amount)

/-! ## Outputs -/

structure TxOut (Destination : Type) where
  value : Int
  destination : Destination
deriving DecidableEq

/-- What `CreateOutputTransaction` makes: the outputs of the transaction, and the field
`rewardToPool`, which a share for a block is recorded with. -/
structure OutputTransaction (Destination : Type) where
  outputs : List (TxOut Destination)
  rewardToPool : Int
deriving DecidableEq

/-- Where the outputs go: the pool's address, and how other addresses are read. -/
structure Destinations (Destination : Type) where
  pool : Destination
  addressToDestination : Option Text → Except Exception Destination
  treasuryAddressToScriptDestination : Text → Except Exception Destination

/-- A transaction in the making, with what is left of the reward. -/
structure Draft (Destination : Type) where
  reward : Int
  outputs : List (TxOut Destination) := []

variable {Destination : Type} (destinations : Destinations Destination)

def Draft.pay (draft : Draft Destination) (value : Int) (destination : Destination) :
    Except Exception (Draft Destination) := do
  let reward ← checked (draft.reward - value)
  return { reward, outputs := draft.outputs ++ [{ value, destination }] }

def Draft.finish (draft : Draft Destination) : OutputTransaction Destination where
  outputs := { value := draft.reward, destination := destinations.pool } :: draft.outputs
  rewardToPool := draft.reward

/-- All outputs are non-negative and have a total, and the reward that is recorded is in
the output of the pool. -/
structure Conserves (transaction : OutputTransaction Destination) (total : ℚ) : Prop where
  nonneg : ∀ output ∈ transaction.outputs, 0 ≤ output.value
  total : ((transaction.outputs.map TxOut.value).sum : ℚ) = total
  pool : transaction.outputs.head? = some ⟨transaction.rewardToPool, destinations.pool⟩

def Draft.paid (draft : Draft Destination) : List Int := draft.outputs.map TxOut.value

structure Draft.Of (reward : Int) (values : List Int) (draft : Draft Destination) : Prop where
  paid : draft.paid = values
  left : draft.reward = reward - values.sum

theorem Draft.of_start (reward : Int) : Draft.Of reward [] ({ reward } : Draft Destination) where
  paid := rfl
  left := (Int.sub_zero reward).symm

theorem Draft.pay_of {draft next : Draft Destination} {reward value : Int} {values : List Int}
    {destination : Destination} (isDraft : draft.Of reward values)
    (isNext : draft.pay value destination = .ok next) : next.Of reward (values ++ [value]) := by
  simp only [Draft.pay, bind_eq_ok, pure_eq_ok] at isNext
  rcases isNext with ⟨rest, isRest, rfl⟩
  constructor
  · rw [Draft.paid, List.map_append, List.map_singleton]
    exact congrArg (· ++ [value]) isDraft.paid
  · rw [checked_ok isRest, isDraft.left, List.sum_append, List.sum_singleton]
    exact Int.sub_sub reward values.sum value

theorem Draft.finish_conserves_iff {draft : Draft Destination} {reward : Int} {values : List Int}
    (isDraft : draft.Of reward values) :
    Conserves destinations (draft.finish destinations) reward ↔
      (∀ value ∈ values, 0 ≤ value) ∧ values.sum ≤ reward := by
  constructor
  · intro conserves
    constructor
    · intro value member
      rw [← isDraft.paid] at member
      rcases List.mem_map.mp member with ⟨output, isOutput, rfl⟩
      exact conserves.nonneg output (List.mem_cons_of_mem _ isOutput)
    · have pool := conserves.nonneg _ List.mem_cons_self
      have rest := isDraft.left
      simp only at pool
      omega
  · intro nonneg
    refine ⟨?_, ?_, rfl⟩
    · intro output member
      rcases List.mem_cons.mp member with rfl | isPayee
      · have rest := isDraft.left
        simp only
        omega
      · apply nonneg.1
        rw [← isDraft.paid]
        exact List.mem_map_of_mem isPayee
    · have sum : draft.reward + draft.paid.sum = reward := by
        rw [isDraft.paid, isDraft.left]
        omega
      rw [← sum]
      rfl

/-! ## The jobs -/

/-- The field that a job keeps from the parameter `blockrewardMultiplier` of its `Init`. -/
structure RewardFields where
  blockRewardMultiplier : ℚ := 0

/-- `BitcoinJob.Init`, which the jobs for Dash and Straks inherit. -/
def bitcoinInit (blockrewardMultiplier : ℚ) : RewardFields where
  blockRewardMultiplier := blockrewardMultiplier

/-- `BitcoinGoldJob.Init`. It stands in for the one it overrides and keeps the other
parameters, but not this one. -/
def bitcoinGoldInit (_blockrewardMultiplier : ℚ) : RewardFields := {}

/-- `BitcoinJob.CreateOutputTransaction`, and also that of `BitcoinGoldJob`, which adds the
output of the pool to an empty list instead of inserting it there. -/
def createBitcoinTransaction (fields : RewardFields) (coinbaseValue : Int) :
    Except Exception (OutputTransaction Destination) := do
  let reward ← money (coinbaseValue * fields.blockRewardMultiplier)
  return Draft.finish destinations { reward }

def isNullOrEmpty : Option Text → Bool
  | none => true
  | some value => value.isEmpty

/-- `DashMasternode` and `DashSuperBlock`. -/
structure DashPayee where
  payee : Option Text
  amount : Int

/-- `DashBlockTemplate`. An array may have null in it. -/
structure DashBlockTemplate where
  coinbaseValue : Int
  payee : Option Text
  payeeAmount : Option Int
  masternode : Option DashPayee
  superBlocks : Option (List (Option DashPayee))

def paySuperBlock (draft : Draft Destination) (superBlock : Option DashPayee) :
    Except Exception (Draft Destination) :=
  match superBlock with
  | none => .error .nullReference
  | some given => do
      let payeeAddress ← destinations.addressToDestination given.payee
      draft.pay given.amount payeeAddress

/-- The first part of `CreateDashOutputs`: the masternode or the super blocks. -/
def payMasternode (template : DashBlockTemplate) (reward : Int) :
    Except Exception (Draft Destination) :=
  match template.masternode, template.superBlocks with
  | some masternode, some superBlocks =>
      if isNullOrEmpty masternode.payee then
        superBlocks.foldlM (paySuperBlock destinations) { reward }
      else do
        let payeeAddress ← destinations.addressToDestination masternode.payee
        Draft.pay { reward } masternode.amount payeeAddress
  | _, _ => .ok { reward }

/-- `CreateDashOutputs`. Without an amount the payee gets a fifth of what is left. What it
subtracts from `rewardToPool` on the way is overwritten with its result. -/
def createDashOutputs (template : DashBlockTemplate) (reward : Int) :
    Except Exception (Draft Destination) := do
  let draft ← payMasternode destinations template reward
  if isNullOrEmpty template.payee then return draft
  let payeeAddress ← destinations.addressToDestination template.payee
  draft.pay (template.payeeAmount.getD (draft.reward.tdiv 5)) payeeAddress

/-- `DashJob.CreateOutputTransaction`. -/
def createDashTransaction (fields : RewardFields) (template : DashBlockTemplate) :
    Except Exception (OutputTransaction Destination) := do
  let blockReward ← money (template.coinbaseValue * fields.blockRewardMultiplier)
  let draft ← createDashOutputs destinations template blockReward
  return draft.finish destinations

def masternodeAmounts (template : DashBlockTemplate) : List Int :=
  match template.masternode, template.superBlocks with
  | some masternode, some superBlocks =>
      if isNullOrEmpty masternode.payee then superBlocks.filterMap (Option.map DashPayee.amount)
      else [masternode.amount]
  | _, _ => []

def DashBlockTemplate.amounts (template : DashBlockTemplate) : List Int :=
  masternodeAmounts template ++
    (if isNullOrEmpty template.payee then [] else template.payeeAmount.toList)

/-- `StraksBlockTemplate`, with what `Extra["treasuryAddresses"]` of the pool is: not there,
no array, or the array. -/
structure StraksBlockTemplate where
  coinbaseValue : Int
  height : UInt32
  treasuryReward : Option Nat
  payee : Option Text
  payeeAmount : Option Int
  masternodePaymentsStarted : Bool
  masternodePaymentsEnforced : Bool
  treasuryAddresses : Option (Option (List (Option Text)))

namespace StraksBlockTemplate

variable (template : StraksBlockTemplate)

def getTreasuryRewardAddress : Except Exception (Option Text) :=
  match template.treasuryAddresses with
  | none => .ok none
  | some none => .error .nullReference
  | some (some addresses) => .ok (addresses[template.height.toNat % addresses.length]?).join

def shouldHandleMasternodePayment : Bool :=
  template.masternodePaymentsStarted && template.masternodePaymentsEnforced &&
    !isNullOrEmpty template.payee && template.payeeAmount.isSome

/-- The first part of `CreateStraksOutputs`: the treasury. -/
def payTreasury (reward : Int) : Except Exception (Draft Destination) := do
  let treasuryRewardAddress ← template.getTreasuryRewardAddress
  match treasuryRewardAddress with
  | none => return { reward }
  | some address =>
      if 0 < reward then
        let destination ← destinations.treasuryAddressToScriptDestination address
        match template.treasuryReward with
        | none => .error .nullReference
        | some amount =>
            let treasuryReward ← money (Int.ofNat amount)
            Draft.pay { reward } treasuryReward destination
      else return { reward }

def createStraksOutputs (reward : Int) : Except Exception (Draft Destination) := do
  let draft ← template.payTreasury destinations reward
  if template.shouldHandleMasternodePayment then
    let payeeAddress ← destinations.addressToDestination template.payee
    draft.pay (template.payeeAmount.getD 0) payeeAddress
  else return draft

/-- `StraksJob.CreateOutputTransaction`, which does not read the multiplier. -/
def createStraksTransaction : Except Exception (OutputTransaction Destination) := do
  let blockReward ← money template.coinbaseValue
  let draft ← template.createStraksOutputs destinations blockReward
  return draft.finish destinations

def amounts : List Int :=
  (template.treasuryReward.map Int.ofNat).toList ++ template.payeeAmount.toList

end StraksBlockTemplate

/-! ## What the outputs add up to -/

theorem paySuperBlock_of {draft next : Draft Destination} {reward : Int} {values : List Int}
    (superBlocks : List (Option DashPayee)) (isDraft : draft.Of reward values)
    (isNext : superBlocks.foldlM (paySuperBlock destinations) draft = .ok next) :
    next.Of reward (values ++ superBlocks.filterMap (Option.map DashPayee.amount)) := by
  induction superBlocks generalizing draft values with
  | nil =>
      cases isNext
      rw [List.filterMap_nil, List.append_nil]
      exact isDraft
  | cons superBlock superBlocks induction =>
      rw [List.foldlM_cons, bind_eq_ok] at isNext
      rcases isNext with ⟨after, isPaid, rest⟩
      cases superBlock with
      | none => cases isPaid
      | some given =>
          simp only [paySuperBlock, bind_eq_ok] at isPaid
          rcases isPaid with ⟨payeeAddress, -, isPaid⟩
          have more := induction (Draft.pay_of isDraft isPaid) rest
          rw [List.append_assoc] at more
          exact more

theorem payMasternode_of {template : DashBlockTemplate} {reward : Int} {draft : Draft Destination}
    (isPaid : payMasternode destinations template reward = .ok draft) :
    draft.Of reward (masternodeAmounts template) := by
  rw [payMasternode] at isPaid
  rw [masternodeAmounts]
  split at isPaid
  · split_ifs at isPaid ⊢
    · exact paySuperBlock_of destinations _ (Draft.of_start reward) isPaid
    · rw [bind_eq_ok] at isPaid
      rcases isPaid with ⟨payeeAddress, -, isPaid⟩
      exact Draft.pay_of (Draft.of_start reward) isPaid
  · cases isPaid
    exact Draft.of_start reward

theorem tdiv_five_le_iff (rest : Int) : 0 ≤ rest.tdiv 5 ∧ rest.tdiv 5 ≤ rest ↔ 0 ≤ rest := by
  have parts := Int.mul_tdiv_add_tmod rest 5
  constructor
  · intro bounds
    omega
  · intro nonneg
    have remainder := Int.tmod_nonneg 5 nonneg
    have quotient := Int.tdiv_nonneg nonneg (by decide : (0 : Int) ≤ 5)
    omega

theorem createDashOutputs_conserves_iff {template : DashBlockTemplate} {reward : Int}
    {draft : Draft Destination} (nonneg : ∀ amount ∈ template.amounts, 0 ≤ amount)
    (isCreated : createDashOutputs destinations template reward = .ok draft) :
    Conserves destinations (draft.finish destinations) reward ↔ template.amounts.sum ≤ reward := by
  simp only [createDashOutputs, bind_eq_ok] at isCreated
  rcases isCreated with ⟨first, isFirst, isCreated⟩
  have masternode := payMasternode_of destinations isFirst
  rw [DashBlockTemplate.amounts] at nonneg ⊢
  split_ifs at isCreated nonneg ⊢ with noPayee
  · cases isCreated
    rw [Draft.finish_conserves_iff destinations masternode]
    rw [List.append_nil] at nonneg ⊢
    exact and_iff_right nonneg
  · rw [bind_eq_ok] at isCreated
    rcases isCreated with ⟨payeeAddress, -, isPaid⟩
    have all := Draft.pay_of masternode isPaid
    rw [Draft.finish_conserves_iff destinations all]
    cases hasAmount : template.payeeAmount with
    | some amount =>
        rw [hasAmount] at nonneg
        exact and_iff_right nonneg
    | none =>
        rw [hasAmount] at nonneg
        rw [Option.toList_none, List.append_nil] at nonneg ⊢
        have fifth := tdiv_five_le_iff first.reward
        have left := masternode.left
        rw [Option.getD_none, List.sum_append, List.sum_singleton]
        constructor
        · intro conserves
          have isNonneg := conserves.1 _ (List.mem_append_right _ List.mem_cons_self)
          omega
        · intro enough
          have bounds := fifth.mpr (by omega)
          refine ⟨?_, by omega⟩
          intro value member
          rcases List.mem_append.mp member with isAmount | isFifth
          · exact nonneg value isAmount
          · rw [List.mem_singleton.mp isFifth]
            exact bounds.1

section Transactions

variable {fields : RewardFields} {reward : Int} {transaction : OutputTransaction Destination}

theorem createBitcoinTransaction_conserves_iff {coinbaseValue : Int}
    (integral : coinbaseValue * fields.blockRewardMultiplier = reward)
    (created : createBitcoinTransaction destinations fields coinbaseValue = .ok transaction) :
    Conserves destinations transaction reward ↔ 0 ≤ reward := by
  simp only [createBitcoinTransaction, bind_eq_ok, pure_eq_ok] at created
  rcases created with ⟨value, isValue, rfl⟩
  rw [integral] at isValue
  rw [money_ok isValue, Draft.finish_conserves_iff destinations (Draft.of_start reward)]
  apply and_iff_right
  intro value member
  cases member

theorem createDashTransaction_conserves_iff {template : DashBlockTemplate}
    (nonneg : ∀ amount ∈ template.amounts, 0 ≤ amount)
    (integral : template.coinbaseValue * fields.blockRewardMultiplier = reward)
    (created : createDashTransaction destinations fields template = .ok transaction) :
    Conserves destinations transaction reward ↔ template.amounts.sum ≤ reward := by
  simp only [createDashTransaction, bind_eq_ok, pure_eq_ok] at created
  rcases created with ⟨value, isValue, draft, isDraft, rfl⟩
  rw [integral] at isValue
  rw [money_ok isValue] at isDraft
  exact createDashOutputs_conserves_iff destinations nonneg isDraft

end Transactions

namespace StraksBlockTemplate

variable {template : StraksBlockTemplate} {reward : Int} {draft : Draft Destination}

theorem payTreasury_of (isPaid : template.payTreasury destinations reward = .ok draft) :
    ∃ values, values.Sublist (template.treasuryReward.map Int.ofNat).toList ∧
      draft.Of reward values := by
  simp only [payTreasury, bind_eq_ok] at isPaid
  rcases isPaid with ⟨treasuryRewardAddress, -, isPaid⟩
  split at isPaid
  · cases isPaid
    exact ⟨[], List.nil_sublist _, Draft.of_start reward⟩
  · split_ifs at isPaid
    · rw [bind_eq_ok] at isPaid
      rcases isPaid with ⟨destination, -, isPaid⟩
      split at isPaid
      · cases isPaid
      · rename_i amount hasAmount
        rw [bind_eq_ok] at isPaid
        rcases isPaid with ⟨treasuryReward, isReward, isPaid⟩
        refine ⟨[treasuryReward], ?_, Draft.pay_of (Draft.of_start reward) isPaid⟩
        rw [money_ok isReward, hasAmount]
        exact List.Sublist.refl _
    · cases isPaid
      exact ⟨[], List.nil_sublist _, Draft.of_start reward⟩

theorem createStraksOutputs_of
    (isCreated : template.createStraksOutputs destinations reward = .ok draft) :
    ∃ values, values.Sublist template.amounts ∧ draft.Of reward values := by
  simp only [createStraksOutputs, bind_eq_ok] at isCreated
  rcases isCreated with ⟨first, isFirst, isCreated⟩
  rcases payTreasury_of destinations isFirst with ⟨values, isSublist, treasury⟩
  split_ifs at isCreated with handles
  · rw [bind_eq_ok] at isCreated
    rcases isCreated with ⟨payeeAddress, -, isPaid⟩
    refine ⟨values ++ [template.payeeAmount.getD 0], ?_, Draft.pay_of treasury isPaid⟩
    apply List.Sublist.append isSublist
    rw [shouldHandleMasternodePayment, Bool.and_eq_true, Option.isSome_iff_exists] at handles
    rcases handles.2 with ⟨amount, hasAmount⟩
    rw [hasAmount]
    exact List.Sublist.refl _
  · cases isCreated
    exact ⟨values, isSublist.trans (List.sublist_append_left _ _), treasury⟩

theorem createStraksTransaction_conserves {transaction : OutputTransaction Destination}
    (nonneg : ∀ amount ∈ template.amounts, 0 ≤ amount)
    (together : template.amounts.sum ≤ template.coinbaseValue)
    (created : template.createStraksTransaction destinations = .ok transaction) :
    Conserves destinations transaction template.coinbaseValue := by
  simp only [createStraksTransaction, bind_eq_ok, pure_eq_ok] at created
  rcases created with ⟨value, isValue, draft, isDraft, rfl⟩
  rw [money_ok isValue] at isDraft
  rcases createStraksOutputs_of destinations isDraft with ⟨values, isSublist, ofReward⟩
  apply (Draft.finish_conserves_iff destinations ofReward).mpr
  constructor
  · intro value member
    exact nonneg value (isSublist.subset member)
  · exact (isSublist.sum_le_sum nonneg).trans together

end StraksBlockTemplate

/-! ## All jobs -/

inductive CoinbaseJob
  | bitcoin (coinbaseValue : Int)
  | dash (template : DashBlockTemplate)
  | straks (template : StraksBlockTemplate)
  | bitcoinGold (coinbaseValue : Int)

namespace CoinbaseJob

/-- The outputs that are built after `Init`. -/
def createOutputTransaction (blockrewardMultiplier : ℚ) :
    CoinbaseJob → Except Exception (OutputTransaction Destination)
  | bitcoin coinbaseValue =>
      createBitcoinTransaction destinations (bitcoinInit blockrewardMultiplier) coinbaseValue
  | dash template => createDashTransaction destinations (bitcoinInit blockrewardMultiplier) template
  | straks template => template.createStraksTransaction destinations
  | bitcoinGold coinbaseValue =>
      createBitcoinTransaction destinations (bitcoinGoldInit blockrewardMultiplier) coinbaseValue

def coinbaseValue : CoinbaseJob → Int
  | bitcoin coinbaseValue => coinbaseValue
  | dash template => template.coinbaseValue
  | straks template => template.coinbaseValue
  | bitcoinGold coinbaseValue => coinbaseValue

def amounts : CoinbaseJob → List Int
  | bitcoin _ => []
  | dash template => template.amounts
  | straks template => template.amounts
  | bitcoinGold _ => []

def AllowsMultiplier (blockrewardMultiplier : ℚ) : CoinbaseJob → Prop
  | straks _ => blockrewardMultiplier = 1
  | _ => True

/-- The reward is enough for the payees. With Bitcoin Gold it is zero, as the multiplier is
there. -/
def RewardSuffices (blockrewardMultiplier : ℚ) : CoinbaseJob → Prop
  | bitcoinGold coinbaseValue => coinbaseValue * blockrewardMultiplier = 0
  | job => job.amounts.sum ≤ job.coinbaseValue * blockrewardMultiplier

/-- For every template whose payees get no negative amount and together at most the coinbase
value, and every multiplier with which the reward is a whole number of satoshis: the
outputs that have been created conserve the reward exactly if it is enough. -/
theorem createOutputTransaction_conserves_iff (job : CoinbaseJob) {multiplier : ℚ} {reward : Int}
    {transaction : OutputTransaction Destination}
    (integral : job.coinbaseValue * multiplier = reward)
    (nonneg : ∀ amount ∈ job.amounts, 0 ≤ amount) (together : job.amounts.sum ≤ job.coinbaseValue)
    (allowed : job.AllowsMultiplier multiplier)
    (created : job.createOutputTransaction destinations multiplier = .ok transaction) :
    Conserves destinations transaction (job.coinbaseValue * multiplier) ↔
      job.RewardSuffices multiplier := by
  cases job with
  | bitcoin coinbaseValue =>
      simp only [RewardSuffices, integral, Int.cast_le]
      exact createBitcoinTransaction_conserves_iff destinations integral created
  | dash template =>
      simp only [RewardSuffices, integral, Int.cast_le]
      exact createDashTransaction_conserves_iff destinations nonneg integral created
  | straks template =>
      have isOne : multiplier = 1 := allowed
      simp only [RewardSuffices, isOne, mul_one, Int.cast_le]
      exact iff_of_true
        (StraksBlockTemplate.createStraksTransaction_conserves destinations nonneg together created)
        together
  | bitcoinGold coinbaseValue =>
      have nothing : (coinbaseValue : ℚ) * (bitcoinGoldInit multiplier).blockRewardMultiplier =
          (0 : Int) := mul_zero _
      have conservesNothing :=
        (createBitcoinTransaction_conserves_iff destinations nothing created).mpr le_rfl
      simp only [RewardSuffices, CoinbaseJob.coinbaseValue]
      constructor
      · intro conserves
        exact (conserves.total.symm.trans conservesNothing.total).trans Int.cast_zero
      · intro isZero
        rw [isZero, ← Int.cast_zero]
        exact conservesNothing

theorem createOutputTransaction_conserves_dash :
    let destinations : Destinations (Option Text) := {
      pool := none
      addressToDestination := fun address => .ok address
      treasuryAddressToScriptDestination := fun address => .ok (some address) }
    let job : CoinbaseJob := .dash {
      coinbaseValue := 500000000
      payee := some (text "XpJVDMs6cc5PmkPS4Vcdut9nkCNoyH8mAL")
      payeeAmount := none
      masternode := some ⟨some (text "XmoSxLtbCVv5GPvoBvoxLT2eE6LZUuYYh9"), 200000000⟩
      superBlocks := some [] }
    let transaction : OutputTransaction (Option Text) := {
      outputs := [⟨240000000, none⟩,
        ⟨200000000, some (text "XmoSxLtbCVv5GPvoBvoxLT2eE6LZUuYYh9")⟩,
        ⟨60000000, some (text "XpJVDMs6cc5PmkPS4Vcdut9nkCNoyH8mAL")⟩]
      rewardToPool := 240000000 }
    job.createOutputTransaction destinations 1 = .ok transaction ∧
      Conserves destinations transaction (500000000 * 1) := by
  intro destinations job transaction
  have created : job.createOutputTransaction destinations 1 = .ok transaction := by
    decide +kernel
  have enough : (job.amounts.sum : ℚ) ≤ job.coinbaseValue * 1 := by decide +kernel
  exact ⟨created, (job.createOutputTransaction_conserves_iff destinations (mul_one _) (by decide)
    (by decide) trivial created).mpr enough⟩

theorem createOutputTransaction_bitcoinGold :
    let destinations : Destinations (Option Text) := {
      pool := none
      addressToDestination := fun address => .ok address
      treasuryAddressToScriptDestination := fun address => .ok (some address) }
    let transaction : OutputTransaction (Option Text) := {
      outputs := [⟨0, none⟩], rewardToPool := 0 }
    (bitcoinGold 1250000000).createOutputTransaction destinations 1 = .ok transaction ∧
      ¬ Conserves destinations transaction (1250000000 * 1) := by
  intro destinations transaction
  refine ⟨by decide +kernel, ?_⟩
  intro conserves
  have total := conserves.total
  exact absurd total (by decide +kernel)

end CoinbaseJob

end Miningcore.CoinbaseOutputs

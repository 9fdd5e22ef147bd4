import Miningcore.Blockchain.CoinbaseOutputs
import Miningcore.Foundation.FloatingPoint
import Miningcore.Foundation.Rounding

/-! `ZCashJob.CreateOutputTransaction`: the reward of a block is split between the pool and the
founders or, on some chains from some height on, a treasury. -/

namespace Miningcore.ZCash

open CoinbaseOutputs

/-- The fields of `ZCashChainConfig` that the outputs depend on. The addresses are arrays, whose
length is an `int`; only the treasury's may be null. The change interval is a `double` and the
percentages are decimals; both are taken as exact numbers. -/
structure RewardConfig where
  payFoundersReward : Bool
  percentFoundersReward : ℚ
  foundersRewardAddresses : List Text
  foundersRewardSubsidySlowStartInterval : UInt64
  foundersRewardSubsidyHalvingInterval : UInt64
  percentTreasuryReward : ℚ := 0
  treasuryRewardStartBlockHeight : UInt64 := 0
  treasuryRewardAddresses : Option (List Text) := none
  treasuryRewardAddressChangeInterval : ℚ := 0
  addresses_length : foundersRewardAddresses.length < 2 ^ 31 := by decide

/-- `ZCashBlockSubsidy`. -/
structure Subsidy where
  miner : ℚ
  founders : Option ℚ
  community : Option ℚ

namespace RewardConfig

variable (config : RewardConfig)

def foundersRewardSubsidySlowStartShift : UInt64 :=
  config.foundersRewardSubsidySlowStartInterval / 2

def lastFoundersRewardBlockHeight : UInt64 :=
  config.foundersRewardSubsidyHalvingInterval + config.foundersRewardSubsidySlowStartShift - 1

/-- The first half of `GetFoundersRewardAddress`. -/
def foundersIndex (height : UInt32) : Except Exception UInt64 := do
  let maxHeight := config.lastFoundersRewardBlockHeight
  let count := UInt64.ofNat config.foundersRewardAddresses.length
  throwIf (count = 0) .divideByZero
  let addressChangeInterval := (maxHeight + count) / count
  throwIf (addressChangeInterval = 0) .divideByZero
  return height.toUInt64 / addressChangeInterval

def getFoundersRewardAddress (height : UInt32) : Except Exception Text := do
  let index ← config.foundersIndex height
  match config.foundersRewardAddresses[index.toNat]? with
  | some address => return address
  | none => throw .indexOutOfRange

/-- `%` of two `double`s. -/
def remainder (dividend divisor : ℚ) : ℚ :=
  let quotient := dividend / divisor
  dividend - divisor * quotient.num.tdiv quotient.den

/-- The first half of `GetTreasuryRewardAddress`. A divisor that is zero makes the remainder
`NaN`, which as an `int` is negative. -/
def treasuryIndex (addresses : List Text) (height : UInt32) : Except Exception Nat := do
  let interval := config.treasuryRewardAddressChangeInterval
  let blocks := height.toUInt64 - config.treasuryRewardStartBlockHeight
  throwIf (interval = 0 ∨ addresses.length = 0) .indexOutOfRange
  let index := ⌊remainder ((blocks.toNat : ℚ) / interval) addresses.length⌋
  throwIf (index < 0) .indexOutOfRange
  return index.toNat

def getTreasuryRewardAddress (height : UInt32) : Except Exception Text :=
  match config.treasuryRewardAddresses with
  | none => throw .nullReference
  | some addresses => do
      let index ← config.treasuryIndex addresses height
      match addresses[index]? with
      | some address => return address
      | none => throw .indexOutOfRange

def paysReward (height : UInt32) : Bool :=
  config.payFoundersReward &&
    (config.lastFoundersRewardBlockHeight ≥ height.toUInt64 ||
      config.treasuryRewardStartBlockHeight > 0)

def hasTreasury (height : UInt32) : Bool :=
  config.treasuryRewardStartBlockHeight > 0 &&
    height.toUInt64 ≥ config.treasuryRewardStartBlockHeight

/-- The reward in satoshi that `Init` takes from the template. -/
def initBlockReward (subsidy : Subsidy) : Except Exception ℚ :=
  if config.payFoundersReward then
    match subsidy.founders <|> subsidy.community with
    | none => throw (.exception "Error, founders reward missing for block template")
    | some founders => return (subsidy.miner + founders) * 10 ^ 8
  else return subsidy.miner * 10 ^ 8

/-- Where the outputs go: the pool's address, and how the other addresses are read. -/
structure Destinations (Destination : Type) where
  pool : Destination
  foundersAddressToScriptDestination : Text → Except Exception Destination

variable {Destination : Type} (destinations : Destinations Destination)

def splitReward (percent : ℚ) (address : Except Exception Text) (blockReward rewardFees : ℚ) :
    Except Exception (OutputTransaction Destination) := do
  let rewardToPool ← money (roundHalfEven (blockReward * (1 - percent / 100)) + rewardFees)
  let destination ← destinations.foundersAddressToScriptDestination (← address)
  let amount ← money (roundHalfEven (blockReward * (percent / 100)))
  return { outputs := [⟨rewardToPool, destinations.pool⟩, ⟨amount, destination⟩], rewardToPool }

def createOutputTransaction (height : UInt32) (blockReward rewardFees : ℚ) :
    Except Exception (OutputTransaction Destination) :=
  if config.paysReward height then
    if config.hasTreasury height then
      splitReward destinations config.percentTreasuryReward
        (config.getTreasuryRewardAddress height) blockReward rewardFees
    else
      splitReward destinations config.percentFoundersReward
        (config.getFoundersRewardAddress height) blockReward rewardFees
  else do
    let rewardToPool ← money (blockReward + rewardFees)
    return { outputs := [⟨rewardToPool, destinations.pool⟩], rewardToPool }

/-! ## The split of a reward -/

def configuredPercentages : List ℚ := [20, 17 / 2, 12]

theorem even_of_fract_eq_half {percent : ℚ} (configured : percent ∈ configuredPercentages)
    {blockReward : ℤ} (half : Int.fract (blockReward * (percent / 100)) = 1 / 2) :
    blockReward % 2 = 0 := by
  have split := Int.floor_add_fract (blockReward * (percent / 100) : ℚ)
  rw [half] at split
  generalize ⌊(blockReward * (percent / 100) : ℚ)⌋ = down at split
  simp only [configuredPercentages, List.mem_cons, List.not_mem_nil, or_false] at configured
  rcases configured with rfl | rfl | rfl
  · have whole : 10 * down + 5 = 2 * blockReward := by
      have scaled : (10 * down + 5 : ℚ) = 2 * blockReward := by linarith
      exact_mod_cast scaled
    omega
  · have whole : 200 * down + 100 = 17 * blockReward := by
      have scaled : (200 * down + 100 : ℚ) = 17 * blockReward := by linarith
      exact_mod_cast scaled
    omega
  · have whole : 50 * down + 25 = 6 * blockReward := by
      have scaled : (50 * down + 25 : ℚ) = 6 * blockReward := by linarith
      exact_mod_cast scaled
    omega

theorem roundHalfEven_parts {percent : ℚ} (configured : percent ∈ configuredPercentages)
    (blockReward : ℤ) :
    roundHalfEven (blockReward * (1 - percent / 100)) +
      roundHalfEven (blockReward * (percent / 100)) = blockReward := by
  have rest : (blockReward * (1 - percent / 100) : ℚ) =
      blockReward - blockReward * (percent / 100) := by ring
  rw [rest]
  exact roundHalfEven_sub_add (even_of_fract_eq_half configured)

theorem percent_bounds {percent : ℚ} (configured : percent ∈ configuredPercentages) :
    0 ≤ percent / 100 ∧ 0 ≤ 1 - percent / 100 := by
  simp only [configuredPercentages, List.mem_cons, List.not_mem_nil, or_false] at configured
  rcases configured with rfl | rfl | rfl <;> norm_num

theorem parts_nonneg {percent : ℚ} (configured : percent ∈ configuredPercentages)
    {blockReward : ℤ} (nonneg : 0 ≤ blockReward) :
    0 ≤ roundHalfEven (blockReward * (1 - percent / 100)) ∧
      0 ≤ roundHalfEven (blockReward * (percent / 100)) := by
  have reward : (0 : ℚ) ≤ blockReward := by exact_mod_cast nonneg
  have bounds := percent_bounds configured
  exact ⟨roundHalfEven_nonneg (mul_nonneg reward bounds.2),
    roundHalfEven_nonneg (mul_nonneg reward bounds.1)⟩

/-- The outputs have a total and none is negative; the first of them is the pool's. -/
structure Conserves (transaction : OutputTransaction Destination) (total : ℤ) : Prop where
  nonneg : ∀ output ∈ transaction.outputs, 0 ≤ output.value
  total : (transaction.outputs.map TxOut.value).sum = total
  pool : transaction.outputs.head? = some ⟨transaction.rewardToPool, destinations.pool⟩

section Split

variable {config destinations} {percent : ℚ} {address : Except Exception Text}
  {blockReward rewardFees : ℤ} {transaction : OutputTransaction Destination}

theorem splitReward_conserves (configured : percent ∈ configuredPercentages)
    (reward : 0 ≤ blockReward) (fees : 0 ≤ rewardFees)
    (created : splitReward destinations percent address blockReward rewardFees =
      .ok transaction) :
    Conserves destinations transaction (blockReward + rewardFees) := by
  have parts := roundHalfEven_parts configured blockReward
  have nonneg := parts_nonneg configured reward
  simp only [splitReward, bind_eq_ok, pure_eq_ok, ← Int.cast_add] at created
  rcases created with ⟨rewardToPool, isReward, _, _, destination, _, amount, isAmount, rfl⟩
  have pool := money_ok isReward
  have other := money_ok isAmount
  refine ⟨?_, ?_, rfl⟩
  · intro output member
    simp only [List.mem_cons, List.not_mem_nil, or_false] at member
    rcases member with rfl | rfl
    · simp only
      omega
    · simp only
      omega
  · simp only [List.map_cons, List.map_nil, List.sum_cons, List.sum_nil]
    omega

theorem money_of_isLong {amount : ℤ} (isLong : 0 ≤ amount ∧ amount < 2 ^ 63) :
    money amount = .ok amount := by
  have inRange : CoinbaseOutputs.isLong amount = true := by
    simp only [CoinbaseOutputs.isLong, Bool.and_eq_true, decide_eq_true_eq]
    omega
  rw [money, Rat.num_intCast, Rat.den_intCast, Nat.cast_one, Int.tdiv_one, checked,
    if_pos inRange]

theorem splitReward_returns (configured : percent ∈ configuredPercentages)
    (reward : 0 ≤ blockReward) (fees : 0 ≤ rewardFees)
    (fits : blockReward + rewardFees < 2 ^ 63) {found : Text} {destination : Destination}
    (isAddress : address = .ok found)
    (isDestination : destinations.foundersAddressToScriptDestination found = .ok destination) :
    ∃ transaction, splitReward destinations percent address blockReward rewardFees =
      .ok transaction := by
  have parts := roundHalfEven_parts configured blockReward
  have nonneg := parts_nonneg configured reward
  have pool : money (roundHalfEven (blockReward * (1 - percent / 100)) + rewardFees : ℤ) = .ok _ :=
    money_of_isLong (by omega)
  have other : money (roundHalfEven (blockReward * (percent / 100)) : ℤ) = .ok _ :=
    money_of_isLong (by omega)
  simp only [splitReward, bind_eq_ok, pure_eq_ok, ← Int.cast_add]
  exact ⟨_, _, pool, found, isAddress, destination, isDestination, _, other, rfl⟩

theorem splitReward_length
    (created : splitReward destinations percent address blockReward rewardFees =
      .ok transaction) : transaction.outputs.length = 2 := by
  simp only [splitReward, bind_eq_ok, pure_eq_ok] at created
  rcases created with ⟨_, _, _, _, _, _, _, _, rfl⟩
  rfl

def rewardPercent (config : RewardConfig) (height : UInt32) : ℚ :=
  if config.hasTreasury height then config.percentTreasuryReward
  else config.percentFoundersReward

def rewardAddress (config : RewardConfig) (height : UInt32) : Except Exception Text :=
  if config.hasTreasury height then config.getTreasuryRewardAddress height
  else config.getFoundersRewardAddress height

theorem createOutputTransaction_of_pays {height : UInt32} (pays : config.paysReward height = true)
    (blockReward rewardFees : ℚ) :
    config.createOutputTransaction destinations height blockReward rewardFees =
      splitReward destinations (config.rewardPercent height) (config.rewardAddress height)
        blockReward rewardFees := by
  rw [createOutputTransaction, if_pos pays, rewardPercent, rewardAddress]
  split_ifs <;> rfl

theorem createOutputTransaction_of_not_pays {height : UInt32}
    (keeps : ¬config.paysReward height = true) :
    config.createOutputTransaction destinations height blockReward rewardFees =
      (money (blockReward + rewardFees : ℤ) >>= fun rewardToPool =>
        pure { outputs := [⟨rewardToPool, destinations.pool⟩], rewardToPool }) := by
  rw [createOutputTransaction, if_neg keeps, Int.cast_add]

theorem wholeReward_conserves (reward : 0 ≤ blockReward) (fees : 0 ≤ rewardFees)
    (created : (money (blockReward + rewardFees : ℤ) >>= fun rewardToPool =>
      pure { outputs := [⟨rewardToPool, destinations.pool⟩], rewardToPool }) = .ok transaction) :
    Conserves destinations transaction (blockReward + rewardFees) ∧
      transaction.outputs.length = 1 := by
  simp only [bind_eq_ok, pure_eq_ok] at created
  rcases created with ⟨rewardToPool, isReward, rfl⟩
  have pool := money_ok isReward
  refine ⟨⟨?_, ?_, rfl⟩, rfl⟩
  · intro output member
    rw [List.mem_singleton.mp member]
    simp only
    omega
  · simp only [List.map_cons, List.map_nil, List.sum_cons, List.sum_nil]
    omega

structure IsSupported (config : RewardConfig) : Prop where
  founders : config.payFoundersReward = true →
    config.percentFoundersReward ∈ configuredPercentages
  treasury : 0 < config.treasuryRewardStartBlockHeight →
    config.percentTreasuryReward ∈ configuredPercentages

theorem rewardPercent_configured {height : UInt32} (supported : config.IsSupported)
    (pays : config.paysReward height = true) :
    config.rewardPercent height ∈ configuredPercentages := by
  rw [rewardPercent]
  split_ifs with isTreasury
  · rw [hasTreasury, Bool.and_eq_true, decide_eq_true_eq] at isTreasury
    exact supported.treasury isTreasury.1
  · rw [paysReward, Bool.and_eq_true] at pays
    exact supported.founders pays.1

theorem outputs_conserve {height : UInt32} (supported : config.IsSupported)
    (reward : 0 ≤ blockReward) (fees : 0 ≤ rewardFees)
    (created : config.createOutputTransaction destinations height blockReward rewardFees =
      .ok transaction) :
    Conserves destinations transaction (blockReward + rewardFees) ∧
      transaction.outputs.length = if config.paysReward height then 2 else 1 := by
  split_ifs with pays
  · have configured := rewardPercent_configured supported pays
    rw [createOutputTransaction_of_pays pays] at created
    exact ⟨splitReward_conserves configured reward fees created, splitReward_length created⟩
  · rw [createOutputTransaction_of_not_pays pays] at created
    exact wholeReward_conserves reward fees created

/-- For every whole reward and fees in satoshi and the percentages of the supported chains, the
outputs add up to reward and fees and none is negative; and they are built if the total fits into
`Money` and the address is found. -/
theorem createOutputTransaction_conserves_total (config : RewardConfig)
    (destinations : Destinations Destination) (height : UInt32) (supported : config.IsSupported)
    (blockReward rewardFees : ℤ) (reward : 0 ≤ blockReward) (fees : 0 ≤ rewardFees) :
    (∀ transaction : OutputTransaction Destination,
      config.createOutputTransaction destinations height blockReward rewardFees =
          .ok transaction →
        Conserves destinations transaction (blockReward + rewardFees) ∧
          transaction.outputs.length = if config.paysReward height then 2 else 1) ∧
      (blockReward + rewardFees < 2 ^ 63 →
        (config.paysReward height = true → ∃ address destination,
          config.rewardAddress height = .ok address ∧
            destinations.foundersAddressToScriptDestination address = .ok destination) →
        ∃ transaction, config.createOutputTransaction destinations height blockReward rewardFees =
          .ok transaction) := by
  constructor
  · intro transaction created
    exact outputs_conserve supported reward fees created
  · intro fits found
    by_cases pays : config.paysReward height = true
    · have configured := rewardPercent_configured supported pays
      rcases found pays with ⟨address, destination, isAddress, isDestination⟩
      rw [createOutputTransaction_of_pays pays]
      exact splitReward_returns configured reward fees fits isAddress isDestination
    · rw [createOutputTransaction_of_not_pays pays, money_of_isLong ⟨by omega, fits⟩]
      exact ⟨_, rfl⟩

theorem init_conserves {height : UInt32} {subsidy : Subsidy} {miner founders : ℤ}
    (supported : config.IsSupported) (pays : config.payFoundersReward = true)
    (isMiner : subsidy.miner * 10 ^ 8 = miner)
    (isFounders : (subsidy.founders <|> subsidy.community).map (· * 10 ^ 8) = some (founders : ℚ))
    (reward : 0 ≤ miner + founders) (fees : 0 ≤ rewardFees)
    (created : (do
      let blockReward ← config.initBlockReward subsidy
      config.createOutputTransaction destinations height blockReward rewardFees) =
        .ok transaction) :
    Conserves destinations transaction (miner + founders + rewardFees) := by
  rcases Option.map_eq_some_iff.mp isFounders with ⟨value, isValue, isWhole⟩
  have whole : (subsidy.miner + value) * 10 ^ 8 = (miner + founders : ℤ) := by
    rw [add_mul, isMiner, isWhole, Int.cast_add]
  simp only [bind_eq_ok, initBlockReward, pays, if_true, isValue, pure_eq_ok] at created
  rcases created with ⟨_, rfl, created⟩
  rw [whole] at created
  exact (outputs_conserve supported reward fees created).1

end Split

/-! ## The addresses -/

/-- Whether the outputs depend on `GetFoundersRewardAddress`. -/
def consultsFounders (height : UInt32) : Bool :=
  config.paysReward height && !config.hasTreasury height

/-- Whether they depend on `GetTreasuryRewardAddress`. -/
def consultsTreasury (height : UInt32) : Bool :=
  config.paysReward height && config.hasTreasury height

def UsesAddress (index : UInt64) (height : UInt32) : Prop :=
  config.consultsFounders height = true ∧ config.foundersIndex height = .ok index

/-- Every index that is computed is one of an address, and as the height grows the addresses of
the founders are used one after another. -/
structure LookupsInRange : Prop where
  founders : ∀ height, config.consultsFounders height = true →
    ∃ index, config.foundersIndex height = .ok index ∧
      index.toNat < config.foundersRewardAddresses.length
  treasury : ∀ height, config.consultsTreasury height = true →
    ∃ addresses index, config.treasuryRewardAddresses = some addresses ∧
      config.treasuryIndex addresses height = .ok index ∧ index < addresses.length
  contiguous : ∀ index first between last, first ≤ between → between ≤ last →
    config.UsesAddress index first → config.UsesAddress index last →
      config.UsesAddress index between
  ordered : ∀ firstIndex lastIndex first last, first ≤ last →
    config.UsesAddress firstIndex first → config.UsesAddress lastIndex last →
      firstIndex ≤ lastIndex

def foundersInterval : Nat :=
  (config.lastFoundersRewardBlockHeight.toNat + config.foundersRewardAddresses.length) /
    config.foundersRewardAddresses.length

def foundersSpan : Nat := config.foundersRewardAddresses.length * config.foundersInterval

section Lookups

variable {config} {height : UInt32}

theorem consultsFounders_iff (pays : config.payFoundersReward = true) :
    config.consultsFounders height = true ↔
      (config.treasuryRewardStartBlockHeight.toNat = 0 ∧
        height.toNat ≤ config.lastFoundersRewardBlockHeight.toNat) ∨
          height.toNat < config.treasuryRewardStartBlockHeight.toNat := by
  simp only [consultsFounders, paysReward, hasTreasury, pays, Bool.true_and, Bool.and_eq_true,
    Bool.or_eq_true, decide_eq_true_eq, Bool.not_eq_true', Bool.and_eq_false_iff,
    decide_eq_false_iff_not, ge_iff_le, gt_iff_lt, UInt64.le_iff_toNat_le,
    UInt64.lt_iff_toNat_lt, UInt32.toNat_toUInt64, UInt64.toNat_zero]
  omega

theorem count_toNat :
    (UInt64.ofNat config.foundersRewardAddresses.length).toNat =
      config.foundersRewardAddresses.length := by
  have length := config.addresses_length
  rw [UInt64.toNat_ofNat']
  omega

theorem interval_toNat (some : config.foundersRewardAddresses ≠ []) :
    ((config.lastFoundersRewardBlockHeight +
        UInt64.ofNat config.foundersRewardAddresses.length) /
      UInt64.ofNat config.foundersRewardAddresses.length).toNat =
      if config.lastFoundersRewardBlockHeight.toNat + config.foundersRewardAddresses.length < 2 ^ 64
      then config.foundersInterval else 0 := by
  have positive := List.length_pos_iff.mpr some
  have last := config.lastFoundersRewardBlockHeight.toNat_lt
  rw [UInt64.toNat_div, UInt64.toNat_add, count_toNat, foundersInterval]
  split_ifs with fits
  · rw [Nat.mod_eq_of_lt fits]
  · apply Nat.div_eq_of_lt
    omega

theorem foundersInterval_pos (some : config.foundersRewardAddresses ≠ []) :
    0 < config.foundersInterval := by
  have positive := List.length_pos_iff.mpr some
  exact Nat.div_pos (by omega) positive

theorem foundersIndex_iff (some : config.foundersRewardAddresses ≠ []) (index : UInt64) :
    config.foundersIndex height = .ok index ↔
      config.lastFoundersRewardBlockHeight.toNat + config.foundersRewardAddresses.length < 2 ^ 64 ∧
        index.toNat = height.toNat / config.foundersInterval := by
  have positive := List.length_pos_iff.mpr some
  have interval := interval_toNat some
  simp only [foundersIndex, bind_eq_ok, throwIf_eq_ok, pure_eq_ok, ← UInt64.toNat_inj,
    UInt64.toNat_div height.toUInt64, UInt32.toNat_toUInt64, UInt64.toNat_zero, count_toNat,
    interval]
  have nonzero := foundersInterval_pos some
  split_ifs with fits
  · simp only [fits, true_and]
    constructor
    · rintro ⟨_, _, _, _, same⟩
      exact same.symm
    · intro same
      exact ⟨(), by omega, (), by omega, same.symm⟩
  · constructor
    · rintro ⟨_, _, _, zero, _⟩
      exact absurd rfl zero
    · rintro ⟨less, _⟩
      exact absurd less fits

theorem last_lt_foundersSpan (some : config.foundersRewardAddresses ≠ []) :
    config.lastFoundersRewardBlockHeight.toNat < config.foundersSpan := by
  have positive := List.length_pos_iff.mpr some
  have division := Nat.div_add_mod (config.lastFoundersRewardBlockHeight.toNat +
    config.foundersRewardAddresses.length) config.foundersRewardAddresses.length
  have rest := Nat.mod_lt (config.lastFoundersRewardBlockHeight.toNat +
    config.foundersRewardAddresses.length) positive
  rw [foundersSpan, foundersInterval]
  omega

theorem div_lt_iff_lt_span (some : config.foundersRewardAddresses ≠ []) :
    height.toNat / config.foundersInterval < config.foundersRewardAddresses.length ↔
      height.toNat < config.foundersSpan := by
  rw [Nat.div_lt_iff_lt_mul (foundersInterval_pos some), foundersSpan]

theorem remainder_bounds {dividend : ℚ} (nonneg : 0 ≤ dividend) {divisor : ℕ}
    (positive : 0 < divisor) :
    0 ≤ remainder dividend divisor ∧ remainder dividend divisor < divisor := by
  have divides : (0 : ℚ) < divisor := by exact_mod_cast positive
  have quotient : 0 ≤ dividend / divisor := div_nonneg nonneg divides.le
  have truncated := FloatingPoint.num_tdiv_den quotient
  have lower := Int.floor_le (dividend / divisor)
  have upper := Int.lt_floor_add_one (dividend / divisor)
  rw [le_div_iff₀ divides] at lower
  rw [div_lt_iff₀ divides] at upper
  simp only [remainder, truncated]
  constructor <;> linarith

theorem treasuryIndex_lt {addresses : List Text} (some : addresses ≠ [])
    (positive : 0 < config.treasuryRewardAddressChangeInterval) :
    ∃ index, config.treasuryIndex addresses height = .ok index ∧ index < addresses.length := by
  have count := List.length_pos_iff.mpr some
  have blocks := Nat.cast_nonneg (α := ℚ)
    (height.toUInt64 - config.treasuryRewardStartBlockHeight).toNat
  have bounds := remainder_bounds (div_nonneg blocks positive.le) count
  have lower := Int.floor_nonneg.mpr bounds.1
  have upper := Int.floor_lt.mpr (by exact_mod_cast bounds.2)
  simp only [treasuryIndex, bind_eq_ok, throwIf_eq_ok, pure_eq_ok]
  refine ⟨_, ⟨(), ?_, (), lower.not_gt, rfl⟩, (Int.toNat_lt lower).mpr upper⟩
  simp only [positive.ne', false_or]
  omega

theorem foundersIndex_mono (founders : config.foundersRewardAddresses ≠ [])
    {first last : UInt32} {firstIndex lastIndex : UInt64} (le : first ≤ last)
    (isFirst : config.foundersIndex first = .ok firstIndex)
    (isLast : config.foundersIndex last = .ok lastIndex) : firstIndex ≤ lastIndex := by
  rw [foundersIndex_iff founders] at isFirst isLast
  rw [UInt64.le_iff_toNat_le, isFirst.2, isLast.2]
  exact Nat.div_le_div_right (UInt32.le_iff_toNat_le.mp le)

theorem usesAddress_between (pays : config.payFoundersReward = true)
    (founders : config.foundersRewardAddresses ≠ []) {first between last : UInt32}
    {index : UInt64} (after : first ≤ between) (before : between ≤ last)
    (isFirst : config.UsesAddress index first) (isLast : config.UsesAddress index last) :
    config.UsesAddress index between := by
  rw [UInt32.le_iff_toNat_le] at after before
  rcases isFirst with ⟨_, firstIndex⟩
  rcases isLast with ⟨consults, lastIndex⟩
  rw [consultsFounders_iff pays] at consults
  rw [foundersIndex_iff founders] at firstIndex lastIndex
  refine ⟨(consultsFounders_iff pays).mpr (by omega), ?_⟩
  rw [foundersIndex_iff founders]
  refine ⟨firstIndex.1, le_antisymm ?_ ?_⟩
  · rw [firstIndex.2]
    exact Nat.div_le_div_right after
  · rw [lastIndex.2]
    exact Nat.div_le_div_right before

theorem foundersIndex_lt (pays : config.payFoundersReward = true)
    (founders : config.foundersRewardAddresses ≠ [])
    (fits : config.lastFoundersRewardBlockHeight.toNat +
      config.foundersRewardAddresses.length < 2 ^ 64)
    (reaches : config.treasuryRewardStartBlockHeight.toNat ≤ config.foundersSpan ∨
      2 ^ 32 ≤ config.foundersSpan)
    (consults : config.consultsFounders height = true) :
    ∃ index, config.foundersIndex height = .ok index ∧
      index.toNat < config.foundersRewardAddresses.length := by
  have isHeight := height.toNat_lt
  have last := last_lt_foundersSpan founders
  have inSpan : height.toNat < config.foundersSpan := by
    rcases (consultsFounders_iff pays).mp consults with ⟨_, _⟩ | _ <;> omega
  have less := (div_lt_iff_lt_span founders).mpr inSpan
  have length := config.addresses_length
  have index : (UInt64.ofNat (height.toNat / config.foundersInterval)).toNat =
      height.toNat / config.foundersInterval := by
    rw [UInt64.toNat_ofNat']
    exact Nat.mod_eq_of_lt (less.trans (length.trans (by norm_num)))
  exact ⟨_, (foundersIndex_iff founders _).mpr ⟨fits, index⟩, by rw [index]; exact less⟩

theorem start_pos_of_hasTreasury (consults : config.consultsTreasury height = true) :
    0 < config.treasuryRewardStartBlockHeight := by
  simp only [consultsTreasury, hasTreasury, Bool.and_eq_true, decide_eq_true_eq] at consults
  exact consults.2.1

end Lookups

end RewardConfig

/-! ## The networks of Horizen -/

/-- `BitcoinNetworkType.Main` of `ZencashCoinbaseTxConfig`. -/
def zencashMain : RewardConfig where
  payFoundersReward := true
  percentFoundersReward := 17 / 2
  foundersRewardSubsidyHalvingInterval := 840000
  foundersRewardSubsidySlowStartInterval := 2
  foundersRewardAddresses := [
    text "zssEdGnZCQ9G86LZFtbynMn1hYTVhn6eYCL", text "zsrCsXXmUf8k59NLasEKfxA7us3iNvaPATz",
    text "zsnLPsWMXW2s4w9EmFSwtSLRxL2LhPcfdby", text "zshdovbcPfUAfkPeEE2qLbKnoue9RsbVokU",
    text "zsqmq97JAKCCBFRGvxgv6FiJgQLCZBDp62S", text "zskyFVFA7VRYX8EGdXmYN75WaBB25FmiL3g",
    text "zsmncLmwEUdVmAGPUrUnNKmPGXyej7mbmdM", text "zsfa9VVJCEdjfPbku4XrFcRR8kTDm2T64rz",
    text "zsjdMnfWuFi46VeN2HSXVQWEGsnGHgVxayY", text "zseb8wRQ8rZ722oLX5B8rx7qwZiBRb9mdig",
    text "zsjxkovhqiMVggoW7jvSRi3NTSD3a6b6qfd", text "zsokCCSU3wvZrS2G6mEDpJ5cH49E7sDyNr1",
    text "zt12EsFgkABHLMRXA7JNnpMqLrxsgCLnVEV", text "zt39mvuG9gDTHX8A8Qk45rbk3dSdQoJ8ZAv",
    text "zssTQZs5YxDGijKC86dvcDxzWogWcK7n5AK", text "zsywuMoQK7Bved2nrXs56AEtWBhpb88rMzS",
    text "zsxVS2w7h1fHFX2nQtGm4372pd4DSHzq9ee", text "zsupGi7ro3uC8CEVwm9r7vrdVUZaXQnHF6T",
    text "zshVZvW47dA5AB3Sqk1h7ytwWJeUJUJxxaE", text "zsubBCjvDx252MKFsL4Dcf5rJU9Z9Upqr1N",
    text "zsweaST3NcU4hfgkVULfCsfEq41pjgMDgcW", text "zswz6Rxb1S33fUpftETZwtGiVSeYxNKq2xc",
    text "zswnpHtiBbrvYDzbhPQshkgvLSfYhDMRJ4S", text "zsjSYAWaEYj35Ht7aXrRJUGY6Dc8qCmgYqu",
    text "zsvMv8fGroWR8epbSiGDCJHmfe6ec2uFQrt", text "zsujxCT56BExQDAwKwktBjtnopYnw8BiKbg",
    text "zsxeXc2FTAzmUmeZmqVsKVdwTMSvzyns4rT", text "zsuLqgABNudD8bVPbVGeUjGqapuoXp68i7F",
    text "zsoc39J1dCFK1U8kckZznvQkv8As7sajYLz", text "zt21NFdu1KRPJ7VRKtrWugM2Jqe5ePNmU4T",
    text "zsp15qbVcbx9ifcjKe6XZEJTvzsFUZ2BHLT", text "zso2KvqH6yxLQEYggHdmfL3Tcd5V6E9tqhp",
    text "zsnFG2W5ZHRYh3QucNze4mp31tBkemtfxdj", text "zsex2CGJtxHyHbpLXm7kESBmp3vWRqUkJMy",
    text "zsvtFv96nrgrXKUbtNe2BpCt8aQEp5oJ7F8", text "zsk5KitThmhK9KBa1KDybPgEmGSFTHzhMVA",
    text "zsuy4n48c4NsJyaCZEzwdAKULM1FqbB6Y4z", text "zsgtQVMpX2zNMLvHHG2NDwfqKoaebvVectJ",
    text "zszQqXRSPGdqsWw4iaMTNN6aJz4JjEzSdCF", text "zst6dBLrTtaMQBX7BLMNjKLTGcP11PBmgTV",
    text "zshD9r6Eb6dZGdzYW2HCb9CzkMokCT1NGJR", text "zswUaj1TboEGmvSfF7fdoxWyH3RMx7MBHHo",
    text "zsv8s4Poi5GxCsbBrRJ97Vsvazp84nrz5AN", text "zsmmxrKU6dqWFwUKow1iyovg3gxrgXpEivr",
    text "zskh1221aRC9WEfb5a59WxffeW34McmZZsw", text "zssAhuj57NnVm4yNFT6o8muRctABkUaBu3L",
    text "zsi5Yr4Z8HwBvdBqQE8gk7ahExDu95J4oqZ", text "zsy6ryEaxfk8emJ8bGVB7tmwRwBL8cfSqBW"]
  percentTreasuryReward := 12
  treasuryRewardAddressChangeInterval := 50000
  treasuryRewardStartBlockHeight := 139200
  treasuryRewardAddresses := some [
    text "zsyF68hcYYNLPj5i4PfQJ1kUY6nsFnZkc82", text "zsfULrmbX7xbhqhAFRffVqCw9RyGv2hqNNG",
    text "zsoemTfqjicem2QVU8cgBHquKb1o9JR5p4Z", text "zt339oiGL6tTgc9Q71f5g1sFTZf6QiXrRUr"]

/-- `BitcoinNetworkType.RegTest` of `ZencashCoinbaseTxConfig`. -/
def zencashRegTest : RewardConfig where
  payFoundersReward := true
  percentFoundersReward := 17 / 2
  foundersRewardSubsidyHalvingInterval := 2000
  foundersRewardSubsidySlowStartInterval := 0
  foundersRewardAddresses := [text "zrKmSdqZKZjnARd5e8FfRg4v1m74X7twxGa"]
  percentTreasuryReward := 12
  treasuryRewardAddressChangeInterval := 100
  treasuryRewardStartBlockHeight := 139200
  treasuryRewardAddresses := some [text "zrKmSdqZKZjnARd5e8FfRg4v1m74X7twxGa"]

def addressDestinations : RewardConfig.Destinations Text where
  pool := text "t2UNzUUx8mWBCRYPRezvA363EYXyEpHokyi"
  foundersAddressToScriptDestination := .ok

theorem createOutputTransaction_conserves_half :
    zencashRegTest.createOutputTransaction addressDestinations 100 1700 3 =
        .ok ⟨[⟨1559, text "t2UNzUUx8mWBCRYPRezvA363EYXyEpHokyi"⟩,
          ⟨144, text "zrKmSdqZKZjnARd5e8FfRg4v1m74X7twxGa"⟩], 1559⟩ ∧
      RewardConfig.Conserves addressDestinations
        ⟨[⟨1559, text "t2UNzUUx8mWBCRYPRezvA363EYXyEpHokyi"⟩,
          ⟨144, text "zrKmSdqZKZjnARd5e8FfRg4v1m74X7twxGa"⟩], 1559⟩ 1703 := by
  have created : zencashRegTest.createOutputTransaction addressDestinations 100
      (1700 : ℤ) (3 : ℤ) = .ok ⟨[⟨1559, text "t2UNzUUx8mWBCRYPRezvA363EYXyEpHokyi"⟩,
        ⟨144, text "zrKmSdqZKZjnARd5e8FfRg4v1m74X7twxGa"⟩], 1559⟩ := by decide +kernel
  have supported : zencashRegTest.IsSupported := ⟨by decide +kernel, by decide +kernel⟩
  have conserves := RewardConfig.createOutputTransaction_conserves_total zencashRegTest
    addressDestinations 100 supported 1700 3 (by decide) (by decide)
  exact ⟨created, (conserves.1 _ created).1⟩

end Miningcore.ZCash

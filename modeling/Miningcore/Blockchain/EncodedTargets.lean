import Miningcore.Foundation.FloatingPoint
import Miningcore.Blockchain.Monero.Job
import Miningcore.Blockchain.ZCash.Job
import Mathlib.Tactic.NormNum.Pow

/-! `EncodeTarget` of Monero and of the coins with Equihash: the target that a miner is told, and
the test that its shares are put to. -/

namespace Miningcore.EncodedTargets

open FloatingPoint LittleEndian StringExtensions
open Monero (truncate toByteArray)

/-! ## The test -/

def MeetsDifficulty (diff1 hash : Nat) (difficulty : ℚ) : Prop :=
  ∀ shareDiff, shareDifficulty diff1 hash = .ok shareDiff →
    missesDifficulty shareDiff difficulty = false

theorem meetsDifficulty_iff {diff1 hash : Nat} {difficulty : ℚ} (positive : 0 < difficulty) :
    MeetsDifficulty diff1 hash difficulty ↔ 99 * difficulty * hash ≤ 100 * diff1 := by
  rw [MeetsDifficulty, shareDifficulty]
  split_ifs with zero
  · simp [zero]
  · have hashPos : (0 : ℚ) < hash := by exact_mod_cast Nat.pos_of_ne_zero zero
    have nonzero : (difficulty != 0) = true := bne_iff_ne.mpr positive.ne'
    simp only [Except.ok.injEq, forall_eq', missesDifficulty, nonzero, Bool.true_and,
      decide_eq_false_iff_not, not_lt]
    rw [div_div, div_le_div_iff₀ (by norm_num) (mul_pos hashPos positive)]
    constructor <;> intro le <;> linarith

/-! ## The bytes -/

theorem truncate_eq_floor {value : ℚ} (nonneg : 0 ≤ value) (fits : value < 2 ^ 63) :
    truncate value = ⌊value⌋ := by
  have lower : 0 ≤ ⌊value⌋ := Int.floor_nonneg.mpr nonneg
  have upper : ⌊value⌋ < 2 ^ 63 := Int.floor_lt.mpr (by exact_mod_cast fits)
  simp only [truncate, num_tdiv_den nonneg]
  rw [if_pos (by omega)]

theorem truncate_of_large {value : ℚ} (large : 2 ^ 63 ≤ value) : truncate value = -2 ^ 63 := by
  have nonneg : 0 ≤ value := le_trans (by norm_num) large
  have lower : 2 ^ 63 ≤ ⌊value⌋ := Int.le_floor.mpr (by exact_mod_cast large)
  simp only [truncate, num_tdiv_den nonneg]
  rw [if_neg (by omega)]

theorem bitLength_le_iff (value bits : Nat) :
    (if value = 0 then 0 else value.log2 + 1) ≤ bits ↔ value < 2 ^ bits := by
  split_ifs with zero
  · simp [zero]
  · rw [Nat.succ_le_iff, Nat.log2_lt zero]

theorem toByteArray_natCast (value : Nat) :
    ∃ length, toByteArray value = BigEndian.encode length value ∧ value < 256 ^ length ∧
      ∀ width, length ≤ width + 1 ↔ value < 2 ^ (8 * width + 7) := by
  let bitLength := if value = 0 then 0 else value.log2 + 1
  have isBitLength : ∀ bits, bitLength ≤ bits ↔ value < 2 ^ bits := bitLength_le_iff value
  have fits : value < 256 ^ (bitLength / 8 + 1) := by
    rw [show (256 : Nat) = 2 ^ 8 from rfl, ← pow_mul, ← isBitLength]
    omega
  refine ⟨bitLength / 8 + 1, ?_, fits, ?_⟩
  · have reduced : ((value : Int) % 256 ^ (bitLength / 8 + 1)).toNat = value := by
      have cast : (value : Int) % 256 ^ (bitLength / 8 + 1) =
          (value % 256 ^ (bitLength / 8 + 1) : Nat) := by push_cast; rfl
      rw [cast, Int.toNat_natCast, Nat.mod_eq_of_lt fits]
    simp only [toByteArray, Int.natCast_nonneg, if_true, Int.toNat_natCast]
    exact congrArg (BigEndian.encode (bitLength / 8 + 1)) reduced
  · intro width
    rw [← isBitLength]
    omega

theorem padded_encode {length value : Nat} (fits : value < 256 ^ length) (le : length ≤ 32) :
    List.replicate (32 - length) 0 ++ BigEndian.encode length value =
      BigEndian.encode 32 value := by
  rw [BigEndian.replicate_append_encode fits, Nat.add_sub_cancel' le]

/-! ## The scaled quotient -/

section Quotient

variable {difficulty : ℚ} {diff1 : Nat}

/-- `(long) (difficulty * 255d)` where it fits. -/
def scaled (difficulty : ℚ) : Nat := ⌊difficulty * 255⌋₊

def quotient (diff1 : Nat) (difficulty : ℚ) : Nat := diff1 / scaled difficulty * 255

theorem scaled_le (positive : 0 < difficulty) : (scaled difficulty : ℚ) ≤ difficulty * 255 :=
  Nat.floor_le (by linarith)

theorem lt_scaled_add_one (difficulty : ℚ) : difficulty * 255 < scaled difficulty + 1 :=
  Nat.lt_floor_add_one (difficulty * 255)

theorem truncate_scaled (positive : 0 < difficulty) (fits : difficulty * 255 < 2 ^ 63) :
    truncate (difficulty * 255) = scaled difficulty := by
  have nonneg : 0 ≤ difficulty * 255 := by linarith
  rw [truncate_eq_floor nonneg fits, scaled, Int.natCast_floor_eq_floor nonneg]

theorem truncate_ne_zero (positive : 0 < difficulty) (fits : difficulty * 255 < 2 ^ 63)
    (nonzero : scaled difficulty ≠ 0) : ¬truncate (difficulty * 255) = 0 := by
  rw [truncate_scaled positive fits]
  exact_mod_cast nonzero

theorem tdiv_scaled (positive : 0 < difficulty) (fits : difficulty * 255 < 2 ^ 63) :
    (diff1 : Int).tdiv (truncate (difficulty * 255)) * 255 = (quotient diff1 difficulty : Nat) := by
  rw [truncate_scaled positive fits, quotient, ← Int.ofNat_tdiv]
  push_cast
  rfl

theorem scaled_mul_quotient_le (diff1 : Nat) (difficulty : ℚ) :
    (scaled difficulty * quotient diff1 difficulty : ℚ) ≤ 255 * diff1 := by
  have division := Nat.mul_div_le diff1 (scaled difficulty)
  have whole : scaled difficulty * quotient diff1 difficulty ≤ 255 * diff1 := by
    rw [quotient, ← mul_assoc, mul_comm 255]
    exact Nat.mul_le_mul_right 255 division
  exact_mod_cast whole

theorem meetsDifficulty_of_le (positive : 0 < difficulty) {hash : Nat}
    (accurate : 99 * (difficulty * 255) ≤ 100 * scaled difficulty)
    (le : hash ≤ quotient diff1 difficulty) : MeetsDifficulty diff1 hash difficulty := by
  rw [meetsDifficulty_iff positive]
  have hashNonneg : (0 : ℚ) ≤ hash := Nat.cast_nonneg hash
  have scaledNonneg : (0 : ℚ) ≤ scaled difficulty := Nat.cast_nonneg _
  have hashLe : (hash : ℚ) ≤ quotient diff1 difficulty := by exact_mod_cast le
  have product : (scaled difficulty * hash : ℚ) ≤ 255 * diff1 :=
    (mul_le_mul_of_nonneg_left hashLe scaledNonneg).trans (scaled_mul_quotient_le diff1 difficulty)
  have lost := mul_le_mul_of_nonneg_right accurate hashNonneg
  linarith

theorem accurate_of_le_scaled (large : 99 ≤ scaled difficulty) :
    99 * (difficulty * 255) ≤ 100 * scaled difficulty := by
  have less := lt_scaled_add_one difficulty
  have bound : (99 : ℚ) ≤ scaled difficulty := by exact_mod_cast large
  linarith

end Quotient

end Miningcore.EncodedTargets

namespace Miningcore.Monero

open EncodedTargets LittleEndian StringExtensions

/-! ## Monero -/

variable {difficulty : ℚ}

def encodedTarget (difficulty : ℚ) : Nat :=
  if quotient diff1 difficulty < 2 ^ 247 then quotient diff1 difficulty / 2 ^ 224 else 0

theorem encodeTarget_eq (positive : 0 < difficulty) (fits : difficulty * 255 < 2 ^ 63)
    (nonzero : scaled difficulty ≠ 0) :
    Job.encodeTarget difficulty = .ok (toHexString (encode 4 (encodedTarget difficulty))) := by
  rcases toByteArray_natCast (quotient diff1 difficulty) with ⟨length, bytes, inBytes, isLength⟩
  have isShort := isLength 30
  have notZero := truncate_ne_zero positive fits nonzero
  have padded : (if 32 - (length : Int) > 0 then List.replicate (32 - length) 0 ++
      BigEndian.encode length (quotient diff1 difficulty) else List.replicate 32 0).take 4 =
        BigEndian.encode 4 (encodedTarget difficulty) := by
    rw [encodedTarget]
    split_ifs with short less less
    · rw [padded_encode inBytes (by omega)]
      exact BigEndian.take_encode 4 28 (quotient diff1 difficulty)
    · omega
    · omega
    · rfl
  simp only [Job.encodeTarget, throwIf, if_neg notZero, tdiv_scaled positive fits, bytes,
    BigEndian.encode_length, padded]
  rw [BigEndian.encode, List.reverse_reverse]
  rfl

theorem scaled_bounds (least : 1 ≤ difficulty) (most : difficulty ≤ 2 ^ 31) :
    difficulty * 255 < 2 ^ 63 ∧ 255 ≤ scaled difficulty ∧ scaled difficulty ≤ 255 * 2 ^ 31 := by
  refine ⟨by linarith, Nat.le_floor (by push_cast; linarith), ?_⟩
  have upper : (scaled difficulty : ℚ) ≤ (255 * 2 ^ 31 : Nat) := by
    have le := scaled_le (zero_lt_one.trans_le least)
    push_cast
    linarith
  exact_mod_cast upper

theorem quotient_lt_iff (least : 1 ≤ difficulty) :
    quotient diff1 difficulty < 2 ^ 247 ↔ 512 ≤ difficulty := by
  have large : 512 ≤ difficulty ↔ 130560 ≤ scaled difficulty := by
    rw [scaled, Nat.le_floor_iff (by linarith)]
    constructor <;> intro le <;> push_cast at * <;> linarith
  rw [large, quotient]
  constructor
  · intro less
    by_contra small
    have monotone : diff1 / 130559 ≤ diff1 / scaled difficulty := by
      apply Nat.div_le_div_left (by omega)
      exact Nat.floor_pos.mpr (by linarith)
    have concrete : 2 ^ 247 ≤ diff1 / 130559 * 255 := by decide
    exact (concrete.trans (Nat.mul_le_mul_right 255 monotone)).not_gt less
  · intro le
    have monotone : diff1 / scaled difficulty ≤ diff1 / 130560 := Nat.div_le_div_left le (by decide)
    have concrete : diff1 / 130560 * 255 < 2 ^ 247 := by decide
    exact (Nat.mul_le_mul_right 255 monotone).trans_lt concrete

theorem le_quotient (least : 1 ≤ difficulty) (most : difficulty ≤ 2 ^ 31) :
    2 ^ 224 ≤ quotient diff1 difficulty := by
  have bounds := scaled_bounds least most
  have monotone : diff1 / (255 * 2 ^ 31) ≤ diff1 / scaled difficulty :=
    Nat.div_le_div_left bounds.2.2 (by omega)
  have concrete : 2 ^ 224 ≤ diff1 / (255 * 2 ^ 31) * 255 := by decide
  exact concrete.trans (Nat.mul_le_mul_right 255 monotone)

theorem quotient_antitone {higher : ℚ} (least : 1 ≤ difficulty) (le : difficulty ≤ higher) :
    quotient diff1 higher ≤ quotient diff1 difficulty := by
  have scaledLe : scaled difficulty ≤ scaled higher := Nat.floor_mono (by linarith)
  have positive : 0 < scaled difficulty := Nat.floor_pos.mpr (by linarith)
  exact Nat.mul_le_mul_right 255 (Nat.div_le_div_left scaledLe positive)

/-- A target of 32 bits that is not zero is sent, every hash whose upper 32 bits are below it
passes, and no higher difficulty has a higher target. -/
def TargetAgrees (difficulty : ℚ) : Prop :=
  ∃ target < 2 ^ 32, Job.encodeTarget difficulty = .ok (toHexString (encode 4 target)) ∧
    target ≠ 0 ∧
    (∀ hash < 2 ^ 256, hash / 2 ^ 224 < target → MeetsDifficulty diff1 hash difficulty) ∧
    ∀ higher, difficulty ≤ higher → higher ≤ 2 ^ 31 →
      ∃ lower ≤ target, Job.encodeTarget higher = .ok (toHexString (encode 4 lower))

theorem encodeTarget_of_bounds (least : 1 ≤ difficulty) (most : difficulty ≤ 2 ^ 31) :
    Job.encodeTarget difficulty = .ok (toHexString (encode 4 (encodedTarget difficulty))) := by
  have bounds := scaled_bounds least most
  exact encodeTarget_eq (by linarith) bounds.1 (by omega)

theorem encodedTarget_of_le (large : 512 ≤ difficulty) :
    encodedTarget difficulty = quotient diff1 difficulty / 2 ^ 224 := by
  rw [encodedTarget, if_pos ((quotient_lt_iff (by linarith)).mpr large)]

theorem encodedTarget_of_lt (least : 1 ≤ difficulty) (small : difficulty < 512) :
    encodedTarget difficulty = 0 := by
  rw [encodedTarget, if_neg]
  rw [quotient_lt_iff least]
  exact small.not_ge

/-- For every difficulty between 1 and 2³¹ the target agrees with the test exactly from 512 on.
Below, the miner is told a target of zero. -/
theorem targetAgrees_iff (difficulty : ℚ) (least : 1 ≤ difficulty) (most : difficulty ≤ 2 ^ 31) :
    TargetAgrees difficulty ↔ 512 ≤ difficulty := by
  have positive : 0 < difficulty := by linarith
  have bounds := scaled_bounds least most
  have encoded := encodeTarget_of_bounds least most
  constructor
  · rintro ⟨target, fits, isTarget, nonzero, _⟩
    by_contra small
    rw [encoded, encodedTarget_of_lt least (not_le.mp small)] at isTarget
    have same := toHexString_injective (Except.ok.inj isTarget)
    exact nonzero (encode_injective 4 0 target (by decide) fits same).symm
  · intro large
    have isTarget := encodedTarget_of_le large
    have less := (quotient_lt_iff least).mpr large
    refine ⟨encodedTarget difficulty, ?_, encoded, ?_, ?_, ?_⟩
    · rw [isTarget]
      exact Nat.div_lt_of_lt_mul (less.trans (by decide))
    · rw [isTarget]
      exact (Nat.div_pos (le_quotient least most) (by decide)).ne'
    · intro hash _ below
      rw [isTarget] at below
      have hashLe : hash ≤ quotient diff1 difficulty :=
        (lt_of_not_ge fun le => below.not_ge (Nat.div_le_div_right le)).le
      exact meetsDifficulty_of_le positive (accurate_of_le_scaled (by omega)) hashLe
    · intro higher le upper
      refine ⟨encodedTarget higher, ?_, encodeTarget_of_bounds (by linarith) upper⟩
      rw [isTarget, encodedTarget_of_le (large.trans le)]
      exact Nat.div_le_div_right (quotient_antitone least le)

theorem targetAgrees_5000 : TargetAgrees 5000 :=
  (targetAgrees_iff 5000 (by norm_num) (by norm_num)).mpr (by norm_num)

theorem encodeTarget_511 :
    Job.encodeTarget 511 = .ok (text "00000000") ∧ ¬TargetAgrees 511 := by
  have encoded : Job.encodeTarget 511 = .ok (toHexString (encode 4 0)) := by decide +kernel
  refine ⟨encoded, ?_⟩
  rintro ⟨target, fits, isTarget, nonzero, _⟩
  rw [encoded] at isTarget
  have same := toHexString_injective (Except.ok.inj isTarget)
  exact nonzero (encode_injective 4 0 target (by decide) fits same).symm

end Miningcore.Monero

namespace Miningcore.ZCash

open EncodedTargets FloatingPoint LittleEndian StringExtensions
open Monero (truncate toByteArray)

/-! ## Equihash -/

def encodeTarget (diff1 : Nat) (difficulty : ℚ) : Except Exception Text := do
  let diff := truncate (difficulty * 255)
  throwIf (diff = 0) .divideByZero
  let bytes := toByteArray ((diff1 : Int).tdiv diff * 255)
  let bytes := if 32 - (bytes.length : Int) > 0 then
    List.replicate (32 - bytes.length) 0 ++ bytes else bytes
  return toHexString (bytes.take 32)

/-- The two values of `Diff1` in `ZCashConstants`. That of BTCP has a digit more than 64. -/
def configuredDiff1 : List Nat :=
  [0x0007ffffffffffffffffffffffffffffffffffffffffffffffffffffffffffff,
    0x007ffffffffffffffffffffffffffffffffffffffffffffffffffffffffffffff]

def encodedTarget (diff1 : Nat) (difficulty : ℚ) : Nat :=
  if quotient diff1 difficulty < 2 ^ 255 then quotient diff1 difficulty
  else quotient diff1 difficulty / 256

def TargetAgrees (diff1 : Nat) (difficulty : ℚ) : Prop :=
  ∃ target < 2 ^ 256,
    encodeTarget diff1 difficulty = .ok (toHexString (BigEndian.encode 32 target)) ∧
      ∀ hash ≤ target, MeetsDifficulty diff1 hash difficulty

section Encoding

variable {diff1 : Nat} {difficulty : ℚ}

theorem encodeTarget_eq (positive : 0 < difficulty) (fits : difficulty * 255 < 2 ^ 63)
    (nonzero : scaled difficulty ≠ 0) (small : quotient diff1 difficulty < 2 ^ 263) :
    encodeTarget diff1 difficulty =
      .ok (toHexString (BigEndian.encode 32 (encodedTarget diff1 difficulty))) := by
  rcases EncodedTargets.toByteArray_natCast (quotient diff1 difficulty) with
    ⟨length, bytes, inBytes, isLength⟩
  have isShort := isLength 31
  have isLong := isLength 32
  have notZero := truncate_ne_zero positive fits nonzero
  have padded : (if 32 - (length : Int) > 0 then List.replicate (32 - length) 0 ++
      BigEndian.encode length (quotient diff1 difficulty)
      else BigEndian.encode length (quotient diff1 difficulty)).take 32 =
        BigEndian.encode 32 (encodedTarget diff1 difficulty) := by
    rw [encodedTarget]
    split_ifs with short less less
    · rw [padded_encode inBytes (by omega)]
      exact List.take_of_length_le (BigEndian.encode_length 32 _).le
    · omega
    · rw [show length = 32 by omega]
      exact List.take_of_length_le (BigEndian.encode_length 32 _).le
    · rw [show length = 32 + 1 by omega]
      exact BigEndian.take_encode 32 1 (quotient diff1 difficulty)
  simp only [encodeTarget, throwIf, if_neg notZero, tdiv_scaled positive fits, bytes,
    BigEndian.encode_length, padded]
  rfl

theorem configured_cases (configured : diff1 ∈ configuredDiff1) :
    diff1 = 2 ^ 243 - 1 ∨ diff1 = 2 ^ 251 - 1 := by
  simpa [configuredDiff1] using configured

theorem quotient_lt (configured : diff1 ∈ configuredDiff1) (difficulty : ℚ) :
    quotient diff1 difficulty < 2 ^ 263 := by
  have le : diff1 / scaled difficulty ≤ diff1 := Nat.div_le_self diff1 _
  rw [quotient]
  rcases configured_cases configured with rfl | rfl <;> omega

theorem quotient_lt_iff (configured : diff1 ∈ configuredDiff1) (nonzero : scaled difficulty ≠ 0) :
    quotient diff1 difficulty < 2 ^ 255 ↔ ¬(2 ^ 243 ≤ diff1 ∧ scaled difficulty < 16) := by
  rw [quotient]
  rcases configured_cases configured with rfl | rfl
  · have le : (2 ^ 243 - 1) / scaled difficulty ≤ 2 ^ 243 - 1 := Nat.div_le_self _ _
    omega
  · constructor
    · rintro less ⟨_, small⟩
      have monotone : (2 ^ 251 - 1) / 15 ≤ (2 ^ 251 - 1) / scaled difficulty :=
        Nat.div_le_div_left (by omega) (by omega)
      omega
    · intro large
      have monotone : (2 ^ 251 - 1) / scaled difficulty ≤ (2 ^ 251 - 1) / 16 :=
        Nat.div_le_div_left (by omega) (by omega)
      omega

theorem scaled_ne_zero_iff : scaled difficulty ≠ 0 ↔ 1 ≤ difficulty * 255 := by
  rw [← Nat.pos_iff_ne_zero, scaled, Nat.floor_pos]

/-- What a difficulty has to be for its target: the scaled difficulty is in the range of a `long`
and not zero, and truncation takes at most a hundredth off it. With the greater value of `Diff1`
the target of a difficulty below 16 / 255 is 256 times too small, so that all hashes pass. -/
def IsAccurate (diff1 : Nat) (difficulty : ℚ) : Prop :=
  1 ≤ difficulty * 255 ∧ difficulty * 255 < 2 ^ 63 ∧
    (99 * (difficulty * 255) ≤ 100 * ⌊difficulty * 255⌋₊ ∨
      2 ^ 243 ≤ diff1 ∧ difficulty * 255 < 16)

theorem meetsDifficulty_of_cut (positive : 0 < difficulty) (nonzero : scaled difficulty ≠ 0)
    {hash : Nat} (le : hash ≤ quotient diff1 difficulty / 256) :
    MeetsDifficulty diff1 hash difficulty := by
  rw [meetsDifficulty_iff positive]
  have hashNonneg : (0 : ℚ) ≤ hash := Nat.cast_nonneg hash
  have one : (1 : ℚ) ≤ scaled difficulty := by exact_mod_cast Nat.pos_of_ne_zero nonzero
  have cut : (256 * hash : ℚ) ≤ quotient diff1 difficulty := by
    have whole : 256 * hash ≤ quotient diff1 difficulty := by omega
    exact_mod_cast whole
  have product := (mul_le_mul_of_nonneg_left cut (zero_le_one.trans one)).trans
    (scaled_mul_quotient_le diff1 difficulty)
  have twice : difficulty * 255 ≤ 2 * scaled difficulty := by
    have less := lt_scaled_add_one difficulty
    linarith
  have scaledHash := mul_le_mul_of_nonneg_right twice hashNonneg
  linarith

theorem targetAgrees_of_isAccurate (configured : diff1 ∈ configuredDiff1)
    (positive : 0 < difficulty) (accurate : IsAccurate diff1 difficulty) :
    TargetAgrees diff1 difficulty := by
  rcases accurate with ⟨least, fits, hundredth⟩
  have nonzero := scaled_ne_zero_iff.mpr least
  have small := quotient_lt configured difficulty
  refine ⟨encodedTarget diff1 difficulty, ?_, encodeTarget_eq positive fits nonzero small, ?_⟩
  · rw [encodedTarget]
    split_ifs <;> omega
  · intro hash le
    rw [encodedTarget] at le
    split_ifs at le with short
    · rcases hundredth with lost | ⟨greater, less⟩
      · exact meetsDifficulty_of_le positive lost le
      · have below : scaled difficulty < 16 :=
          (Nat.floor_lt (by linarith)).mpr (by exact_mod_cast less)
        exact absurd ⟨greater, below⟩ ((quotient_lt_iff configured nonzero).mp short)
    · exact meetsDifficulty_of_cut positive nonzero le

theorem encodeTarget_of_large (configured : diff1 ∈ configuredDiff1)
    (large : 2 ^ 63 ≤ difficulty * 255) :
    ∃ target, encodeTarget diff1 difficulty = .ok (toHexString (BigEndian.encode 32 target)) ∧
      target < 2 ^ 256 ∧ 100 * 255 * diff1 < 99 * 2 ^ 63 * target := by
  rcases configured_cases configured with rfl | rfl
  · refine ⟨2 ^ 192 - 255 * (2 ^ 180 - 1), ?_, by norm_num, by norm_num⟩
    rw [encodeTarget, EncodedTargets.truncate_of_large large]
    decide
  · refine ⟨2 ^ 200 - 255 * (2 ^ 188 - 1), ?_, by norm_num, by norm_num⟩
    rw [encodeTarget, EncodedTargets.truncate_of_large large]
    decide

theorem target_unique {target other : Nat} (fits : target < 2 ^ 256) (otherFits : other < 2 ^ 256)
    (same : toHexString (BigEndian.encode 32 target) = toHexString (BigEndian.encode 32 other)) :
    target = other := by
  have reversed := List.reverse_injective (toHexString_injective same)
  exact encode_injective 32 target other (by omega) (by omega) reversed

theorem fits_of_targetAgrees (configured : diff1 ∈ configuredDiff1) (positive : 0 < difficulty)
    (agrees : TargetAgrees diff1 difficulty) : difficulty * 255 < 2 ^ 63 := by
  by_contra large
  rw [not_lt] at large
  rcases encodeTarget_of_large configured large with ⟨target, isTarget, fits, great⟩
  rcases agrees with ⟨other, otherFits, isOther, passes⟩
  rw [isTarget] at isOther
  obtain rfl := target_unique fits otherFits (Except.ok.inj isOther)
  have passed := (meetsDifficulty_iff positive).mp (passes target le_rfl)
  have greater : (100 * 255 * diff1 : ℚ) < 99 * 2 ^ 63 * target := by exact_mod_cast great
  have nonneg : (0 : ℚ) ≤ target := Nat.cast_nonneg target
  have product := mul_le_mul_of_nonneg_right large nonneg
  linarith

theorem least_of_targetAgrees (positive : 0 < difficulty) (fits : difficulty * 255 < 2 ^ 63)
    (agrees : TargetAgrees diff1 difficulty) : 1 ≤ difficulty * 255 := by
  by_contra small
  have zero : scaled difficulty = 0 := by
    by_contra nonzero
    exact small (scaled_ne_zero_iff.mp nonzero)
  rcases agrees with ⟨target, _, isTarget, _⟩
  rw [encodeTarget, truncate_scaled positive fits, zero] at isTarget
  cases isTarget

theorem exists_units_of_lost (isFloat : IsFloat 53 difficulty) (least : 1 ≤ difficulty * 255)
    (lost : 100 * scaled difficulty < 99 * (difficulty * 255)) :
    ∃ units : Nat, difficulty * 2 ^ 61 = units ∧
      1 + 100 * scaled difficulty * 2 ^ 61 ≤ 99 * 255 * units := by
  have notTiny : 1 / 2 ^ 8 ≤ difficulty := by
    norm_num
    linarith
  rcases isFloat.exists_units notTiny with ⟨units, isUnits⟩
  refine ⟨units, isUnits, ?_⟩
  have more : (100 * scaled difficulty * 2 ^ 61 : ℚ) < 99 * 255 * units := by
    rw [← isUnits]
    norm_num at lost ⊢
    linarith
  have whole : 100 * scaled difficulty * 2 ^ 61 < 99 * 255 * units := by exact_mod_cast more
  omega

theorem accurate_of_quotient (configured : diff1 ∈ configuredDiff1)
    (isFloat : IsFloat 53 difficulty) (least : 1 ≤ difficulty * 255)
    (passed : 99 * difficulty * quotient diff1 difficulty ≤ 100 * diff1) :
    99 * (difficulty * 255) ≤ 100 * scaled difficulty := by
  by_contra lost
  rw [not_le] at lost
  have few : scaled difficulty < 99 := by
    have less := lt_scaled_add_one difficulty
    have fewer : (scaled difficulty : ℚ) < 99 := by linarith
    exact_mod_cast fewer
  have nonzero := scaled_ne_zero_iff.mpr least
  rcases exists_units_of_lost isFloat least lost with ⟨units, isUnits, gap⟩
  let rest := diff1 / scaled difficulty
  have division : diff1 < scaled difficulty * (rest + 1) :=
    Nat.lt_mul_div_succ diff1 (Nat.pos_of_ne_zero nonzero)
  have bounded : 99 * 255 * units * rest ≤ 100 * diff1 * 2 ^ 61 := by
    have scaledUp : (99 * 255 * units * rest : ℚ) ≤ 100 * diff1 * 2 ^ 61 := by
      rw [← isUnits]
      simp only [quotient, Nat.cast_mul, Nat.cast_ofNat] at passed
      norm_num at passed ⊢
      linarith
    exact_mod_cast scaledUp
  -- The division loses less than one, and the rest is great; so the loss would have to be smaller.
  have great : 100 * 98 * 2 ^ 61 < rest := by
    have monotone : diff1 / 98 ≤ rest := Nat.div_le_div_left (by omega) (by omega)
    rcases configured_cases configured with rfl | rfl <;> omega
  have product := Nat.mul_le_mul_right rest gap
  have fewUnits : 100 * scaled difficulty * 2 ^ 61 ≤ 100 * 98 * 2 ^ 61 := by omega
  nlinarith

theorem isAccurate_of_targetAgrees (configured : diff1 ∈ configuredDiff1)
    (positive : 0 < difficulty) (isFloat : IsFloat 53 difficulty)
    (agrees : TargetAgrees diff1 difficulty) : IsAccurate diff1 difficulty := by
  have fits := fits_of_targetAgrees configured positive agrees
  have least := least_of_targetAgrees positive fits agrees
  have nonzero := scaled_ne_zero_iff.mpr least
  refine ⟨least, fits, ?_⟩
  by_cases short : quotient diff1 difficulty < 2 ^ 255
  · left
    rcases agrees with ⟨target, inBits, isTarget, passes⟩
    rw [encodeTarget_eq positive fits nonzero (quotient_lt configured difficulty), encodedTarget,
      if_pos short] at isTarget
    have same := target_unique (short.trans (by norm_num)) inBits (Except.ok.inj isTarget)
    have passed := (meetsDifficulty_iff positive).mp (passes _ same.le)
    exact accurate_of_quotient configured isFloat least passed
  · right
    rw [quotient_lt_iff configured nonzero, not_not] at short
    exact ⟨short.1, by exact_mod_cast (Nat.floor_lt (by linarith)).mp short.2⟩

end Encoding

/-- For every chain and every difficulty, the target agrees with the test if the scaled difficulty
is accurate; and a difficulty that is a float has to be, or a miner is told a target with hashes
that are refused. -/
theorem targetAgrees_iff_isAccurate (diff1 : Nat) (configured : diff1 ∈ configuredDiff1)
    (difficulty : ℚ) (positive : 0 < difficulty) :
    (IsAccurate diff1 difficulty → TargetAgrees diff1 difficulty) ∧
      (IsFloat 53 difficulty → TargetAgrees diff1 difficulty → IsAccurate diff1 difficulty) := by
  constructor
  · intro accurate
    exact targetAgrees_of_isAccurate configured positive accurate
  · intro isFloat agrees
    exact isAccurate_of_targetAgrees configured positive isFloat agrees

theorem targetAgrees_half :
    TargetAgrees 0x0007ffffffffffffffffffffffffffffffffffffffffffffffffffffffffffff (1 / 2) :=
  (targetAgrees_iff_isAccurate _ List.mem_cons_self (1 / 2) (by norm_num)).1
    ⟨by norm_num, by norm_num, Or.inl (by decide +kernel)⟩

/-- A difficulty of 7/1024 is truncated to 1/255: the greatest hash that the miner is told to
submit is refused. A difficulty of 1/1024 is truncated to zero. -/
theorem encodeTarget_refused :
    ¬TargetAgrees 0x0007ffffffffffffffffffffffffffffffffffffffffffffffffffffffffffff (7 / 1024) ∧
      encodeTarget 0x0007ffffffffffffffffffffffffffffffffffffffffffffffffffffffffffff (1 / 1024) =
        .error .divideByZero := by
  refine ⟨?_, by decide +kernel⟩
  rintro ⟨target, fits, isTarget, passes⟩
  have encoded : encodeTarget 0x0007ffffffffffffffffffffffffffffffffffffffffffffffffffffffffffff
      (7 / 1024) = .ok (toHexString (BigEndian.encode 32 (255 * (2 ^ 243 - 1)))) := by
    decide +kernel
  rw [encoded] at isTarget
  obtain rfl := target_unique (by norm_num) fits (Except.ok.inj isTarget)
  have passed := (meetsDifficulty_iff (by norm_num)).mp (passes _ le_rfl)
  norm_num at passed

end Miningcore.ZCash

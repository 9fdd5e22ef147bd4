import Mathlib.Data.Nat.Size
import Mathlib.Data.Rat.Floor
import Mathlib.Tactic.Linarith
import Mathlib.Tactic.NormNum
import Mathlib.Tactic.Positivity

/-! # Rounding

Halves are rounded to an even number. A number format has places for some results and rounds the
others: the decimals of ninety-six bits, and the doubles. -/

namespace Miningcore

def roundHalfEven (value : ℚ) : ℤ :=
  let down := ⌊value⌋
  if value - down < 1 / 2 then down
  else if 1 / 2 < value - down then down + 1
  else if down % 2 = 0 then down else down + 1

theorem roundHalfEven_nonneg {value : ℚ} (nonneg : 0 ≤ value) : 0 ≤ roundHalfEven value := by
  have down : 0 ≤ ⌊value⌋ := Int.floor_nonneg.mpr nonneg
  simp only [roundHalfEven]
  split_ifs <;> omega

theorem roundHalfEven_add {down : ℤ} {fraction : ℚ} (nonneg : 0 ≤ fraction) (less : fraction < 1) :
    roundHalfEven (down + fraction) =
      if fraction < 1 / 2 then down
      else if 1 / 2 < fraction then down + 1
      else if down % 2 = 0 then down else down + 1 := by
  have floor : ⌊down + fraction⌋ = down := by
    rw [Int.floor_intCast_add, Int.floor_eq_zero_iff.mpr ⟨nonneg, less⟩, add_zero]
  simp only [roundHalfEven, floor, add_sub_cancel_left]

theorem roundHalfEven_sub_add {part : ℚ} {total : ℤ}
    (tie : Int.fract part = 1 / 2 → total % 2 = 0) :
    roundHalfEven (total - part) + roundHalfEven part = total := by
  have nonneg := Int.fract_nonneg part
  have less := Int.fract_lt_one part
  have split : part = ⌊part⌋ + Int.fract part := (Int.floor_add_fract part).symm
  generalize ⌊part⌋ = down at split
  generalize Int.fract part = fraction at *
  subst split
  rw [roundHalfEven_add nonneg less]
  by_cases whole : fraction = 0
  · subst whole
    have rest : (total - (down + 0) : ℚ) = (total - down : ℤ) + 0 := by push_cast; ring
    rw [rest, roundHalfEven_add le_rfl one_pos, if_pos (by norm_num), if_pos (by norm_num)]
    omega
  · have rest : (total - (down + fraction) : ℚ) = (total - down - 1 : ℤ) + (1 - fraction) := by
      push_cast
      ring
    have positive : 0 < fraction := lt_of_le_of_ne nonneg (Ne.symm whole)
    rw [rest, roundHalfEven_add (by linarith) (by linarith)]
    rcases lt_trichotomy fraction (1 / 2) with below | half | above
    · rw [if_neg (by linarith), if_pos (by linarith), if_pos below]
      omega
    · have even := tie half
      have other : (1 : ℚ) - 1 / 2 = 1 / 2 := by norm_num
      simp only [half, other, lt_irrefl, if_false]
      split_ifs <;> omega
    · rw [if_pos (by linarith), if_neg (by linarith), if_pos above]
      omega

theorem roundHalfEven_intCast (units : ℤ) : roundHalfEven units = units := by
  have less : (0 : ℚ) < 1 / 2 := by norm_num
  simp only [roundHalfEven, Int.floor_intCast, sub_self, if_pos less]

/-! ## Number formats -/

/-- The results of operations are rounded to numbers of the format, and those out of its range are
none. -/
structure NumberFormat where
  round : ℚ → ℚ
  inRange : ℚ → Bool
  round_nonneg : ∀ value, 0 ≤ value → 0 ≤ round value

namespace NumberFormat

def exact : NumberFormat where
  round value := value
  inRange _ := true
  round_nonneg _ nonneg := nonneg

/-- Rounding to whole multiples of a unit. -/
def toMultiple (unit value : ℚ) : ℚ := roundHalfEven (value / unit) * unit

theorem toMultiple_nonneg {unit value : ℚ} (positive : 0 ≤ unit) (nonneg : 0 ≤ value) :
    0 ≤ toMultiple unit value := by
  have count := roundHalfEven_nonneg (div_nonneg nonneg positive)
  rw [toMultiple]
  positivity

/-- A coefficient of ninety-six bits, with at most twenty-eight places behind the point. -/
def coefficientFits (value : ℚ) (places : Nat) : Bool :=
  (roundHalfEven (value * 10 ^ places)).natAbs < 2 ^ 96

/-- As many places as there is room for. -/
def places (value : ℚ) : Nat :=
  ((List.range 29).reverse.find? (coefficientFits value)).getD 0

/-- The decimals of the runtime. -/
def decimal : NumberFormat where
  round value := toMultiple (1 / 10 ^ places value) value
  inRange value := coefficientFits value 0
  round_nonneg _ nonneg := toMultiple_nonneg (by positivity) nonneg

example : decimal.round (200 / 3) = 66.666666666666666666666666667 := by decide +kernel

example : decimal.inRange (2 ^ 96 - 1) = true ∧ decimal.inRange (2 ^ 96) = false := by
  decide +kernel

/-- The unit of the last of fifteen digits, which is no finer than that of decimals. -/
def fifteenthDigit (value : ℚ) : ℚ :=
  (((List.range 43).map fun digit => (10 : ℚ) ^ digit / 10 ^ 28).find? fun unit =>
    |value| < 10 ^ 15 * unit).getD 1

/-- The conversion of doubles to decimals keeps fifteen digits. -/
def doubleToDecimal : NumberFormat where
  round value := toMultiple (fifteenthDigit value) value
  inRange value := |value| < 2 ^ 96
  round_nonneg value nonneg := by
    apply toMultiple_nonneg _ nonneg
    rw [fifteenthDigit]
    cases found : ((List.range 43).map fun digit => (10 : ℚ) ^ digit / 10 ^ 28).find? fun unit =>
        |value| < 10 ^ 15 * unit with
    | none => exact zero_le_one
    | some unit =>
        rcases List.mem_map.mp (List.mem_of_find?_eq_some found) with ⟨digit, -, rfl⟩
        rw [Option.getD_some]
        positivity

example : doubleToDecimal.round (6004799503160661 / 2 ^ 53) = 0.666666666666667 := by
  decide +kernel

/-- The exponent that a significand of fifty-three bits comes with; there is a smallest one. -/
def lastBit (value : ℚ) : ℤ :=
  let bits : ℤ := value.num.natAbs.size - value.den.size
  max (-1074) (if |value| < 2 ^ bits.toNat / 2 ^ (-bits).toNat then bits - 53 else bits - 52)

def double : NumberFormat where
  round value := toMultiple (2 ^ (lastBit value).toNat / 2 ^ (-lastBit value).toNat) value
  inRange value :=
    |toMultiple (2 ^ (lastBit value).toNat / 2 ^ (-lastBit value).toNat) value| < 2 ^ 1024
  round_nonneg _ nonneg := toMultiple_nonneg (by positivity) nonneg

example : double.round (2 / 3) = 6004799503160661 / 2 ^ 53 := by decide +kernel

end NumberFormat

end Miningcore

import Mathlib.Data.Nat.Size
import Mathlib.Data.Rat.Floor
import Mathlib.Tactic.FieldSimp
import Mathlib.Tactic.Linarith

/-! # Floating-point numbers as rationals

A finite binary floating-point number is a rational of a certain form. What is computed with it is
computed exactly here; truncation to an integer loses something, and so does the conversion of a
whole number with more bits than a significand has. -/

namespace Miningcore.FloatingPoint

theorem num_tdiv_den {value : ℚ} (nonneg : 0 ≤ value) :
    value.num.tdiv value.den = ⌊value⌋ := by
  rw [Int.tdiv_eq_ediv_of_nonneg (Rat.num_nonneg.mpr nonneg), Rat.floor_def']

/-- A non-negative number with a significand of `precision` bits. -/
def IsFloat (precision : Nat) (value : ℚ) : Prop :=
  ∃ (significand : Nat) (exponent : Int), significand < 2 ^ precision ∧
    value = significand * 2 ^ exponent

theorem IsFloat.exists_units {precision : Nat} {value : ℚ} (isFloat : IsFloat precision value)
    {bits : Nat} (large : 1 / 2 ^ bits ≤ value) :
    ∃ units : Nat, value * 2 ^ (precision + bits) = units := by
  rcases isFloat with ⟨significand, exponent, fits, rfl⟩
  have bounded : -((precision + bits : Nat) : Int) ≤ exponent := by
    by_contra small
    push Not at small
    have power : (2 : ℚ) ^ exponent ≤ 2 ^ (-((precision + bits : Nat) : Int)) :=
      zpow_le_zpow_right₀ one_le_two small.le
    have less : (significand : ℚ) < 2 ^ precision := by exact_mod_cast fits
    have unit : (0 : ℚ) < 2 ^ (-((precision + bits : Nat) : Int)) := zpow_pos two_pos _
    have product : (2 : ℚ) ^ precision * 2 ^ (-((precision + bits : Nat) : Int)) =
        1 / 2 ^ bits := by
      rw [zpow_neg, zpow_natCast, pow_add]
      field_simp
    have upper : (significand : ℚ) * 2 ^ exponent < 1 / 2 ^ bits := by
      calc (significand : ℚ) * 2 ^ exponent
          ≤ significand * 2 ^ (-((precision + bits : Nat) : Int)) :=
            mul_le_mul_of_nonneg_left power (Nat.cast_nonneg _)
        _ < 2 ^ precision * 2 ^ (-((precision + bits : Nat) : Int)) :=
            mul_lt_mul_of_pos_right less unit
        _ = 1 / 2 ^ bits := product
    exact absurd large upper.not_ge
  obtain ⟨shift, isShift⟩ := Int.eq_ofNat_of_zero_le
    (by omega : 0 ≤ exponent + ((precision + bits : Nat) : Int))
  refine ⟨significand * 2 ^ shift, ?_⟩
  rw [mul_assoc, ← zpow_natCast, ← zpow_add₀ two_ne_zero, isShift]
  push_cast
  rw [zpow_natCast]

/-! ## Whole numbers -/

/-- Rounding a whole number to `precision` significant bits, halves to an even significand. -/
def roundNat (precision value : Nat) : Nat :=
  let unit := 2 ^ (value.size - precision)
  let significand := value / unit
  let remainder := value % unit
  if unit < 2 * remainder ∨ (2 * remainder = unit ∧ significand % 2 = 1) then
    (significand + 1) * unit
  else
    significand * unit

def roundInt (precision : Nat) (value : Int) : Int :=
  value.sign * roundNat precision value.natAbs

variable {precision value : Nat}

theorem significand_lt : value / 2 ^ (value.size - precision) < 2 ^ precision := by
  rw [Nat.div_lt_iff_lt_mul (Nat.two_pow_pos _), ← pow_add]
  calc value < 2 ^ value.size := Nat.lt_size_self value
    _ ≤ 2 ^ (precision + (value.size - precision)) :=
      Nat.pow_le_pow_right two_pos (by omega)

theorem IsFloat.two_pow_dvd (isFloat : IsFloat precision value) :
    2 ^ (value.size - precision) ∣ value := by
  rcases isFloat with ⟨significand, exponent, fits, isValue⟩
  rcases Nat.eq_zero_or_pos (value.size - precision) with small | large
  · rw [small]
    exact one_dvd _
  -- the value has more bits than the significand, so the exponent makes up for them
  have atLeast : 2 ^ (value.size - 1) ≤ value := by
    rw [← Nat.lt_size]
    omega
  have more : ((value.size - precision : Nat) : Int) ≤ exponent := by
    by_contra less
    push Not at less
    have below : (value : ℚ) < 2 ^ ((value.size - 1 : Nat) : Int) := by
      calc (value : ℚ) = significand * 2 ^ exponent := isValue
        _ < 2 ^ precision * 2 ^ exponent := by
          apply mul_lt_mul_of_pos_right _ (zpow_pos two_pos _)
          exact_mod_cast fits
        _ = 2 ^ ((precision : Int) + exponent) := by
          rw [zpow_add₀ two_ne_zero, zpow_natCast]
        _ ≤ 2 ^ ((value.size - 1 : Nat) : Int) :=
          zpow_le_zpow_right₀ one_le_two (by omega)
    rw [zpow_natCast] at below
    exact absurd atLeast (by exact_mod_cast below.not_ge)
  obtain ⟨shift, isShift⟩ := Int.eq_ofNat_of_zero_le (by omega : 0 ≤ exponent)
  rw [isShift, zpow_natCast] at isValue
  have whole : value = significand * 2 ^ shift := by exact_mod_cast isValue
  exact (pow_dvd_pow 2 (by omega)).trans (Dvd.intro_left significand whole.symm)

theorem roundNat_eq_iff : roundNat precision value = value ↔ IsFloat precision value := by
  have parts := Nat.div_add_mod' value (2 ^ (value.size - precision))
  have below := Nat.mod_lt value (Nat.two_pow_pos (value.size - precision))
  constructor
  · intro same
    refine ⟨value / 2 ^ (value.size - precision), (value.size - precision : Nat),
      significand_lt, ?_⟩
    simp only [roundNat] at same
    split_ifs at same with up
    · rw [Nat.add_one_mul] at same
      omega
    · rw [zpow_natCast]
      exact_mod_cast same.symm
  · intro isFloat
    have exact := Nat.mod_eq_zero_of_dvd isFloat.two_pow_dvd
    rw [exact, add_zero] at parts
    have unitPositive := Nat.two_pow_pos (value.size - precision)
    have down : ¬(2 ^ (value.size - precision) < 2 * 0 ∨ (2 * 0 = 2 ^ (value.size - precision) ∧
        value / 2 ^ (value.size - precision) % 2 = 1)) := by
      omega
    simp only [roundNat, exact]
    rw [if_neg down, parts]

theorem roundInt_natCast : roundInt precision value = roundNat precision value := by
  cases value with
  | zero => simp [roundInt, roundNat]
  | succ value =>
      rw [roundInt, Int.natAbs_natCast, Int.sign_eq_one_of_pos (by omega), one_mul]

theorem roundNat_le : roundNat precision value ≤ 2 ^ value.size := by
  have parts := Nat.div_add_mod' value (2 ^ (value.size - precision))
  have below := Nat.lt_size_self value
  rcases Nat.le_total value.size precision with small | large
  · have whole : value.size - precision = 0 := by omega
    simp only [roundNat, whole, pow_zero, Nat.mod_one, Nat.div_one]
    split_ifs <;> omega
  have unit : 2 ^ precision * 2 ^ (value.size - precision) = 2 ^ value.size := by
    rw [← pow_add, Nat.add_sub_cancel' large]
  have next := Nat.mul_le_mul_right (2 ^ (value.size - precision))
    (Nat.succ_le_of_lt (@significand_lt precision value))
  rw [unit] at next
  simp only [roundNat]
  split_ifs
  · exact next
  · exact (Nat.mul_le_mul_right _ (Nat.le_succ _)).trans next

theorem roundNat_pos (precisionPositive : 0 < precision) (positive : 0 < value) :
    0 < roundNat precision value := by
  have unitLe : 2 ^ (value.size - precision) ≤ value := by
    rw [← Nat.lt_size]
    have := Nat.size_pos.mpr positive
    omega
  have significandPositive := Nat.div_pos unitLe (Nat.two_pow_pos (value.size - precision))
  simp only [roundNat]
  split_ifs
  · exact Nat.mul_pos (Nat.succ_pos _) (Nat.two_pow_pos _)
  · exact Nat.mul_pos significandPositive (Nat.two_pow_pos _)

def toDouble (value : Int) : Int := roundInt 53 value

example : toDouble 72057576858062847 = 72057576858062848 := by decide

end Miningcore.FloatingPoint

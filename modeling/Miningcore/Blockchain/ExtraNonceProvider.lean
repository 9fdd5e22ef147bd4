import Miningcore.Extensions.StringExtensions
import Miningcore.Foundation.WrappingCounter
import Mathlib.Data.Nat.Log

/-! `ExtraNonceProviderBase`: the extra nonces that tell the connections of a pool apart. -/

namespace Miningcore.Blockchain

open StringExtensions (hexDigitUnit)

/-! ## Formatting -/

def hexDigits : Nat → Nat → Text
  | 0, _ => []
  | width + 1, value => hexDigits width (value / 16) ++ [hexDigitUnit (value % 16)]

/-- `ToString("x" + precision)` of a number that is not negative: there are more digits if the
number needs them. -/
def toStringHex (precision value : Nat) : Text :=
  hexDigits (max precision (Nat.log 16 value + 1)) value

@[simp] theorem hexDigits_length (width value : Nat) : (hexDigits width value).length = width := by
  induction width generalizing value with
  | zero => rfl
  | succ width induction => rw [hexDigits, List.length_append, induction, List.length_singleton]

theorem hexDigits_isHex (width value : Nat) : (hexDigits width value).isHex = true := by
  induction width generalizing value with
  | zero => rfl
  | succ width induction =>
      have digit := StringExtensions.getHexVal_hexDigitUnit (value % 16) (Nat.mod_lt _ (by decide))
      rw [hexDigits, Text.isHex_append, induction, Text.isHex_cons, digit.2]
      rfl

theorem hexDigits_isLower (width value : Nat) : (hexDigits width value).isLower = true := by
  have lower : ∀ digit < 16, (hexDigitUnit digit).asciiLower = hexDigitUnit digit := by decide
  rw [Text.isLower, beq_iff_eq]
  induction width generalizing value with
  | zero => rfl
  | succ width induction =>
      rw [hexDigits, Text.asciiLower_append, induction, Text.asciiLower_cons,
        lower _ (Nat.mod_lt _ (by decide))]
      rfl

theorem hexDigits_injective {width left right : Nat} (leftFits : left < 16 ^ width)
    (rightFits : right < 16 ^ width) (equal : hexDigits width left = hexDigits width right) :
    left = right := by
  have digits : ∀ left < 16, ∀ right < 16, hexDigitUnit left = hexDigitUnit right →
      left = right := by
    decide
  induction width generalizing left right with
  | zero => omega
  | succ width induction =>
      rw [pow_succ] at leftFits rightFits
      rw [hexDigits, hexDigits] at equal
      rcases List.append_inj' equal rfl with ⟨front, last⟩
      have quotients := induction (by omega) (by omega) front
      have remainders := digits _ (Nat.mod_lt _ (by decide)) _ (Nat.mod_lt _ (by decide))
        (List.singleton_inj.mp last)
      omega

theorem toStringHex_eq {precision value : Nat} (positive : 0 < precision)
    (fits : value < 16 ^ precision) : toStringHex precision value = hexDigits precision value := by
  have enough := Nat.log_lt_of_lt_pow' positive.ne' fits
  rw [toStringHex, max_eq_left enough]

/-! ## The provider -/

/-- `nonceMax`. A 64-bit number is shifted by the lower six bits of the distance. -/
def nonceMax (extranonceBytes : Nat) : Nat := 2 ^ (extranonceBytes * 8 % 64) - 1

/-- `ExtraNonceProviderBase`. -/
structure ExtraNonceProvider where
  extranonceBytes : Nat
  counter : Nat
  counter_le : counter ≤ nonceMax extranonceBytes

namespace ExtraNonceProvider

/-- The constructor, with the four bytes of the random number generator. The mask is `nonceMax`,
so that the absolute value changes nothing. -/
def create (extranonceBytes : Nat) (bytes : FixedBytes 4) : ExtraNonceProvider where
  extranonceBytes
  counter := LittleEndian.decode bytes.toList &&& nonceMax extranonceBytes
  counter_le := Nat.and_le_right

def next (provider : ExtraNonceProvider) : ExtraNonceProvider × Text :=
  let counter := WrappingCounter.next (nonceMax provider.extranonceBytes) provider.counter
  ({ provider with counter, counter_le := WrappingCounter.next_le provider.counter_le },
    toStringHex (provider.extranonceBytes * 2) counter)

def results (provider : ExtraNonceProvider) : Nat → List Text
  | 0 => []
  | count + 1 => provider.next.2 :: results provider.next.1 count

theorem results_eq (provider : ExtraNonceProvider) (count : Nat) :
    provider.results count =
      (WrappingCounter.values (nonceMax provider.extranonceBytes) provider.counter count).map
        (toStringHex (provider.extranonceBytes * 2)) := by
  induction count generalizing provider with
  | zero => rfl
  | succ count induction => exact congrArg (provider.next.2 :: ·) (induction provider.next.1)

theorem nonceMax_succ {extranonceBytes : Nat} (width : extranonceBytes ≤ 7) :
    nonceMax extranonceBytes + 1 = 2 ^ (8 * extranonceBytes) := by
  have distance : extranonceBytes * 8 % 64 = 8 * extranonceBytes := by omega
  rw [nonceMax, distance, Nat.sub_add_cancel Nat.one_le_two_pow]

theorem toStringHex_of_le {extranonceBytes value : Nat} (positive : 1 ≤ extranonceBytes)
    (bounded : extranonceBytes ≤ 7) (fits : value ≤ nonceMax extranonceBytes) :
    value < 16 ^ (extranonceBytes * 2) ∧
      toStringHex (extranonceBytes * 2) value = hexDigits (extranonceBytes * 2) value := by
  have whole : nonceMax extranonceBytes + 1 = 16 ^ (extranonceBytes * 2) := by
    rw [nonceMax_succ bounded, show 16 = 2 ^ 4 by decide, ← pow_mul]
    congr 1
    omega
  have small : value < 16 ^ (extranonceBytes * 2) := by omega
  exact ⟨small, toStringHex_eq (by omega) small⟩

/-- Every result has two digits for each byte, in lower case, and among as many results in a row
as there are numbers of that many bytes none comes twice. -/
theorem results_unique {extranonceBytes : Nat} (positive : 1 ≤ extranonceBytes)
    (bounded : extranonceBytes ≤ 7) (bytes : FixedBytes 4) (count : Nat) :
    (∀ result ∈ (create extranonceBytes bytes).results count,
      result.length = 2 * extranonceBytes ∧ result.isHex = true ∧ result.isLower = true) ∧
    ∀ row, row <:+: (create extranonceBytes bytes).results count →
      row.length ≤ 2 ^ (8 * extranonceBytes) → row.Nodup := by
  have fits := (create extranonceBytes bytes).counter_le
  rw [results_eq]
  constructor
  · intro result member
    rcases List.mem_map.mp member with ⟨value, isValue, rfl⟩
    have le := WrappingCounter.values_le fits count value isValue
    change (toStringHex (extranonceBytes * 2) value).length = _ ∧ _
    rw [(toStringHex_of_le positive bounded le).2, hexDigits_length]
    exact ⟨Nat.mul_comm _ _, hexDigits_isHex _ _, hexDigits_isLower _ _⟩
  · intro row isRow short
    rcases List.infix_map_iff.mp isRow with ⟨values, isValues, rfl⟩
    rw [List.length_map, ← nonceMax_succ bounded] at short
    apply List.Nodup.map_on _ (WrappingCounter.nodup_of_infix fits isValues short)
    intro left isLeft right isRight equal
    have leftText := toStringHex_of_le positive bounded
      (WrappingCounter.values_le fits count left (isValues.subset isLeft))
    have rightText := toStringHex_of_le positive bounded
      (WrappingCounter.values_le fits count right (isValues.subset isRight))
    exact hexDigits_injective leftText.1 rightText.1
      (leftText.2.symm.trans (equal.trans rightText.2))

theorem results_unique_one_byte :
    (create 1 ⟨[254, 1, 1, 1], rfl⟩).results 3 = [text "ff", text "00", text "01"] ∧
      ∀ row, row <:+: (create 1 ⟨[254, 1, 1, 1], rfl⟩).results 3 →
        row.length ≤ 2 ^ (8 * 1) → row.Nodup :=
  ⟨by decide, (results_unique (by decide) (by decide) ⟨[254, 1, 1, 1], rfl⟩ 3).2⟩

end ExtraNonceProvider

end Miningcore.Blockchain

import Mathlib.Data.List.Basic

/-! UTF-16 text and hexadecimal digits.

A .NET string is a sequence of 16-bit code units, lone surrogates included, and
its `Length` counts code units. The model keeps exactly that representation, so
that a statement about every string covers every input a connection can send. -/

namespace Miningcore

abbrev CodeUnit := UInt16

/-- A .NET `string`. -/
abbrev Text := List CodeUnit

def text (literal : String) : Text :=
  literal.toList.map fun character => character.toNat.toUInt16

example : text "0x" = [48, 120] := by decide

namespace CodeUnit

def isDecimalDigit (unit : CodeUnit) : Bool := 48 ≤ unit && unit ≤ 57

def isUpperHexLetter (unit : CodeUnit) : Bool := 65 ≤ unit && unit ≤ 70

def isLowerHexLetter (unit : CodeUnit) : Bool := 97 ≤ unit && unit ≤ 102

def isHexDigit (unit : CodeUnit) : Bool :=
  unit.isDecimalDigit || unit.isUpperHexLetter || unit.isLowerHexLetter

def hexDigitValue (unit : CodeUnit) : Nat :=
  if unit.isDecimalDigit then unit.toNat - 48
  else if unit.isUpperHexLetter then unit.toNat - 55
  else unit.toNat - 87

def asciiLower (unit : CodeUnit) : CodeUnit :=
  if 65 ≤ unit && unit ≤ 90 then unit + 32 else unit

def isWhiteSpace (unit : CodeUnit) : Bool :=
  (9 ≤ unit && unit ≤ 13) || unit == 0x20 || unit == 0x85 || unit == 0xa0 || unit == 0x1680 ||
    (0x2000 ≤ unit && unit ≤ 0x200a) || unit == 0x2028 || unit == 0x2029 || unit == 0x202f ||
    unit == 0x205f || unit == 0x3000

theorem isHexDigit_cases {unit : CodeUnit} (digit : unit.isHexDigit = true) :
    (unit.isDecimalDigit = true ∧ 48 ≤ unit.toNat ∧ unit.toNat ≤ 57) ∨
    (unit.isDecimalDigit = false ∧ unit.isUpperHexLetter = true ∧
      65 ≤ unit.toNat ∧ unit.toNat ≤ 70) ∨
    (unit.isDecimalDigit = false ∧ unit.isUpperHexLetter = false ∧
      97 ≤ unit.toNat ∧ unit.toNat ≤ 102) := by
  simp only [isHexDigit, isDecimalDigit, isUpperHexLetter, isLowerHexLetter,
    Bool.or_eq_true, Bool.and_eq_true, decide_eq_true_eq, Bool.and_eq_false_iff,
    decide_eq_false_iff_not, UInt16.le_iff_toNat_le, UInt16.reduceToNat] at digit ⊢
  omega

theorem hexDigitValue_lt {unit : CodeUnit} (digit : unit.isHexDigit = true) :
    unit.hexDigitValue < 16 := by
  rcases isHexDigit_cases digit with
    ⟨decimal, lower, upper⟩ | ⟨notDecimal, letter, lower, upper⟩ |
    ⟨notDecimal, notUpper, lower, upper⟩
  · simp only [hexDigitValue, decimal, if_true]
    omega
  · simp only [hexDigitValue, notDecimal, letter, if_true, Bool.false_eq_true, if_false]
    omega
  · simp only [hexDigitValue, notDecimal, notUpper, Bool.false_eq_true, if_false]
    omega

theorem asciiLower_toNat {unit : CodeUnit} (digit : unit.isHexDigit = true) :
    unit.asciiLower.toNat =
      if unit.hexDigitValue < 10 then unit.hexDigitValue + 48
      else unit.hexDigitValue + 87 := by
  have lowerCases : unit.asciiLower.toNat =
      if 65 ≤ unit.toNat ∧ unit.toNat ≤ 90 then unit.toNat + 32 else unit.toNat := by
    simp only [asciiLower, Bool.and_eq_true, decide_eq_true_eq,
      UInt16.le_iff_toNat_le, UInt16.reduceToNat]
    split
    · rename_i capital
      have value : (unit + 32).toNat = (unit.toNat + 32) % 2 ^ 16 := UInt16.toNat_add unit 32
      rw [value, Nat.mod_eq_of_lt (by omega)]
    · rfl
  rw [lowerCases]
  rcases isHexDigit_cases digit with
    ⟨decimal, lower, upper⟩ | ⟨notDecimal, letter, lower, upper⟩ |
    ⟨notDecimal, notUpper, lower, upper⟩
  · simp only [hexDigitValue, decimal, if_true]
    split <;> split <;> omega
  · simp only [hexDigitValue, notDecimal, letter, if_true, Bool.false_eq_true, if_false]
    split <;> split <;> omega
  · simp only [hexDigitValue, notDecimal, notUpper, Bool.false_eq_true, if_false]
    split <;> split <;> omega

theorem asciiLower_eq_of_value_eq {left right : CodeUnit}
    (leftDigit : left.isHexDigit = true) (rightDigit : right.isHexDigit = true)
    (equal : left.hexDigitValue = right.hexDigitValue) :
    left.asciiLower = right.asciiLower := by
  apply UInt16.toNat_inj.mp
  rw [asciiLower_toNat leftDigit, asciiLower_toNat rightDigit, equal]

theorem value_eq_of_asciiLower_eq {left right : CodeUnit}
    (leftDigit : left.isHexDigit = true) (rightDigit : right.isHexDigit = true)
    (equal : left.asciiLower = right.asciiLower) :
    left.hexDigitValue = right.hexDigitValue := by
  have leftBound := hexDigitValue_lt leftDigit
  have rightBound := hexDigitValue_lt rightDigit
  have numbers := congrArg UInt16.toNat equal
  rw [asciiLower_toNat leftDigit, asciiLower_toNat rightDigit] at numbers
  split at numbers <;> split at numbers <;> omega

end CodeUnit

namespace Text

def isHex (value : Text) : Bool := value.all CodeUnit.isHexDigit

def asciiLower (value : Text) : Text := value.map CodeUnit.asciiLower

def trim (value : Text) : Text :=
  ((value.dropWhile CodeUnit.isWhiteSpace).reverse.dropWhile CodeUnit.isWhiteSpace).reverse

/-- `string.Split` at one separator: there is always a first part. -/
def split (separator : CodeUnit) (value : Text) : List Text := value.splitOn separator

example : split 46 (text "miner.rig.1") = [text "miner", text "rig", text "1"] := by decide

@[simp] theorem isHex_nil : isHex [] = true := rfl

@[simp] theorem isHex_cons (unit : CodeUnit) (rest : Text) :
    isHex (unit :: rest) = (unit.isHexDigit && isHex rest) := rfl

@[simp] theorem isHex_append (left right : Text) :
    isHex (left ++ right) = (isHex left && isHex right) := by
  simp [isHex]

def isLower (value : Text) : Bool := value.asciiLower == value

theorem asciiLower_of_isLower {value : Text} (lower : value.isLower = true) :
    value.asciiLower = value := by
  simpa [isLower] using lower

@[simp] theorem asciiLower_nil : asciiLower [] = [] := rfl

@[simp] theorem asciiLower_cons (unit : CodeUnit) (rest : Text) :
    asciiLower (unit :: rest) = unit.asciiLower :: asciiLower rest := rfl

@[simp] theorem asciiLower_append (left right : Text) :
    asciiLower (left ++ right) = asciiLower left ++ asciiLower right := by
  simp [asciiLower]

end Text

/-! ## Culture

`string.ToLower()` and `string.StartsWith(string)` follow the culture of the
running process. The model takes the culture as a parameter and relies on
nothing but its documented behaviour on hexadecimal digits: every culture cases
the letters `A` to `F` as ASCII does, and none of the sixteen digits can match
the `x` of the marker `0x`. -/

structure Culture where
  toLower : Text → Text
  startsWith : Text → Text → Bool
  toLower_hex : ∀ value : Text, value.isHex = true → toLower value = value.asciiLower
  startsWith_marker_hex : ∀ value : Text, value.isHex = true →
    startsWith value (text "0x") = false

namespace Culture

/-- ASCII casing and ordinal comparison, on which all cultures agree for the
printable ASCII texts the concrete runs below use. -/
def ordinal : Culture where
  toLower := Text.asciiLower
  startsWith value marker := marker.isPrefixOf value
  toLower_hex _ _ := rfl
  startsWith_marker_hex value hex := by
    have notDigit : CodeUnit.isHexDigit 120 = false := by decide
    match value, hex with
    | [], _ => rfl
    | [_], _ => simp [text, List.isPrefixOf]
    | first :: second :: rest, hex =>
        have marker : text "0x" = [48, 120] := by decide
        simp only [Text.isHex_cons, Bool.and_eq_true] at hex
        have different : (120 : CodeUnit) ≠ second := by
          intro equal
          rw [← equal, notDigit] at hex
          exact Bool.noConfusion hex.2.1
        simp [marker, List.isPrefixOf, different]

end Culture

end Miningcore

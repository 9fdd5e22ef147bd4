import Miningcore.Foundation.Text
import Mathlib.Data.List.TakeWhile
import Mathlib.Tactic.Ring

/-! Hexadecimal number parsing as `UInt32.Parse` and `UInt64.TryParse` do it
under `NumberStyles.HexNumber`.

The style admits white space on both sides, any number of leading zeros and
trailing NUL code units, so the map from text to value is far from injective.
The lemmas below say where it is: on digit strings of one fixed length, up to
letter case. -/

namespace Miningcore.NumberParsing

inductive ParseError
  | format
  | overflow
deriving DecidableEq, Repr

def isWhite (unit : CodeUnit) : Bool := unit == 32 || (9 ≤ unit && unit ≤ 13)

def digitsValue : Text → Nat
  | [] => 0
  | digit :: rest => digit.hexDigitValue * 16 ^ rest.length + digitsValue rest

/-- Parse an unsigned integer of `width` bits. A missing digit or a foreign code
unit is a format error; a well-formed number that does not fit is an overflow. -/
def parseHexNumber (width : Nat) (input : Text) : Except ParseError Nat :=
  let body := input.dropWhile isWhite
  let digits := body.takeWhile CodeUnit.isHexDigit
  let trailing := (body.dropWhile CodeUnit.isHexDigit).dropWhile isWhite
  if digits.isEmpty || !trailing.all (· == 0) then
    .error .format
  else if digitsValue digits < 2 ^ width then
    .ok (digitsValue digits)
  else
    .error .overflow

/-- White space, leading zeros and a trailing NUL all disappear. -/
example : parseHexNumber 32 (text " 00fF\n" ++ [0]) = .ok 255 := by decide

example : parseHexNumber 32 (text "100000000") = .error .overflow := by decide

example : parseHexNumber 32 (text "0x1") = .error .format := by decide

theorem digitsValue_lt (digits : Text) (hex : Text.isHex digits = true) :
    digitsValue digits < 16 ^ digits.length := by
  induction digits with
  | nil => simp [digitsValue]
  | cons digit rest induction =>
      rw [Text.isHex_cons, Bool.and_eq_true] at hex
      have restBound := induction hex.2
      have digitBound := CodeUnit.hexDigitValue_lt hex.1
      calc digitsValue (digit :: rest)
          = digit.hexDigitValue * 16 ^ rest.length + digitsValue rest := rfl
        _ < digit.hexDigitValue * 16 ^ rest.length + 16 ^ rest.length := by omega
        _ = (digit.hexDigitValue + 1) * 16 ^ rest.length := by ring
        _ ≤ 16 * 16 ^ rest.length := Nat.mul_le_mul_right _ digitBound
        _ = 16 ^ (digit :: rest).length := by rw [List.length_cons, pow_succ, Nat.mul_comm]

/-- Digit strings of one length with one value differ at most in letter case. -/
theorem digitsValue_injective (left right : Text)
    (leftHex : Text.isHex left = true) (rightHex : Text.isHex right = true)
    (sameLength : left.length = right.length)
    (equal : digitsValue left = digitsValue right) :
    Text.asciiLower left = Text.asciiLower right := by
  induction left generalizing right with
  | nil =>
      have rightEmpty : right = [] := List.length_eq_zero_iff.mp sameLength.symm
      rw [rightEmpty]
  | cons leftDigit leftRest induction =>
      cases right with
      | nil => simp at sameLength
      | cons rightDigit rightRest =>
          rw [Text.isHex_cons, Bool.and_eq_true] at leftHex rightHex
          have restLength : leftRest.length = rightRest.length := by
            simpa using sameLength
          have leftBound := digitsValue_lt leftRest leftHex.2
          have rightBound := digitsValue_lt rightRest rightHex.2
          rw [digitsValue, digitsValue, restLength] at equal
          rw [restLength] at leftBound
          -- Both remainders are below the radix power, so the leading digits
          -- are the quotients and the rests are the remainders.
          have positive : 0 < 16 ^ rightRest.length := Nat.pow_pos (by decide)
          have digitEqual : leftDigit.hexDigitValue = rightDigit.hexDigitValue := by
            have quotient := congrArg (· / 16 ^ rightRest.length) equal
            simpa only [Nat.mul_comm _ (16 ^ rightRest.length), Nat.mul_add_div positive,
              Nat.div_eq_of_lt leftBound, Nat.div_eq_of_lt rightBound, Nat.add_zero]
              using quotient
          have restEqual : digitsValue leftRest = digitsValue rightRest := by
            rw [digitEqual] at equal
            omega
          rw [Text.asciiLower_cons, Text.asciiLower_cons,
            CodeUnit.asciiLower_eq_of_value_eq leftHex.1 rightHex.1 digitEqual,
            induction rightRest leftHex.2 rightHex.2 restLength restEqual]

theorem isWhite_eq_false_of_isHexDigit {unit : CodeUnit}
    (digit : unit.isHexDigit = true) : isWhite unit = false := by
  rcases CodeUnit.isHexDigit_cases digit with
    ⟨-, lower, -⟩ | ⟨-, -, lower, -⟩ | ⟨-, -, lower, -⟩ <;>
  · simp only [isWhite, Bool.or_eq_false_iff, beq_eq_false_iff_ne, ne_eq,
      ← UInt16.toNat_inj, Bool.and_eq_false_iff, decide_eq_false_iff_not,
      UInt16.le_iff_toNat_le, UInt16.reduceToNat]
    omega

theorem dropWhile_isWhite_of_isHex (input : Text) (hex : Text.isHex input = true) :
    input.dropWhile isWhite = input := by
  cases input with
  | nil => rfl
  | cons unit rest =>
      rw [Text.isHex_cons, Bool.and_eq_true] at hex
      rw [List.dropWhile_cons, isWhite_eq_false_of_isHexDigit hex.1]
      simp

theorem parseHexNumber_lt {width : Nat} {input : Text} {value : Nat}
    (parsed : parseHexNumber width input = .ok value) : value < 2 ^ width := by
  simp only [parseHexNumber] at parsed
  split_ifs at parsed
  cases parsed
  assumption

theorem parseHexNumber_of_isHex (width : Nat) (input : Text)
    (hex : Text.isHex input = true) (nonempty : input ≠ []) :
    parseHexNumber width input =
      if digitsValue input < 2 ^ width then .ok (digitsValue input)
      else .error .overflow := by
  have allDigits : ∀ unit ∈ input, unit.isHexDigit = true := by
    simpa [Text.isHex] using hex
  have taken : input.takeWhile CodeUnit.isHexDigit = input :=
    List.takeWhile_eq_self_iff.mpr allDigits
  have dropped : input.dropWhile CodeUnit.isHexDigit = [] :=
    List.dropWhile_eq_nil_iff.mpr allDigits
  simp [parseHexNumber, dropWhile_isWhite_of_isHex input hex, taken, dropped, nonempty]

theorem parseHexNumber_injective (width : Nat) (left right : Text) (value : Nat)
    (leftHex : Text.isHex left = true) (rightHex : Text.isHex right = true)
    (sameLength : left.length = right.length)
    (leftParses : parseHexNumber width left = .ok value)
    (rightParses : parseHexNumber width right = .ok value) :
    Text.asciiLower left = Text.asciiLower right := by
  have valueOf : ∀ digits : Text, Text.isHex digits = true →
      parseHexNumber width digits = .ok value → digitsValue digits = value := by
    intro digits hex parses
    cases digits with
    | nil => simp [parseHexNumber] at parses
    | cons digit rest =>
        rw [parseHexNumber_of_isHex width _ hex (by simp)] at parses
        split at parses
        · exact Except.ok.inj parses
        · cases parses
  apply digitsValue_injective left right leftHex rightHex sameLength
  rw [valueOf left leftHex leftParses, valueOf right rightHex rightParses]

theorem digitsValue_congr {left right : Text}
    (leftHex : Text.isHex left = true) (rightHex : Text.isHex right = true)
    (equal : Text.asciiLower left = Text.asciiLower right) :
    digitsValue left = digitsValue right := by
  induction left generalizing right with
  | nil =>
      cases right with
      | nil => rfl
      | cons digit rest => cases equal
  | cons leftDigit left induction =>
      cases right with
      | nil => cases equal
      | cons rightDigit right =>
          rw [Text.isHex_cons, Bool.and_eq_true] at leftHex rightHex
          rw [Text.asciiLower_cons, Text.asciiLower_cons, List.cons.injEq] at equal
          have sameLength := congrArg List.length equal.2
          simp only [Text.asciiLower, List.length_map] at sameLength
          rw [digitsValue, digitsValue, induction leftHex.2 rightHex.2 equal.2, sameLength,
            CodeUnit.value_eq_of_asciiLower_eq leftHex.1 rightHex.1 equal.1]

theorem parseHexNumber_congr (width : Nat) {left right : Text}
    (leftHex : Text.isHex left = true) (rightHex : Text.isHex right = true)
    (equal : Text.asciiLower left = Text.asciiLower right) :
    parseHexNumber width left = parseHexNumber width right := by
  cases left with
  | nil =>
      cases right with
      | nil => rfl
      | cons digit rest => cases equal
  | cons leftDigit left =>
      cases right with
      | nil => cases equal
      | cons rightDigit right =>
          rw [parseHexNumber_of_isHex width _ leftHex (List.cons_ne_nil _ _),
            parseHexNumber_of_isHex width _ rightHex (List.cons_ne_nil _ _),
            digitsValue_congr leftHex rightHex equal]

end Miningcore.NumberParsing

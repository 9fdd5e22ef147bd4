import Miningcore.Foundation.ByteLayout
import Miningcore.Foundation.NumberParsing

/-! The hexadecimal codec of `StringExtensions` and `ArrayExtensions`.

`HexToByteArray` never rejects its input: every code unit has some `GetHexVal`,
a leading `0x` is skipped and a trailing odd code unit is ignored. It is
injective, up to letter case, on even-length texts of hexadecimal digits only. -/

namespace Miningcore.StringExtensions

/-- `GetHexVal`. The ranges between the digits and the letters are not excluded,
so `:` has the value of `3` and other code units have values outside 0 to 15. -/
def getHexVal (hex : CodeUnit) : Int :=
  let val : Int := hex.toNat
  val - (if val < 58 then 48 else if val < 97 then 55 else 87)

example : getHexVal 58 = getHexVal 51 := by decide

/-- The loop of `HexToByteArray`: one byte from each pair of code units. -/
def hexPairs : Text → Bytes
  | high :: low :: rest =>
      UInt8.ofInt (getHexVal high * 16 + getHexVal low) :: hexPairs rest
  | _ => []

def hexToByteArray (culture : Culture) (str : Text) : Bytes :=
  hexPairs (if culture.startsWith str (text "0x") then str.drop 2 else str)

def hexDigitUnit (value : Nat) : CodeUnit :=
  if value < 10 then (48 + value).toUInt16 else (87 + value).toUInt16

/-- `ArrayExtensions.ToHexString` of a whole array, without a marker. -/
def toHexString (value : Bytes) : Text :=
  value.flatMap fun byte => [hexDigitUnit (byte.toNat / 16), hexDigitUnit (byte.toNat % 16)]

/-- `ToStringHex8`: the `x8` format of a 32-bit value. -/
def toStringHex8 (value : UInt32) : Text :=
  toHexString (LittleEndian.encode 4 value.toNat).reverse

example : toStringHex8 0x80000000 = text "80000000" := by decide

/-- `ReverseByteOrder` of a 32-bit value. -/
def reverseByteOrder (value : UInt32) : UInt32 :=
  UInt32.ofNat (LittleEndian.decode (LittleEndian.encode 4 value.toNat).reverse)

theorem getHexVal_of_isHexDigit {hex : CodeUnit} (digit : hex.isHexDigit = true) :
    getHexVal hex = hex.hexDigitValue := by
  rcases CodeUnit.isHexDigit_cases digit with
    ⟨decimal, lower, upper⟩ | ⟨notDecimal, letter, lower, upper⟩ |
    ⟨notDecimal, notUpper, lower, upper⟩
  · simp only [getHexVal, CodeUnit.hexDigitValue, decimal, if_true]
    split_ifs <;> omega
  · simp only [getHexVal, CodeUnit.hexDigitValue, notDecimal, letter, if_true,
      Bool.false_eq_true, if_false]
    split_ifs <;> omega
  · simp only [getHexVal, CodeUnit.hexDigitValue, notDecimal, notUpper,
      Bool.false_eq_true, if_false]
    split_ifs <;> omega

theorem hexByte_injective {leftHigh leftLow rightHigh rightLow : CodeUnit}
    (leftHighDigit : leftHigh.isHexDigit = true) (leftLowDigit : leftLow.isHexDigit = true)
    (rightHighDigit : rightHigh.isHexDigit = true) (rightLowDigit : rightLow.isHexDigit = true)
    (equal : UInt8.ofInt (getHexVal leftHigh * 16 + getHexVal leftLow) =
      UInt8.ofInt (getHexVal rightHigh * 16 + getHexVal rightLow)) :
    leftHigh.hexDigitValue = rightHigh.hexDigitValue ∧
      leftLow.hexDigitValue = rightLow.hexDigitValue := by
  have leftHighBound := CodeUnit.hexDigitValue_lt leftHighDigit
  have leftLowBound := CodeUnit.hexDigitValue_lt leftLowDigit
  have rightHighBound := CodeUnit.hexDigitValue_lt rightHighDigit
  have rightLowBound := CodeUnit.hexDigitValue_lt rightLowDigit
  have values := congrArg UInt8.toNat equal
  simp only [UInt8.ofInt, UInt8.toNat_ofNat', getHexVal_of_isHexDigit leftHighDigit,
    getHexVal_of_isHexDigit leftLowDigit, getHexVal_of_isHexDigit rightHighDigit,
    getHexVal_of_isHexDigit rightLowDigit] at values
  omega

theorem hexPairs_injective : ∀ left right : Text,
    Text.isHex left = true → Text.isHex right = true →
    left.length % 2 = 0 → right.length % 2 = 0 →
    hexPairs left = hexPairs right → Text.asciiLower left = Text.asciiLower right
  | [], [], _, _, _, _, _ => rfl
  | [], [_], _, _, _, rightEven, _ => by simp at rightEven
  | [], _ :: _ :: _, _, _, _, _, equal => by simp [hexPairs] at equal
  | [_], _, _, _, leftEven, _, _ => by simp at leftEven
  | _ :: _ :: _, [], _, _, _, _, equal => by simp [hexPairs] at equal
  | _ :: _ :: _, [_], _, _, _, rightEven, _ => by simp at rightEven
  | leftHigh :: leftLow :: left, rightHigh :: rightLow :: right,
      leftHex, rightHex, leftEven, rightEven, equal => by
    simp only [Text.isHex_cons, Bool.and_eq_true] at leftHex rightHex
    rw [hexPairs, hexPairs, List.cons.injEq] at equal
    have digits := hexByte_injective leftHex.1 leftHex.2.1 rightHex.1 rightHex.2.1 equal.1
    simp only [List.length_cons] at leftEven rightEven
    have rest := hexPairs_injective left right leftHex.2.2 rightHex.2.2
      (by omega) (by omega) equal.2
    simp only [Text.asciiLower_cons, rest,
      CodeUnit.asciiLower_eq_of_value_eq leftHex.1 rightHex.1 digits.1,
      CodeUnit.asciiLower_eq_of_value_eq leftHex.2.1 rightHex.2.1 digits.2]

theorem hexPairs_congr : ∀ left right : Text,
    Text.isHex left = true → Text.isHex right = true →
    Text.asciiLower left = Text.asciiLower right → hexPairs left = hexPairs right
  | [], [], _, _, _ => rfl
  | [_], [_], _, _, _ => rfl
  | [], _ :: _, _, _, equal => by cases equal
  | _ :: _, [], _, _, equal => by cases equal
  | [_], _ :: _ :: _, _, _, equal => by simp [Text.asciiLower] at equal
  | _ :: _ :: _, [_], _, _, equal => by simp [Text.asciiLower] at equal
  | leftHigh :: leftLow :: left, rightHigh :: rightLow :: right, leftHex, rightHex, equal => by
    simp only [Text.isHex_cons, Bool.and_eq_true] at leftHex rightHex
    simp only [Text.asciiLower_cons, List.cons.injEq] at equal
    rw [hexPairs, hexPairs, hexPairs_congr left right leftHex.2.2 rightHex.2.2 equal.2.2,
      getHexVal_of_isHexDigit leftHex.1, getHexVal_of_isHexDigit leftHex.2.1,
      getHexVal_of_isHexDigit rightHex.1, getHexVal_of_isHexDigit rightHex.2.1,
      CodeUnit.value_eq_of_asciiLower_eq leftHex.1 rightHex.1 equal.1,
      CodeUnit.value_eq_of_asciiLower_eq leftHex.2.1 rightHex.2.1 equal.2.1]

theorem hexPairs_length : ∀ value : Text, (hexPairs value).length = value.length / 2
  | [] => rfl
  | [_] => by simp [hexPairs]
  | _ :: _ :: rest => by
      rw [hexPairs, List.length_cons, hexPairs_length rest]
      simp only [List.length_cons]
      omega

theorem hexPairs_append : ∀ left right : Text, left.length % 2 = 0 →
    hexPairs (left ++ right) = hexPairs left ++ hexPairs right
  | [], _, _ => rfl
  | [_], _, even => by simp at even
  | high :: low :: left, right, even => by
      simp only [List.length_cons] at even
      simp only [List.cons_append, hexPairs, hexPairs_append left right (by omega)]

theorem hexPairs_take : ∀ (value : Text) (count : Nat),
    hexPairs (value.take (count * 2)) = (hexPairs value).take count
  | _, 0 => rfl
  | [], _ + 1 => by simp [hexPairs]
  | [_], _ + 1 => by simp [hexPairs, Nat.succ_mul]
  | _ :: _ :: rest, count + 1 => by
      simp only [Nat.succ_mul, List.take_succ_cons, hexPairs, hexPairs_take rest count]

theorem hexToByteArray_length_le (culture : Culture) (str : Text) :
    (hexToByteArray culture str).length ≤ str.length := by
  rw [hexToByteArray, hexPairs_length]
  split_ifs
  · rw [List.length_drop]
    omega
  · omega

theorem hexToByteArray_of_isHex (culture : Culture) {str : Text}
    (hex : Text.isHex str = true) : hexToByteArray culture str = hexPairs str := by
  rw [hexToByteArray, culture.startsWith_marker_hex str hex]
  rfl

theorem hexToByteArray_injective (culture : Culture) {left right : Text}
    (leftHex : Text.isHex left = true) (rightHex : Text.isHex right = true)
    (leftEven : left.length % 2 = 0) (rightEven : right.length % 2 = 0)
    (equal : hexToByteArray culture left = hexToByteArray culture right) :
    culture.toLower left = culture.toLower right := by
  rw [hexToByteArray_of_isHex culture leftHex, hexToByteArray_of_isHex culture rightHex] at equal
  rw [culture.toLower_hex left leftHex, culture.toLower_hex right rightHex]
  exact hexPairs_injective left right leftHex rightHex leftEven rightEven equal

/-! ## From bytes to digits and back -/

theorem getHexVal_hexDigitUnit : ∀ value < 16,
    getHexVal (hexDigitUnit value) = value ∧ (hexDigitUnit value).isHexDigit = true := by
  decide

theorem toHexString_cons (byte : UInt8) (value : Bytes) :
    toHexString (byte :: value) = hexDigitUnit (byte.toNat / 16) ::
      hexDigitUnit (byte.toNat % 16) :: toHexString value := rfl

theorem toHexString_append (left right : Bytes) :
    toHexString (left ++ right) = toHexString left ++ toHexString right :=
  List.flatMap_append

@[simp] theorem toHexString_length (value : Bytes) :
    (toHexString value).length = 2 * value.length := by
  induction value with
  | nil => rfl
  | cons byte value induction =>
      rw [toHexString_cons, List.length_cons, List.length_cons, induction, List.length_cons]
      omega

theorem isHex_toHexString (value : Bytes) : (toHexString value).isHex = true := by
  induction value with
  | nil => rfl
  | cons byte value induction =>
      have bound := byte.toNat_lt
      have high := getHexVal_hexDigitUnit (byte.toNat / 16) (by omega)
      have low := getHexVal_hexDigitUnit (byte.toNat % 16) (by omega)
      rw [toHexString_cons, Text.isHex_cons, Text.isHex_cons, high.2, low.2, induction]
      rfl

theorem hexPairs_toHexString (value : Bytes) : hexPairs (toHexString value) = value := by
  induction value with
  | nil => rfl
  | cons byte value induction =>
      have bound := byte.toNat_lt
      have high := getHexVal_hexDigitUnit (byte.toNat / 16) (by omega)
      have low := getHexVal_hexDigitUnit (byte.toNat % 16) (by omega)
      have halves : ((byte.toNat / 16 : Nat) * 16 + (byte.toNat % 16 : Nat) : Int) =
          (byte.toNat : Int) := by omega
      rw [toHexString_cons, hexPairs, high.1, low.1, halves, induction]
      congr 1
      apply UInt8.toNat_inj.mp
      rw [UInt8.ofInt, UInt8.toNat_ofNat']
      omega

theorem toHexString_injective : Function.Injective toHexString :=
  Function.LeftInverse.injective hexPairs_toHexString

theorem hexToByteArray_toHexString (culture : Culture) (value : Bytes) :
    hexToByteArray culture (toHexString value) = value := by
  rw [hexToByteArray_of_isHex culture (isHex_toHexString value), hexPairs_toHexString]

theorem asciiLower_toHexString (value : Bytes) :
    Text.asciiLower (toHexString value) = toHexString value := by
  have digit : ∀ value < 16, (hexDigitUnit value).asciiLower = hexDigitUnit value := by decide
  induction value with
  | nil => rfl
  | cons byte value induction =>
      have bound := byte.toNat_lt
      rw [toHexString_cons, Text.asciiLower, List.map_cons, List.map_cons,
        digit _ (by omega), digit _ (by omega), ← Text.asciiLower, induction]

theorem toHexString_hexPairs {digits : Text} (hex : digits.isHex = true)
    (even : digits.length % 2 = 0) : toHexString (hexPairs digits) = Text.asciiLower digits := by
  rw [← asciiLower_toHexString]
  apply hexPairs_injective _ _ (isHex_toHexString _) hex _ even (hexPairs_toHexString _)
  rw [toHexString_length]
  omega

theorem digitsValue_eq_decode : ∀ digits : Text, digits.isHex = true → digits.length % 2 = 0 →
    NumberParsing.digitsValue digits = LittleEndian.decode (hexPairs digits).reverse
  | [], _, _ => rfl
  | [_], _, even => by simp at even
  | high :: low :: rest, hex, even => by
      simp only [Text.isHex_cons, Bool.and_eq_true] at hex
      simp only [List.length_cons] at even
      have highBound := CodeUnit.hexDigitValue_lt hex.1
      have lowBound := CodeUnit.hexDigitValue_lt hex.2.1
      have byteValue : (UInt8.ofInt (getHexVal high * 16 + getHexVal low)).toNat =
          16 * high.hexDigitValue + low.hexDigitValue := by
        rw [getHexVal_of_isHexDigit hex.1, getHexVal_of_isHexDigit hex.2.1, UInt8.ofInt,
          UInt8.toNat_ofNat']
        omega
      have power : 256 ^ (rest.length / 2) = 16 ^ rest.length := by
        rw [show 256 = 16 ^ 2 by decide, ← pow_mul]
        congr 1
        omega
      rw [hexPairs, List.reverse_cons, LittleEndian.decode_append, List.length_reverse,
        hexPairs_length, ← digitsValue_eq_decode rest hex.2.2 (by omega), power,
        LittleEndian.decode, LittleEndian.decode, byteValue, NumberParsing.digitsValue,
        NumberParsing.digitsValue, List.length_cons, pow_succ]
      ring

theorem encode_reverseByteOrder (value : UInt32) :
    LittleEndian.encode 4 (reverseByteOrder value).toNat =
      (LittleEndian.encode 4 value.toNat).reverse := by
  have bytes := LittleEndian.encode_decode (LittleEndian.encode 4 value.toNat).reverse
  rw [List.length_reverse, LittleEndian.encode_length] at bytes
  rw [reverseByteOrder, UInt32.toNat_ofNat']
  exact (LittleEndian.encode_mod 4 _).trans bytes

theorem toStringHex8_reverseByteOrder (value : UInt32) :
    toStringHex8 (reverseByteOrder value) = toHexString (LittleEndian.encode 4 value.toNat) := by
  rw [toStringHex8, encode_reverseByteOrder, List.reverse_reverse]

theorem reverseByteOrder_injective : Function.Injective reverseByteOrder := by
  intro left right equal
  have encoded := congrArg (fun value => LittleEndian.encode 4 value.toNat) equal
  simp only [encode_reverseByteOrder] at encoded
  apply UInt32.toNat_inj.mp
  apply LittleEndian.encode_injective 4
  · exact left.toNat_lt
  · exact right.toNat_lt
  · exact List.reverse_injective encoded

end Miningcore.StringExtensions

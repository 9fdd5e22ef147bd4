import Miningcore.Foundation.ByteLayout
import Miningcore.Foundation.Text

/-! Text as UTF-8 bytes. -/

namespace Miningcore.Utf8

open ByteLayout

def isHighSurrogate (unit : CodeUnit) : Bool := 0xD800 ≤ unit && unit ≤ 0xDBFF

def isLowSurrogate (unit : CodeUnit) : Bool := 0xDC00 ≤ unit && unit ≤ 0xDFFF

def unitLetter (unit : CodeUnit) : Char :=
  if isHighSurrogate unit || isLowSurrogate unit then Char.ofNat 0xFFFD
  else Char.ofNat unit.toNat

def pairLetter (high low : CodeUnit) : Char :=
  Char.ofNat (0x10000 + (high.toNat - 0xD800) * 0x400 + (low.toNat - 0xDC00))

def letters : Text → List Char
  | [] => []
  | [unit] => [unitLetter unit]
  | high :: low :: rest =>
      if isHighSurrogate high && isLowSurrogate low then pairLetter high low :: letters rest
      else unitLetter high :: letters (low :: rest)

def getBytes (text : Text) : Bytes := (letters text).flatMap String.utf8EncodeChar

def ofAscii (bytes : Bytes) : Text := bytes.map UInt8.toUInt16

example : getBytes [0x41, 0xE9, 0xD834, 0xDD1E, 0xDD1E] =
    [0x41, 0xC3, 0xA9, 0xF0, 0x9D, 0x84, 0x9E, 0xEF, 0xBF, 0xBD] := by
  decide

def IsAscii (bytes : Bytes) : Prop := ∀ byte ∈ bytes, byte.toNat < 0x80

theorem encode_ascii {letter : Char} (ascii : letter.toNat < 0x80) :
    String.utf8EncodeChar letter = [UInt8.ofNat letter.toNat] := by
  have small : letter.val.toNat ≤ 0x7f := Nat.le_of_lt_succ ascii
  rw [String.utf8EncodeChar]
  exact if_pos small

theorem not_ascii_encode {letter : Char} (large : 0x80 ≤ letter.toNat) :
    ¬IsAscii (String.utf8EncodeChar letter) := by
  intro ascii
  have large' : ¬letter.val.toNat ≤ 0x7f := Nat.not_le_of_lt large
  rw [String.utf8EncodeChar] at ascii
  simp only [if_neg large'] at ascii
  split_ifs at ascii with two three
  · have first := ascii _ (List.mem_cons_self ..)
    rw [UInt8.toNat_ofNat'] at first
    omega
  · have first := ascii _ (List.mem_cons_self ..)
    rw [UInt8.toNat_ofNat'] at first
    omega
  · have first := ascii _ (List.mem_cons_self ..)
    rw [UInt8.toNat_ofNat'] at first
    omega

theorem toNat_ofNat {value : Nat} (valid : value.isValidChar) :
    (Char.ofNat value).toNat = value := by
  rw [Char.ofNat, dif_pos valid]
  rfl

theorem unitLetter_ascii {unit : CodeUnit} (ascii : (unitLetter unit).toNat < 0x80) :
    UInt16.ofNat (unitLetter unit).toNat = unit := by
  rw [unitLetter] at ascii ⊢
  split_ifs at ascii ⊢ with surrogate
  · exact absurd ascii (by decide)
  · have valid : unit.toNat.isValidChar := by
      have bound := unit.toNat_lt
      simp only [isHighSurrogate, isLowSurrogate, Bool.or_eq_true, Bool.and_eq_true,
        decide_eq_true_eq, UInt16.le_iff_toNat_le, UInt16.reduceToNat] at surrogate
      rw [Nat.isValidChar]
      omega
    rw [toNat_ofNat valid, UInt16.ofNat_toNat]

theorem unitLetter_of_ascii {byte : UInt8} (ascii : byte.toNat < 0x80) :
    (unitLetter byte.toUInt16).toNat = byte.toNat := by
  have valid : byte.toNat.isValidChar := by
    rw [Nat.isValidChar]
    omega
  rw [unitLetter, if_neg, UInt8.toNat_toUInt16, toNat_ofNat valid]
  simp only [isHighSurrogate, isLowSurrogate, Bool.or_eq_true, Bool.and_eq_true,
    decide_eq_true_eq, UInt16.le_iff_toNat_le, UInt16.reduceToNat, UInt8.toNat_toUInt16]
  omega

theorem pairLetter_large {high low : CodeUnit} (isHigh : isHighSurrogate high = true)
    (isLow : isLowSurrogate low = true) : 0x80 ≤ (pairLetter high low).toNat := by
  simp only [isHighSurrogate, isLowSurrogate, Bool.and_eq_true, decide_eq_true_eq,
    UInt16.le_iff_toNat_le, UInt16.reduceToNat] at isHigh isLow
  rw [pairLetter, toNat_ofNat (by rw [Nat.isValidChar]; omega)]
  omega

theorem eq_ofAscii (text : Text) (ascii : IsAscii (getBytes text)) :
    text = ofAscii (getBytes text) := by
  have head {letter : Char} {rest : List Char}
      (ascii : IsAscii ((letter :: rest).flatMap String.utf8EncodeChar)) :
      letter.toNat < 0x80 ∧ IsAscii (rest.flatMap String.utf8EncodeChar) := by
    rw [List.flatMap_cons] at ascii
    refine ⟨?_, fun byte inside => ascii byte (List.mem_append_right _ inside)⟩
    by_contra large
    exact not_ascii_encode (Nat.le_of_not_lt large) fun byte inside =>
      ascii byte (List.mem_append_left _ inside)
  have unit {unit : CodeUnit} (small : (unitLetter unit).toNat < 0x80) :
      (UInt8.ofNat (unitLetter unit).toNat).toUInt16 = unit := by
    rw [← UInt16.toNat_inj, UInt8.toNat_toUInt16, UInt8.toNat_ofNat',
      Nat.mod_eq_of_lt (by omega), ← congrArg UInt16.toNat (unitLetter_ascii small),
      UInt16.toNat_ofNat', Nat.mod_eq_of_lt (by omega)]
  rw [getBytes] at ascii ⊢
  fun_induction letters text with
  | case1 => rfl
  | case2 last =>
      have small := (head ascii).1
      rw [List.flatMap_cons, encode_ascii small, ofAscii, List.flatMap_nil, List.append_nil,
        List.map_singleton, unit small]
  | case3 high low rest surrogates induction =>
      rw [Bool.and_eq_true] at surrogates
      exact absurd (head ascii).1 (Nat.not_lt_of_le (pairLetter_large surrogates.1 surrogates.2))
  | case4 high low rest _ induction =>
      have small := (head ascii).1
      have others := induction (head ascii).2
      rw [ofAscii] at others
      rw [List.flatMap_cons, encode_ascii small, ofAscii, List.map_append, ← others,
        List.map_singleton, unit small, List.singleton_append]

theorem getBytes_ofAscii {bytes : Bytes} (ascii : IsAscii bytes) :
    getBytes (ofAscii bytes) = bytes := by
  have encoded {byte : UInt8} (small : byte.toNat < 0x80) :
      String.utf8EncodeChar (unitLetter byte.toUInt16) = [byte] := by
    have value := unitLetter_of_ascii small
    rw [encode_ascii (by omega), value, UInt8.ofNat_toNat]
  rw [getBytes]
  induction bytes with
  | nil => rfl
  | cons byte rest induction =>
      have small := ascii byte (List.mem_cons_self ..)
      have others := induction fun other inside => ascii other (List.mem_cons_of_mem _ inside)
      cases rest with
      | nil => rw [ofAscii, List.map_singleton, letters, List.flatMap_singleton, encoded small]
      | cons next behind =>
          have notHigh : isHighSurrogate byte.toUInt16 = false := by
            simp only [isHighSurrogate, Bool.and_eq_false_iff, decide_eq_false_iff_not,
              UInt16.le_iff_toNat_le, UInt16.reduceToNat, UInt8.toNat_toUInt16]
            omega
          rw [ofAscii, List.map_cons] at others ⊢
          rw [List.map_cons, letters, notHigh, Bool.false_and, if_neg (by decide),
            List.flatMap_cons, encoded small, others, List.singleton_append]

end Miningcore.Utf8

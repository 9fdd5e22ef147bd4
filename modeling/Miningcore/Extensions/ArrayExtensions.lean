import Miningcore.Extensions.StringExtensions
import Miningcore.Stratum.ShareAcceptance

/-! `ArrayExtensions`: the hexadecimal text of an array or a part of it, and the byte orders of an
array of eight words.

The text is written into a buffer of the array pool that nobody has cleared. -/

namespace Miningcore.ArrayExtensions

open StringExtensions (hexDigitUnit hexPairs hexToByteArray)

/-- `ArrayPool<char>.Shared`: a buffer is at least as long as requested, and something is in it
already. -/
structure CharPool where
  rent : Nat → Text
  le_rent : ∀ size, size ≤ (rent size).length

/-- The body of the loop: the entry of `HexStringTable` is written at twice the index. -/
def writeHex (value : Bytes) (offset : Nat) (buffer : Text) (index : Nat) :
    Except Exception Text :=
  match value[index]? with
  | none => .error .indexOutOfRange
  | some byte =>
      .ok ((buffer.set (offset + index * 2) (hexDigitUnit (byte.toNat / 16))).set
        (offset + index * 2 + 1) (hexDigitUnit (byte.toNat % 16)))

def writeMarker (withPrefix : Bool) (buffer : Text) : Text :=
  if withPrefix then (buffer.set 0 48).set 1 120 else buffer

/-- `ToHexString`. The loop ends before the index `len`. -/
def toHexString (pool : CharPool) (value : Option Bytes) (off len : Option Nat)
    (withPrefix : Bool) : Except Exception Text :=
  let bytes := value.getD []
  if bytes = [] then .ok []
  else do
    let length := len.getD bytes.length
    let offset := if withPrefix then 2 else 0
    let bufferSize := length * 2 + offset
    let start := off.getD 0
    let buffer ← (List.range' start (length - start)).foldlM (writeHex bytes offset)
      (writeMarker withPrefix (pool.rent bufferSize))
    return buffer.take bufferSize

theorem foldlM_writeHex {value : Bytes} {offset : Nat} (count : Nat) {start : Nat}
    {front middle : Text} (back : Text) (frontLength : front.length = offset + start * 2)
    (middleLength : middle.length = count * 2) (inside : start + count ≤ value.length) :
    (List.range' start count).foldlM (writeHex value offset) (front ++ middle ++ back) =
      .ok (front ++ StringExtensions.toHexString ((value.drop start).take count) ++ back) := by
  induction count generalizing start front middle with
  | zero =>
      rw [Nat.zero_mul, List.length_eq_zero_iff] at middleLength
      rw [middleLength, List.take_zero]
      rfl
  | succ count induction =>
      cases middle with
      | nil => simp at middleLength
      | cons high middle =>
          cases middle with
          | nil => simp [Nat.succ_mul] at middleLength
          | cons low middle =>
              have isIndex : start < value.length := by omega
              have nextFront : (front ++ [hexDigitUnit (value[start].toNat / 16),
                  hexDigitUnit (value[start].toNat % 16)]).length = offset + (start + 1) * 2 := by
                rw [List.length_append, frontLength, List.length_cons, List.length_singleton]
                omega
              have nextMiddle : middle.length = count * 2 := by
                simp only [List.length_cons] at middleLength
                omega
              have step : writeHex value offset (front ++ (high :: low :: middle) ++ back) start =
                  .ok (front ++ [hexDigitUnit (value[start].toNat / 16),
                    hexDigitUnit (value[start].toNat % 16)] ++ middle ++ back) := by
                rw [writeHex, List.getElem?_eq_getElem isIndex]
                simp [← frontLength, List.set_append_right]
              have rest := induction nextFront nextMiddle (by omega)
              rw [List.range'_succ, List.foldlM_cons, step]
              refine rest.trans ?_
              rw [List.drop_eq_getElem_cons isIndex, List.take_succ_cons,
                StringExtensions.toHexString_cons, List.append_assoc front]
              rfl

@[simp] theorem writeMarker_length (withPrefix : Bool) (buffer : Text) :
    (writeMarker withPrefix buffer).length = buffer.length := by
  cases withPrefix with
  | false => rfl
  | true => simp [writeMarker]

theorem toHexString_eq (pool : CharPool) {value : Bytes} (nonempty : value ≠ [])
    {off len : Option Nat} {start length : Nat} (isStart : off.getD 0 = start)
    (isLength : len.getD value.length = length) (ordered : start ≤ length)
    (inside : length ≤ value.length) (withPrefix : Bool) {offset : Nat}
    (isOffset : (if withPrefix then 2 else 0) = offset) :
    toHexString pool (some value) off len withPrefix =
      .ok ((writeMarker withPrefix (pool.rent (length * 2 + offset))).take (offset + start * 2) ++
        StringExtensions.toHexString ((value.drop start).take (length - start))) := by
  have room := pool.le_rent (length * 2 + offset)
  rw [← writeMarker_length withPrefix] at room
  simp only [toHexString, Option.getD_some, nonempty, if_false, isStart, isLength, isOffset]
  generalize writeMarker withPrefix (pool.rent (length * 2 + offset)) = buffer at room ⊢
  have parts : buffer = buffer.take (offset + start * 2) ++
      (buffer.drop (offset + start * 2)).take ((length - start) * 2) ++
        (buffer.drop (offset + start * 2)).drop ((length - start) * 2) := by
    rw [List.append_assoc, List.take_append_drop, List.take_append_drop]
  have front : (buffer.take (offset + start * 2)).length = offset + start * 2 := by
    rw [List.length_take]
    omega
  have middle : ((buffer.drop (offset + start * 2)).take ((length - start) * 2)).length =
      (length - start) * 2 := by
    rw [List.length_take, List.length_drop]
    omega
  have written := @foldlM_writeHex value offset (length - start) start _ _
    ((buffer.drop (offset + start * 2)).drop ((length - start) * 2)) front middle (by omega)
  rw [← parts] at written
  rw [written]
  apply congrArg Except.ok
  apply List.take_left'
  rw [List.length_append, front, StringExtensions.toHexString_length, List.length_take,
    List.length_drop]
  omega

theorem toHexString_of_le (pool : CharPool) {value : Bytes} (nonempty : value ≠ []) {off len : Nat}
    (behind : len ≤ off) :
    toHexString pool (some value) (some off) (some len) false =
      .ok ((pool.rent (len * 2)).take (len * 2)) := by
  simp only [toHexString, Option.getD_some, nonempty, if_false, Nat.sub_eq_zero_of_le behind]
  rfl

theorem toHexString_whole (pool : CharPool) {value : Bytes} (nonempty : value ≠ [])
    (withPrefix : Bool) :
    toHexString pool (some value) none none withPrefix =
      .ok ((if withPrefix then text "0x" else []) ++ StringExtensions.toHexString value) := by
  have start : (none : Option Nat).getD 0 = 0 := rfl
  have length : (none : Option Nat).getD value.length = value.length := rfl
  rw [toHexString_eq pool nonempty start length (Nat.zero_le _) le_rfl withPrefix rfl,
    List.drop_zero, Nat.sub_zero, List.take_length]
  cases withPrefix with
  | false => rfl
  | true =>
      have room := pool.le_rent (value.length * 2 + 2)
      simp only [if_true]
      generalize pool.rent (value.length * 2 + 2) = buffer at room ⊢
      cases buffer with
      | nil => simp at room
      | cons first buffer =>
          cases buffer with
          | nil => simp at room
          | cons second buffer => rfl

/-! ## The round trips -/

variable {culture : Culture}

theorem hexToByteArray_marker {digits : Text}
    (recognized : culture.startsWith (text "0x" ++ digits) (text "0x") = true) :
    hexToByteArray culture (text "0x" ++ digits) = hexPairs digits := by
  rw [hexToByteArray, if_pos recognized]
  rfl

theorem hexToByteArray_toHexString
    (recognizes : ∀ digits : Text, digits.isHex = true →
      culture.startsWith (text "0x" ++ digits) (text "0x") = true)
    (pool : CharPool) (value : Bytes) (withPrefix : Bool) :
    ∃ hex, toHexString pool (some value) none none withPrefix = .ok hex ∧
      hexToByteArray culture hex = value := by
  by_cases isEmpty : value = []
  · refine ⟨[], by rw [isEmpty]; rfl, ?_⟩
    rw [isEmpty]
    exact StringExtensions.hexToByteArray_toHexString culture []
  · refine ⟨_, toHexString_whole pool isEmpty withPrefix, ?_⟩
    cases withPrefix with
    | false => exact StringExtensions.hexToByteArray_toHexString culture value
    | true =>
        have hex := StringExtensions.isHex_toHexString value
        exact (hexToByteArray_marker (recognizes _ hex)).trans
          (StringExtensions.hexPairs_toHexString value)

theorem toHexString_hexToByteArray (culture : Culture) (pool : CharPool) {digits : Text}
    (hex : digits.isHex = true) (even : digits.length % 2 = 0) :
    toHexString pool (some (hexToByteArray culture digits)) none none false =
      .ok digits.asciiLower := by
  rw [StringExtensions.hexToByteArray_of_isHex culture hex,
    ← StringExtensions.toHexString_hexPairs hex even]
  by_cases isEmpty : hexPairs digits = []
  · rw [isEmpty]
    rfl
  · exact toHexString_whole pool isEmpty false

/-! ## Parts of an array -/

def CharPool.filled (unit : CodeUnit) : CharPool where
  rent size := List.replicate size unit
  le_rent _ := List.length_replicate.ge

theorem toHexString_filled {value : Bytes} {off len : Nat} (inside : off + len ≤ value.length)
    (hasOffset : off ≠ 0) (hasLength : len ≠ 0) (unit : CodeUnit) :
    ∃ rest, toHexString (.filled unit) (some value) (some off) (some len) false =
      .ok (unit :: rest) := by
  have nonempty : value ≠ [] := by
    rintro rfl
    rw [List.length_nil] at inside
    omega
  rcases Nat.le_total len off with behind | before
  · rw [toHexString_of_le _ nonempty behind]
    obtain ⟨more, isMore⟩ : ∃ more, len * 2 = more + 1 := ⟨len * 2 - 1, by omega⟩
    rw [isMore]
    exact ⟨_, rfl⟩
  · have length : (some len).getD value.length = len := rfl
    rw [toHexString_eq _ nonempty (Option.getD_some) length before (by omega) false rfl]
    obtain ⟨more, isMore⟩ : ∃ more, len * 2 + 0 = more + 1 := ⟨len * 2 - 1, by omega⟩
    obtain ⟨taken, isTaken⟩ : ∃ taken, 0 + off * 2 = taken + 1 := ⟨off * 2 - 1, by omega⟩
    simp only [Bool.false_eq_true, if_false, isMore, isTaken]
    exact ⟨_, rfl⟩

theorem toHexString_part_iff {value : Bytes} {off len : Nat} (inside : off + len ≤ value.length) :
    (∀ pool, toHexString pool (some value) (some off) (some len) false =
      .ok (StringExtensions.toHexString ((value.drop off).take len))) ↔ off = 0 ∨ len = 0 := by
  constructor
  · intro exactText
    by_contra both
    rw [not_or] at both
    rcases toHexString_filled inside both.1 both.2 120 with ⟨rest, isText⟩
    rw [exactText] at isText
    have hex := StringExtensions.isHex_toHexString ((value.drop off).take len)
    rw [Except.ok.inj isText] at hex
    exact Bool.noConfusion hex
  · intro either pool
    by_cases isEmpty : value = []
    · rw [isEmpty, List.drop_nil, List.take_nil]
      rfl
    · rcases either with rfl | rfl
      · have length : (some len).getD value.length = len := rfl
        rw [toHexString_eq pool isEmpty Option.getD_some length (Nat.zero_le _) (by omega) false
          rfl]
        rfl
      · rw [toHexString_of_le pool isEmpty (Nat.zero_le _), Nat.zero_mul, List.take_zero,
          List.take_zero]
        rfl

def toUInt32 (value : Bytes) (startIndex : Nat) : Except Exception UInt32 :=
  if startIndex + 4 ≤ value.length then
    .ok (UInt32.ofNat (LittleEndian.decode ((value.drop startIndex).take 4)))
  else .error (.argument "startIndex")

def toBigEndian (value : UInt32) : UInt32 := StringExtensions.reverseByteOrder value

/-- The body of the loop. A `BinaryWriter` writes the least significant byte first. -/
def writeWord (bytes stream : Bytes) (i : Nat) : Except Exception Bytes := do
  let value ← toUInt32 bytes (i * 4)
  return stream ++ LittleEndian.encode 4 (toBigEndian value).toNat

def reverseByteOrder (bytes : Bytes) : Except Exception Bytes := do
  let stream ← (List.range 8).foldlM (writeWord bytes) []
  return stream.reverse

def words : Bytes → List Bytes
  | first :: second :: third :: fourth :: rest => [first, second, third, fourth] :: words rest
  | _ => []

def swapWords (bytes : Bytes) : Bytes := (words bytes).flatMap List.reverse

theorem words_flatten {parts : List Bytes} (ofFour : ∀ part ∈ parts, part.length = 4) :
    words parts.flatten = parts := by
  induction parts with
  | nil => rfl
  | cons part parts induction =>
      have isFour := ofFour part List.mem_cons_self
      have rest := induction fun other member => ofFour other (List.mem_cons_of_mem part member)
      rcases List.length_eq_four.mp isFour with ⟨first, second, third, fourth, rfl⟩
      rw [List.flatten_cons]
      exact congrArg ([first, second, third, fourth] :: ·) rest

theorem length_flatten_of_four {parts : List Bytes} (ofFour : ∀ part ∈ parts, part.length = 4) :
    parts.flatten.length = parts.length * 4 := by
  induction parts with
  | nil => rfl
  | cons part parts induction =>
      have rest := induction fun other member => ofFour other (List.mem_cons_of_mem part member)
      rw [List.flatten_cons, List.length_append, ofFour part List.mem_cons_self, rest,
        List.length_cons]
      omega

theorem exists_words {count : Nat} {bytes : Bytes} (length : bytes.length = count * 4) :
    ∃ parts : List Bytes, parts.length = count ∧ (∀ part ∈ parts, part.length = 4) ∧
      bytes = parts.flatten := by
  induction count generalizing bytes with
  | zero =>
      rw [Nat.zero_mul, List.length_eq_zero_iff] at length
      exact ⟨[], rfl, fun _ member => absurd member List.not_mem_nil, length⟩
  | succ count induction =>
      have rest : (bytes.drop 4).length = count * 4 := by
        rw [List.length_drop]
        omega
      rcases induction rest with ⟨parts, partCount, ofFour, isRest⟩
      refine ⟨bytes.take 4 :: parts, by rw [List.length_cons, partCount], ?_, ?_⟩
      · intro part member
        rcases List.mem_cons.mp member with rfl | later
        · rw [List.length_take]
          omega
        · exact ofFour part later
      · rw [List.flatten_cons, ← isRest, List.take_append_drop]

theorem swapWords_reverse_flatten {parts : List Bytes} (ofFour : ∀ part ∈ parts, part.length = 4) :
    swapWords parts.reverse.flatten = parts.flatten.reverse := by
  have reversedFour : ∀ part ∈ parts.reverse, part.length = 4 := by
    intro part member
    exact ofFour part (List.mem_reverse.mp member)
  rw [swapWords, words_flatten reversedFour, List.reverse_flatten, List.flatMap_def,
    List.map_reverse]

theorem encode_toBigEndian {part : Bytes} (isFour : part.length = 4) :
    LittleEndian.encode 4 (toBigEndian (UInt32.ofNat (LittleEndian.decode part))).toNat =
      part.reverse := by
  have written := LittleEndian.encode_decode part
  rw [isFour] at written
  rw [toBigEndian, StringExtensions.encode_reverseByteOrder, UInt32.toNat_ofNat']
  exact congrArg List.reverse ((LittleEndian.encode_mod 4 _).trans written)

theorem writeWord_eq {front back : List Bytes} {part : Bytes}
    (ofFour : ∀ other ∈ front ++ part :: back, other.length = 4) (stream : Bytes) :
    writeWord (front ++ part :: back).flatten stream front.length =
      .ok (stream ++ part.reverse) := by
  have isFour := ofFour part (List.mem_append_right front List.mem_cons_self)
  have frontLength := length_flatten_of_four fun other member =>
    ofFour other (List.mem_append_left (part :: back) member)
  have length := length_flatten_of_four ofFour
  rw [List.length_append, List.length_cons] at length
  have isPart : ((front ++ part :: back).flatten.drop (front.length * 4)).take 4 = part := by
    rw [List.flatten_append, List.flatten_cons, ← frontLength, List.drop_left, ← isFour,
      List.take_left]
  rw [writeWord, toUInt32, if_pos (by omega), isPart]
  exact congrArg (fun word => Except.ok (stream ++ word)) (encode_toBigEndian isFour)

theorem foldlM_writeWord (back : List Bytes) {front : List Bytes}
    (ofFour : ∀ part ∈ front ++ back, part.length = 4) (stream : Bytes) :
    (List.range' front.length back.length).foldlM (writeWord (front ++ back).flatten) stream =
      .ok (stream ++ back.flatMap List.reverse) := by
  induction back generalizing front stream with
  | nil =>
      rw [List.flatMap_nil, List.append_nil stream]
      rfl
  | cons part back induction =>
      have step := writeWord_eq ofFour stream
      rw [List.append_cons] at ofFour
      have rest := induction ofFour (stream ++ part.reverse)
      rw [← List.append_cons, List.append_assoc, List.length_append] at rest
      rw [List.length_cons, List.range'_succ, List.foldlM_cons, step]
      exact rest

theorem reverseByteOrder_flatten {parts : List Bytes} (count : parts.length = 8)
    (ofFour : ∀ part ∈ parts, part.length = 4) :
    reverseByteOrder parts.flatten = .ok parts.reverse.flatten := by
  have written := @foldlM_writeWord parts [] ofFour []
  rw [List.nil_append, List.nil_append, count, List.length_nil] at written
  rw [reverseByteOrder, List.range_eq_range', written]
  apply congrArg Except.ok
  rw [List.reverse_flatMap, List.flatMap_def]
  congr 1
  apply List.map_id''
  intro part
  exact List.reverse_reverse part

theorem reverseByteOrder_spec (bytes : FixedBytes 32) :
    ∃ reordered : FixedBytes 32, reverseByteOrder bytes.toList = .ok reordered.toList ∧
      words reordered.toList = (words bytes.toList).reverse ∧
      reverseByteOrder reordered.toList = .ok bytes.toList ∧
      swapWords reordered.toList = bytes.toList.reverse := by
  rcases @exists_words 8 _ bytes.toList_length with ⟨parts, count, ofFour, isBytes⟩
  have reversedFour : ∀ part ∈ parts.reverse, part.length = 4 := by
    intro part member
    exact ofFour part (List.mem_reverse.mp member)
  have reversedCount : parts.reverse.length = 8 := by rw [List.length_reverse, count]
  have length : parts.reverse.flatten.length = 32 := by
    rw [length_flatten_of_four reversedFour, reversedCount]
  have back := reverseByteOrder_flatten reversedCount reversedFour
  rw [List.reverse_reverse] at back
  rw [isBytes, words_flatten ofFour]
  exact ⟨⟨parts.reverse.flatten, length⟩, reverseByteOrder_flatten count ofFour,
    words_flatten reversedFour, back, swapWords_reverse_flatten ofFour⟩

end Miningcore.ArrayExtensions

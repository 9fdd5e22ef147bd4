import Miningcore.Foundation.ByteLayout
import Miningcore.Foundation.Positional

/-! # Bit packing

Fields of a fixed number of bits, one behind the other without padding, are the digits of one
number. An accumulator regroups them: fields of one width are read in at its low end, fields of
another width are written from its high end. -/

namespace Miningcore

namespace BigEndian

def decode (bytes : Bytes) : Nat := LittleEndian.decode bytes.reverse

theorem decode_encode {width value : Nat} (fits : value < 256 ^ width) :
    decode (encode width value) = value := by
  rw [decode, encode, List.reverse_reverse, LittleEndian.decode_encode width value fits]

theorem decode_cons (byte : UInt8) (rest : Bytes) :
    decode (byte :: rest) = 256 ^ rest.length * byte.toNat + decode rest := by
  rw [decode, decode, List.reverse_cons, LittleEndian.decode_append, List.length_reverse]
  simp only [LittleEndian.decode, Nat.mul_zero, Nat.add_zero]
  exact Nat.add_comm _ _

theorem decode_lt (bytes : Bytes) : decode bytes < 256 ^ bytes.length := by
  induction bytes with
  | nil => decide
  | cons byte rest induction =>
      have byteBound : byte.toNat + 1 ≤ 256 := byte.toNat_lt
      have scaled := Nat.mul_le_mul_left (256 ^ rest.length) byteBound
      rw [Nat.mul_add, Nat.mul_one] at scaled
      rw [decode_cons, List.length_cons, pow_succ]
      omega

theorem encode_decode (bytes : Bytes) : encode bytes.length (decode bytes) = bytes := by
  have reversed := LittleEndian.encode_decode bytes.reverse
  rw [List.length_reverse] at reversed
  rw [encode, decode, reversed, List.reverse_reverse]

theorem decode_zeros (count : Nat) (bytes : Bytes) :
    decode (List.replicate count 0 ++ bytes) = decode bytes := by
  induction count with
  | zero => rfl
  | succ count induction =>
      rw [List.replicate_succ, List.cons_append, decode_cons, induction]
      simp

theorem all_zero_iff {width value : Nat} (fits : value < 256 ^ width) :
    ((encode width value).all fun byte => byte = 0) = true ↔ value = 0 := by
  rw [List.all_eq_true]
  constructor
  · intro zeros
    have replicated : encode width value = List.replicate width 0 ++ [] := by
      rw [List.append_nil, List.eq_replicate_iff]
      exact ⟨encode_length width value, fun byte member => of_decide_eq_true (zeros byte member)⟩
    have decoded := congrArg decode replicated
    rw [decode_encode fits, decode_zeros] at decoded
    exact decoded
  · intro zero byte member
    rw [zero, encode, LittleEndian.encode_zero, List.mem_reverse] at member
    exact decide_eq_true (List.eq_of_mem_replicate member)

theorem encode_eq_map (width value : Nat) :
    encode width value =
      (List.range width).map fun x => UInt8.ofNat (value / 256 ^ (width - x - 1)) := by
  induction width generalizing value with
  | zero => rfl
  | succ width induction =>
      have highest : encode (width + 1) value =
          UInt8.ofNat (value / 256 ^ width) :: encode width value := by
        rw [encode, encode, LittleEndian.encode_add width 1, List.reverse_append]
        rfl
      rw [highest, induction, List.range_succ_eq_map, List.map_cons, List.map_map]
      congr 1
      apply List.map_congr_left
      intro x _
      rw [Function.comp_apply, Nat.succ_eq_add_one, Nat.add_sub_add_right]

theorem lt_iff_decode_lt {left right : Bytes} (sameLength : left.length = right.length) :
    left < right ↔ decode left < decode right := by
  induction left generalizing right with
  | nil =>
      cases right with
      | nil => simp
      | cons byte right => simp at sameLength
  | cons leftByte left induction =>
      cases right with
      | nil => simp at sameLength
      | cons rightByte right =>
          have restLength : left.length = right.length := by simpa using sameLength
          have leftBound := decode_lt left
          have rightBound := decode_lt right
          rw [List.cons_lt_cons_iff, induction restLength, decode_cons, decode_cons, restLength,
            UInt8.lt_iff_toNat_lt, ← UInt8.toNat_inj]
          rw [restLength] at leftBound
          rcases Nat.lt_trichotomy leftByte.toNat rightByte.toNat with lower | same | higher
          · have scaled := Nat.mul_le_mul_left (256 ^ right.length) lower
            rw [Nat.succ_eq_add_one, Nat.mul_add, Nat.mul_one] at scaled
            constructor
            · intro _
              omega
            · intro _
              exact Or.inl lower
          · rw [same]
            simp
          · have scaled := Nat.mul_le_mul_left (256 ^ right.length) higher
            rw [Nat.succ_eq_add_one, Nat.mul_add, Nat.mul_one] at scaled
            constructor
            · intro ordered
              omega
            · intro impossible
              omega

theorem append_lt_append {left right : Bytes} (sameLength : left.length = right.length)
    (different : left ≠ right) (behindLeft behindRight : Bytes) :
    left ++ behindLeft < right ++ behindRight ↔ left < right := by
  induction left generalizing right with
  | nil => exact absurd (List.length_eq_zero_iff.mp sameLength.symm).symm different
  | cons leftByte left induction =>
      cases right with
      | nil => simp at sameLength
      | cons rightByte right =>
          rw [List.cons_append, List.cons_append, List.cons_lt_cons_iff, List.cons_lt_cons_iff]
          by_cases sameByte : leftByte = rightByte
          · have differentRest : left ≠ right := fun same => different (by rw [sameByte, same])
            rw [induction (by simpa using sameLength) differentRest]
          · simp [sameByte]

theorem encode_xor (width left right : Nat) :
    encode width (left ^^^ right) =
      List.zipWith (· ^^^ ·) (encode width left) (encode width right) := by
  rw [encode_eq_map, encode_eq_map, encode_eq_map, List.zipWith_map, List.zipWith_self]
  apply List.map_congr_left
  intro x _
  have power : 256 ^ (width - x - 1) = 2 ^ (8 * (width - x - 1)) := by
    rw [pow_mul]
    norm_num
  rw [power, Nat.xor_div_two_pow]
  exact UInt8.ofNat_xor _ _

end BigEndian

namespace BitPacking

open Positional

def packed (width : Nat) (fields : List Nat) : Nat := numeral (2 ^ width) fields

abbrev Fits (width : Nat) (fields : List Nat) : Prop := Proper (2 ^ width) fields

def fieldsOf (width count value : Nat) : List Nat := digitsOf (2 ^ width) count value

theorem packed_concat (width : Nat) (fields : List Nat) (last : Nat) :
    packed width (fields ++ [last]) = packed width fields * 2 ^ width + last :=
  numeral_concat _ _ _

theorem packed_injective {width : Nat} (positive : 0 < width) {left right : List Nat}
    (sameLength : left.length = right.length) (leftFits : Fits width left)
    (rightFits : Fits width right) (equal : packed width left = packed width right) :
    left = right :=
  numeral_injective (Nat.one_lt_two_pow positive.ne') sameLength leftFits rightFits equal

theorem packed_bytes (bytes : Bytes) :
    packed 8 (bytes.map UInt8.toNat) = BigEndian.decode bytes := by
  induction bytes with
  | nil => rfl
  | cons byte rest induction =>
      have power : 2 ^ (8 * rest.length) = 256 ^ rest.length := by
        rw [pow_mul]
        norm_num
      rw [packed] at induction ⊢
      rw [List.map_cons, numeral_cons, List.length_map, induction, BigEndian.decode_cons,
        ← pow_mul, power, Nat.mul_comm]

@[simp] theorem fieldsOf_length (width count value : Nat) :
    (fieldsOf width count value).length = count :=
  digitsOf_length _ _ _

theorem fieldsOf_succ (width count value : Nat) :
    fieldsOf width (count + 1) value =
      value / 2 ^ (width * count) % 2 ^ width :: fieldsOf width count value := by
  rw [fieldsOf, digitsOf, ← pow_mul]
  rfl

/-- What has been read is what has been written and the low bits of the accumulator. -/
structure Regrouped (inWidth outWidth : Nat) (read written : List Nat)
    (accBits accValue : Nat) : Prop where
  fits : Fits outWidth written
  bits : inWidth * read.length = outWidth * written.length + accBits
  number : packed inWidth read = packed outWidth written * 2 ^ accBits + accValue % 2 ^ accBits

section Regroup

variable {inWidth outWidth : Nat} {read written : List Nat} {accBits accValue : Nat}

theorem regrouped_empty (inWidth outWidth : Nat) : Regrouped inWidth outWidth [] [] 0 0 where
  fits := List.forall_mem_nil _
  bits := rfl
  number := rfl

theorem Regrouped.read_field (before : Regrouped inWidth outWidth read written accBits accValue)
    {field : Nat} (fieldFits : field < 2 ^ inWidth) :
    Regrouped inWidth outWidth (read ++ [field]) written (accBits + inWidth)
      (accValue * 2 ^ inWidth + field) where
  fits := before.fits
  bits := by
    have bits := before.bits
    rw [List.length_append, List.length_singleton, Nat.mul_add, Nat.mul_one]
    omega
  number := by
    have low : (accValue * 2 ^ inWidth + field) % 2 ^ (accBits + inWidth) =
        accValue % 2 ^ accBits * 2 ^ inWidth + field := by
      have lowest : (accValue * 2 ^ inWidth + field) % 2 ^ inWidth = field := by
        rw [Nat.mul_comm, Nat.mul_add_mod, Nat.mod_eq_of_lt fieldFits]
      have above : (accValue * 2 ^ inWidth + field) / 2 ^ inWidth = accValue := by
        rw [Nat.mul_comm, Nat.mul_add_div (by positivity), Nat.div_eq_of_lt fieldFits, Nat.add_zero]
      rw [Nat.add_comm accBits, pow_add, Nat.mod_mul, lowest, above]
      ring
    rw [packed_concat, before.number, low]
    ring

theorem Regrouped.write_field (before : Regrouped inWidth outWidth read written accBits accValue)
    (enough : outWidth ≤ accBits) :
    Regrouped inWidth outWidth read
      (written ++ [accValue / 2 ^ (accBits - outWidth) % 2 ^ outWidth]) (accBits - outWidth)
      accValue where
  fits := proper_concat before.fits (Nat.mod_lt _ (by positivity))
  bits := by
    have bits := before.bits
    rw [List.length_append, List.length_singleton, Nat.mul_add, Nat.mul_one]
    omega
  number := by
    have split : accBits = accBits - outWidth + outWidth := by omega
    have low : accValue % 2 ^ accBits = accValue % 2 ^ (accBits - outWidth) +
        2 ^ (accBits - outWidth) * (accValue / 2 ^ (accBits - outWidth) % 2 ^ outWidth) := by
      rw [← Nat.mod_mul, ← pow_add, ← split]
    have power : 2 ^ accBits = 2 ^ (accBits - outWidth) * 2 ^ outWidth := by
      rw [← pow_add, ← split]
    rw [packed_concat, before.number, low, power]
    ring

theorem Regrouped.register (before : Regrouped inWidth outWidth read written accBits accValue)
    {size : Nat} (inside : accBits ≤ size) :
    Regrouped inWidth outWidth read written accBits (accValue % 2 ^ size) where
  fits := before.fits
  bits := before.bits
  number := by
    rw [Nat.mod_mod_of_dvd accValue (pow_dvd_pow 2 inside)]
    exact before.number

theorem register_shift_or {size width field : Nat} (value : Nat) (fieldFits : field < 2 ^ width)
    (inside : width ≤ size) :
    (value <<< width) % 2 ^ size ||| field = (value * 2 ^ width + field) % 2 ^ size := by
  have fieldInside : field % 2 ^ size = field :=
    Nat.mod_eq_of_lt (fieldFits.trans_le (Nat.pow_le_pow_right (by decide) inside))
  rw [← Nat.shiftLeft_eq, Nat.shiftLeft_add_eq_or_of_lt fieldFits, Nat.or_mod_two_pow, fieldInside]

theorem Regrouped.written_eq (done : Regrouped inWidth outWidth read written 0 accValue)
    (positive : 0 < outWidth) :
    written = fieldsOf outWidth written.length (packed inWidth read) := by
  have number := done.number
  rw [pow_zero, Nat.mod_one, Nat.mul_one, Nat.add_zero] at number
  rw [number, fieldsOf, packed, digitsOf_numeral (Nat.one_lt_two_pow positive.ne') done.fits]

theorem Regrouped.inverse {back : List Nat} {backValue : Nat}
    (forth : Regrouped inWidth outWidth read written 0 accValue)
    (again : Regrouped outWidth inWidth written back 0 backValue)
    (positive : 0 < inWidth) (readFits : Fits inWidth read) : back = read := by
  apply packed_injective positive _ again.fits readFits
  · have forthNumber := forth.number
    have againNumber := again.number
    simp only [pow_zero, Nat.mod_one, Nat.mul_one, Nat.add_zero] at forthNumber againNumber
    rw [forthNumber, againNumber]
  · apply Nat.eq_of_mul_eq_mul_left positive
    have forthBits := forth.bits
    have againBits := again.bits
    omega

end Regroup

end BitPacking

end Miningcore

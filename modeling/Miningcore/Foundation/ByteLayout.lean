import Mathlib.Data.Vector.Basic
import Mathlib.Tactic.Ring

/-! # Fixed byte layouts

Little-endian integers and records serialized as the concatenation of fields of
known widths. A layout is a list of widths; concatenation loses nothing because
splitting at the same widths recovers the fields. -/

namespace Miningcore

abbrev Bytes := List UInt8

abbrev FixedBytes (width : Nat) := List.Vector UInt8 width

namespace LittleEndian

/-- The low `width` bytes of a natural number, least significant byte first. -/
def encode : (width : Nat) → Nat → Bytes
  | 0, _ => []
  | width + 1, value => UInt8.ofNat value :: encode width (value / 256)

def decode : Bytes → Nat
  | [] => 0
  | byte :: rest => byte.toNat + 256 * decode rest

example : encode 4 0x59ef86f2 = [0xf2, 0x86, 0xef, 0x59] := by decide

@[simp] theorem encode_length (width value : Nat) : (encode width value).length = width := by
  induction width generalizing value with
  | zero => rfl
  | succ width induction => simp [encode, induction]

theorem decode_encode (width value : Nat) (fits : value < 256 ^ width) :
    decode (encode width value) = value := by
  induction width generalizing value with
  | zero =>
      have zero : value = 0 := by simpa using fits
      simp [encode, decode, zero]
  | succ width induction =>
      have quotientFits : value / 256 < 256 ^ width := by
        rw [pow_succ] at fits
        exact Nat.div_lt_of_lt_mul (by rw [Nat.mul_comm]; exact fits)
      have lowByte : (UInt8.ofNat value).toNat = value % 256 := UInt8.toNat_ofNat'
      rw [encode, decode, induction (value / 256) quotientFits, lowByte]
      exact Nat.mod_add_div value 256

theorem encode_mod (width value : Nat) :
    encode width (value % 256 ^ width) = encode width value := by
  induction width generalizing value with
  | zero => rfl
  | succ width induction =>
      have quotient : value % 256 ^ (width + 1) / 256 = value / 256 % 256 ^ width := by
        rw [pow_succ, Nat.mul_comm, Nat.mod_mul_right_div_self]
      have lowByte : UInt8.ofNat (value % 256 ^ (width + 1)) = UInt8.ofNat value := by
        apply UInt8.toNat_inj.mp
        rw [UInt8.toNat_ofNat', UInt8.toNat_ofNat', pow_succ, Nat.mul_comm]
        exact Nat.mod_mul_right_mod value 256 (256 ^ width)
      rw [encode, encode, quotient, induction, lowByte]

theorem encode_injective (width left right : Nat) (leftFits : left < 256 ^ width)
    (rightFits : right < 256 ^ width) (equal : encode width left = encode width right) :
    left = right := by
  rw [← decode_encode width left leftFits, ← decode_encode width right rightFits, equal]

theorem decode_append (left right : Bytes) :
    decode (left ++ right) = decode left + 256 ^ left.length * decode right := by
  induction left with
  | nil => simp [decode]
  | cons byte left induction =>
      rw [List.cons_append, decode, decode, induction, List.length_cons, pow_succ]
      ring

theorem encode_decode (bytes : Bytes) : encode bytes.length (decode bytes) = bytes := by
  induction bytes with
  | nil => rfl
  | cons byte rest induction =>
      have byteBound : byte.toNat < 256 := byte.toNat_lt
      have quotient : (byte.toNat + 256 * decode rest) / 256 = decode rest := by omega
      have lowByte : UInt8.ofNat (byte.toNat + 256 * decode rest) = byte := by
        apply UInt8.toNat_inj.mp
        rw [UInt8.toNat_ofNat']
        omega
      rw [decode, List.length_cons, encode, quotient, induction, lowByte]

end LittleEndian

/-- The low `width` bytes of a natural number, most significant byte first. -/
def BigEndian.encode (width value : Nat) : Bytes := (LittleEndian.encode width value).reverse

@[simp] theorem BigEndian.encode_length (width value : Nat) :
    (encode width value).length = width := by
  rw [encode, List.length_reverse, LittleEndian.encode_length]

theorem LittleEndian.dropLast_encode (width value : Nat) :
    (encode (width + 1) value).dropLast = encode width value := by
  induction width generalizing value with
  | zero => rfl
  | succ width induction =>
      rw [encode, List.dropLast_cons_of_ne_nil, induction, encode]
      intro impossible
      cases impossible

theorem BigEndian.tail_encode (width value : Nat) :
    (encode (width + 1) value).tail ++ [0] = encode (width + 1) (256 * value) := by
  have lowByte : UInt8.ofNat (256 * value) = 0 := by
    apply UInt8.toNat_inj.mp
    rw [UInt8.toNat_ofNat', Nat.mul_mod_right]
    rfl
  have quotient : 256 * value / 256 = value := Nat.mul_div_cancel_left value (by decide)
  rw [encode, encode, List.tail_reverse, LittleEndian.dropLast_encode, LittleEndian.encode,
    List.reverse_cons, lowByte, quotient]

theorem LittleEndian.encode_add (low high value : Nat) :
    encode (low + high) value = encode low value ++ encode high (value / 256 ^ low) := by
  induction low generalizing value with
  | zero => simp [encode]
  | succ low induction =>
      rw [Nat.succ_add, encode, induction, encode, List.cons_append, Nat.div_div_eq_div_mul,
        pow_succ, Nat.mul_comm]

theorem LittleEndian.encode_zero (width : Nat) : encode width 0 = List.replicate width 0 := by
  induction width with
  | zero => rfl
  | succ width induction => exact congrArg (0 :: ·) induction

theorem BigEndian.replicate_append_encode {width value : Nat} (fits : value < 256 ^ width)
    (more : Nat) : List.replicate more 0 ++ encode width value = encode (width + more) value := by
  rw [encode, encode, LittleEndian.encode_add, Nat.div_eq_of_lt fits, LittleEndian.encode_zero,
    List.reverse_append, List.reverse_replicate]

theorem BigEndian.take_encode (high low value : Nat) :
    (encode (high + low) value).take high = encode high (value / 256 ^ low) := by
  rw [encode, encode, Nat.add_comm, LittleEndian.encode_add, List.reverse_append]
  exact List.take_left' (by rw [List.length_reverse, LittleEndian.encode_length])

def FixedBytes.ofNumber (width value : Nat) : FixedBytes width :=
  ⟨BigEndian.encode width value, by simp [BigEndian.encode]⟩

namespace ByteLayout

/-- A list is another one with a source written into it at an offset, as far as it
reaches. -/
structure Written {α : Type} (source : List α) (offset : Nat) (before after : List α) : Prop where
  length : after.length = before.length
  inside : ∀ index < source.length, offset + index < before.length →
    after[offset + index]? = source[index]?
  outside : ∀ index, index < offset ∨ offset + source.length ≤ index →
    after[index]? = before[index]?

def overwrite {α : Type} (source : List α) (offset : Nat) (destination : List α) : List α :=
  (destination.take offset ++ source ++ destination.drop (offset + source.length)).take
    destination.length

theorem written_overwrite {α : Type} (source : List α) (offset : Nat) (destination : List α) :
    Written source offset destination (overwrite source offset destination) := by
  have length : (overwrite source offset destination).length = destination.length := by
    rw [overwrite, List.length_take, List.length_append, List.length_append, List.length_take,
      List.length_drop]
    omega
  refine ⟨length, ?_, ?_⟩
  · intro index inSource inDestination
    have front : (destination.take offset).length = offset := by
      rw [List.length_take]
      omega
    rw [overwrite, List.getElem?_take_of_lt inDestination, List.append_assoc,
      List.getElem?_append_right (by omega), front, Nat.add_sub_cancel_left,
      List.getElem?_append_left inSource]
  · intro index outside
    by_cases inDestination : index < destination.length
    · rw [overwrite, List.getElem?_take_of_lt inDestination, List.append_assoc]
      rcases outside with before | behind
      · rw [List.getElem?_append_left (by rw [List.length_take]; omega),
          List.getElem?_take_of_lt before]
      · have front : (destination.take offset).length = offset := by
          rw [List.length_take]
          omega
        rw [List.getElem?_append_right (by omega), front,
          List.getElem?_append_right (by omega), List.getElem?_drop]
        congr 1
        omega
    · rw [List.getElem?_eq_none (by omega), List.getElem?_eq_none (by omega)]

theorem overwrite_inside {α : Type} {source destination : List α} {offset : Nat}
    (inside : offset + source.length ≤ destination.length) :
    overwrite source offset destination =
      destination.take offset ++ source ++ destination.drop (offset + source.length) := by
  apply List.take_of_length_le
  rw [List.length_append, List.length_append, List.length_take, List.length_drop]
  omega

theorem flatten_injective {α : Type} (left right : List (List α))
    (sameShape : left.map List.length = right.map List.length)
    (equal : left.flatten = right.flatten) : left = right := by
  induction left generalizing right with
  | nil =>
      have rightEmpty : right = [] := List.map_eq_nil_iff.mp sameShape.symm
      rw [rightEmpty]
  | cons leftField left induction =>
      cases right with
      | nil => simp at sameShape
      | cons rightField right =>
          rw [List.map_cons, List.map_cons, List.cons.injEq] at sameShape
          rw [List.flatten_cons, List.flatten_cons] at equal
          rcases List.append_inj equal sameShape.1 with ⟨fieldEqual, restEqual⟩
          rw [fieldEqual, induction right sameShape.2 restEqual]

/-- Reading a record consumes a byte stream from the front and fails when the
stream ends early. -/
abbrev Reader := StateT Bytes Option

def readArray (width : Nat) : Reader (List.Vector UInt8 width) := fun input =>
  if enough : width ≤ input.length then
    some (⟨input.take width, List.length_take_of_le enough⟩, input.drop width)
  else
    none

def readInteger (width : Nat) : Reader Nat := do
  return LittleEndian.decode (← readArray width).toList

theorem readArray_append {width : Nat} (field : List.Vector UInt8 width) (rest : Bytes) :
    readArray width (field.toList ++ rest) = some (field, rest) := by
  have fieldLength := field.toList_length
  have enough : width ≤ (field.toList ++ rest).length := by
    rw [List.length_append]
    omega
  rw [readArray, dif_pos enough]
  congr
  · exact List.take_left' fieldLength
  · exact List.drop_left' fieldLength

theorem read_pure {α : Type} (value : α) (rest : Bytes) :
    (pure value : Reader α) rest = some (value, rest) := rfl

theorem readInteger_append (width value : Nat) (fits : value < 256 ^ width) (rest : Bytes) :
    readInteger width (LittleEndian.encode width value ++ rest) = some (value, rest) := by
  have encoded : ∃ field : List.Vector UInt8 width,
      field.toList = LittleEndian.encode width value :=
    ⟨⟨LittleEndian.encode width value, LittleEndian.encode_length width value⟩, rfl⟩
  rcases encoded with ⟨field, fieldBytes⟩
  have array := readArray_append field rest
  rw [fieldBytes] at array
  simp only [readInteger, bind, StateT.bind, array, Option.bind_some, read_pure,
    fieldBytes, LittleEndian.decode_encode width value fits]

variable {α : Type}

theorem readArray_bind {width : Nat} (field : List.Vector UInt8 width) (rest : Bytes)
    (next : List.Vector UInt8 width → Reader α) :
    (readArray width >>= next) (field.toList ++ rest) = next field rest := by
  simp only [bind, StateT.bind, readArray_append, Option.bind_some]

theorem readInteger_bind (width value : Nat) (fits : value < 256 ^ width) (rest : Bytes)
    (next : Nat → Reader α) :
    (readInteger width >>= next) (LittleEndian.encode width value ++ rest) = next value rest := by
  simp only [bind, StateT.bind, readInteger_append width value fits, Option.bind_some]

theorem read_bind {β : Type} {first : Reader β} {input rest : Bytes} {value : β}
    (reads : first input = some (value, rest)) (next : β → Reader α) :
    (first >>= next) input = next value rest := by
  simp only [bind, StateT.bind, reads, Option.bind_some]

def readBytes (length : Nat) : Reader Bytes := do
  return (← readArray length).toList

theorem readBytes_append (bytes rest : Bytes) :
    readBytes bytes.length (bytes ++ rest) = some (bytes, rest) :=
  readArray_bind ⟨bytes, rfl⟩ rest fun array => pure array.toList

/-- A reader that takes what a writer writes, and nothing else. -/
structure ReadsWritten (reader : Reader α) (write : α → Bytes) : Prop where
  complete : ∀ record rest, reader (write record ++ rest) = some (record, rest)
  sound : ∀ {input record rest}, reader input = some (record, rest) → input = write record ++ rest

theorem readsWritten_array (width : Nat) :
    ReadsWritten (readArray width) List.Vector.toList where
  complete := readArray_append
  sound := by
    intro input record rest reads
    rw [readArray] at reads
    split_ifs at reads
    cases reads
    exact (List.take_append_drop width input).symm

theorem ReadsWritten.both {β γ : Type} {first : Reader β} {second : Reader γ}
    {writeFirst : β → Bytes} {writeSecond : γ → Bytes} {write : α → Bytes}
    (readsFirst : ReadsWritten first writeFirst) (readsSecond : ReadsWritten second writeSecond)
    (make : β → γ → α) (parts : ∀ record, ∃ left right, record = make left right)
    (writes : ∀ left right, write (make left right) = writeFirst left ++ writeSecond right) :
    ReadsWritten (do
      let left ← first
      let right ← second
      return make left right) write where
  complete := by
    intro record rest
    rcases parts record with ⟨left, right, same⟩
    rw [same, writes, List.append_assoc, read_bind (readsFirst.complete left _),
      read_bind (readsSecond.complete right _), read_pure]
  sound := by
    intro input record rest reads
    simp only [bind, StateT.bind, Option.bind_eq_some_iff] at reads
    rcases reads with ⟨⟨left, behind⟩, reads, ⟨right, behindBoth⟩, alsoReads, returned⟩
    cases returned
    simp only at alsoReads ⊢
    rw [readsFirst.sound reads, readsSecond.sound alsoReads, writes, List.append_assoc]

def readMany (reader : Reader α) : Nat → Reader (List α)
  | 0 => pure []
  | count + 1 => do
      let first ← reader
      let others ← readMany reader count
      return first :: others

theorem readMany_one {reader : Reader α} {input rest : Bytes} {record : α}
    (reads : reader input = some (record, rest)) :
    readMany reader 1 input = some ([record], rest) :=
  read_bind reads _

theorem readMany_append {reader : Reader α} {write : α → Bytes} (records : List α)
    (reads : ∀ record ∈ records, ∀ rest,
      reader (write record ++ rest) = some (record, rest)) (rest : Bytes) :
    readMany reader records.length (records.flatMap write ++ rest) = some (records, rest) := by
  induction records with
  | nil => rfl
  | cons record records induction =>
      have others := induction fun other member => reads other (List.mem_cons_of_mem _ member)
      rw [List.flatMap_cons, List.append_assoc, List.length_cons, readMany,
        read_bind (reads record List.mem_cons_self _), read_bind others]
      rfl

end ByteLayout

end Miningcore

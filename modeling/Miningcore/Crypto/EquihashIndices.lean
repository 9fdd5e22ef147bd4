import Mathlib.Tactic.IntervalCases
import Miningcore.Foundation.BitPacking

/-! The index lists of `equihash.cpp`: `ExpandArray` and `CompressArray`, and with them the
minimal representation of a solution. Registers are `uint32_t`; a failed assertion and an access
behind an array are `none`. -/

namespace Miningcore.Equihash

open BitPacking

def ehIndexSize : Nat := 4

def bitLenMask (bitLen : Nat) : Nat := (1 <<< bitLen) - 1

/-- The two assertions on `bit_len` that both functions make. -/
def validBitLen (bitLen : Nat) : Bool := 8 ≤ bitLen && 7 + bitLen ≤ 8 * 4

/-- `out` holds the bytes before `out[j]`. -/
structure Expansion where
  accBits : Nat := 0
  accValue : Nat := 0
  out : Bytes := []
deriving Repr

def expandElement (bitLen bytePad outWidth accBits accValue : Nat) : Bytes :=
  List.replicate bytePad 0 ++ (List.range' bytePad (outWidth - bytePad)).map fun x =>
    UInt8.ofNat ((accValue >>> (accBits + 8 * (outWidth - x - 1))) &&&
      ((bitLenMask bitLen >>> (8 * (outWidth - x - 1))) &&& 0xFF))

def expandStep (bitLen bytePad outWidth : Nat) (state : Expansion) (byte : UInt8) : Expansion :=
  let accValue := (state.accValue <<< 8) % 2 ^ 32 ||| byte.toNat
  let accBits := state.accBits + 8
  if bitLen ≤ accBits then
    { accBits := accBits - bitLen
      accValue := accValue
      out := state.out ++ expandElement bitLen bytePad outWidth (accBits - bitLen) accValue }
  else { state with accBits := accBits, accValue := accValue }

/-- The bytes of `out` from its start on; those behind the written ones stay. -/
def expandArray (input out : Bytes) (outLen bitLen bytePad : Nat) : Option Bytes :=
  let outWidth := (bitLen + 7) / 8 + bytePad
  if validBitLen bitLen ∧ outLen = 8 * outWidth * input.length / bitLen then
    let written := (input.foldl (expandStep bitLen bytePad outWidth) {}).out
    some (written ++ out.drop written.length)
  else none

/-- `input` holds the bytes from `in[j]` on. -/
structure Compression where
  accBits : Nat := 0
  accValue : Nat := 0
  input : Bytes
  out : Bytes := []
deriving Repr

/-- The bytes of an element behind its padding, read into the accumulator. The shift of a byte is
eight for each byte behind it. -/
def compressElement (bitLen : Nat) (accValue : Nat) : Bytes → Nat
  | [] => accValue
  | byte :: rest =>
      compressElement bitLen (accValue |||
        ((byte.toNat &&& ((bitLenMask bitLen >>> (8 * rest.length)) &&& 0xFF)) <<<
          (8 * rest.length))) rest

def readElement (bitLen bytePad inWidth : Nat) (state : Compression) : Option Compression :=
  if inWidth ≤ state.input.length then
    some { state with
      accBits := state.accBits + bitLen
      accValue := compressElement bitLen ((state.accValue <<< bitLen) % 2 ^ 32)
        ((state.input.take inWidth).drop bytePad)
      input := state.input.drop inWidth }
  else none

/-- `out[i]`, from the high end of the accumulator. -/
def writeByte (state : Compression) : Compression :=
  { state with
    accBits := state.accBits - 8
    out := state.out ++ [UInt8.ofNat ((state.accValue >>> (state.accBits - 8)) &&& 0xFF)] }

def compressStep (bitLen bytePad inWidth : Nat) (state : Compression) : Option Compression :=
  if state.accBits < 8 then (readElement bitLen bytePad inWidth state).map writeByte
  else some (writeByte state)

def compressBytes (bitLen bytePad inWidth : Nat) : Nat → Compression → Option Compression
  | 0, state => some state
  | remaining + 1, state => do
      compressBytes bitLen bytePad inWidth remaining (← compressStep bitLen bytePad inWidth state)

def compressArray (input : Bytes) (outLen bitLen bytePad : Nat) : Option Bytes :=
  let inWidth := (bitLen + 7) / 8 + bytePad
  if validBitLen bitLen ∧ outLen = bitLen * input.length / (8 * inWidth) then
    (compressBytes bitLen bytePad inWidth outLen { input := input }).map Compression.out
  else none

def ehIndexToArray (index : Nat) : Bytes := BigEndian.encode ehIndexSize index

def arrayToEhIndex (array : Bytes) : Nat := BigEndian.decode array

def indicesOfArray : Bytes → Option (List Nat)
  | [] => some []
  | first :: second :: third :: fourth :: rest => do
      return arrayToEhIndex [first, second, third, fourth] :: (← indicesOfArray rest)
  | _ => none

def bytePad (cBitLen : Nat) : Nat := ehIndexSize - ((cBitLen + 1) + 7) / 8

def getIndicesFromMinimal (minimal : Bytes) (cBitLen : Nat) : Option (List Nat) :=
  if ((cBitLen + 1) + 7) / 8 ≤ ehIndexSize then do
    let lenIndices := 8 * ehIndexSize * minimal.length / (cBitLen + 1)
    let array ← expandArray minimal (List.replicate lenIndices 0) lenIndices (cBitLen + 1)
      (bytePad cBitLen)
    indicesOfArray array
  else none

def getMinimalFromIndices (indices : List Nat) (cBitLen : Nat) : Option Bytes :=
  if ((cBitLen + 1) + 7) / 8 ≤ ehIndexSize then
    let lenIndices := indices.length * ehIndexSize
    let minLen := (cBitLen + 1) * lenIndices / (8 * ehIndexSize)
    compressArray (indices.flatMap ehIndexToArray) minLen (cBitLen + 1) (bytePad cBitLen)
  else none

/-! ## Registers -/

section Registers

variable {bitLen : Nat}

theorem bitLenMask_eq (bitLen : Nat) : bitLenMask bitLen = 2 ^ bitLen - 1 := by
  rw [bitLenMask, Nat.shiftLeft_eq, Nat.one_mul]

theorem masked_byte (accBits accValue shift : Nat) :
    (accValue >>> (accBits + 8 * shift)) &&& ((bitLenMask bitLen >>> (8 * shift)) &&& 0xFF) =
      accValue / 2 ^ accBits % 2 ^ bitLen / 256 ^ shift % 2 ^ 8 := by
  have power : 256 ^ shift = 2 ^ (8 * shift) := by rw [pow_mul]; norm_num
  have byteMask : (0xFF : Nat) = 2 ^ 8 - 1 := rfl
  rw [power, bitLenMask_eq, byteMask]
  apply Nat.eq_of_testBit_eq
  intro bit
  simp only [Nat.testBit_and, Nat.testBit_shiftRight, Nat.testBit_two_pow_sub_one,
    Nat.testBit_mod_two_pow, Nat.testBit_div_two_pow]
  have position : accBits + 8 * shift + bit = bit + 8 * shift + accBits := by omega
  have masked : 8 * shift + bit = bit + 8 * shift := Nat.add_comm _ _
  rw [position, masked]
  cases decide (bit < 8) <;> simp [Bool.and_comm]

theorem compressElement_eq (accValue : Nat) (bytes : Bytes) :
    compressElement bitLen accValue bytes =
      accValue ||| (BigEndian.decode bytes &&& bitLenMask bitLen) := by
  induction bytes generalizing accValue with
  | nil => simp [compressElement, BigEndian.decode, LittleEndian.decode]
  | cons byte rest induction =>
      have number : BigEndian.decode (byte :: rest) =
          (byte.toNat <<< (8 * rest.length)) ||| BigEndian.decode rest := by
        have restBound := BigEndian.decode_lt rest
        have power : 256 ^ rest.length = 2 ^ (8 * rest.length) := by rw [pow_mul]; norm_num
        rw [power] at restBound
        rw [BigEndian.decode_cons, ← Nat.shiftLeft_add_eq_or_of_lt restBound, Nat.shiftLeft_eq,
          power, Nat.mul_comm]
      have masked : (byte.toNat &&& ((bitLenMask bitLen >>> (8 * rest.length)) &&& 0xFF)) <<<
          (8 * rest.length) = (byte.toNat <<< (8 * rest.length)) &&& bitLenMask bitLen := by
        have byteMask : (0xFF : Nat) = 2 ^ 8 - 1 := rfl
        have byteBound : byte.toNat % 2 ^ 8 = byte.toNat := Nat.mod_eq_of_lt byte.toNat_lt
        rw [Nat.and_comm _ 0xFF, ← Nat.and_assoc, byteMask, Nat.and_two_pow_sub_one_eq_mod,
          byteBound]
        apply Nat.eq_of_testBit_eq
        intro bit
        simp only [Nat.testBit_and, Nat.testBit_shiftRight, Nat.testBit_shiftLeft]
        by_cases above : 8 * rest.length ≤ bit
        · simp [above]
        · simp [above]
      rw [compressElement, induction, number, masked, Nat.and_or_distrib_right, Nat.or_assoc]

end Registers

/-! ## Expansion -/

section Expand

variable {bitLen : Nat}

theorem expandElement_eq (bytePad accBits accValue : Nat) :
    expandElement bitLen bytePad ((bitLen + 7) / 8 + bytePad) accBits accValue =
      BigEndian.encode ((bitLen + 7) / 8 + bytePad) (accValue / 2 ^ accBits % 2 ^ bitLen) := by
  have covers : 2 ^ bitLen ≤ 256 ^ ((bitLen + 7) / 8) := by
    have power : 256 ^ ((bitLen + 7) / 8) = 2 ^ (8 * ((bitLen + 7) / 8)) := by
      rw [pow_mul]
      norm_num
    rw [power]
    exact Nat.pow_le_pow_right (by decide) (by omega)
  have fits : accValue / 2 ^ accBits % 2 ^ bitLen < 256 ^ ((bitLen + 7) / 8) :=
    (Nat.mod_lt _ (by positivity)).trans_le covers
  rw [expandElement, ← BigEndian.replicate_append_encode fits, BigEndian.encode_eq_map,
    Nat.add_sub_cancel, List.range'_eq_map_range, List.map_map]
  congr 1
  apply List.map_congr_left
  intro x _
  have behind : (bitLen + 7) / 8 + bytePad - (bytePad + x) - 1 = (bitLen + 7) / 8 - x - 1 := by
    omega
  rw [Function.comp_apply, behind, masked_byte]
  apply UInt8.toNat_inj.mp
  rw [UInt8.toNat_ofNat', UInt8.toNat_ofNat', Nat.mod_mod]

/-- The fields that have been written for the bytes read so far. -/
structure Expanding (bitLen bytePad : Nat) (read : Bytes) (values : List Nat)
    (state : Expansion) : Prop where
  regrouped : Regrouped 8 bitLen (read.map UInt8.toNat) values state.accBits state.accValue
  unfinished : state.accBits < bitLen
  out : state.out = values.flatMap (BigEndian.encode ((bitLen + 7) / 8 + bytePad))

theorem expanding_step {bytePad : Nat} {read : Bytes} {values : List Nat} {state : Expansion}
    (atLeastByte : 8 ≤ bitLen) (inRegister : bitLen ≤ 25)
    (before : Expanding bitLen bytePad read values state) (byte : UInt8) :
    ∃ values', Expanding bitLen bytePad (read ++ [byte]) values'
      (expandStep bitLen bytePad ((bitLen + 7) / 8 + bytePad) state byte) := by
  have unfinished := before.unfinished
  have shifted := register_shift_or state.accValue (byte.toNat_lt) (by decide : 8 ≤ 32)
  have readByte := (before.regrouped.read_field (byte.toNat_lt : byte.toNat < 2 ^ 8)).register
    (by omega : state.accBits + 8 ≤ 32)
  rw [← shifted] at readByte
  have readBytes : (read ++ [byte]).map UInt8.toNat = read.map UInt8.toNat ++ [byte.toNat] :=
    List.map_append
  rw [← readBytes] at readByte
  by_cases enough : bitLen ≤ state.accBits + 8
  · have written := readByte.write_field enough
    rw [expandStep, if_pos enough]
    exact ⟨_, {
      regrouped := written
      unfinished := by
        show state.accBits + 8 - bitLen < bitLen
        omega
      out := by rw [expandElement_eq, before.out, List.flatMap_append, List.flatMap_singleton] }⟩
  · rw [expandStep, if_neg enough]
    exact ⟨values, {
      regrouped := readByte
      unfinished := Nat.not_le.mp enough
      out := before.out }⟩

theorem expanding_run {bytePad : Nat} (atLeastByte : 8 ≤ bitLen) (inRegister : bitLen ≤ 25)
    (input : Bytes) {read : Bytes} {values : List Nat} {state : Expansion}
    (before : Expanding bitLen bytePad read values state) :
    ∃ values', Expanding bitLen bytePad (read ++ input) values'
      (input.foldl (expandStep bitLen bytePad ((bitLen + 7) / 8 + bytePad)) state) := by
  induction input generalizing read values state with
  | nil =>
      rw [List.append_nil]
      exact ⟨values, before⟩
  | cons byte input induction =>
      rcases expanding_step atLeastByte inRegister before byte with ⟨values', after⟩
      rw [List.append_cons]
      exact induction after

theorem expandArray_eq {bytePad outLen : Nat} {input : Bytes} (out : Bytes)
    (valid : validBitLen bitLen = true)
    (sized : outLen = 8 * ((bitLen + 7) / 8 + bytePad) * input.length / bitLen) :
    ∃ values accBits accValue,
      Regrouped 8 bitLen (input.map UInt8.toNat) values accBits accValue ∧ accBits < bitLen ∧
      expandArray input out outLen bitLen bytePad =
        some (values.flatMap (BigEndian.encode ((bitLen + 7) / 8 + bytePad)) ++
          out.drop (values.length * ((bitLen + 7) / 8 + bytePad))) := by
  have bounds := valid
  simp only [validBitLen, Bool.and_eq_true, decide_eq_true_eq] at bounds
  have start : Expanding bitLen bytePad [] [] {} := {
    regrouped := regrouped_empty 8 bitLen
    unfinished := by
      show 0 < bitLen
      omega
    out := rfl }
  rcases expanding_run bounds.1 (by omega) input start with ⟨values, done⟩
  rw [List.nil_append] at done
  have length : (values.flatMap (BigEndian.encode ((bitLen + 7) / 8 + bytePad))).length =
      values.length * ((bitLen + 7) / 8 + bytePad) := by
    simp [List.length_flatMap]
  refine ⟨values, _, _, done.regrouped, done.unfinished, ?_⟩
  rw [expandArray, if_pos ⟨valid, sized⟩, ← length, ← done.out]

end Expand

/-! ## Compression -/

section Compress

variable {bitLen : Nat}

/-- The fields that have been read for the bytes written so far, and the ones that follow. -/
structure Compressing (bitLen bytePad : Nat) (read remaining : List Nat)
    (state : Compression) : Prop where
  regrouped : Regrouped bitLen 8 read (state.out.map UInt8.toNat) state.accBits state.accValue
  unfinished : state.accBits < bitLen
  fits : Fits bitLen remaining
  input : state.input = remaining.flatMap (BigEndian.encode ((bitLen + 7) / 8 + bytePad))

theorem compressElement_encode {bytePad field : Nat} (accValue : Nat) (fits : field < 2 ^ bitLen) :
    compressElement bitLen accValue
        ((BigEndian.encode ((bitLen + 7) / 8 + bytePad) field).drop bytePad) =
      accValue ||| field := by
  have covers : 2 ^ bitLen ≤ 256 ^ ((bitLen + 7) / 8) := by
    have power : 256 ^ ((bitLen + 7) / 8) = 2 ^ (8 * ((bitLen + 7) / 8)) := by
      rw [pow_mul]
      norm_num
    rw [power]
    exact Nat.pow_le_pow_right (by decide) (by omega)
  rw [← BigEndian.replicate_append_encode (fits.trans_le covers),
    List.drop_left' List.length_replicate, compressElement_eq,
    BigEndian.decode_encode (fits.trans_le covers), bitLenMask_eq, Nat.and_two_pow_sub_one_eq_mod,
    Nat.mod_eq_of_lt fits]

theorem compressing_read {bytePad field : Nat} {read remaining : List Nat} {state : Compression}
    (inRegister : bitLen ≤ 25) (low : state.accBits < 8)
    (before : Compressing bitLen bytePad read (field :: remaining) state) :
    ∃ state', readElement bitLen bytePad ((bitLen + 7) / 8 + bytePad) state = some state' ∧
      state'.out = state.out ∧ state'.accBits = state.accBits + bitLen ∧
      state'.input = remaining.flatMap (BigEndian.encode ((bitLen + 7) / 8 + bytePad)) ∧
      Regrouped bitLen 8 (read ++ [field]) (state'.out.map UInt8.toNat) state'.accBits
        state'.accValue := by
  have fieldFits := before.fits field List.mem_cons_self
  have element : state.input = BigEndian.encode ((bitLen + 7) / 8 + bytePad) field ++
      remaining.flatMap (BigEndian.encode ((bitLen + 7) / 8 + bytePad)) := by
    rw [before.input, List.flatMap_cons]
  have enough : (bitLen + 7) / 8 + bytePad ≤ state.input.length := by
    rw [element, List.length_append, BigEndian.encode_length]
    omega
  have taken : state.input.take ((bitLen + 7) / 8 + bytePad) =
      BigEndian.encode ((bitLen + 7) / 8 + bytePad) field := by
    rw [element, List.take_left' (BigEndian.encode_length _ _)]
  have dropped : state.input.drop ((bitLen + 7) / 8 + bytePad) =
      remaining.flatMap (BigEndian.encode ((bitLen + 7) / 8 + bytePad)) := by
    rw [element, List.drop_left' (BigEndian.encode_length _ _)]
  have shifted := register_shift_or state.accValue fieldFits (by omega : bitLen ≤ 32)
  have readField := (before.regrouped.read_field fieldFits).register
    (by omega : state.accBits + bitLen ≤ 32)
  rw [← shifted] at readField
  rw [readElement, if_pos enough, taken, dropped, compressElement_encode _ fieldFits]
  exact ⟨_, rfl, rfl, rfl, rfl, readField⟩

theorem regrouped_byte {read : List Nat} {out : Bytes} {accBits accValue : Nat}
    (before : Regrouped bitLen 8 read (out.map UInt8.toNat) accBits accValue)
    (enough : 8 ≤ accBits) :
    Regrouped bitLen 8 read
      ((out ++ [UInt8.ofNat ((accValue >>> (accBits - 8)) &&& 0xFF)]).map UInt8.toNat)
      (accBits - 8) accValue := by
  have byteMask : (0xFF : Nat) = 2 ^ 8 - 1 := rfl
  have byte : (UInt8.ofNat ((accValue >>> (accBits - 8)) &&& 0xFF)).toNat =
      accValue / 2 ^ (accBits - 8) % 2 ^ 8 := by
    rw [UInt8.toNat_ofNat', byteMask, Nat.and_two_pow_sub_one_eq_mod, Nat.mod_mod,
      Nat.shiftRight_eq_div_pow]
  rw [List.map_append, List.map_singleton, byte]
  exact before.write_field enough

theorem compressing_write {bytePad : Nat} {read remaining : List Nat} {state : Compression}
    (regrouped : Regrouped bitLen 8 read (state.out.map UInt8.toNat) state.accBits state.accValue)
    (enough : 8 ≤ state.accBits) (unfinished : state.accBits - 8 < bitLen)
    (fits : Fits bitLen remaining)
    (input : state.input = remaining.flatMap (BigEndian.encode ((bitLen + 7) / 8 + bytePad))) :
    Compressing bitLen bytePad read remaining (writeByte state) where
  regrouped := regrouped_byte regrouped enough
  unfinished := unfinished
  fits := fits
  input := input

theorem compressing_step {bytePad : Nat} {read remaining : List Nat} {state : Compression}
    (atLeastByte : 8 ≤ bitLen) (inRegister : bitLen ≤ 25)
    (before : Compressing bitLen bytePad read remaining state)
    (available : 8 ≤ state.accBits ∨ remaining ≠ []) :
    ∃ read' remaining' state', read' ++ remaining' = read ++ remaining ∧
      compressStep bitLen bytePad ((bitLen + 7) / 8 + bytePad) state = some state' ∧
      state'.out.length = state.out.length + 1 ∧
      Compressing bitLen bytePad read' remaining' state' := by
  have unfinished := before.unfinished
  have oneMore (from' : Compression) : (writeByte from').out.length = from'.out.length + 1 :=
    List.length_append
  by_cases low : state.accBits < 8
  · cases remaining with
    | nil =>
        rcases available with enough | left
        · omega
        · exact absurd rfl left
    | cons field remaining =>
        rcases compressing_read inRegister low before with
          ⟨filled, reads, sameOut, moreBits, input, regrouped⟩
        have fields : read ++ [field] ++ remaining = read ++ field :: remaining :=
          (List.append_cons read field remaining).symm
        refine ⟨read ++ [field], remaining, writeByte filled, fields, ?_, ?_, ?_⟩
        · rw [compressStep, if_pos low, reads, Option.map_some]
        · rw [oneMore, sameOut]
        · exact compressing_write regrouped (by omega) (by omega)
            (fun other member => before.fits other (List.mem_cons_of_mem _ member)) input
  · refine ⟨read, remaining, writeByte state, rfl, ?_, oneMore state, ?_⟩
    · rw [compressStep, if_neg low]
    · exact compressing_write before.regrouped (by omega) (by omega) before.fits before.input

theorem compressing_run {bytePad : Nat} (atLeastByte : 8 ≤ bitLen) (inRegister : bitLen ≤ 25)
    (count : Nat) {read remaining : List Nat} {state : Compression}
    (before : Compressing bitLen bytePad read remaining state)
    (available : 8 * (state.out.length + count) ≤ bitLen * (read ++ remaining).length) :
    ∃ read' remaining' state', read' ++ remaining' = read ++ remaining ∧
      compressBytes bitLen bytePad ((bitLen + 7) / 8 + bytePad) count state = some state' ∧
      state'.out.length = state.out.length + count ∧
      Compressing bitLen bytePad read' remaining' state' := by
  induction count generalizing read remaining state with
  | zero => exact ⟨read, remaining, state, rfl, rfl, rfl, before⟩
  | succ count induction =>
      have oneAvailable : 8 ≤ state.accBits ∨ remaining ≠ [] := by
        rcases List.eq_nil_or_concat remaining with none | some
        · have bits := before.regrouped.bits
          rw [none, List.append_nil] at available
          rw [List.length_map] at bits
          omega
        · rcases some with ⟨front, last, remainingEq⟩
          rw [remainingEq]
          exact Or.inr (by simp)
      rcases compressing_step atLeastByte inRegister before oneAvailable with
        ⟨read₁, remaining₁, state₁, fields₁, step, oneMore, after⟩
      have stillAvailable : 8 * (state₁.out.length + count) ≤
          bitLen * (read₁ ++ remaining₁).length := by
        rw [fields₁, oneMore]
        omega
      rcases induction after stillAvailable with
        ⟨read₂, remaining₂, state₂, fields₂, steps, more, done⟩
      refine ⟨read₂, remaining₂, state₂, fields₂.trans fields₁, ?_, ?_, done⟩
      · rw [compressBytes, step]
        exact steps
      · rw [more, oneMore]
        omega

theorem compressArray_eq (bytePad : Nat) {outLen : Nat} {values : List Nat}
    (valid : validBitLen bitLen = true) (fits : Fits bitLen values)
    (sized : outLen = bitLen * values.length / 8) :
    ∃ out accBits accValue,
      Regrouped bitLen 8 values (out.map UInt8.toNat) accBits accValue ∧ accBits < 8 ∧
      compressArray (values.flatMap (BigEndian.encode ((bitLen + 7) / 8 + bytePad))) outLen bitLen
        bytePad = some out := by
  have bounds := valid
  simp only [validBitLen, Bool.and_eq_true, decide_eq_true_eq] at bounds
  have start : Compressing bitLen bytePad [] values
      { input := values.flatMap (BigEndian.encode ((bitLen + 7) / 8 + bytePad)) } := {
    regrouped := regrouped_empty bitLen 8
    unfinished := by
      show 0 < bitLen
      omega
    fits := fits
    input := rfl }
  have enough : 8 * (0 + outLen) ≤ bitLen * ([] ++ values).length := by
    rw [Nat.zero_add, List.nil_append, sized]
    exact Nat.mul_div_le _ _
  rcases compressing_run bounds.1 (by omega) outLen start enough with
    ⟨read, remaining, state, fields, run, length, done⟩
  have bits := done.regrouped.bits
  have outLength : state.out.length = outLen := by
    rw [length]
    exact Nat.zero_add _
  rw [List.nil_append] at fields
  rw [List.length_map, outLength] at bits
  have total : bitLen * values.length = bitLen * read.length + bitLen * remaining.length := by
    rw [← fields, List.length_append, Nat.mul_add]
  have nothingLeft : remaining = [] := by
    cases remaining with
    | nil => rfl
    | cons field remaining =>
        rw [List.length_cons, Nat.mul_add] at total
        omega
  rw [nothingLeft, List.append_nil] at fields
  rw [fields] at bits
  have bytes : (values.flatMap (BigEndian.encode ((bitLen + 7) / 8 + bytePad))).length =
      values.length * ((bitLen + 7) / 8 + bytePad) := by
    simp [List.length_flatMap]
  have assertion : outLen = bitLen *
      (values.flatMap (BigEndian.encode ((bitLen + 7) / 8 + bytePad))).length /
      (8 * ((bitLen + 7) / 8 + bytePad)) := by
    rw [bytes, ← Nat.mul_assoc, Nat.mul_div_mul_right _ _ (by omega), sized]
  have regrouped := done.regrouped
  rw [fields] at regrouped
  refine ⟨state.out, state.accBits, state.accValue, regrouped, by omega, ?_⟩
  rw [compressArray, if_pos ⟨valid, assertion⟩, run, Option.map_some]

end Compress

/-! ## The minimal representation -/

section Minimal

variable {cBitLen : Nat}

theorem indicesOfArray_flatMap (indices : List Nat) (fit : ∀ index ∈ indices, index < 2 ^ 32) :
    indicesOfArray (indices.flatMap ehIndexToArray) = some indices := by
  induction indices with
  | nil => rfl
  | cons index indices induction =>
      have others := induction fun other member => fit other (List.mem_cons_of_mem _ member)
      have value : arrayToEhIndex (ehIndexToArray index) = index :=
        BigEndian.decode_encode (fit index List.mem_cons_self)
      have bytes : ehIndexToArray index = [UInt8.ofNat (index / 256 / 256 / 256),
          UInt8.ofNat (index / 256 / 256), UInt8.ofNat (index / 256), UInt8.ofNat index] := rfl
      rw [bytes] at value
      rw [List.flatMap_cons, bytes]
      simp only [List.cons_append, List.nil_append, indicesOfArray, others, value]
      rfl

theorem width_of_valid (valid : validBitLen (cBitLen + 1) = true) :
    ((cBitLen + 1) + 7) / 8 ≤ ehIndexSize ∧
      ((cBitLen + 1) + 7) / 8 + bytePad cBitLen = ehIndexSize := by
  simp only [validBitLen, Bool.and_eq_true, decide_eq_true_eq] at valid
  rw [bytePad, ehIndexSize]
  omega

theorem lt_register_of_fits (valid : validBitLen (cBitLen + 1) = true) {indices : List Nat}
    (fits : Fits (cBitLen + 1) indices) : ∀ index ∈ indices, index < 2 ^ 32 := by
  intro index member
  simp only [validBitLen, Bool.and_eq_true, decide_eq_true_eq] at valid
  exact (fits index member).trans_le (Nat.pow_le_pow_right (by decide) (by omega))

theorem getIndicesFromMinimal_eq (valid : validBitLen (cBitLen + 1) = true) {minimal : Bytes}
    (whole : cBitLen + 1 ∣ 8 * minimal.length) :
    ∃ indices accValue, getIndicesFromMinimal minimal cBitLen = some indices ∧
      Regrouped 8 (cBitLen + 1) (minimal.map UInt8.toNat) indices 0 accValue := by
  rcases width_of_valid valid with ⟨inIndex, width⟩
  rcases whole with ⟨count, total⟩
  have lenIndices : 8 * ehIndexSize * minimal.length / (cBitLen + 1) = count * ehIndexSize := by
    have product : 8 * ehIndexSize * minimal.length = (cBitLen + 1) * (count * ehIndexSize) := by
      rw [← Nat.mul_assoc, ← total]
      ring
    rw [product, Nat.mul_div_cancel_left _ (Nat.succ_pos _)]
  have sized : count * ehIndexSize =
      8 * (((cBitLen + 1) + 7) / 8 + bytePad cBitLen) * minimal.length / (cBitLen + 1) := by
    rw [width, lenIndices]
  rcases expandArray_eq (List.replicate (count * ehIndexSize) 0) valid sized with
    ⟨indices, accBits, accValue, regrouped, unfinished, expanded⟩
  have bits := regrouped.bits
  rw [List.length_map, total] at bits
  have noRest : accBits = 0 := by
    have residue := congrArg (· % (cBitLen + 1)) bits
    simp only [Nat.mul_mod_right, Nat.mul_add_mod, Nat.mod_eq_of_lt unfinished] at residue
    exact residue.symm
  rw [noRest, Nat.add_zero] at bits
  have counted : count = indices.length := Nat.eq_of_mul_eq_mul_left (Nat.succ_pos _) bits
  rw [noRest] at regrouped
  have fit := lt_register_of_fits valid regrouped.fits
  refine ⟨indices, accValue, ?_, regrouped⟩
  rw [width, counted, List.drop_eq_nil_of_le (List.length_replicate.le), List.append_nil]
    at expanded
  rw [getIndicesFromMinimal, if_pos inIndex, lenIndices, counted]
  simp only [expanded, Option.bind_eq_bind, Option.bind_some]
  exact indicesOfArray_flatMap indices fit

theorem getMinimalFromIndices_eq (valid : validBitLen (cBitLen + 1) = true) {indices : List Nat}
    (fits : Fits (cBitLen + 1) indices) (whole : 8 ∣ (cBitLen + 1) * indices.length) :
    ∃ minimal accValue, getMinimalFromIndices indices cBitLen = some minimal ∧
      Regrouped (cBitLen + 1) 8 indices (minimal.map UInt8.toNat) 0 accValue := by
  rcases width_of_valid valid with ⟨inIndex, width⟩
  rcases compressArray_eq (bytePad cBitLen) valid fits rfl with
    ⟨minimal, accBits, accValue, regrouped, unfinished, compressed⟩
  have minLen : (cBitLen + 1) * (indices.length * ehIndexSize) / (8 * ehIndexSize) =
      (cBitLen + 1) * indices.length / 8 := by
    rw [← Nat.mul_assoc, Nat.mul_div_mul_right _ _ (by decide)]
  have bits := regrouped.bits
  have noRest : accBits = 0 := by omega
  rw [noRest] at regrouped
  refine ⟨minimal, accValue, ?_, regrouped⟩
  rw [width] at compressed
  rw [getMinimalFromIndices, if_pos inIndex]
  simp only [minLen]
  exact compressed

theorem bytes_fit (bytes : Bytes) : Fits 8 (bytes.map UInt8.toNat) := by
  intro field member
  rcases List.mem_map.mp member with ⟨byte, _, value⟩
  rw [← value]
  exact byte.toNat_lt

theorem toNat_injective : Function.Injective UInt8.toNat := fun _ _ => UInt8.toNat_inj.mp

theorem getMinimalFromIndices_of_read (valid : validBitLen (cBitLen + 1) = true) {minimal : Bytes}
    (whole : cBitLen + 1 ∣ 8 * minimal.length) :
    ∃ indices, getIndicesFromMinimal minimal cBitLen = some indices ∧
      (cBitLen + 1) * indices.length = 8 * minimal.length ∧ Fits (cBitLen + 1) indices ∧
      getMinimalFromIndices indices cBitLen = some minimal := by
  rcases getIndicesFromMinimal_eq valid whole with ⟨indices, _, read, forth⟩
  have bits := forth.bits
  rw [List.length_map, Nat.add_zero] at bits
  rcases getMinimalFromIndices_eq valid forth.fits ⟨minimal.length, bits.symm⟩ with
    ⟨back, _, written, again⟩
  have same := forth.inverse again (by decide) (bytes_fit minimal)
  rw [List.map_injective_iff.mpr toNat_injective same] at written
  exact ⟨indices, read, bits.symm, forth.fits, written⟩

theorem getIndicesFromMinimal_of_written (valid : validBitLen (cBitLen + 1) = true)
    {indices : List Nat} (fits : Fits (cBitLen + 1) indices)
    (whole : 8 ∣ (cBitLen + 1) * indices.length) :
    ∃ minimal, getMinimalFromIndices indices cBitLen = some minimal ∧
      8 * minimal.length = (cBitLen + 1) * indices.length ∧
      getIndicesFromMinimal minimal cBitLen = some indices := by
  rcases getMinimalFromIndices_eq valid fits whole with ⟨minimal, _, written, forth⟩
  have bits := forth.bits
  rw [List.length_map, Nat.add_zero] at bits
  rcases getIndicesFromMinimal_eq valid ⟨indices.length, bits.symm⟩ with ⟨back, _, read, again⟩
  rw [forth.inverse again (Nat.succ_pos _) fits] at read
  exact ⟨minimal, written, bits.symm, read⟩

/-- Solutions and their index lists are two writings of the same numbers. -/
theorem minimal_representation (valid : validBitLen (cBitLen + 1) = true) :
    (∀ minimal : Bytes, cBitLen + 1 ∣ 8 * minimal.length → ∃ indices,
      getIndicesFromMinimal minimal cBitLen = some indices ∧
      (cBitLen + 1) * indices.length = 8 * minimal.length ∧ Fits (cBitLen + 1) indices ∧
      getMinimalFromIndices indices cBitLen = some minimal) ∧
    (∀ indices : List Nat, Fits (cBitLen + 1) indices → 8 ∣ (cBitLen + 1) * indices.length →
      ∃ minimal, getMinimalFromIndices indices cBitLen = some minimal ∧
        8 * minimal.length = (cBitLen + 1) * indices.length ∧
        getIndicesFromMinimal minimal cBitLen = some indices) :=
  ⟨fun _ whole => getMinimalFromIndices_of_read valid whole,
    fun _ fits whole => getIndicesFromMinimal_of_written valid fits whole⟩

theorem minimal_representation_btg :
    (∀ minimal : Bytes, 25 ∣ 8 * minimal.length → ∃ indices,
      getIndicesFromMinimal minimal 24 = some indices ∧
      25 * indices.length = 8 * minimal.length ∧ Fits 25 indices ∧
      getMinimalFromIndices indices 24 = some minimal) ∧
    (∀ indices : List Nat, Fits 25 indices → 8 ∣ 25 * indices.length →
      ∃ minimal, getMinimalFromIndices indices 24 = some minimal ∧
        8 * minimal.length = 25 * indices.length ∧
        getIndicesFromMinimal minimal 24 = some indices) :=
  minimal_representation (by decide)

end Minimal

end Miningcore.Equihash

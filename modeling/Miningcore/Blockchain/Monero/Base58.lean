import Miningcore.Foundation.BitPacking

/-! `tools::base58` of libcryptonote: blocks of eight bytes in eleven letters each. Registers are
`uint64_t`. -/

namespace Miningcore.Monero.Base58

open Positional

def alphabet : Bytes :=
  "123456789ABCDEFGHJKLMNPQRSTUVWXYZabcdefghijkmnopqrstuvwxyz".toList.map fun letter =>
    UInt8.ofNat letter.toNat

def alphabetSize : Nat := 58

def encodedBlockSizes : List Nat := [0, 2, 3, 5, 6, 7, 9, 10, 11]

def fullBlockSize : Nat := 8

def fullEncodedBlockSize : Nat := 11

/-- `alphabet[i]`. -/
def letterAt (digit : Nat) : UInt8 := alphabet.getD digit 0

/-- `reverse_alphabet`: the table of the letters, with -1 for any other character. -/
def reverseAlphabet (letter : UInt8) : Option Nat := alphabet.idxOf? letter

/-- `decoded_block_sizes`: the table of the encoded sizes, with -1 for any other size. -/
def decodedBlockSize (encodedBlockSize : Nat) : Option Nat := encodedBlockSizes.idxOf? encodedBlockSize

def hiDword (val : Nat) : Nat := val >>> 32

def loDword (val : Nat) : Nat := val &&& 0xFFFFFFFF

def mul128 (multiplier multiplicand : Nat) : Nat × Nat :=
  let a := hiDword multiplier
  let b := loDword multiplier
  let c := hiDword multiplicand
  let d := loDword multiplicand
  let ac := a * c % 2 ^ 64
  let ad := a * d % 2 ^ 64
  let bc := b * c % 2 ^ 64
  let bd := b * d % 2 ^ 64
  let adbc := (ad + bc) % 2 ^ 64
  let adbcCarry := if adbc < ad then 1 else 0
  let productLo := (bd + (adbc <<< 32) % 2 ^ 64) % 2 ^ 64
  let productLoCarry := if productLo < bd then 1 else 0
  (productLo, (ac + (adbc >>> 32) + (adbcCarry <<< 32) + productLoCarry) % 2 ^ 64)

/-- The loop of `encode_block` over the characters of `res` from the last one on. They are `1`
before; there is none before the first. -/
def writeDigits : (count : Nat) → (num : Nat) → Option Bytes
  | 0, num => if 0 < num then none else some []
  | i + 1, num =>
      if 0 < num then
        (writeDigits i (num / alphabetSize)).map (· ++ [letterAt (num % alphabetSize)])
      else some (List.replicate (i + 1) (letterAt 0))

def encodeBlock (block : Bytes) : Option Bytes :=
  if 1 ≤ block.length ∧ block.length ≤ fullBlockSize then
    writeDigits (encodedBlockSizes.getD block.length 0) (BigEndian.decode block)
  else none

/-- The loop of `decode_block`, over the characters from the last one on. -/
def readDigits : Bytes → (resNum order : Nat) → Option Nat
  | [], resNum, _ => some resNum
  | letter :: rest, resNum, order => do
      let digit ← reverseAlphabet letter
      let (product, productHi) := mul128 order digit
      let tmp := (resNum + product) % 2 ^ 64
      if tmp < resNum ∨ 0 ≠ productHi then none
      else readDigits rest tmp (order * alphabetSize % 2 ^ 64)

/-- `none` is `false`. -/
def decodeBlock (block : Bytes) : Option Bytes := do
  let resSize ← decodedBlockSize block.length
  if resSize ≤ 0 then none
  else do
    let resNum ← readDigits block.reverse 0 1
    if resSize < fullBlockSize ∧ 1 <<< (8 * resSize) ≤ resNum then none
    else some (BigEndian.encode resSize resNum)

def encodeBlocks : (fullBlocks : Nat) → Bytes → Option Bytes
  | 0, [] => some []
  | 0, last => encodeBlock last
  | fullBlocks + 1, data => do
      let block ← encodeBlock (data.take fullBlockSize)
      let others ← encodeBlocks fullBlocks (data.drop fullBlockSize)
      return block ++ others

/-- `none` is a failed assertion or a write before the result. -/
def encode (data : Bytes) : Option Bytes := encodeBlocks (data.length / fullBlockSize) data

def decodeBlocks : (fullBlocks : Nat) → Bytes → Option Bytes
  | 0, [] => some []
  | 0, last => decodeBlock last
  | fullBlocks + 1, enc => do
      let block ← decodeBlock (enc.take fullEncodedBlockSize)
      let others ← decodeBlocks fullBlocks (enc.drop fullEncodedBlockSize)
      return block ++ others

def decode (enc : Bytes) : Option Bytes := do
  let _ ← decodedBlockSize (enc.length % fullEncodedBlockSize)
  decodeBlocks (enc.length / fullEncodedBlockSize) enc

example : encode [0x00, 0xff] = some [0x31, 0x35, 0x51] := by decide

/-! ## Products -/

theorem hiDword_eq (val : Nat) : hiDword val = val / 2 ^ 32 := Nat.shiftRight_eq_div_pow _ _

theorem loDword_eq (val : Nat) : loDword val = val % 2 ^ 32 :=
  Nat.and_two_pow_sub_one_eq_mod val 32

theorem sum_of_halves (ac : Nat) {ad bc bd : Nat} (adFits : ad < 2 ^ 64) (bcFits : bc < 2 ^ 64)
    (bdFits : bd < 2 ^ 64) :
    let adbc := (ad + bc) % 2 ^ 64
    let productLo := (bd + adbc * 2 ^ 32 % 2 ^ 64) % 2 ^ 64
    ac * 2 ^ 64 + (ad + bc) * 2 ^ 32 + bd =
      (ac + adbc / 2 ^ 32 + (if adbc < ad then 1 else 0) * 2 ^ 32 +
        (if productLo < bd then 1 else 0)) * 2 ^ 64 + productLo := by
  intro adbc productLo
  split_ifs <;> omega

theorem mul128_eq {multiplier multiplicand : Nat} (multiplierFits : multiplier < 2 ^ 64)
    (multiplicandFits : multiplicand < 2 ^ 64) :
    mul128 multiplier multiplicand =
      (multiplier * multiplicand % 2 ^ 64, multiplier * multiplicand / 2 ^ 64) := by
  have half (left right : Nat) (leftFits : left < 2 ^ 32) (rightFits : right < 2 ^ 32) :
      left * right < 2 ^ 64 :=
    calc left * right < 2 ^ 32 * 2 ^ 32 := Nat.mul_lt_mul'' leftFits rightFits
      _ = 2 ^ 64 := by norm_num
  have a : multiplier / 2 ^ 32 < 2 ^ 32 := by omega
  have b : multiplier % 2 ^ 32 < 2 ^ 32 := by omega
  have c : multiplicand / 2 ^ 32 < 2 ^ 32 := by omega
  have d : multiplicand % 2 ^ 32 < 2 ^ 32 := by omega
  have halves := sum_of_halves (multiplier / 2 ^ 32 * (multiplicand / 2 ^ 32)) (half _ _ a d)
    (half _ _ b c) (half _ _ b d)
  have product : multiplier * multiplicand =
      multiplier / 2 ^ 32 * (multiplicand / 2 ^ 32) * 2 ^ 64 +
        (multiplier / 2 ^ 32 * (multiplicand % 2 ^ 32) +
          multiplier % 2 ^ 32 * (multiplicand / 2 ^ 32)) * 2 ^ 32 +
        multiplier % 2 ^ 32 * (multiplicand % 2 ^ 32) := by
    conv_lhs => rw [← Nat.div_add_mod multiplier (2 ^ 32), ← Nat.div_add_mod multiplicand (2 ^ 32)]
    ring
  have below : multiplier * multiplicand < 2 ^ 64 * 2 ^ 64 :=
    Nat.mul_lt_mul'' multiplierFits multiplicandFits
  simp only [mul128, hiDword_eq, loDword_eq, Nat.shiftLeft_eq, Nat.shiftRight_eq_div_pow,
    Nat.mod_eq_of_lt (half _ _ a c), Nat.mod_eq_of_lt (half _ _ a d),
    Nat.mod_eq_of_lt (half _ _ b c), Nat.mod_eq_of_lt (half _ _ b d)]
  simp only [← product] at halves
  generalize multiplier * multiplicand = total at halves below ⊢
  rw [Prod.mk.injEq]
  omega

/-! ## Letters -/

theorem reverseAlphabet_letterAt {digit : Nat} (isDigit : digit < alphabetSize) :
    reverseAlphabet (letterAt digit) = some digit := by
  have all : ∀ digit < 58, reverseAlphabet (letterAt digit) = some digit := by decide
  exact all digit isDigit

theorem reverseAlphabet_some {letter : UInt8} {digit : Nat}
    (known : reverseAlphabet letter = some digit) :
    digit < alphabetSize ∧ letter = letterAt digit := by
  rw [reverseAlphabet, List.idxOf?_eq_some_iff] at known
  rcases known with ⟨inAlphabet, isLetter, _⟩
  have length : alphabet.length = alphabetSize := by decide
  rw [← length]
  refine ⟨inAlphabet, ?_⟩
  rw [letterAt, List.getD_eq_getElem?_getD, List.getElem?_eq_getElem inAlphabet, Option.getD_some,
    isLetter]

theorem writeDigits_eq {count num : Nat} (fits : num < 58 ^ count) :
    writeDigits count num = some ((digitsOf alphabetSize count num).map letterAt) := by
  induction count generalizing num with
  | zero =>
      have zero : num = 0 := by simpa using fits
      rw [zero]
      rfl
  | succ count induction =>
      rw [writeDigits]
      by_cases positive : 0 < num
      · have quotientFits : num / alphabetSize < 58 ^ count := by
          apply Nat.div_lt_of_lt_mul
          rw [alphabetSize, ← pow_succ']
          exact fits
        rw [if_pos positive, induction quotientFits, digitsOf_succ_concat, List.map_append]
        rfl
      · rw [if_neg positive, Nat.eq_zero_of_not_pos positive, digitsOf_zero, List.map_replicate]

theorem readDigits_cons {resNum order digit : Nat} {letter : UInt8} (rest : Bytes)
    (inRegister : resNum < 2 ^ 64) (orderFits : order < 2 ^ 64)
    (known : reverseAlphabet letter = some digit) :
    readDigits (letter :: rest) resNum order =
      if 2 ^ 64 ≤ resNum + order * digit then none
      else readDigits rest (resNum + order * digit) (order * alphabetSize % 2 ^ 64) := by
  have digitFits : digit < 2 ^ 64 := (reverseAlphabet_some known).1.trans (by decide)
  rw [readDigits]
  simp only [known, Option.bind_eq_bind, Option.bind_some, mul128_eq orderFits digitFits]
  generalize order * digit = product
  by_cases overflow : 2 ^ 64 ≤ resNum + product
  · rw [if_pos overflow, if_pos (by omega)]
  · have sum : (resNum + product % 2 ^ 64) % 2 ^ 64 = resNum + product := by omega
    rw [if_neg overflow, if_neg (by omega), sum]

theorem readDigits_eq_some {letters : Bytes} {resNum order position value : Nat}
    (inRegister : resNum < 2 ^ 64) (short : position + letters.length ≤ 11)
    (ordered : letters ≠ [] → order = 58 ^ position) :
    readDigits letters resNum order = some value ↔
      ∃ digits, letters = digits.map letterAt ∧ Proper alphabetSize digits ∧
        value = resNum + 58 ^ position * Nat.ofDigits alphabetSize digits ∧ value < 2 ^ 64 := by
  induction letters generalizing resNum order position with
  | nil =>
      rw [readDigits, Option.some.injEq]
      constructor
      · intro same
        refine ⟨[], rfl, List.forall_mem_nil _, ?_, by omega⟩
        rw [Nat.ofDigits_nil, Nat.mul_zero, Nat.add_zero, same]
      · rintro ⟨digits, none, _, same, _⟩
        rw [List.map_eq_nil_iff.mp none.symm, Nat.ofDigits_nil] at same
        omega
  | cons letter rest induction =>
      have order_eq := ordered (List.cons_ne_nil _ _)
      rw [List.length_cons] at short
      have orderFits : (58 : Nat) ^ position < 2 ^ 64 :=
        (Nat.pow_le_pow_right (by decide) (by omega : position ≤ 10)).trans_lt (by decide)
      have nextOrder : rest ≠ [] → order * alphabetSize % 2 ^ 64 = 58 ^ (position + 1) := by
        intro more
        have positive : 0 < rest.length := List.length_pos_iff.mpr more
        have nextFits : (58 : Nat) ^ (position + 1) < 2 ^ 64 :=
          (Nat.pow_le_pow_right (by decide) (by omega : position + 1 ≤ 10)).trans_lt (by decide)
        rw [order_eq, alphabetSize, ← pow_succ, Nat.mod_eq_of_lt nextFits]
      cases known : reverseAlphabet letter with
      | none =>
          rw [readDigits, known]
          constructor
          · intro impossible
            cases impossible
          · rintro ⟨digits, letters, proper, _⟩
            cases digits with
            | nil => cases letters
            | cons digit digits =>
                rw [List.map_cons, List.cons.injEq] at letters
                rw [letters.1, reverseAlphabet_letterAt (proper digit List.mem_cons_self)] at known
                cases known
      | some digit =>
          have isLetter := reverseAlphabet_some known
          rw [readDigits_cons rest inRegister (by rw [order_eq]; exact orderFits) known, order_eq]
          rw [order_eq] at nextOrder
          constructor
          · intro reads
            split_ifs at reads with overflow
            rcases (induction (by omega) (by omega) nextOrder).mp reads with
              ⟨digits, letters, proper, sum, fits⟩
            refine ⟨digit :: digits, ?_, ?_, ?_, fits⟩
            · rw [List.map_cons, ← isLetter.2, letters]
            · exact List.forall_mem_cons.mpr ⟨isLetter.1, proper⟩
            · rw [sum, Nat.ofDigits_cons, pow_succ, alphabetSize]
              ring
          · rintro ⟨digits, letters, proper, sum, fits⟩
            cases digits with
            | nil => cases letters
            | cons first digits =>
                rw [List.map_cons, List.cons.injEq] at letters
                rw [letters.1, reverseAlphabet_letterAt (proper first List.mem_cons_self),
                  Option.some.injEq] at known
                rw [known, Nat.ofDigits_cons] at sum
                have split : 58 ^ position * (digit + alphabetSize * Nat.ofDigits alphabetSize digits) =
                    58 ^ position * digit +
                      58 ^ (position + 1) * Nat.ofDigits alphabetSize digits := by
                  rw [pow_succ, alphabetSize]
                  ring
                rw [split] at sum
                rw [if_neg (by omega), induction (by omega) (by omega) nextOrder]
                exact ⟨digits, letters.2,
                  fun other member => proper other (List.mem_cons_of_mem _ member),
                  by omega, fits⟩

/-! ## Blocks -/

theorem sizes_of_block {size : Nat} (positive : 1 ≤ size) (inBlock : size ≤ fullBlockSize) :
    256 ^ size ≤ 58 ^ encodedBlockSizes.getD size 0 ∧
      encodedBlockSizes.getD size 0 ≤ fullEncodedBlockSize ∧
      decodedBlockSize (encodedBlockSizes.getD size 0) = some size := by
  have all : ∀ size < 9, 1 ≤ size → 256 ^ size ≤ 58 ^ encodedBlockSizes.getD size 0 ∧
      encodedBlockSizes.getD size 0 ≤ fullEncodedBlockSize ∧
      decodedBlockSize (encodedBlockSizes.getD size 0) = some size := by decide
  exact all size (Nat.lt_succ_of_le inBlock) positive

theorem decodedBlockSize_some {encodedSize size : Nat}
    (known : decodedBlockSize encodedSize = some size) :
    size ≤ fullBlockSize ∧ encodedBlockSizes.getD size 0 = encodedSize := by
  rw [decodedBlockSize, List.idxOf?_eq_some_iff] at known
  rcases known with ⟨inTable, isSize, _⟩
  refine ⟨Nat.le_of_lt_succ inTable, ?_⟩
  rw [List.getD_eq_getElem?_getD, List.getElem?_eq_getElem inTable, Option.getD_some, isSize]

theorem encodeBlock_eq {block : Bytes} (positive : 1 ≤ block.length)
    (inBlock : block.length ≤ fullBlockSize) :
    encodeBlock block = some ((digitsOf alphabetSize (encodedBlockSizes.getD block.length 0)
      (BigEndian.decode block)).map letterAt) := by
  rw [encodeBlock, if_pos ⟨positive, inBlock⟩]
  exact writeDigits_eq ((BigEndian.decode_lt block).trans_le (sizes_of_block positive inBlock).1)

theorem readBlock_eq_some {block : Bytes} {value : Nat}
    (inBlock : block.length ≤ fullEncodedBlockSize) :
    readDigits block.reverse 0 1 = some value ↔
      ∃ digits, block = digits.map letterAt ∧ Proper alphabetSize digits ∧
        value = numeral alphabetSize digits ∧ value < 2 ^ 64 := by
  have reversed := @readDigits_eq_some block.reverse 0 1 0 value (by decide)
    (by rw [List.length_reverse, Nat.zero_add]; exact inBlock) (fun _ => rfl)
  rw [reversed]
  constructor
  · rintro ⟨digits, letters, proper, sum, fits⟩
    refine ⟨digits.reverse, ?_, ?_, ?_, fits⟩
    · rw [List.map_reverse, ← letters, List.reverse_reverse]
    · exact fun digit member => proper digit (List.mem_reverse.mp member)
    · rw [sum, numeral, List.reverse_reverse, Nat.zero_add, pow_zero, Nat.one_mul]
  · rintro ⟨digits, letters, proper, sum, fits⟩
    refine ⟨digits.reverse, ?_, ?_, ?_, fits⟩
    · rw [List.map_reverse, ← letters]
    · exact fun digit member => proper digit (List.mem_reverse.mp member)
    · rw [sum, numeral, Nat.zero_add, pow_zero, Nat.one_mul]

theorem decodeBlock_encodeBlock {block enc : Bytes} (encoded : encodeBlock block = some enc) :
    decodeBlock enc = some block := by
  have isBlock : 1 ≤ block.length ∧ block.length ≤ fullBlockSize := by
    by_contra noBlock
    rw [encodeBlock, if_neg noBlock] at encoded
    cases encoded
  rcases isBlock with ⟨positive, inBlock⟩
  rcases sizes_of_block positive inBlock with ⟨enough, inEncoded, size⟩
  rw [encodeBlock_eq positive inBlock, Option.some.injEq] at encoded
  have length : enc.length = encodedBlockSizes.getD block.length 0 := by
    rw [← encoded, List.length_map, digitsOf_length]
  have number : numeral alphabetSize (digitsOf alphabetSize
      (encodedBlockSizes.getD block.length 0) (BigEndian.decode block)) =
      BigEndian.decode block := by
    rw [numeral_digitsOf]
    exact Nat.mod_eq_of_lt ((BigEndian.decode_lt block).trans_le enough)
  have below := BigEndian.decode_lt block
  have inRegister : BigEndian.decode block < 2 ^ 64 :=
    below.trans_le ((Nat.pow_le_pow_right (by decide) inBlock).trans (by decide))
  have power : 256 ^ block.length = 2 ^ (8 * block.length) := by
    rw [pow_mul]
    norm_num
  have reads := (readBlock_eq_some (by rw [length]; exact inEncoded)).mpr
    ⟨_, encoded.symm, proper_digitsOf (by decide) _ _, number.symm, inRegister⟩
  rw [decodeBlock, length, size]
  simp only [Option.bind_eq_bind, Option.bind_some, reads]
  rw [if_neg (by omega), if_neg (by
    rw [Nat.one_shiftLeft, ← power]
    omega), BigEndian.encode_decode]

theorem encodeBlock_decodeBlock {enc block : Bytes} (decoded : decodeBlock enc = some block) :
    encodeBlock block = some enc ∧ decodedBlockSize enc.length = some block.length := by
  cases size : decodedBlockSize enc.length with
  | none =>
      rw [decodeBlock, size] at decoded
      cases decoded
  | some resSize =>
      rcases decodedBlockSize_some size with ⟨inBlock, encodedSize⟩
      rw [decodeBlock, size] at decoded
      simp only [Option.bind_eq_bind, Option.bind_some] at decoded
      split_ifs at decoded with none
      have positive : 1 ≤ resSize := by omega
      cases reads : readDigits enc.reverse 0 1 with
      | none =>
          rw [reads] at decoded
          cases decoded
      | some resNum =>
          have inEncoded := (sizes_of_block positive inBlock).2.1
          rw [encodedSize] at inEncoded
          rcases (readBlock_eq_some inEncoded).mp reads with
            ⟨digits, letters, proper, number, inRegister⟩
          rw [reads] at decoded
          simp only [Option.bind_some] at decoded
          split_ifs at decoded with overflow
          rw [Option.some.injEq] at decoded
          have fits : resNum < 256 ^ resSize := by
            have power : 256 ^ resSize = 2 ^ (8 * resSize) := by
              rw [pow_mul]
              norm_num
            rw [power]
            rw [Nat.one_shiftLeft] at overflow
            rcases Nat.lt_or_eq_of_le inBlock with less | full
            · omega
            · rw [full]
              exact inRegister
          have length : block.length = resSize := by rw [← decoded, BigEndian.encode_length]
          have value : BigEndian.decode block = resNum := by
            rw [← decoded, BigEndian.decode_encode fits]
          have digitCount : enc.length = digits.length := by rw [letters, List.length_map]
          rw [length]
          refine ⟨?_, rfl⟩
          rw [encodeBlock_eq (by omega) (by omega), length, encodedSize, value, digitCount, number,
            digitsOf_numeral (by decide) proper, letters]

/-! ## Texts -/

theorem encodeBlock_returns {block : Bytes} (positive : 1 ≤ block.length)
    (inBlock : block.length ≤ fullBlockSize) : ∃ enc, encodeBlock block = some enc :=
  ⟨_, encodeBlock_eq positive inBlock⟩

theorem encodeBlock_length {block enc : Bytes} (encoded : encodeBlock block = some enc) :
    enc.length = encodedBlockSizes.getD block.length 0 := by
  have isBlock : 1 ≤ block.length ∧ block.length ≤ fullBlockSize := by
    by_contra noBlock
    rw [encodeBlock, if_neg noBlock] at encoded
    cases encoded
  rw [encodeBlock_eq isBlock.1 isBlock.2, Option.some.injEq] at encoded
  rw [← encoded, List.length_map, digitsOf_length]

theorem encodeBlocks_last {last : Bytes} (some : last ≠ []) :
    encodeBlocks 0 last = encodeBlock last := by
  cases last with
  | nil => exact absurd rfl some
  | cons byte rest => rfl

theorem decodeBlocks_last {last : Bytes} (some : last ≠ []) :
    decodeBlocks 0 last = decodeBlock last := by
  cases last with
  | nil => exact absurd rfl some
  | cons letter rest => rfl

theorem encodeBlocks_succ {fullBlocks : Nat} {data block others : Bytes}
    (first : encodeBlock (data.take fullBlockSize) = some block)
    (behind : encodeBlocks fullBlocks (data.drop fullBlockSize) = some others) :
    encodeBlocks (fullBlocks + 1) data = some (block ++ others) := by
  rw [encodeBlocks, first, behind]
  rfl

theorem decodeBlocks_succ {fullBlocks : Nat} {enc block others : Bytes}
    (first : decodeBlock (enc.take fullEncodedBlockSize) = some block)
    (behind : decodeBlocks fullBlocks (enc.drop fullEncodedBlockSize) = some others) :
    decodeBlocks (fullBlocks + 1) enc = some (block ++ others) := by
  rw [decodeBlocks, first, behind]
  rfl

theorem encodeBlocks_decodes (fullBlocks : Nat) {data : Bytes}
    (enough : fullBlockSize * fullBlocks ≤ data.length)
    (noMore : data.length < fullBlockSize * fullBlocks + fullBlockSize) :
    ∃ enc, encodeBlocks fullBlocks data = some enc ∧
      enc.length = fullEncodedBlockSize * fullBlocks +
        encodedBlockSizes.getD (data.length - fullBlockSize * fullBlocks) 0 ∧
      decodeBlocks fullBlocks enc = some data := by
  induction fullBlocks generalizing data with
  | zero =>
      rw [Nat.mul_zero, Nat.zero_add] at noMore
      rw [Nat.mul_zero, Nat.zero_add, Nat.mul_zero, Nat.sub_zero]
      by_cases empty : data = []
      · rw [empty]
        exact ⟨[], rfl, rfl, rfl⟩
      · have positive : 1 ≤ data.length := List.length_pos_iff.mpr empty
        rcases encodeBlock_returns positive noMore.le with ⟨enc, encoded⟩
        have length := encodeBlock_length encoded
        refine ⟨_, (encodeBlocks_last empty).trans encoded, length, ?_⟩
        rw [decodeBlocks_last, decodeBlock_encodeBlock encoded]
        intro none
        rw [none] at length
        have sized := (sizes_of_block positive noMore.le).2.2
        rw [← length] at sized
        have zero : (0 : Nat) = data.length := Option.some.inj sized
        omega
  | succ fullBlocks induction =>
      rw [Nat.mul_add, Nat.mul_one] at enough noMore
      have front : (data.take fullBlockSize).length = fullBlockSize := by
        rw [List.length_take]
        omega
      rcases encodeBlock_returns (by rw [front]; decide) front.le with ⟨block, encoded⟩
      have length := encodeBlock_length encoded
      have full : encodedBlockSizes.getD fullBlockSize 0 = fullEncodedBlockSize := rfl
      rw [front, full] at length
      have rest : (data.drop fullBlockSize).length = data.length - fullBlockSize :=
        List.length_drop
      have behind := @induction (data.drop fullBlockSize) (by omega) (by omega)
      rcases behind with ⟨others, encodedOthers, othersLength, decoded⟩
      refine ⟨_, encodeBlocks_succ encoded encodedOthers, ?_, ?_⟩
      · have left : data.length - fullBlockSize - fullBlockSize * fullBlocks =
            data.length - fullBlockSize * (fullBlocks + 1) := by
          rw [Nat.mul_add, Nat.mul_one]
          omega
        rw [List.length_append, length, othersLength, rest, left]
        ring
      · have first := decodeBlock_encodeBlock encoded
        have blocks : (block ++ others).take fullEncodedBlockSize = block ∧
            (block ++ others).drop fullEncodedBlockSize = others :=
          ⟨List.take_left' length, List.drop_left' length⟩
        rw [← blocks.1] at first
        rw [← blocks.2] at decoded
        rw [decodeBlocks_succ first decoded, List.take_append_drop]

theorem decodeBlocks_encodes (fullBlocks : Nat) {enc data : Bytes}
    (enough : fullEncodedBlockSize * fullBlocks ≤ enc.length)
    (noMore : enc.length < fullEncodedBlockSize * fullBlocks + fullEncodedBlockSize)
    (decoded : decodeBlocks fullBlocks enc = some data) :
    encodeBlocks fullBlocks data = some enc ∧ fullBlockSize * fullBlocks ≤ data.length ∧
      data.length < fullBlockSize * fullBlocks + fullBlockSize := by
  induction fullBlocks generalizing enc data with
  | zero =>
      rw [Nat.mul_zero, Nat.zero_add] at noMore
      by_cases empty : enc = []
      · rw [empty] at decoded ⊢
        rw [← Option.some.inj decoded]
        exact ⟨rfl, by decide, by decide⟩
      · rw [decodeBlocks_last empty] at decoded
        rcases encodeBlock_decodeBlock decoded with ⟨encoded, size⟩
        rcases decodedBlockSize_some size with ⟨inBlock, encodedSize⟩
        have short : data.length < fullBlockSize := by
          apply Nat.lt_of_le_of_ne inBlock
          intro full
          rw [full] at encodedSize
          rw [← encodedSize] at noMore
          exact absurd noMore (by decide)
        have some : data ≠ [] := by
          intro none
          rw [none] at encoded
          cases encoded
        rw [encodeBlocks_last some]
        exact ⟨encoded, by omega, by omega⟩
  | succ fullBlocks induction =>
      rw [Nat.mul_add, Nat.mul_one] at enough noMore
      have front : (enc.take fullEncodedBlockSize).length = fullEncodedBlockSize := by
        rw [List.length_take]
        omega
      have rest : (enc.drop fullEncodedBlockSize).length = enc.length - fullEncodedBlockSize :=
        List.length_drop
      rw [decodeBlocks] at decoded
      cases first : decodeBlock (enc.take fullEncodedBlockSize) with
      | none =>
          rw [first] at decoded
          cases decoded
      | some block =>
          cases others : decodeBlocks fullBlocks (enc.drop fullEncodedBlockSize) with
          | none =>
              rw [first, others] at decoded
              cases decoded
          | some behind =>
              rw [first, others] at decoded
              have joined : block ++ behind = data := Option.some.inj decoded
              rcases encodeBlock_decodeBlock first with ⟨encoded, size⟩
              rw [front] at size
              have length : fullBlockSize = block.length := Option.some.inj size
              rcases induction (by omega) (by omega) others with ⟨encodedOthers, least, most⟩
              refine ⟨?_, ?_, ?_⟩
              · have blocks : data.take fullBlockSize = block ∧ data.drop fullBlockSize = behind := by
                  rw [← joined]
                  exact ⟨List.take_left' length.symm, List.drop_left' length.symm⟩
                rw [← blocks.1] at encoded
                rw [← blocks.2] at encodedOthers
                rw [encodeBlocks_succ encoded encodedOthers, List.take_append_drop]
              · rw [← joined, List.length_append, Nat.mul_add, Nat.mul_one]
                omega
              · rw [← joined, List.length_append, Nat.mul_add, Nat.mul_one]
                omega

theorem last_of_size {size : Nat} (inBlock : size < fullBlockSize) :
    encodedBlockSizes.getD size 0 < fullEncodedBlockSize ∧
      decodedBlockSize (encodedBlockSizes.getD size 0) = some size := by
  have all : ∀ size < 8, encodedBlockSizes.getD size 0 < fullEncodedBlockSize ∧
      decodedBlockSize (encodedBlockSizes.getD size 0) = some size := by decide
  exact all size inBlock

theorem decode_encode (data : Bytes) : ∃ enc, encode data = some enc ∧ decode enc = some data := by
  have split := Nat.div_add_mod data.length fullBlockSize
  have inBlock := Nat.mod_lt data.length (by decide : 0 < fullBlockSize)
  have decodes := @encodeBlocks_decodes (data.length / fullBlockSize) data (by omega) (by omega)
  rcases decodes with ⟨enc, encoded, length, decoded⟩
  have last : data.length - fullBlockSize * (data.length / fullBlockSize) =
      data.length % fullBlockSize := by omega
  rcases last_of_size inBlock with ⟨inEncoded, size⟩
  rw [last] at length
  have blocks : enc.length / fullEncodedBlockSize = data.length / fullBlockSize := by
    rw [length, Nat.mul_add_div (by decide), Nat.div_eq_of_lt inEncoded, Nat.add_zero]
  have rest : enc.length % fullEncodedBlockSize =
      encodedBlockSizes.getD (data.length % fullBlockSize) 0 := by
    rw [length, Nat.mul_add_mod, Nat.mod_eq_of_lt inEncoded]
  refine ⟨enc, encoded, ?_⟩
  rw [decode, rest, size, blocks]
  exact decoded

theorem encode_decode {enc data : Bytes} (decoded : decode enc = some data) :
    encode data = some enc := by
  have split := Nat.div_add_mod enc.length fullEncodedBlockSize
  have inBlock := Nat.mod_lt enc.length (by decide : 0 < fullEncodedBlockSize)
  rw [decode] at decoded
  cases size : decodedBlockSize (enc.length % fullEncodedBlockSize) with
  | none =>
      rw [size] at decoded
      cases decoded
  | some last =>
      rw [size] at decoded
      rcases decodeBlocks_encodes _ (by omega) (by omega) decoded with ⟨encoded, least, most⟩
      have blocks : data.length / fullBlockSize = enc.length / fullEncodedBlockSize := by
        apply Nat.div_eq_of_lt_le
        · rw [Nat.mul_comm]
          exact least
        · rw [Nat.succ_mul, Nat.mul_comm]
          exact most
      rw [encode, blocks]
      exact encoded

/-- Every byte string has an encoding that is decoded to it, and a text that is decoded at all is
the encoding of what it is decoded to. -/
theorem encode_decode_inverse :
    (∀ data, ∃ enc, encode data = some enc ∧ decode enc = some data) ∧
      ∀ enc data, decode enc = some data → encode data = some enc :=
  ⟨decode_encode, fun _ _ decoded => encode_decode decoded⟩

end Miningcore.Monero.Base58

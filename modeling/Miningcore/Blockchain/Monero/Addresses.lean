import Miningcore.Blockchain.Monero.Base58

/-! Addresses of libcryptonote: a prefix as a varint, the keys and a checksum in base 58. The
checksum hash and the check of a key are parameters. -/

namespace Miningcore.Monero

open ByteLayout

/-! ## Varints -/

def writeVarint (i : Nat) : Bytes :=
  if i < 0x80 then [UInt8.ofNat i]
  else UInt8.ofNat ((i &&& 0x7f) ||| 0x80) :: writeVarint (i >>> 7)
termination_by i
decreasing_by
  rw [Nat.shiftRight_eq_div_pow]
  omega

inductive VarintError
  | overflow
  | represent
deriving DecidableEq, Repr

/-- The loop of `read_varint` for 64 bits: the number of bytes read and the value. It also ends
where the bytes end. -/
def readVarintFrom : (shift write read : Nat) → Bytes → Except VarintError (Nat × Nat)
  | _, write, read, [] => .ok (read, write)
  | shift, write, read, byte :: rest =>
      if 64 ≤ shift + 7 ∧ 1 <<< (64 - shift) ≤ byte.toNat then .error .overflow
      else if byte = 0 ∧ shift ≠ 0 then .error .represent
      else
        let write := write ||| ((byte.toNat &&& 0x7f) <<< shift) % 2 ^ 64
        if byte.toNat &&& 0x80 = 0 then .ok (read + 1, write)
        else readVarintFrom (shift + 7) write (read + 1) rest

def readVarint (bytes : Bytes) : Except VarintError (Nat × Nat) := readVarintFrom 0 0 0 bytes

example : readVarint (writeVarint 18018 ++ [0x05]) = .ok (3, 18018) := by
  simp [writeVarint, readVarint, readVarintFrom]

theorem writeVarint_small {i : Nat} (small : i < 0x80) : writeVarint i = [UInt8.ofNat i] := by
  rw [writeVarint, if_pos small]

theorem writeVarint_large {i : Nat} (large : 0x80 ≤ i) :
    writeVarint i = UInt8.ofNat (i % 128 + 128) :: writeVarint (i / 128) := by
  have low : i &&& 0x7f = i % 2 ^ 7 := Nat.and_two_pow_sub_one_eq_mod i 7
  have continued : i % 2 ^ 7 ||| 0x80 = i % 128 + 128 := by
    rw [Nat.or_comm]
    exact (Nat.two_pow_add_eq_or_of_lt (Nat.mod_lt i (by decide : 0 < 2 ^ 7)) 1).symm.trans
      (Nat.add_comm _ _)
  rw [writeVarint, if_neg (by omega), low, continued, Nat.shiftRight_eq_div_pow]

theorem writeVarint_ne_nil (i : Nat) : writeVarint i ≠ [] := by
  rw [writeVarint]
  split_ifs <;> simp

theorem pow_septet (position : Nat) : 2 ^ (7 * (position + 1)) = 128 * 2 ^ (7 * position) := by
  rw [Nat.mul_add, pow_add]
  ring

theorem septet_below {write digit position : Nat} (below : write < 2 ^ (7 * position))
    (isSeptet : digit < 128) : write + digit * 2 ^ (7 * position) < 2 ^ (7 * (position + 1)) := by
  have scaled := Nat.mul_le_mul_right (2 ^ (7 * position)) (Nat.succ_le_of_lt isSeptet)
  rw [Nat.succ_eq_add_one, Nat.add_mul, Nat.one_mul] at scaled
  rw [pow_septet]
  omega

theorem septet_fits {digit position : Nat} (isSeptet : digit < 128) (inRegister : position ≤ 9)
    (noOverflow : ¬(position = 9 ∧ 2 ≤ digit)) : digit * 2 ^ (7 * position) < 2 ^ 64 := by
  rcases Nat.lt_or_eq_of_le inRegister with before | last
  · have below := septet_below (by positivity : 0 < 2 ^ (7 * position)) isSeptet
    rw [Nat.zero_add] at below
    exact below.trans_le (Nat.pow_le_pow_right (by decide) (by omega))
  · rw [last] at noOverflow ⊢
    omega

theorem readVarintFrom_cons {position write : Nat} (inRegister : position ≤ 9)
    (below : write < 2 ^ (7 * position)) (read : Nat) (byte : UInt8) (rest : Bytes) :
    readVarintFrom (7 * position) write read (byte :: rest) =
      if position = 9 ∧ 2 ≤ byte.toNat then .error .overflow
      else if byte.toNat = 0 ∧ position ≠ 0 then .error .represent
      else if byte.toNat < 128 then .ok (read + 1, write + byte.toNat * 2 ^ (7 * position))
      else readVarintFrom (7 * (position + 1))
        (write + byte.toNat % 128 * 2 ^ (7 * position)) (read + 1) rest := by
  have byteBound : byte.toNat < 256 := byte.toNat_lt
  have low : byte.toNat &&& 0x7f = byte.toNat % 128 := Nat.and_two_pow_sub_one_eq_mod _ 7
  have isZero : byte = 0 ↔ byte.toNat = 0 := UInt8.toNat_inj.symm
  have notShifted : 7 * position ≠ 0 ↔ position ≠ 0 := by omega
  have continued : byte.toNat &&& 0x80 = 0 ↔ byte.toNat < 128 := by
    have all : ∀ value < 256, value &&& 0x80 = 0 ↔ value < 128 := by decide +kernel
    exact all _ byteBound
  have tooLarge : (64 ≤ 7 * position + 7 ∧ 1 <<< (64 - 7 * position) ≤ byte.toNat) ↔
      position = 9 ∧ 2 ≤ byte.toNat := by
    constructor
    · rintro ⟨last, large⟩
      have nine : position = 9 := by omega
      rw [nine] at large
      exact ⟨nine, large⟩
    · rintro ⟨nine, large⟩
      rw [nine]
      exact ⟨by decide, large⟩
  rw [readVarintFrom]
  simp only [tooLarge, isZero, notShifted, continued, low]
  by_cases overflow : position = 9 ∧ 2 ≤ byte.toNat
  · rw [if_pos overflow, if_pos overflow]
  · have placed : write ||| (byte.toNat % 128) <<< (7 * position) % 2 ^ 64 =
        write + byte.toNat % 128 * 2 ^ (7 * position) := by
      have fits := septet_fits (Nat.mod_lt byte.toNat (by decide : 0 < 128)) inRegister
        (by omega)
      rw [Nat.shiftLeft_eq, Nat.mod_eq_of_lt fits, Nat.or_comm, ← Nat.shiftLeft_eq,
        ← Nat.shiftLeft_add_eq_or_of_lt below, Nat.shiftLeft_eq, Nat.add_comm]
    rw [if_neg overflow, if_neg overflow, placed, Nat.mul_add]
    by_cases small : byte.toNat < 128
    · simp [small, Nat.mod_eq_of_lt small]
    · simp [small]

theorem lt_pow_of_mul_lt {value position : Nat} (positive : value ≠ 0)
    (fits : value * 2 ^ (7 * position) < 2 ^ 64) : position ≤ 9 := by
  by_contra beyond
  have power : 2 ^ 70 ≤ 2 ^ (7 * position) := Nat.pow_le_pow_right (by decide) (by omega)
  have scaled := Nat.mul_le_mul_right (2 ^ (7 * position)) (Nat.one_le_iff_ne_zero.mpr positive)
  omega

theorem readVarintFrom_writeVarint (value : Nat) {position write : Nat} (read : Nat)
    (below : write < 2 ^ (7 * position)) (canonical : position ≠ 0 → value ≠ 0)
    (inRegister : position ≤ 9) (fits : value * 2 ^ (7 * position) < 2 ^ 64) (rest : Bytes) :
    readVarintFrom (7 * position) write read (writeVarint value ++ rest) =
      .ok (read + (writeVarint value).length, write + value * 2 ^ (7 * position)) := by
  induction value using Nat.strongRecOn generalizing position write read with
  | ind value induction =>
      have lastByte (nine : position = 9) : value < 2 := by
        rw [nine] at fits
        omega
      by_cases small : value < 0x80
      · have byte : (UInt8.ofNat value).toNat = value := by
          rw [UInt8.toNat_ofNat']
          omega
        rw [writeVarint_small small, List.singleton_append, readVarintFrom_cons inRegister below,
          byte, if_neg (by omega), if_neg (by omega), if_pos (by omega)]
        rfl
      · have byte : (UInt8.ofNat (value % 128 + 128)).toNat = value % 128 + 128 := by
          rw [UInt8.toNat_ofNat']
          omega
        have septet : (value % 128 + 128) % 128 = value % 128 := by omega
        have split : value * 2 ^ (7 * position) =
            value % 128 * 2 ^ (7 * position) + value / 128 * 2 ^ (7 * (position + 1)) := by
          rw [pow_septet, ← Nat.mul_assoc, ← Nat.add_mul, Nat.mul_comm (value / 128),
            Nat.mod_add_div]
        have nextBelow := septet_below below (Nat.mod_lt value (by decide : 0 < 128))
        have nextPositive : value / 128 ≠ 0 := by omega
        have nextFits : value / 128 * 2 ^ (7 * (position + 1)) < 2 ^ 64 := by omega
        have next := induction (value / 128) (by omega) (read + 1) nextBelow
          (fun _ => nextPositive) (lt_pow_of_mul_lt nextPositive nextFits) nextFits
        rw [writeVarint_large (by omega), List.cons_append, readVarintFrom_cons inRegister below,
          byte, if_neg (by omega), if_neg (by omega), if_neg (by omega), septet, next, split,
          List.length_cons]
        congr 2
        · omega
        · omega

theorem readVarintFrom_ok {position write read length value : Nat} {bytes : Bytes}
    (below : write < 2 ^ (7 * position)) (inRegister : position ≤ 9)
    (reads : readVarintFrom (7 * position) write read bytes = .ok (length, value)) :
    ∃ consumed rest, bytes = consumed ++ rest ∧ length = read + consumed.length ∧
      (rest ≠ [] → ∃ number, consumed = writeVarint number ∧
        value = write + number * 2 ^ (7 * position) ∧ (position ≠ 0 → number ≠ 0) ∧
        number * 2 ^ (7 * position) < 2 ^ 64) := by
  induction bytes generalizing position write read with
  | nil =>
      rw [readVarintFrom, Except.ok.injEq, Prod.mk.injEq] at reads
      exact ⟨[], [], rfl, reads.1.symm, fun more => absurd rfl more⟩
  | cons byte rest induction =>
      rw [readVarintFrom_cons inRegister below] at reads
      split_ifs at reads with overflow represent small
      · rw [Except.ok.injEq, Prod.mk.injEq] at reads
        refine ⟨[byte], rest, rfl, reads.1.symm, fun _ => ⟨byte.toNat, ?_, reads.2.symm, ?_, ?_⟩⟩
        · rw [writeVarint_small small, UInt8.ofNat_toNat]
        · omega
        · exact septet_fits small inRegister overflow
      · have byteBound : byte.toNat < 256 := byte.toNat_lt
        have nextRegister : position + 1 ≤ 9 := by omega
        have nextBelow := septet_below below (Nat.mod_lt byte.toNat (by decide : 0 < 128))
        rcases induction nextBelow nextRegister reads with
          ⟨consumed, behind, bytes, total, complete⟩
        have counted : length = read + (byte :: consumed).length := by
          rw [total, List.length_cons]
          omega
        refine ⟨byte :: consumed, behind, congrArg (byte :: ·) bytes, counted, ?_⟩
        intro more
        rcases complete more with ⟨number, written, sum, canonical, fits⟩
        have positive := canonical (Nat.succ_ne_zero _)
        have quotient : (byte.toNat % 128 + 128 * number) / 128 = number := by omega
        have remainder : (byte.toNat % 128 + 128 * number) % 128 + 128 = byte.toNat := by omega
        have product : (byte.toNat % 128 + 128 * number) * 2 ^ (7 * position) =
            byte.toNat % 128 * 2 ^ (7 * position) + number * 2 ^ (7 * (position + 1)) := by
          rw [pow_septet]
          ring
        refine ⟨byte.toNat % 128 + 128 * number, ?_, ?_, fun _ => by omega, ?_⟩
        · rw [writeVarint_large (by omega), quotient, remainder, UInt8.ofNat_toNat, written]
        · rw [sum, product]
          omega
        · have whole : 2 ^ 64 = 2 ^ (64 - 7 * (position + 1)) * 2 ^ (7 * (position + 1)) := by
            rw [← pow_add]
            congr 1
            omega
          rw [whole] at fits ⊢
          have room := Nat.mul_le_mul_right (2 ^ (7 * (position + 1)))
            (Nat.succ_le_of_lt (Nat.lt_of_mul_lt_mul_right fits))
          have septet := septet_below (by positivity : 0 < 2 ^ (7 * position))
            (Nat.mod_lt byte.toNat (by decide : 0 < 128))
          rw [Nat.succ_eq_add_one, Nat.add_mul, Nat.one_mul] at room
          rw [product]
          omega

theorem readVarint_writeVarint {value : Nat} (fits : value < 2 ^ 64) (rest : Bytes) :
    readVarint (writeVarint value ++ rest) = .ok ((writeVarint value).length, value) := by
  have reads := @readVarintFrom_writeVarint value 0 0 0 (by decide)
    (fun impossible => absurd rfl impossible) (by decide) (by simpa using fits) rest
  rw [Nat.mul_zero, pow_zero, Nat.zero_add, Nat.zero_add, Nat.mul_one] at reads
  exact reads

theorem readVarint_ok {bytes : Bytes} {length value : Nat}
    (reads : readVarint bytes = .ok (length, value)) (more : bytes.drop length ≠ []) :
    value < 2 ^ 64 ∧ bytes = writeVarint value ++ bytes.drop length := by
  have from' : readVarintFrom (7 * 0) 0 0 bytes = .ok (length, value) := reads
  rcases readVarintFrom_ok (by decide) (by decide) from' with
    ⟨consumed, rest, split, counted, complete⟩
  rw [Nat.zero_add] at counted
  have behind : bytes.drop length = rest := by rw [split, counted, List.drop_left]
  rw [behind] at more ⊢
  rcases complete more with ⟨number, written, sum, _, fits⟩
  rw [Nat.mul_zero, pow_zero, Nat.mul_one] at sum fits
  rw [Nat.zero_add] at sum
  rw [sum]
  exact ⟨fits, by rw [split, written]⟩

/-! ## Addresses -/

def addrChecksumSize : Nat := 4

section Addresses

variable (cnFastHash : Bytes → FixedBytes 32)

def addrChecksum (buf : Bytes) : Bytes := (cnFastHash buf).toList.take addrChecksumSize

def encodeAddr (tag : Nat) (data : Bytes) : Option Bytes :=
  let buf := writeVarint tag ++ data
  Base58.encode (buf ++ addrChecksum cnFastHash buf)

/-- `decode_addr`; `none` is `false`. -/
def decodeAddr (addr : Bytes) : Option (Nat × Bytes) := do
  let addrData ← Base58.decode addr
  if addrData.length ≤ addrChecksumSize then none
  else
    let checksum := addrData.drop (addrData.length - addrChecksumSize)
    let addrData := addrData.take (addrData.length - addrChecksumSize)
    if addrChecksum cnFastHash addrData ≠ checksum then none
    else match readVarint addrData with
      | .error _ => none
      | .ok (read, tag) => if read ≤ 0 then none else some (tag, addrData.drop read)

@[simp] theorem addrChecksum_length (buf : Bytes) :
    (addrChecksum cnFastHash buf).length = addrChecksumSize := by
  rw [addrChecksum, List.length_take, List.Vector.toList_length]
  rfl

theorem decodeAddr_encodeAddr {tag : Nat} {data addr : Bytes} (fits : tag < 2 ^ 64)
    (encoded : encodeAddr cnFastHash tag data = some addr) :
    decodeAddr cnFastHash addr = some (tag, data) := by
  rcases Base58.decode_encode (writeVarint tag ++ data ++
    addrChecksum cnFastHash (writeVarint tag ++ data)) with ⟨enc, encodes, decodes⟩
  rw [encodeAddr, encodes, Option.some.injEq] at encoded
  rw [encoded] at decodes
  have positive : 0 < (writeVarint tag).length := List.length_pos_iff.mpr (writeVarint_ne_nil tag)
  have length : (writeVarint tag ++ data ++
      addrChecksum cnFastHash (writeVarint tag ++ data)).length - addrChecksumSize =
      (writeVarint tag ++ data).length := by
    rw [List.length_append, addrChecksum_length, Nat.add_sub_cancel]
  rw [decodeAddr, decodes]
  simp only [Option.bind_eq_bind, Option.bind_some]
  rw [if_neg (by
    rw [List.length_append, List.length_append, addrChecksum_length]
    omega), length, List.take_left, List.drop_left, if_neg (not_not_intro rfl),
    readVarint_writeVarint fits]
  simp only
  rw [if_neg (by omega), List.drop_left]

theorem encodeAddr_decodeAddr {tag : Nat} {data addr : Bytes}
    (decoded : decodeAddr cnFastHash addr = some (tag, data)) (nonempty : data ≠ []) :
    tag < 2 ^ 64 ∧ encodeAddr cnFastHash tag data = some addr := by
  rw [decodeAddr] at decoded
  cases decodes : Base58.decode addr with
  | none =>
      rw [decodes] at decoded
      cases decoded
  | some addrData =>
      rw [decodes] at decoded
      simp only [Option.bind_eq_bind, Option.bind_some] at decoded
      split_ifs at decoded with short checksum
      split at decoded
      · cases decoded
      · rename_i read tag' reads
        split_ifs at decoded
        rw [Option.some.injEq, Prod.mk.injEq] at decoded
        rw [← decoded.2] at nonempty
        rcases readVarint_ok reads nonempty with ⟨fits, buf⟩
        rw [decoded.2, decoded.1] at buf
        rw [decoded.1] at fits
        refine ⟨fits, ?_⟩
        rw [encodeAddr, ← buf, not_not.mp checksum, List.take_append_drop]
        exact Base58.encode_decode decodes

end Addresses

/-! ## Exports -/

structure AccountPublicAddress where
  spendPublicKey : FixedBytes 32
  viewPublicKey : FixedBytes 32

structure IntegratedAddress where
  adr : AccountPublicAddress
  paymentId : FixedBytes 8

def readAccountPublicAddress : Reader AccountPublicAddress := do
  let spendPublicKey ← readArray 32
  let viewPublicKey ← readArray 32
  return { spendPublicKey, viewPublicKey }

def readIntegratedAddress : Reader IntegratedAddress := do
  let adr ← readAccountPublicAddress
  let paymentId ← readArray 8
  return { adr, paymentId }

/-- `parse_binary`: the stream must be good and at its end. -/
def parseBinary {α : Type} (reader : Reader α) (blob : Bytes) : Option α :=
  match reader blob with
  | some (value, []) => some value
  | _ => none

def AccountPublicAddress.write (address : AccountPublicAddress) : Bytes :=
  address.spendPublicKey.toList ++ address.viewPublicKey.toList

def IntegratedAddress.write (address : IntegratedAddress) : Bytes :=
  address.adr.write ++ address.paymentId.toList

section Exports

variable (cnFastHash : Bytes → FixedBytes 32) (checkKey : FixedBytes 32 → Bool)

def AccountPublicAddress.hasKeys (address : AccountPublicAddress) : Bool :=
  checkKey address.spendPublicKey && checkKey address.viewPublicKey

def decodeExport {α : Type} (reader : Reader α) (account : α → AccountPublicAddress)
    (input : Bytes) : Nat :=
  match decodeAddr cnFastHash input with
  | none => 0
  | some (tag, data) =>
      if data.length = 0 then 0
      else match parseBinary reader data with
        | none => 0
        | some address => if (account address).hasKeys checkKey then tag else 0

def decodeAddressExport (input : Bytes) : Nat :=
  decodeExport cnFastHash checkKey readAccountPublicAddress id input

def decodeIntegratedAddressExport (input : Bytes) : Nat :=
  decodeExport cnFastHash checkKey readIntegratedAddress IntegratedAddress.adr input

theorem parseBinary_eq_some {α : Type} {reader : Reader α} {write : α → Bytes}
    (readsWritten : ReadsWritten reader write) {blob : Bytes} {value : α} :
    parseBinary reader blob = some value ↔ blob = write value := by
  constructor
  · intro parsed
    rw [parseBinary] at parsed
    split at parsed
    · rename_i read reads
      rw [Option.some.injEq] at parsed
      rw [readsWritten.sound reads, parsed, List.append_nil]
    · cases parsed
  · intro same
    have complete := readsWritten.complete value []
    rw [List.append_nil] at complete
    rw [parseBinary, same, complete]

theorem readsWritten_accountPublicAddress :
    ReadsWritten readAccountPublicAddress AccountPublicAddress.write :=
  (readsWritten_array 32).both (readsWritten_array 32) AccountPublicAddress.mk
    (fun address => ⟨address.spendPublicKey, address.viewPublicKey, rfl⟩) fun _ _ => rfl

theorem readsWritten_integratedAddress :
    ReadsWritten readIntegratedAddress IntegratedAddress.write :=
  readsWritten_accountPublicAddress.both (readsWritten_array 8) IntegratedAddress.mk
    (fun address => ⟨address.adr, address.paymentId, rfl⟩) fun _ _ => rfl

theorem decodeExport_iff {α : Type} {reader : Reader α} {write : α → Bytes}
    {account : α → AccountPublicAddress} (readsWritten : ReadsWritten reader write)
    (nonempty : ∀ address, write address ≠ []) {tag : Nat} (positive : tag ≠ 0) (input : Bytes) :
    decodeExport cnFastHash checkKey reader account input = tag ↔
      tag < 2 ^ 64 ∧ ∃ address, (account address).hasKeys checkKey = true ∧
        encodeAddr cnFastHash tag (write address) = some input := by
  constructor
  · intro decoded
    rw [decodeExport] at decoded
    split at decoded
    · exact absurd decoded.symm positive
    · rename_i tag' data decodes
      split_ifs at decoded with empty
      · exact absurd decoded.symm positive
      · split at decoded
        · exact absurd decoded.symm positive
        · rename_i address parsed
          split_ifs at decoded with keys
          · rw [(parseBinary_eq_some readsWritten).mp parsed, decoded] at decodes
            rcases encodeAddr_decodeAddr cnFastHash decodes (nonempty address) with
              ⟨fits, encoded⟩
            exact ⟨fits, address, keys, encoded⟩
          · exact absurd decoded.symm positive
  · rintro ⟨fits, address, keys, encoded⟩
    have decodes := decodeAddr_encodeAddr cnFastHash fits encoded
    have parsed := (parseBinary_eq_some readsWritten).mpr (rfl : write address = write address)
    have length : (write address).length ≠ 0 := by
      rw [Ne, List.length_eq_zero_iff]
      exact nonempty address
    simp only [decodeExport, decodes, if_neg length, parsed, keys, if_true]

theorem AccountPublicAddress.write_ne_nil (address : AccountPublicAddress) :
    address.write ≠ [] := by
  intro none
  have length := congrArg List.length none
  rw [write, List.length_append, List.Vector.toList_length, List.Vector.toList_length] at length
  cases length

theorem IntegratedAddress.write_ne_nil (address : IntegratedAddress) : address.write ≠ [] :=
  fun none => address.adr.write_ne_nil (List.append_eq_nil_iff.mp none).1

theorem decodeAddressExport_iff {tag : Nat} (positive : tag ≠ 0) (input : Bytes) :
    decodeAddressExport cnFastHash checkKey input = tag ↔
      tag < 2 ^ 64 ∧ ∃ address : AccountPublicAddress, address.hasKeys checkKey = true ∧
        encodeAddr cnFastHash tag address.write = some input :=
  decodeExport_iff cnFastHash checkKey readsWritten_accountPublicAddress
    AccountPublicAddress.write_ne_nil positive input

theorem decodeIntegratedAddressExport_iff {tag : Nat} (positive : tag ≠ 0) (input : Bytes) :
    decodeIntegratedAddressExport cnFastHash checkKey input = tag ↔
      tag < 2 ^ 64 ∧ ∃ address : IntegratedAddress, address.adr.hasKeys checkKey = true ∧
        encodeAddr cnFastHash tag address.write = some input :=
  decodeExport_iff cnFastHash checkKey readsWritten_integratedAddress
    IntegratedAddress.write_ne_nil positive input

theorem decodeExports_exclusive (input : Bytes) :
    decodeAddressExport cnFastHash checkKey input = 0 ∨
      decodeIntegratedAddressExport cnFastHash checkKey input = 0 := by
  by_contra both
  rw [not_or] at both
  rcases (decodeAddressExport_iff cnFastHash checkKey both.1 input).mp rfl with
    ⟨fits, address, _, encoded⟩
  rcases (decodeIntegratedAddressExport_iff cnFastHash checkKey both.2 input).mp rfl with
    ⟨integratedFits, integrated, _, integratedEncoded⟩
  have decodes := decodeAddr_encodeAddr cnFastHash fits encoded
  rw [decodeAddr_encodeAddr cnFastHash integratedFits integratedEncoded, Option.some.injEq,
    Prod.mk.injEq] at decodes
  have length := congrArg List.length decodes.2
  simp only [IntegratedAddress.write, AccountPublicAddress.write, List.length_append,
    List.Vector.toList_length] at length
  omega

end Exports

end Miningcore.Monero

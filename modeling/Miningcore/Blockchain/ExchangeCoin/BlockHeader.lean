import Miningcore.Extensions.StringExtensions

/-! `ExchangeCoinBlockHeader`: the 280-byte header of a `getwork` reply and the
180-byte prefix that Equihash solves.

`BitcoinStream` is taken to write integers in little-endian order and byte
arrays verbatim, and to read back exactly what it writes. -/

namespace Miningcore.ExchangeCoin

open LittleEndian ByteLayout

/-- The header fields in stream order. The signed `version` is kept as its bits. -/
structure BlockHeader where
  version : UInt32
  prevBlock : FixedBytes 32
  merkleRoot : FixedBytes 32
  stakeRoot : FixedBytes 32
  voteBits : UInt16
  finalState : FixedBytes 6
  voters : UInt16
  freshStake : UInt8
  revocations : UInt8
  poolSize : UInt32
  bits : UInt32
  sBits : UInt64
  height : UInt32
  size : UInt32
  timestamp : UInt32
  nonce : UInt32
  extraData : FixedBytes 32
  stakeVersion : UInt32
  equihashSolution : FixedBytes 100
deriving DecidableEq

namespace BlockHeader

/-- The fields written by `ReadWriteWithoutSolution`. -/
def fieldsWithoutSolution (header : BlockHeader) : List Bytes :=
  [encode 4 header.version.toNat, header.prevBlock.toList, header.merkleRoot.toList,
    header.stakeRoot.toList, encode 2 header.voteBits.toNat, header.finalState.toList,
    encode 2 header.voters.toNat, encode 1 header.freshStake.toNat,
    encode 1 header.revocations.toNat, encode 4 header.poolSize.toNat,
    encode 4 header.bits.toNat, encode 8 header.sBits.toNat, encode 4 header.height.toNat,
    encode 4 header.size.toNat, encode 4 header.timestamp.toNat, encode 4 header.nonce.toNat,
    header.extraData.toList, encode 4 header.stakeVersion.toNat]

/-- `ReadWriteWithoutSolution` on a serializing stream. -/
def writeWithoutSolution (header : BlockHeader) : Bytes :=
  header.fieldsWithoutSolution.flatten

/-- `ReadWrite` on a serializing stream. -/
def write (header : BlockHeader) : Bytes :=
  header.writeWithoutSolution ++ header.equihashSolution.toList

/-- `ReadWrite` on a deserializing stream. -/
def reader : Reader BlockHeader := do
  let version ← readInteger 4
  let prevBlock ← readArray 32
  let merkleRoot ← readArray 32
  let stakeRoot ← readArray 32
  let voteBits ← readInteger 2
  let finalState ← readArray 6
  let voters ← readInteger 2
  let freshStake ← readInteger 1
  let revocations ← readInteger 1
  let poolSize ← readInteger 4
  let bits ← readInteger 4
  let sBits ← readInteger 8
  let height ← readInteger 4
  let size ← readInteger 4
  let timestamp ← readInteger 4
  let nonce ← readInteger 4
  let extraData ← readArray 32
  let stakeVersion ← readInteger 4
  let equihashSolution ← readArray 100
  return {
    version := .ofNat version, prevBlock, merkleRoot, stakeRoot, voteBits := .ofNat voteBits
    finalState, voters := .ofNat voters, freshStake := .ofNat freshStake
    revocations := .ofNat revocations, poolSize := .ofNat poolSize, bits := .ofNat bits
    sBits := .ofNat sBits, height := .ofNat height, size := .ofNat size
    timestamp := .ofNat timestamp, nonce := .ofNat nonce, extraData
    stakeVersion := .ofNat stakeVersion, equihashSolution }

/-- `new ExchangeCoinBlockHeader(bytes)`; there is no result when the stream ends
early, and bytes after the header are ignored. -/
def read (bytes : Bytes) : Option BlockHeader := (reader bytes).map Prod.fst

theorem writeWithoutSolution_length (header : BlockHeader) :
    header.writeWithoutSolution.length = 180 := by
  simp [writeWithoutSolution, fieldsWithoutSolution]

theorem read_write (header : BlockHeader) : read header.write = some header := by
  have word (value : UInt32) : value.toNat < 256 ^ 4 := value.toNat_lt
  have half (value : UInt16) : value.toNat < 256 ^ 2 := value.toNat_lt
  have byte (value : UInt8) : value.toNat < 256 ^ 1 := value.toNat_lt
  have double (value : UInt64) : value.toNat < 256 ^ 8 := value.toNat_lt
  have solution : header.equihashSolution.toList = header.equihashSolution.toList ++ [] :=
    (List.append_nil _).symm
  rw [write, solution]
  simp only [read, reader, writeWithoutSolution, fieldsWithoutSolution, List.flatten_cons,
    List.flatten_nil, List.nil_append, List.append_assoc, readArray_bind, readInteger_bind,
    word, half, byte, double, read_pure, Option.map_some, UInt32.ofNat_toNat,
    UInt16.ofNat_toNat, UInt8.ofNat_toNat, UInt64.ofNat_toNat]

/-- The part of the work a miner cannot choose: everything Equihash hashes except
the timestamp, the nonce and the extra data. -/
structure Template where
  version : UInt32
  prevBlock : FixedBytes 32
  merkleRoot : FixedBytes 32
  stakeRoot : FixedBytes 32
  voteBits : UInt16
  finalState : FixedBytes 6
  voters : UInt16
  freshStake : UInt8
  revocations : UInt8
  poolSize : UInt32
  bits : UInt32
  sBits : UInt64
  height : UInt32
  size : UInt32
  stakeVersion : UInt32
deriving DecidableEq

def template (header : BlockHeader) : Template := { header with }

private theorem encode_toNat_injective {width : Nat} {Word : Type} (toNat : Word → Nat)
    (fits : ∀ word, toNat word < 256 ^ width) (injective : Function.Injective toNat)
    {left right : Word} (equal : encode width (toNat left) = encode width (toNat right)) :
    left = right :=
  injective (encode_injective width _ _ (fits left) (fits right) equal)

theorem writeWithoutSolution_injective {left right : BlockHeader}
    (equal : left.writeWithoutSolution = right.writeWithoutSolution) :
    left.template = right.template ∧ left.timestamp = right.timestamp ∧
      left.nonce = right.nonce ∧ left.extraData = right.extraData := by
  have fields := flatten_injective left.fieldsWithoutSolution right.fieldsWithoutSolution
    (by simp [fieldsWithoutSolution]) equal
  have word {left right : UInt32} (equal : encode 4 left.toNat = encode 4 right.toNat) :=
    encode_toNat_injective UInt32.toNat (fun word => word.toNat_lt)
      (fun _ _ => UInt32.toNat_inj.mp) equal
  have half {left right : UInt16} (equal : encode 2 left.toNat = encode 2 right.toNat) :=
    encode_toNat_injective UInt16.toNat (fun word => word.toNat_lt)
      (fun _ _ => UInt16.toNat_inj.mp) equal
  have byte {left right : UInt8} (equal : encode 1 left.toNat = encode 1 right.toNat) :=
    encode_toNat_injective UInt8.toNat (fun word => word.toNat_lt)
      (fun _ _ => UInt8.toNat_inj.mp) equal
  have double {left right : UInt64} (equal : encode 8 left.toNat = encode 8 right.toNat) :=
    encode_toNat_injective UInt64.toNat (fun word => word.toNat_lt)
      (fun _ _ => UInt64.toNat_inj.mp) equal
  have array {width : Nat} {left right : FixedBytes width}
      (equal : left.toList = right.toList) : left = right := Subtype.ext equal
  simp only [fieldsWithoutSolution, List.cons.injEq, and_true] at fields
  rcases fields with ⟨version, prevBlock, merkleRoot, stakeRoot, voteBits, finalState, voters,
    freshStake, revocations, poolSize, bits, sBits, height, size, timestamp, nonce, extraData,
    stakeVersion⟩
  refine ⟨?_, word timestamp, word nonce, array extraData⟩
  simp only [template, Template.mk.injEq]
  exact ⟨word version, array prevBlock, array merkleRoot, array stakeRoot, half voteBits,
    array finalState, half voters, byte freshStake, byte revocations, word poolSize, word bits,
    double sBits, word height, word size, word stakeVersion⟩

end BlockHeader

end Miningcore.ExchangeCoin

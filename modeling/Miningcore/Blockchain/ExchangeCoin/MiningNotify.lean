import Miningcore.Blockchain.ExchangeCoin.Job

/-! `mining.notify` of an ExchangeCoin job. The header is put together twice: by a miner,
from the fields it is notified of, and by `SerializeHeader`, from the header of the work. -/

namespace Miningcore.ExchangeCoin

open LittleEndian StringExtensions

namespace BlockHeader

/-- The fields written by `ReadWriteInitialCoinbase` before the timestamp and the nonce. -/
def fieldsBeforeTimestamp (header : BlockHeader) : List Bytes :=
  [header.merkleRoot.toList, header.stakeRoot.toList, encode 2 header.voteBits.toNat,
    header.finalState.toList, encode 2 header.voters.toNat, encode 1 header.freshStake.toNat,
    encode 1 header.revocations.toNat, encode 4 header.poolSize.toNat, encode 4 header.bits.toNat,
    encode 8 header.sBits.toNat, encode 4 header.height.toNat, encode 4 header.size.toNat]

/-- `ReadWriteInitialCoinbase` on a serializing stream. -/
def writeInitialCoinbase (header : BlockHeader) : Bytes :=
  header.fieldsBeforeTimestamp.flatten ++
    (encode 4 header.timestamp.toNat ++ encode 4 header.nonce.toNat)

/-- `ReadWriteFinalCoinbase` on a serializing stream. -/
def writeFinalCoinbase (header : BlockHeader) : Bytes := encode 4 header.stakeVersion.toNat

theorem fieldsBeforeTimestamp_length (header : BlockHeader) :
    header.fieldsBeforeTimestamp.flatten.length = 100 := by
  simp [fieldsBeforeTimestamp]

end BlockHeader

/-- The parameters of `mining.notify`, in order. The fifth one, which has the merkle
branches with other coins, is empty. -/
structure JobParams where
  jobId : Text
  prevBlock : Text
  coinbaseInitial : Text
  coinbaseFinal : Text
  merkleBranches : Text
  version : Text
  bits : Text
  timestamp : Text
  isNew : Bool

/-- `GetJobParams`, with what `BuildCoinbase` and `Init` have prepared. -/
def Job.getJobParams (environment : Environment) (job : Job) (isNew : Bool) : JobParams where
  jobId := job.jobId
  prevBlock := toHexString job.blockHeader.prevBlock.toList
  coinbaseInitial := toHexString job.blockHeader.writeInitialCoinbase
  coinbaseFinal := toHexString job.blockHeader.writeFinalCoinbase
  merkleBranches := []
  version := toHexString
    (hexToByteArray environment.culture (toStringHex8 job.blockHeader.version)).reverse
  bits := toStringHex8 (reverseByteOrder job.blockHeader.bits)
  timestamp := toStringHex8 (reverseByteOrder job.blockHeader.timestamp)
  isNew

/-- The header that a miner puts together for what it submits: the timestamp and the nonce
have their places at the end of the initial coinbase, and the extra nonce fills 32 bytes. -/
def JobParams.assembleHeader (params : JobParams) (nTime : UInt32) (extraNonce nonce : Text) :
    Bytes :=
  let initial := hexPairs params.coinbaseInitial
  let extraData := hexPairs extraNonce
  hexPairs params.version ++ hexPairs params.prevBlock ++
    (initial.take 100 ++ encode 4 nTime.toNat ++ hexPairs nonce ++ initial.drop 108) ++
    (extraData ++ List.replicate (32 - extraData.length) 0) ++ hexPairs params.coinbaseFinal

namespace Job

variable (environment : Environment) (job : Job)

theorem hexPairs_version (isNew : Bool) :
    hexPairs (job.getJobParams environment isNew).version =
      encode 4 job.blockHeader.version.toNat := by
  rw [getJobParams, hexPairs_toHexString, toStringHex8, hexToByteArray_toHexString,
    List.reverse_reverse]

theorem writeWithoutSolution_eq (header : BlockHeader) :
    header.writeWithoutSolution =
      encode 4 header.version.toNat ++ header.prevBlock.toList ++
        (header.fieldsBeforeTimestamp.flatten ++ encode 4 header.timestamp.toNat ++
          encode 4 header.nonce.toNat) ++
        header.extraData.toList ++ header.writeFinalCoinbase := by
  simp [BlockHeader.writeWithoutSolution, BlockHeader.fieldsWithoutSolution,
    BlockHeader.fieldsBeforeTimestamp, BlockHeader.writeFinalCoinbase]

theorem resize_of_length_le {bytes : Bytes} (fits : bytes.length ≤ 32) :
    (resize bytes).toList = bytes ++ List.replicate (32 - bytes.length) 0 := by
  rw [resize, List.Vector.toList_mk, List.take_of_length_le fits]

/-- Whatever the job and the fields that a miner chooses: the header of a work is read back
as it was written, and what `SerializeHeader` gives to Equihash is the header that the
miner put together from its notification, 180 bytes. -/
theorem serializeHeader_eq_assembleHeader (isNew : Bool) (nTime : UInt32)
    {extraNonce nonce : Text} (extraNonceHex : extraNonce.isHex = true)
    (extraNonceLength : extraNonce.length = 24) (nonceHex : nonce.isHex = true)
    (nonceLength : nonce.length = 8) :
    BlockHeader.read job.blockHeader.write = some job.blockHeader ∧
      ∃ nonceInt, parseUInt32 nonce = .ok nonceInt ∧
        job.serializeHeader nTime (hexToByteArray environment.culture extraNonce) nonceInt =
          .ok ((job.getJobParams environment isNew).assembleHeader nTime extraNonce nonce) ∧
        ((job.getJobParams environment isNew).assembleHeader nTime extraNonce nonce).length =
          180 := by
  refine ⟨BlockHeader.read_write job.blockHeader, ?_⟩
  rcases parseUInt32_of_isHex nonceHex nonceLength with ⟨nonceInt, parsed, nonceBytes⟩
  refine ⟨nonceInt, parsed, ?_⟩
  have initialLength := job.blockHeader.fieldsBeforeTimestamp_length
  have extraLength : (hexPairs extraNonce).length ≤ 32 := by
    rw [hexPairs_length, extraNonceLength]
    decide
  have assembled : (job.getJobParams environment isNew).assembleHeader nTime extraNonce nonce =
      { job.blockHeader with
        timestamp := nTime
        nonce := reverseByteOrder nonceInt
        extraData := resize (hexPairs extraNonce) }.writeWithoutSolution := by
    have timestampLength := encode_length 4 job.blockHeader.timestamp.toNat
    have nonceFieldLength := encode_length 4 job.blockHeader.nonce.toNat
    have nothingBehind : job.blockHeader.writeInitialCoinbase.drop 108 = [] := by
      apply List.drop_of_length_le
      rw [BlockHeader.writeInitialCoinbase, List.length_append, List.length_append]
      omega
    rw [JobParams.assembleHeader, hexPairs_version, writeWithoutSolution_eq,
      resize_of_length_le extraLength, encode_reverseByteOrder, nonceBytes, List.reverse_reverse]
    simp only [getJobParams, hexPairs_toHexString, nothingBehind, List.append_nil]
    rw [BlockHeader.writeInitialCoinbase, List.take_left' initialLength]
    rfl
  constructor
  · rw [serializeHeader_eq, hexToByteArray_of_isHex environment.culture extraNonceHex, assembled]
  · rw [assembled, BlockHeader.writeWithoutSolution_length]

end Job

theorem assembleHeader_sample :
    let params := SampleShare.job.getJobParams SampleShare.environment true
    let header := params.assembleHeader 0x5b0000f2 (text "000000000000000101000058")
      (text "8d84ae6a")
    header = SampleShare.header ∧ header.length = 180 ∧
      ∃ nonceInt, parseUInt32 (text "8d84ae6a") = .ok nonceInt ∧
        SampleShare.job.serializeHeader 0x5b0000f2
          (hexToByteArray SampleShare.environment.culture (text "000000000000000101000058"))
          nonceInt = .ok header := by
  intro params header
  rcases (SampleShare.job.serializeHeader_eq_assembleHeader SampleShare.environment true 0x5b0000f2
    (by decide : (text "000000000000000101000058").isHex = true) (by decide)
    (by decide : (text "8d84ae6a").isHex = true) (by decide)).2 with
    ⟨nonceInt, parsed, serialized, isLength⟩
  exact ⟨by decide +kernel, isLength, nonceInt, parsed, serialized⟩

end Miningcore.ExchangeCoin

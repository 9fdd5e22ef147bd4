import Miningcore.Blockchain.ExchangeCoin.BlockHeader
import Miningcore.Foundation.FloatingPoint
import Miningcore.Stratum.ShareAcceptance

/-! `ExchangeCoinJob`: the work derived from one `getwork` reply and the
processing of the shares submitted for it. -/

namespace Miningcore.ExchangeCoin

open StringExtensions

/-- What the job takes from outside the repository: the culture of the process,
the native Equihash verifier, the header hash, NBitcoin's expansion of compact
difficulty bits and the conversion of a `long` to a `double`. -/
structure Environment where
  culture : Culture
  equihashVerify : Bytes → Bytes → Bool
  headerHasher : Bytes → FixedBytes 32
  expandBits : UInt32 → Nat
  toDouble : Int → Int

/-- `ExchangeCoinChainConfig`, the same for both networks. -/
def diff1 : Nat := 0x3fffffffffffffffffffffffffffffffffffffffffffffffffffffffffffffff

def solutionSize : Nat := 100

structure Job where
  jobId : Text
  blockHeader : BlockHeader
  blockTarget : Nat
  difficulty : Int

/-- `BigInteger.LongValue`: the low 64 bits as a signed number. -/
def longValue (value : Nat) : Int := (BitVec.ofNat 64 value).toInt

def Job.init (environment : Environment) (blockHeader : BlockHeader) (jobId : Text) :
    Except Exception Job :=
  let blockTarget := environment.expandBits blockHeader.bits
  if blockTarget = 0 then
    .error .divideByZero
  else
    .ok { jobId, blockHeader, blockTarget
          difficulty := environment.toDouble (longValue (diff1 / blockTarget)) }

/-- One call of `ProcessShare`, with the clock's Unix time at the call. Absent
parameters are null. -/
structure Submission where
  worker : BitcoinWorkerContext
  now : Int
  extraNonce : Option Text
  nTime : Option Text
  nonce : Option Text
  solution : Option Text

/-- The parameters after the checks of `ProcessShare`. The nonce is not among
the checked ones. -/
structure Validated where
  extraNonce : Text
  nTime : UInt32
  nonce : Option Text
  solution : Text

namespace Job

variable (environment : Environment) (job : Job)

/-- The checks of `ProcessShare` up to the duplicate check. -/
def validate (submission : Submission) : Except Exception Validated := do
  let extraNonce ← requireNonEmpty "extraNonce" submission.extraNonce
  let nTime ← requireNonEmpty "nTime" submission.nTime
  let solution ← requireNonEmpty "solution" submission.solution
  throwIf (nTime.length ≠ 8) (.stratum .other "incorrect size of ntime")
  let nTimeInt ← parseUInt32 nTime
  throwIf (nTimeInt < job.blockHeader.timestamp ∨
    (nTimeInt.toNat : Int) > submission.now + 7200) (.stratum .other "ntime out of range")
  throwIf (extraNonce.length ≠ 24) (.stratum .other "incorrect size of extraNonce2")
  let extraNonce2 := extraNonce.take (extraNonce.length - 8)
  throwIf (extraNonce ≠ extraNonce2 ++ submission.worker.extraNonce1)
    (.stratum .other "incorrect extraNonce")
  throwIf (solution.length ≠ solutionSize * 2) (.stratum .other "incorrect size of solution")
  return { extraNonce, nTime := nTimeInt, nonce := submission.nonce, solution }

/-- The key `RegisterSubmit` builds; a null nonce has no lower case. -/
def registrationKey (_ : Submission) (validated : Validated) : Except Exception Text := do
  let nonce ← dereference validated.nonce
  return environment.culture.toLower validated.extraNonce ++
    environment.culture.toLower nonce ++ environment.culture.toLower validated.solution

def resize (bytes : Bytes) : FixedBytes 32 :=
  ⟨bytes.take 32 ++ List.replicate (32 - bytes.length) 0, by simp; omega⟩

/-- `SerializeHeader`: the header is serialized, parsed again and written without
its solution after the three fields a miner chooses are replaced. -/
def serializeHeader (nTime : UInt32) (extraNonce : Bytes) (nonce : UInt32) :
    Except Exception Bytes :=
  match BlockHeader.read job.blockHeader.write with
  | none => .error .endOfStream
  | some tmpBlockHeader =>
      .ok { tmpBlockHeader with
        timestamp := nTime
        nonce := reverseByteOrder nonce
        extraData := resize extraNonce }.writeWithoutSolution

structure Work where
  header : Bytes
  solution : Bytes
deriving DecidableEq

def decodeWork (validated : Validated) : Except Exception Work := do
  let nonce ← dereference validated.nonce
  let solution := hexToByteArray environment.culture validated.solution
  let extraNonce := hexToByteArray environment.culture validated.extraNonce
  let nonceInt ← parseUInt32 nonce
  let header ← job.serializeHeader validated.nTime extraNonce nonceInt
  return { header, solution }

def verifySolution (work : Work) : Except Exception Bool :=
  if work.header.length ≠ 180 then
    .error (.argument "header must be exactly 180 bytes")
  else if work.solution.length ≠ 100 then
    .error (.argument "solution must be exactly 100 bytes")
  else
    .ok (environment.equihashVerify work.header work.solution)

/-- `ProcessShareInternal`, returning next to the share and the block also the
work that was decoded. -/
def processShareInternal (submission : Submission) (validated : Validated) :
    Except Exception (Work × Blockchain.Share × Option Text) := do
  let work ← job.decodeWork environment validated
  let isValid ← verifySolution environment work
  throwIf (isValid = false) (.stratum .other "invalid solution")
  let headerSolution := work.header ++ work.solution
  let headerHash := (environment.headerHasher headerSolution).toList
  let headerValue := LittleEndian.decode headerHash
  let shareDiff ← shareDifficulty diff1 headerValue
  let isBlockCandidate := decide (headerValue < job.blockTarget)
  let difficulty ← stratumDifficulty submission.worker.difficulty shareDiff isBlockCandidate
  let share : Blockchain.Share := {
    blockHeight := job.blockHeader.height.toNat
    networkDifficulty := job.difficulty
    difficulty }
  if isBlockCandidate then
    return (work, { share with
      isBlockCandidate := true
      blockHash := some (toHexString headerHash.reverse) }, some (toHexString headerSolution))
  return (work, share, none)

def processShare (submissions : Submissions Text) (submission : Submission) :
    Submissions Text × Except Exception (Work × Blockchain.Share × Option Text) :=
  processSubmission job.validate (registrationKey environment)
    (.stratum .duplicateShare "duplicate share") (job.processShareInternal environment)
    submissions submission

def acceptedShares (submissions : List Submission) :
    List (Submission × Work × Blockchain.Share × Option Text) :=
  (submissionGuard job.validate (registrationKey environment)
    (.stratum .duplicateShare "duplicate share")
    (job.processShareInternal environment)).acceptances [] submissions

theorem validate_ok {submission : Submission} {validated : Validated}
    (valid : job.validate submission = .ok validated) :
    submission.extraNonce = some validated.extraNonce ∧
      submission.nonce = validated.nonce ∧
      submission.solution = some validated.solution ∧
      validated.extraNonce.length = 24 ∧ validated.solution.length = 200 := by
  simp only [validate, bind_eq_ok, throwIf_eq_ok, pure_eq_ok, exists_and_left, exists_const,
    not_not] at valid
  rcases valid with ⟨extraNonce, extraNonceGiven, _, _, solution, solutionGiven, _, _, _, _,
    extraNonceLength, _, solutionLength, rfl⟩
  exact ⟨requireNonEmpty_ok extraNonceGiven, rfl, requireNonEmpty_ok solutionGiven,
    extraNonceLength, solutionLength⟩

theorem serializeHeader_eq (nTime : UInt32) (extraNonce : Bytes) (nonce : UInt32) :
    job.serializeHeader nTime extraNonce nonce =
      .ok { job.blockHeader with
        timestamp := nTime
        nonce := reverseByteOrder nonce
        extraData := resize extraNonce }.writeWithoutSolution := by
  rw [serializeHeader, BlockHeader.read_write]

theorem serializeHeader_injective {leftTime rightTime leftNonce rightNonce : UInt32}
    {leftExtra rightExtra header : Bytes}
    (leftSerialized : job.serializeHeader leftTime leftExtra leftNonce = .ok header)
    (rightSerialized : job.serializeHeader rightTime rightExtra rightNonce = .ok header) :
    leftTime = rightTime ∧ resize leftExtra = resize rightExtra ∧ leftNonce = rightNonce := by
  rw [serializeHeader_eq, Except.ok.injEq] at leftSerialized rightSerialized
  rcases BlockHeader.writeWithoutSolution_injective (leftSerialized.trans rightSerialized.symm)
    with ⟨-, timestamp, nonce, extraData⟩
  exact ⟨timestamp, extraData, reverseByteOrder_injective nonce⟩

theorem decodeWork_ok {validated : Validated} {work : Work}
    (decoded : job.decodeWork environment validated = .ok work) :
    ∃ nonce nonceInt, validated.nonce = some nonce ∧ parseUInt32 nonce = .ok nonceInt ∧
      job.serializeHeader validated.nTime
        (hexToByteArray environment.culture validated.extraNonce) nonceInt = .ok work.header ∧
      work.solution = hexToByteArray environment.culture validated.solution := by
  simp only [decodeWork, bind_eq_ok, dereference_eq_ok, pure_eq_ok] at decoded
  rcases decoded with ⟨nonce, given, nonceInt, parsed, header, serialized, rfl⟩
  exact ⟨nonce, nonceInt, given, parsed, serialized, rfl⟩

theorem processShareInternal_work {submission : Submission} {validated : Validated}
    {result : Work × Blockchain.Share × Option Text}
    (processed : job.processShareInternal environment submission validated = .ok result) :
    job.decodeWork environment validated = .ok result.1 := by
  simp only [processShareInternal, bind_eq_ok, throwIf_eq_ok] at processed
  rcases processed with ⟨work, decoded, _, _, _, _, _, _, _, _, returned⟩
  split at returned <;>
  · rw [pure_eq_ok] at returned
    rw [← returned, decoded]

/-- The job's template and some choice of a miner give the header of the work. -/
def Describes (work : Work) : Prop :=
  ∃ nTime extraNonce nonce, job.serializeHeader nTime extraNonce nonce = .ok work.header

theorem template_eq_of_describes {left right : Job} {work : Work}
    (leftDescribes : left.Describes work) (rightDescribes : right.Describes work) :
    left.blockHeader.template = right.blockHeader.template := by
  rcases leftDescribes with ⟨leftTime, leftExtra, leftNonce, leftHeader⟩
  rcases rightDescribes with ⟨rightTime, rightExtra, rightNonce, rightHeader⟩
  rw [serializeHeader_eq, Except.ok.injEq] at leftHeader rightHeader
  exact (BlockHeader.writeWithoutSolution_injective (leftHeader.trans rightHeader.symm)).1

theorem describes_of_processShare {submissions : Submissions Text} {submission : Submission}
    {result : Work × Blockchain.Share × Option Text}
    (accepted : (job.processShare environment submissions submission).2 = .ok result) :
    job.Describes result.1 := by
  rcases processSubmission_ok _ _ _ _ (Prod.ext rfl accepted :
    job.processShare environment submissions submission = (_, .ok result)) with
    ⟨validated, _, _, _, _, _, computed⟩
  rcases job.decodeWork_ok environment (job.processShareInternal_work environment computed) with
    ⟨_, nonceInt, _, _, serialized, _⟩
  exact ⟨validated.nTime, _, nonceInt, serialized⟩

end Job

/-- The spelling the stratum protocol asks for: hexadecimal digits throughout
and a nonce of exactly eight of them. -/
def Submission.isCanonical (submission : Submission) : Bool :=
  submission.extraNonce.all Text.isHex && submission.solution.all Text.isHex &&
    submission.nonce.all fun nonce => nonce.isHex && nonce.length == 8

namespace Job

variable (environment : Environment) (job : Job)

private theorem resize_injective {left right : Bytes} (leftLength : left.length = 12)
    (rightLength : right.length = 12) (equal : resize left = resize right) : left = right := by
  have lists : (resize left).toList = (resize right).toList := by rw [equal]
  change left.take 32 ++ List.replicate (32 - left.length) 0 =
    right.take 32 ++ List.replicate (32 - right.length) 0 at lists
  rw [List.take_of_length_le (by omega), List.take_of_length_le (by omega)] at lists
  exact (List.append_inj lists (leftLength.trans rightLength.symm)).1

theorem registrationKey_of_work (left : Submission) (leftValidated : Validated)
    (leftResult : Work × Blockchain.Share × Option Text) (right : Submission)
    (rightValidated : Validated) (rightResult : Work × Blockchain.Share × Option Text)
    (leftCanonical : left.isCanonical = true) (rightCanonical : right.isCanonical = true)
    (leftValid : job.validate left = .ok leftValidated)
    (rightValid : job.validate right = .ok rightValidated)
    (leftProcessed : job.processShareInternal environment left leftValidated = .ok leftResult)
    (rightProcessed : job.processShareInternal environment right rightValidated = .ok rightResult)
    (equal : leftResult.1 = rightResult.1) :
    registrationKey environment left leftValidated =
      registrationKey environment right rightValidated := by
  rcases job.validate_ok leftValid with ⟨leftExtra, leftNonce, leftSolution, leftExtraLength,
    leftSolutionLength⟩
  rcases job.validate_ok rightValid with ⟨rightExtra, rightNonce, rightSolution,
    rightExtraLength, rightSolutionLength⟩
  rcases job.decodeWork_ok environment (job.processShareInternal_work environment leftProcessed)
    with ⟨leftText, leftInt, leftGiven, leftParsed, leftHeader, leftBytes⟩
  rcases job.decodeWork_ok environment (job.processShareInternal_work environment rightProcessed)
    with ⟨rightText, rightInt, rightGiven, rightParsed, rightHeader, rightBytes⟩
  simp only [Submission.isCanonical, leftExtra, leftSolution, leftNonce, leftGiven, rightExtra,
    rightSolution, rightNonce, rightGiven, Option.all_some, Bool.and_eq_true, beq_iff_eq]
    at leftCanonical rightCanonical
  rcases leftCanonical with ⟨⟨leftExtraHex, leftSolutionHex⟩, leftTextHex, leftTextLength⟩
  rcases rightCanonical with ⟨⟨rightExtraHex, rightSolutionHex⟩, rightTextHex, rightTextLength⟩
  rw [equal] at leftHeader leftBytes
  rcases job.serializeHeader_injective leftHeader rightHeader with ⟨-, extraData, sameNonce⟩
  have bytesLength (value : Text) (hex : value.isHex = true) (length : value.length = 24) :
      (hexToByteArray environment.culture value).length = 12 := by
    rw [hexToByteArray_of_isHex environment.culture hex, hexPairs_length, length]
  have extraEqual := hexToByteArray_injective environment.culture leftExtraHex rightExtraHex
    (by omega) (by omega) (resize_injective (bytesLength _ leftExtraHex leftExtraLength)
      (bytesLength _ rightExtraHex rightExtraLength) extraData)
  have solutionEqual := hexToByteArray_injective environment.culture leftSolutionHex
    rightSolutionHex (by omega) (by omega) (leftBytes.symm.trans rightBytes)
  have nonceEqual := parseUInt32_injective environment.culture leftTextHex rightTextHex
    (leftTextLength.trans rightTextLength.symm) leftParsed (sameNonce ▸ rightParsed)
  simp only [registrationKey, leftGiven, rightGiven, dereference, bind, Except.bind, extraEqual,
    solutionEqual, nonceEqual]

/-- In every run of canonically spelled submissions a job accepts no work twice. -/
theorem acceptedShares_work_distinct (submissions : List Submission)
    (canonical : ∀ submission ∈ submissions, submission.isCanonical = true) :
    (job.acceptedShares environment submissions).Pairwise fun earlier later =>
      earlier.2.1 ≠ later.2.1 :=
  submissionGuard_work_pairwise job.validate (registrationKey environment)
    (.stratum .duplicateShare "duplicate share") (job.processShareInternal environment)
    (fun result => result.1) (fun submission => submission.isCanonical = true)
    (job.registrationKey_of_work environment) [] submissions canonical

end Job

/-! ## Headers with solutions

The solutions satisfy Equihash 144,5 for their headers; the verifier and the hash are
given by their values on them. -/

namespace SampleShare

def blockHeader : BlockHeader where
  version := 1
  prevBlock := List.Vector.replicate 32 0x11
  merkleRoot := List.Vector.replicate 32 0x22
  stakeRoot := List.Vector.replicate 32 0x33
  voteBits := 1
  finalState := List.Vector.replicate 6 0
  voters := 5
  freshStake := 0
  revocations := 0
  poolSize := 40960
  bits := 0x1f3fffff
  sBits := 2000000000
  height := 1000
  size := 300
  timestamp := 0x5b000000
  nonce := 0
  extraData := List.Vector.replicate 32 0
  stakeVersion := 1
  equihashSolution := List.Vector.replicate 100 0

def fewerVoters : BlockHeader := { blockHeader with voters := 4 }

/-- The sample header at the lowest network difficulty, where every other hash makes a
block. -/
def easyHeader : BlockHeader := { blockHeader with bits := 0x207fffff }

def submitted (template : BlockHeader) : Bytes := { template with
  timestamp := 0x5b0000f2
  nonce := 0x6aae848d
  extraData := Job.resize (BigEndian.encode 12 0x000000000000000101000058) }.writeWithoutSolution

def header : Bytes := submitted blockHeader

def solutionBytes (quarters : List Nat) : Bytes := quarters.flatMap (BigEndian.encode 25)

def solution : Bytes := solutionBytes
  [0x01f86007c4c200f6b513a712e49060f62ec05146a574fb7eba,
    0x03edd48c9cc48ce60d108ba6931ce3077f6df558ffcffc277b,
    0x05a2b8f221740bd7c4d9da5867dd50078b7a9b5e598bea3d55,
    0x06ff6ded421edcf7a8161b00c2e202cf906d153a21ed26c6f3]

def otherSolution : Bytes := solutionBytes
  [0x06b60f6653b391d939cb3c5360b826b93809212d880cd169e1,
    0x10d599d28424e0eb1eb8ad1352dfc5a1967930f5b003ed8e63,
    0x178781511bf90b33ec1cebeb78832f9c5f617756ae21c3fd95,
    0x42b7aaa93f66a3d7f77bf1f1a4ec2924c99365b428fb17ccc3]

def fewerVotersSolution : Bytes := solutionBytes
  [0x0603e70f0dc1901f966bd1a1566a61e3e91ed2408815533e56,
    0x559717fb1ef0f0cc663a86fdc6b8a1bbe1bb5f1bc3dbbc9a50,
    0x0cc31967517d50fc5e6ff61ca61e1a6c31527b889609fc5576,
    0x1d93e6733b8289698afb41e7f37ab9d3f063c1248b274c20f7]

def blockSolution : Bytes := solutionBytes
  [0x0005d3ce93b12c4b8838b8251723ec53a45fae3e9f516613a7,
    0x28d4145a638bdfb891b609a0d2ff52c37469fd58498dffcf03,
    0x0b0976af843e18c1f396a1be94e6a6777a1049cda3af225265,
    0x2edfaf39054f992ccc743d2ca439b7cfc33bfa6d52136254ab]

def easySolution : Bytes := solutionBytes
  [0x03cf2f2bef1c89096025fe8ea1639635a00cf8a72b867540c1,
    0x2787ff297d91edc5255b8e71449c0c33e39fce9c0689e6906f,
    0x0acd9f2b1a276a2ff6375617c2089d73590e04d2ae39ce8339,
    0x361e005a576f5d3ead3ea6b7f6c6802cc71bbdc1ee774c28c6]

/-- The solutions for submitted headers, with the hashes of the two together. -/
def solved : List (Bytes × Bytes × FixedBytes 32) :=
  [(header, solution, FixedBytes.ofNumber 32
      0x0f91212580747ff9ba2711bbdc8a266c7d7027e3ffcb29520d7ab10054279e36),
    (header, otherSolution, FixedBytes.ofNumber 32
      0xaa73c9666e83e75585afc7d53d1225ba1894ca62ebf053b497975229f76345cc),
    (submitted fewerVoters, fewerVotersSolution, FixedBytes.ofNumber 32
      0x242c2f362c4a96cff948af8a951d0eeadb0da19171d4bf81b434733a296d386b),
    (submitted easyHeader, blockSolution, FixedBytes.ofNumber 32
      0xba9b890126fcbf6a8b8ca0fbdbe0f01a116c4b1ffe1d7e272c0d047114773f16),
    (submitted easyHeader, easySolution, FixedBytes.ofNumber 32
      0xdba784127bdb941ba33e83ba41f8245c0012292c2fa4d4badae6f7f4441e41c2)]

def environment : Environment where
  culture := .ordinal
  equihashVerify given candidate := solved.any fun entry =>
    entry.1 == given && entry.2.1 == candidate
  headerHasher data := ((solved.find? fun entry => entry.1 ++ entry.2.1 == data).map
    fun entry => entry.2.2).getD (List.Vector.replicate 32 0xff)
  expandBits bits := bits.toNat % 2 ^ 24 * 256 ^ (bits.toNat / 2 ^ 24 - 3)
  toDouble := FloatingPoint.toDouble

def job : Job where
  jobId := text "00000001"
  blockHeader
  blockTarget := environment.expandBits blockHeader.bits
  difficulty := environment.toDouble
    (longValue (diff1 / environment.expandBits blockHeader.bits))

def submissionOf (solution : Bytes) : Submission where
  worker := {
    extraNonce1 := text "01000058"
    difficulty := { difficulty := 1 / 10, previousDifficulty := none, retargeted := false } }
  now := 0x5b000100
  extraNonce := some (text "000000000000000101000058")
  nTime := some (text "5b0000f2")
  nonce := some (text "8d84ae6a")
  solution := some (toHexString solution)

def submission : Submission := submissionOf solution

def blockSubmission : Submission := submissionOf blockSolution

def blockHash : Text :=
  text "163f771471040d2c277e1dfe1f4b6c111af0e0dbfba08c8b6abffc2601899bba"

end SampleShare

theorem acceptedShares_two_solutions :
    let submissions := [SampleShare.submission,
      SampleShare.submissionOf SampleShare.otherSolution]
    (SampleShare.job.acceptedShares SampleShare.environment submissions).length = 2 ∧
      (SampleShare.job.acceptedShares SampleShare.environment submissions).Pairwise
        fun earlier later => earlier.2.1 ≠ later.2.1 :=
  ⟨by decide +kernel,
    Job.acceptedShares_work_distinct SampleShare.environment SampleShare.job _ (by decide)⟩

/-- A leading zero in the nonce spells the same number, and the length of the
nonce is never checked: the same work is credited again. -/
theorem acceptedShares_leading_zero :
    ¬(SampleShare.job.acceptedShares SampleShare.environment [SampleShare.submission,
      { SampleShare.submission with nonce := some (text "08d84ae6a") }]).Pairwise
        fun earlier later => earlier.2.1 ≠ later.2.1 := by
  decide +kernel

end Miningcore.ExchangeCoin

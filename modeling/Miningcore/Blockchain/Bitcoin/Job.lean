import Miningcore.Crypto.MerkleTree
import Miningcore.Extensions.StringExtensions
import Miningcore.Stratum.ShareAcceptance

/-! `BitcoinJob`: shares of the coins whose work is a coinbase transaction and
an 80-byte header. -/

namespace Miningcore.Bitcoin

open LittleEndian StringExtensions

/-- The culture of the process, the coin's hash algorithms, which may read the
time beside the data, and the double SHA-256 of the merkle tree. -/
structure Environment where
  culture : Culture
  coinbaseHasher : Bytes → FixedBytes 32
  headerHasher : Bytes → UInt32 → FixedBytes 32
  blockHasher : Bytes → UInt32 → Bytes
  doubleDigest : Bytes → FixedBytes 32

def diff1 : Nat := 0x00ffff0000000000000000000000000000000000000000000000000000

/-- What `Init` derives from a block template. Hashes and compact bits are kept
as the header holds them. -/
structure Job where
  jobId : Text
  version : UInt32
  previousBlockhash : FixedBytes 32
  bits : UInt32
  curTime : UInt32
  height : Nat
  transactions : List Bytes
  merkleSteps : List (FixedBytes 32)
  coinbaseInitial : Bytes
  coinbaseFinal : Bytes
  blockTargetValue : Nat
  difficulty : ℚ
  shareMultiplier : ℚ
  rewardToPool : ℚ
  isPoS : Bool

/-- One call of `ProcessShare`, with the clock's Unix time at the call. -/
structure Submission where
  worker : BitcoinWorkerContext
  now : Int
  extraNonce2 : Option Text
  nTime : Option Text
  nonce : Option Text

/-- The parameters after the checks of `ProcessShare`, as texts and as numbers. -/
structure Validated where
  extraNonce2 : Text
  nTime : Text
  nTimeInt : UInt32
  nonce : Text
  nonceInt : UInt32

def varInt (value : UInt32) : Bytes :=
  if value < 0xfd then encode 1 value.toNat
  else if value ≤ 0xffff then 0xfd :: encode 2 value.toNat
  else 0xfe :: encode 4 value.toNat

namespace Job

variable (environment : Environment) (job : Job)

/-- The checks of `ProcessShare` up to the duplicate check. -/
def validate (submission : Submission) : Except Exception Validated := do
  let extraNonce2 ← requireNonEmpty "extraNonce2" submission.extraNonce2
  let nTime ← requireNonEmpty "nTime" submission.nTime
  let nonce ← requireNonEmpty "nonce" submission.nonce
  throwIf (nTime.length ≠ 8) (.stratum .other "incorrect size of ntime")
  let nTimeInt ← parseUInt32 nTime
  throwIf (nTimeInt < job.curTime ∨ (nTimeInt.toNat : Int) > submission.now + 7200)
    (.stratum .other "ntime out of range")
  throwIf (nonce.length ≠ 8) (.stratum .other "incorrect size of nonce")
  let nonceInt ← parseUInt32 nonce
  return { extraNonce2, nTime, nTimeInt, nonce, nonceInt }

/-- The key `RegisterSubmit` builds. Unlike the other two parameters, `nTime` is
not converted to lower case. -/
def registrationKey (submission : Submission) (validated : Validated) : Except Exception Text :=
  .ok (submission.worker.extraNonce1 ++ environment.culture.toLower validated.extraNonce2 ++
    validated.nTime ++ environment.culture.toLower validated.nonce)

def serializeCoinbase (extraNonce1 extraNonce2 : Text) : Bytes :=
  job.coinbaseInitial ++ hexToByteArray environment.culture extraNonce1 ++
    hexToByteArray environment.culture extraNonce2 ++ job.coinbaseFinal

def withFirst (steps : List (FixedBytes 32)) (first : FixedBytes 32) : FixedBytes 32 :=
  steps.foldl (fun hash step => environment.doubleDigest (hash.toList ++ step.toList)) first

def serializeHeader (coinbaseHash : FixedBytes 32) (nTime nonce : UInt32) : Bytes :=
  [encode 4 job.version.toNat, job.previousBlockhash.toList,
    (withFirst environment job.merkleSteps coinbaseHash).toList, encode 4 nTime.toNat,
    encode 4 job.bits.toNat, encode 4 nonce.toNat].flatten

theorem merkleRoot_serializeHeader (hashes : List Bytes) (fuel : Nat)
    (enough : hashes.length < fuel)
    (built : MerkleTree.calculateSteps (fun bytes => (environment.doubleDigest bytes).toList)
      fuel hashes = some (.ok (job.merkleSteps.map fun step => some step.toList)))
    (coinbaseHash : FixedBytes 32) :
    MerkleTree.merkleRoot (fun bytes => (environment.doubleDigest bytes).toList)
        (coinbaseHash.toList :: hashes) =
      some (withFirst environment job.merkleSteps coinbaseHash).toList := by
  rw [MerkleTree.calculateSteps_eq _ fuel hashes enough] at built
  have steps : PairwiseTree.branch
      (MerkleTree.join fun bytes => (environment.doubleDigest bytes).toList) hashes =
        job.merkleSteps.map List.Vector.toList := by
    apply List.map_injective_iff.mpr (Option.some_injective _)
    rw [List.map_map]
    exact Except.ok.inj (Option.some.inj built)
  rw [MerkleTree.merkleRoot, PairwiseTree.root_eq_foldl_branch, steps, List.foldl_map, withFirst]
  congr 1
  exact List.foldl_hom List.Vector.toList fun _ _ => rfl

def serializeBlock (header coinbase : Bytes) : Bytes :=
  header ++ varInt (UInt32.ofNat job.transactions.length + 1) ++ coinbase ++
    job.transactions.flatten ++ (if job.isPoS then [0] else [])

structure Work where
  coinbase : Bytes
  header : Bytes
deriving DecidableEq

/-- The work a submission stands for. -/
def decodeWork (submission : Submission) (validated : Validated) : Work :=
  let coinbase :=
    job.serializeCoinbase environment submission.worker.extraNonce1 validated.extraNonce2
  { coinbase
    header := job.serializeHeader environment (environment.coinbaseHasher coinbase)
      validated.nTimeInt validated.nonceInt }

/-- `ProcessShareInternal`, returning next to the share and the block also the
work. -/
def processShareInternal (submission : Submission) (validated : Validated) :
    Except Exception (Work × Blockchain.Share × Option Text) := do
  let work := job.decodeWork environment submission validated
  let headerHash := (environment.headerHasher work.header validated.nTimeInt).toList
  let headerValue := decode headerHash
  let shareDiff := (← shareDifficulty diff1 headerValue) * job.shareMultiplier
  let isBlockCandidate := decide (headerValue ≤ job.blockTargetValue)
  let difficulty ← stratumDifficulty submission.worker.difficulty shareDiff isBlockCandidate
  let share : Blockchain.Share := {
    blockHeight := job.height
    networkDifficulty := job.difficulty * job.shareMultiplier
    difficulty }
  if isBlockCandidate then
    return (work, { share with
      isBlockCandidate := true
      blockReward := job.rewardToPool
      blockHash := some (toHexString (environment.blockHasher work.header validated.nTimeInt)) },
      some (toHexString (job.serializeBlock work.header work.coinbase)))
  return (work, share, none)

def processShare (submissions : Submissions Text) (submission : Submission) :
    Submissions Text × Except Exception (Work × Blockchain.Share × Option Text) :=
  processSubmission job.validate (registrationKey environment)
    (.stratum .duplicateShare "duplicate share") (job.processShareInternal environment)
    submissions submission

def acceptedShares (submissions : List Submission) :
    List (Submission × Work × Blockchain.Share × Option Text) :=
  (submissionGuard job.validate (registrationKey environment)
    (.stratum .duplicateShare "duplicate share")
    (job.processShareInternal environment)).acceptances [] submissions

theorem validate_ok {submission : Submission} {validated : Validated}
    (valid : job.validate submission = .ok validated) :
    submission.extraNonce2 = some validated.extraNonce2 ∧
      submission.nTime = some validated.nTime ∧ submission.nonce = some validated.nonce ∧
      validated.nTime.length = 8 ∧ validated.nonce.length = 8 ∧
      parseUInt32 validated.nTime = .ok validated.nTimeInt ∧
      parseUInt32 validated.nonce = .ok validated.nonceInt := by
  simp only [validate, bind_eq_ok, throwIf_eq_ok, pure_eq_ok, exists_and_left, exists_const,
    not_not] at valid
  rcases valid with ⟨extraNonce2, extraNonce2Given, nTime, nTimeGiven, nonce, nonceGiven,
    nTimeLength, nTimeInt, nTimeParsed, -, nonceLength, nonceInt, nonceParsed, rfl⟩
  exact ⟨requireNonEmpty_ok extraNonce2Given, requireNonEmpty_ok nTimeGiven,
    requireNonEmpty_ok nonceGiven, nTimeLength, nonceLength, nTimeParsed, nonceParsed⟩

theorem processShareInternal_work {submission : Submission} {validated : Validated}
    {result : Work × Blockchain.Share × Option Text}
    (processed : job.processShareInternal environment submission validated = .ok result) :
    result.1 = job.decodeWork environment submission validated := by
  simp only [processShareInternal, bind_eq_ok] at processed
  rcases processed with ⟨_, _, _, _, returned⟩
  split at returned <;>
  · rw [pure_eq_ok] at returned
    rw [← returned]

theorem serializeHeader_injective {leftHash rightHash : FixedBytes 32}
    {leftTime rightTime leftNonce rightNonce : UInt32}
    (equal : job.serializeHeader environment leftHash leftTime leftNonce =
      job.serializeHeader environment rightHash rightTime rightNonce) :
    leftTime = rightTime ∧ leftNonce = rightNonce := by
  have fields := ByteLayout.flatten_injective _ _ (by simp) equal
  simp only [List.cons.injEq, and_true, true_and] at fields
  rcases fields with ⟨-, time, nonce⟩
  have word {left right : UInt32} (equal : encode 4 left.toNat = encode 4 right.toNat) :
      left = right :=
    UInt32.toNat_inj.mp (encode_injective 4 _ _ left.toNat_lt right.toNat_lt equal)
  exact ⟨word time, word nonce⟩

end Job

/-- The spelling the stratum protocol asks for: pairs of hexadecimal digits, in
lower case where the key keeps the text as it is. -/
def Submission.isCanonical (submission : Submission) : Bool :=
  submission.worker.extraNonce1.isHex && submission.worker.extraNonce1.isLower &&
    submission.worker.extraNonce1.length % 2 == 0 &&
    submission.extraNonce2.all (fun extraNonce2 =>
      extraNonce2.isHex && extraNonce2.length % 2 == 0) &&
    submission.nTime.all (fun nTime => nTime.isHex && nTime.isLower) &&
    submission.nonce.all Text.isHex

namespace Job

variable (environment : Environment) (job : Job)

theorem extraNonces_of_coinbase {leftFirst leftSecond rightFirst rightSecond : Text}
    (leftFirstHex : leftFirst.isHex = true) (leftSecondHex : leftSecond.isHex = true)
    (rightFirstHex : rightFirst.isHex = true) (rightSecondHex : rightSecond.isHex = true)
    (leftFirstEven : leftFirst.length % 2 = 0) (leftSecondEven : leftSecond.length % 2 = 0)
    (rightFirstEven : rightFirst.length % 2 = 0) (rightSecondEven : rightSecond.length % 2 = 0)
    (equal : job.serializeCoinbase environment leftFirst leftSecond =
      job.serializeCoinbase environment rightFirst rightSecond) :
    Text.asciiLower (leftFirst ++ leftSecond) = Text.asciiLower (rightFirst ++ rightSecond) := by
  simp only [serializeCoinbase, List.append_assoc, List.append_cancel_left_eq,
    hexToByteArray_of_isHex, leftFirstHex, leftSecondHex, rightFirstHex, rightSecondHex] at equal
  rw [← List.append_assoc, ← List.append_assoc, List.append_cancel_right_eq,
    ← hexPairs_append _ _ leftFirstEven, ← hexPairs_append _ _ rightFirstEven] at equal
  apply hexPairs_injective _ _ _ _ _ _ equal
  · rw [Text.isHex_append, leftFirstHex, leftSecondHex]
    rfl
  · rw [Text.isHex_append, rightFirstHex, rightSecondHex]
    rfl
  · rw [List.length_append]
    omega
  · rw [List.length_append]
    omega

theorem registrationKey_of_work (left : Submission) (leftValidated : Validated)
    (leftResult : Work × Blockchain.Share × Option Text) (right : Submission)
    (rightValidated : Validated) (rightResult : Work × Blockchain.Share × Option Text)
    (leftCanonical : left.isCanonical = true) (rightCanonical : right.isCanonical = true)
    (leftValid : job.validate left = .ok leftValidated)
    (rightValid : job.validate right = .ok rightValidated)
    (leftProcessed : job.processShareInternal environment left leftValidated = .ok leftResult)
    (rightProcessed : job.processShareInternal environment right rightValidated = .ok rightResult)
    (equal : leftResult.1 = rightResult.1) :
    registrationKey environment left leftValidated =
      registrationKey environment right rightValidated := by
  rcases job.validate_ok leftValid with ⟨leftExtra, leftTime, leftNonce, leftTimeLength,
    leftNonceLength, leftTimeParsed, leftNonceParsed⟩
  rcases job.validate_ok rightValid with ⟨rightExtra, rightTime, rightNonce, rightTimeLength,
    rightNonceLength, rightTimeParsed, rightNonceParsed⟩
  rw [job.processShareInternal_work environment leftProcessed,
    job.processShareInternal_work environment rightProcessed] at equal
  simp only [decodeWork, Work.mk.injEq] at equal
  rcases equal with ⟨coinbase, header⟩
  rcases job.serializeHeader_injective environment header with ⟨sameTime, sameNonce⟩
  simp only [Submission.isCanonical, leftExtra, leftTime, leftNonce, rightExtra, rightTime,
    rightNonce, Option.all_some, Bool.and_eq_true, beq_iff_eq] at leftCanonical rightCanonical
  rcases leftCanonical with ⟨⟨⟨⟨⟨leftFirstHex, leftFirstLower⟩, leftFirstEven⟩, leftSecondHex,
    leftSecondEven⟩, leftTimeHex, leftTimeLower⟩, leftNonceHex⟩
  rcases rightCanonical with ⟨⟨⟨⟨⟨rightFirstHex, rightFirstLower⟩, rightFirstEven⟩, rightSecondHex,
    rightSecondEven⟩, rightTimeHex, rightTimeLower⟩, rightNonceHex⟩
  have extraNonces := job.extraNonces_of_coinbase environment leftFirstHex leftSecondHex
    rightFirstHex rightSecondHex leftFirstEven leftSecondEven rightFirstEven rightSecondEven
    coinbase
  have time := parseUInt32_injective environment.culture leftTimeHex rightTimeHex
    (leftTimeLength.trans rightTimeLength.symm) leftTimeParsed (sameTime ▸ rightTimeParsed)
  have nonce := parseUInt32_injective environment.culture leftNonceHex rightNonceHex
    (leftNonceLength.trans rightNonceLength.symm) leftNonceParsed (sameNonce ▸ rightNonceParsed)
  rw [environment.culture.toLower_hex _ leftTimeHex, environment.culture.toLower_hex _ rightTimeHex,
    Text.asciiLower_of_isLower leftTimeLower, Text.asciiLower_of_isLower rightTimeLower] at time
  rw [Text.asciiLower_append, Text.asciiLower_append, Text.asciiLower_of_isLower leftFirstLower,
    Text.asciiLower_of_isLower rightFirstLower] at extraNonces
  rw [registrationKey, registrationKey, environment.culture.toLower_hex _ leftSecondHex,
    environment.culture.toLower_hex _ rightSecondHex, extraNonces, time, nonce]

/-- In every run of canonically spelled submissions a job accepts no work twice. -/
theorem acceptedShares_coinbase_header_distinct (submissions : List Submission)
    (canonical : ∀ submission ∈ submissions, submission.isCanonical = true) :
    (job.acceptedShares environment submissions).Pairwise fun earlier later =>
      earlier.2.1 ≠ later.2.1 :=
  submissionGuard_work_pairwise job.validate (registrationKey environment)
    (.stratum .duplicateShare "duplicate share") (job.processShareInternal environment)
    (fun result => result.1) (fun submission => submission.isCanonical = true)
    (job.registrationKey_of_work environment) [] submissions canonical

end Job

/-! ## A regtest block

The header and coinbase of a block at height 14 without further transactions; the hashes
are given by their values on the coinbase with four and with five bytes from the miner, and
on the headers with these. -/

namespace SampleShare

def coinbaseInitial : Bytes :=
  BigEndian.encode 5 0x0100000001 ++ BigEndian.encode 32 0 ++
    BigEndian.encode 25 0xffffffff295e0c0b2f454231362f414431322f04f286ef5900

def coinbaseFinal : Bytes :=
  BigEndian.encode 26 0x0c2f4d696e696e67436f72652f000000000100f2052a01000000 ++
    BigEndian.encode 30 0x1976a9142ebb5cccf9a6bb927661d2953655c43c04accc3788ac00000000

/-- The coinbase transactions with the extra nonces of a share, and their hashes. -/
def coinbases : List (Bytes × Nat) :=
  [(coinbaseInitial ++ BigEndian.encode 8 0x0100005801000000 ++ coinbaseFinal,
      0xfd5418fe788ef961678e4bacdd1fe3903185b9ec63865bb3d2d279bb0eb48c0b),
    (coinbaseInitial ++ BigEndian.encode 9 0x010000580100000000 ++ coinbaseFinal,
      0xa1c6feaf8a0c649c4899988ef645e0197a9712e5ebe66032da2bc10689dd5989)]

def headerOf (coinbaseHash nonce : Nat) : Bytes :=
  BigEndian.encode 36 0x00000020bb76da6422b707a90831c421798123293bc5fd377bbeb5198557090900000000 ++
    BigEndian.encode 32 coinbaseHash ++ BigEndian.encode 8 0xf286ef59ffff7f20 ++
    BigEndian.encode 4 nonce

def headers : List (Bytes × Nat) :=
  [(headerOf 0xfd5418fe788ef961678e4bacdd1fe3903185b9ec63865bb3d2d279bb0eb48c0b 0x6aae848d,
      0x16b702ba3aac6a214cb66f36f2bedab8ae58a30c3eb5bdcbce4b803950d81e60),
    (headerOf 0xfd5418fe788ef961678e4bacdd1fe3903185b9ec63865bb3d2d279bb0eb48c0b 0x6bae848d,
      0x84c2a4a8c052b81a9dddf908e8e0d3c16ff8216f854a13ec252d5dcc86b0ef27),
    (headerOf 0xa1c6feaf8a0c649c4899988ef645e0197a9712e5ebe66032da2bc10689dd5989 0x6aae848d,
      0x5cc4bc72e9a5385328645562cfbc6f50d1ae6fe1789b0c9e4b5727a70acaf9f7),
    (headerOf 0xa1c6feaf8a0c649c4899988ef645e0197a9712e5ebe66032da2bc10689dd5989 0x6bae848d,
      0x5cbbac7c33dde4758a759a803ed856f644586accb2df19b48724f3ed44a62740)]

def tabulated (table : List (Bytes × Nat)) (data : Bytes) : FixedBytes 32 :=
  .ofNumber 32 (((table.find? fun entry => entry.1 == data).map Prod.snd).getD (256 ^ 32 - 1))

def environment : Environment where
  culture := .ordinal
  coinbaseHasher := tabulated coinbases
  headerHasher data _ := tabulated headers data
  blockHasher data _ := (tabulated headers data).toList.reverse
  doubleDigest _ := .ofNumber 32 0

def job : Job where
  jobId := text "1"
  version := 0x20000000
  previousBlockhash :=
    .ofNumber 32 0xbb76da6422b707a90831c421798123293bc5fd377bbeb5198557090900000000
  bits := 0x207fffff
  curTime := 1508869874
  height := 14
  transactions := []
  merkleSteps := []
  coinbaseInitial
  coinbaseFinal
  blockTargetValue := 0x7fffff * 2 ^ 232
  difficulty := 1 / 2 ^ 31
  shareMultiplier := 1
  rewardToPool := 50
  isPoS := false

def submission : Submission where
  worker := {
    extraNonce1 := text "01000058"
    difficulty := { difficulty := 1 / 2, previousDifficulty := none, retargeted := false } }
  now := 1508869907
  extraNonce2 := some (text "01000000")
  nTime := some (text "59ef86f2")
  nonce := some (text "8d84ae6a")

end SampleShare

theorem acceptedShares_two_nonces :
    let submissions := [SampleShare.submission,
      { SampleShare.submission with nonce := some (text "8d84ae6b") }]
    (SampleShare.job.acceptedShares SampleShare.environment submissions).length = 2 ∧
      (SampleShare.job.acceptedShares SampleShare.environment submissions).Pairwise
        fun earlier later => earlier.2.1 ≠ later.2.1 :=
  ⟨by decide +kernel, SampleShare.job.acceptedShares_coinbase_header_distinct
    SampleShare.environment _ (by decide)⟩

/-- An upper-case `nTime` gives the same work another key, and it is credited
again. -/
theorem acceptedShares_upper_case_time :
    ¬(SampleShare.job.acceptedShares SampleShare.environment [SampleShare.submission,
      { SampleShare.submission with nTime := some (text "59EF86F2") }]).Pairwise
        fun earlier later => earlier.2.1 ≠ later.2.1 := by
  decide +kernel

end Miningcore.Bitcoin

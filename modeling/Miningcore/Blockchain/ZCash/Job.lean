import Miningcore.Blockchain.Bitcoin.Job

/-! `ZCashJob` and `BitcoinGoldJob`: shares whose work is a 140-byte header and
an Equihash solution. -/

namespace Miningcore.ZCash

open LittleEndian StringExtensions

/-- The solvers of `EquihashSolver.cs` that these coins use. -/
inductive EquihashSolver
  | zcash
  | btg
deriving DecidableEq, Repr

def EquihashSolver.solutionLength : EquihashSolver → Nat
  | .zcash => 1344
  | .btg => 100

/-- The fields of `ZCashChainConfig` that processing a share reads. -/
structure ChainConfig where
  diff1 : Nat
  solver : EquihashSolver := .zcash
  solutionSize : Nat := 1344
  solutionPreambleSize : Nat := 3

structure Environment where
  culture : Culture
  equihashVerify : EquihashSolver → Bytes → Bytes → Bool
  headerHasher : Bytes → UInt32 → FixedBytes 32

/-- The two job classes differ, as far as shares go, in the reserved field of
the header. -/
inductive Kind
  | zcash (isSaplingActive : Bool) (finalSaplingRootHash : Option Text)
  | bitcoinGold
deriving DecidableEq

/-- What `Init` derives from a block template. -/
structure Job where
  jobId : Text
  kind : Kind
  chainConfig : ChainConfig
  version : UInt32
  previousBlockhash : FixedBytes 32
  merkleRoot : FixedBytes 32
  bits : UInt32
  curTime : UInt32
  height : UInt32
  transactions : List Bytes
  coinbaseInitial : Bytes
  blockTargetValue : Nat
  difficulty : ℚ
  shareMultiplier : ℚ
  rewardToPool : ℚ

/-- One call of `ProcessShare`, with the clock's Unix time at the call. -/
structure Submission where
  worker : BitcoinWorkerContext
  now : Int
  extraNonce2 : Option Text
  nTime : Option Text
  solution : Option Text

structure Validated where
  nonce : Text
  nTime : UInt32
  solution : Text

namespace Job

variable (environment : Environment) (job : Job)

/-- The checks of `ProcessShare` up to the duplicate check. -/
def validate (submission : Submission) : Except Exception Validated := do
  let extraNonce2 ← requireNonEmpty "extraNonce2" submission.extraNonce2
  let nTime ← requireNonEmpty "nTime" submission.nTime
  let solution ← requireNonEmpty "solution" submission.solution
  throwIf (nTime.length ≠ 8) (.stratum .other "incorrect size of ntime")
  let nTimeInt ← parseUInt32 (toHexString (hexToByteArray environment.culture nTime).reverse)
  throwIf (nTimeInt < job.curTime ∨ (nTimeInt.toNat : Int) > submission.now + 7200)
    (.stratum .other "ntime out of range")
  let nonce := submission.worker.extraNonce1 ++ extraNonce2
  throwIf (nonce.length ≠ 64) (.stratum .other "incorrect size of extraNonce2")
  throwIf (solution.length ≠
    (job.chainConfig.solutionSize + job.chainConfig.solutionPreambleSize) * 2)
    (.stratum .other "incorrect size of solution")
  return { nonce, nTime := nTimeInt, solution }

def registrationKey (_ : Submission) (validated : Validated) : Except Exception Text :=
  .ok (environment.culture.toLower validated.nonce ++
    environment.culture.toLower validated.solution)

/-- The reserved field: the Sapling root where there is one, the height for
Bitcoin Gold, else zeros. -/
def hashReserved : Bytes :=
  match job.kind with
  | .zcash true (some (unit :: rest)) =>
      (hexToByteArray environment.culture (unit :: rest)).reverse
  | .zcash _ _ => List.replicate 32 0
  | .bitcoinGold => encode 4 job.height.toNat ++ List.replicate 28 0

def serializeHeader (nTime : UInt32) (nonce : Text) : Bytes :=
  [encode 4 job.version.toNat, job.previousBlockhash.toList, job.merkleRoot.toList,
    job.hashReserved environment, encode 4 nTime.toNat, encode 4 job.bits.toNat,
    hexToByteArray environment.culture nonce].flatten

def serializeBlock (header coinbase solution : Bytes) : Bytes :=
  header ++ solution ++ Bitcoin.varInt (UInt32.ofNat job.transactions.length + 1) ++ coinbase ++
    job.transactions.flatten

structure Work where
  header : Bytes
  solution : Bytes
deriving DecidableEq

def decodeWork (validated : Validated) : Work where
  header := job.serializeHeader environment validated.nTime validated.nonce
  solution := hexToByteArray environment.culture validated.solution

/-- `Verify` of the chain's solver, on the solution without its preamble. -/
def verifySolution (work : Work) : Except Exception Bool := do
  let solver := job.chainConfig.solver
  let solution := work.solution.drop job.chainConfig.solutionPreambleSize
  throwIf (work.header.length ≠ 140) (.argument "header must be exactly 140 bytes")
  throwIf (solution.length ≠ solver.solutionLength)
    (.argument ("solution must be exactly " ++ toString solver.solutionLength ++ " bytes"))
  return environment.equihashVerify solver work.header solution

/-- `ProcessShareInternal`, returning next to the share and the block also the
work. -/
def processShareInternal (submission : Submission) (validated : Validated) :
    Except Exception (Work × Blockchain.Share × Option Text) := do
  let work := job.decodeWork environment validated
  let isValid ← job.verifySolution environment work
  throwIf (isValid = false) (.stratum .other "invalid solution")
  let headerHash := (environment.headerHasher (work.header ++ work.solution) validated.nTime).toList
  let headerValue := decode headerHash
  let shareDiff := (← shareDifficulty job.chainConfig.diff1 headerValue) * job.shareMultiplier
  let isBlockCandidate := decide (headerValue ≤ job.blockTargetValue)
  let difficulty ← stratumDifficulty submission.worker.difficulty shareDiff isBlockCandidate
  let share : Blockchain.Share := {
    blockHeight := job.height.toNat
    networkDifficulty := job.difficulty
    difficulty }
  if isBlockCandidate then
    return (work, { share with
      isBlockCandidate := true
      blockReward := job.rewardToPool
      blockHash := some (toHexString headerHash.reverse) },
      some (toHexString (job.serializeBlock work.header job.coinbaseInitial work.solution)))
  return (work, share, none)

def processShare (submissions : Submissions Text) (submission : Submission) :
    Submissions Text × Except Exception (Work × Blockchain.Share × Option Text) :=
  processSubmission (job.validate environment) (registrationKey environment)
    (.stratum .duplicateShare "duplicate share") (job.processShareInternal environment)
    submissions submission

def acceptedShares (submissions : List Submission) :
    List (Submission × Work × Blockchain.Share × Option Text) :=
  (submissionGuard (job.validate environment) (registrationKey environment)
    (.stratum .duplicateShare "duplicate share")
    (job.processShareInternal environment)).acceptances [] submissions

theorem validate_ok {submission : Submission} {validated : Validated}
    (valid : job.validate environment submission = .ok validated) :
    (∃ extraNonce2, submission.extraNonce2 = some extraNonce2 ∧
      validated.nonce = submission.worker.extraNonce1 ++ extraNonce2) ∧
      submission.solution = some validated.solution ∧ validated.nonce.length = 64 ∧
      validated.solution.length % 2 = 0 := by
  simp only [validate, bind_eq_ok, throwIf_eq_ok, pure_eq_ok, exists_and_left, exists_const,
    not_not] at valid
  rcases valid with ⟨extraNonce2, extraNonce2Given, _, _, solution, solutionGiven, _, _, _, _,
    nonceLength, solutionLength, rfl⟩
  refine ⟨⟨extraNonce2, requireNonEmpty_ok extraNonce2Given, rfl⟩,
    requireNonEmpty_ok solutionGiven, nonceLength, ?_⟩
  rw [solutionLength]
  omega

theorem processShareInternal_work {submission : Submission} {validated : Validated}
    {result : Work × Blockchain.Share × Option Text}
    (processed : job.processShareInternal environment submission validated = .ok result) :
    result.1 = job.decodeWork environment validated := by
  simp only [processShareInternal, bind_eq_ok, throwIf_eq_ok] at processed
  rcases processed with ⟨_, _, _, _, _, _, _, _, returned⟩
  split at returned <;>
  · rw [pure_eq_ok] at returned
    rw [← returned]

theorem serializeHeader_nonce {leftTime rightTime : UInt32} {left right : Text}
    (sameLength : (hexToByteArray environment.culture left).length =
      (hexToByteArray environment.culture right).length)
    (equal : job.serializeHeader environment leftTime left =
      job.serializeHeader environment rightTime right) :
    hexToByteArray environment.culture left = hexToByteArray environment.culture right := by
  have fields := ByteLayout.flatten_injective _ _ (by simp [sameLength]) equal
  simp only [List.cons.injEq, and_true, true_and] at fields
  exact fields.2

end Job

def Submission.isCanonical (submission : Submission) : Bool :=
  submission.worker.extraNonce1.isHex && submission.extraNonce2.all Text.isHex &&
    submission.solution.all Text.isHex

namespace Job

variable (environment : Environment) (job : Job)

theorem canonical_ok {submission : Submission} {validated : Validated}
    (valid : job.validate environment submission = .ok validated)
    (canonical : submission.isCanonical = true) :
    validated.nonce.isHex = true ∧ validated.solution.isHex = true := by
  rcases job.validate_ok environment valid with ⟨⟨extraNonce2, given, nonce⟩, solution, -, -⟩
  simp only [Submission.isCanonical, given, solution, Option.all_some, Bool.and_eq_true]
    at canonical
  rw [nonce, Text.isHex_append, canonical.1.1, canonical.1.2]
  exact ⟨rfl, canonical.2⟩

theorem registrationKey_of_work (left : Submission) (leftValidated : Validated)
    (leftResult : Work × Blockchain.Share × Option Text) (right : Submission)
    (rightValidated : Validated) (rightResult : Work × Blockchain.Share × Option Text)
    (leftCanonical : left.isCanonical = true) (rightCanonical : right.isCanonical = true)
    (leftValid : job.validate environment left = .ok leftValidated)
    (rightValid : job.validate environment right = .ok rightValidated)
    (leftProcessed : job.processShareInternal environment left leftValidated = .ok leftResult)
    (rightProcessed : job.processShareInternal environment right rightValidated = .ok rightResult)
    (equal : leftResult.1 = rightResult.1) :
    registrationKey environment left leftValidated =
      registrationKey environment right rightValidated := by
  rcases job.validate_ok environment leftValid with ⟨-, -, leftNonceLength, leftSolutionEven⟩
  rcases job.validate_ok environment rightValid with ⟨-, -, rightNonceLength, rightSolutionEven⟩
  rcases job.canonical_ok environment leftValid leftCanonical with ⟨leftNonceHex, leftSolutionHex⟩
  rcases job.canonical_ok environment rightValid rightCanonical with
    ⟨rightNonceHex, rightSolutionHex⟩
  rw [job.processShareInternal_work environment leftProcessed,
    job.processShareInternal_work environment rightProcessed] at equal
  simp only [decodeWork, Work.mk.injEq] at equal
  rcases equal with ⟨header, solution⟩
  have nonceBytes := job.serializeHeader_nonce environment (by
    rw [hexToByteArray_of_isHex environment.culture leftNonceHex,
      hexToByteArray_of_isHex environment.culture rightNonceHex, hexPairs_length, hexPairs_length,
      leftNonceLength, rightNonceLength]) header
  have nonceEqual := hexToByteArray_injective environment.culture leftNonceHex rightNonceHex
    (by omega) (by omega) nonceBytes
  have solutionEqual := hexToByteArray_injective environment.culture leftSolutionHex
    rightSolutionHex leftSolutionEven rightSolutionEven solution
  rw [registrationKey, registrationKey, nonceEqual, solutionEqual]

/-- In every run of canonically spelled submissions a job accepts no work twice. -/
theorem acceptedShares_header_solution_distinct (submissions : List Submission)
    (canonical : ∀ submission ∈ submissions, submission.isCanonical = true) :
    (job.acceptedShares environment submissions).Pairwise fun earlier later =>
      earlier.2.1 ≠ later.2.1 :=
  submissionGuard_work_pairwise (job.validate environment) (registrationKey environment)
    (.stratum .duplicateShare "duplicate share") (job.processShareInternal environment)
    (fun result => result.1) (fun submission => submission.isCanonical = true)
    (job.registrationKey_of_work environment) [] submissions canonical

end Job

/-! ## A Bitcoin Gold header with two solutions

Both solutions satisfy Equihash 144,5 for this header; the verifier and the
hash are given by their values on it. -/

namespace SampleShare

def solution : Bytes :=
  [0x05137bace8cb53b326dc50dec0c7ba6d5075a6f0cd51cd9da6,
    0x21e63345ca646586e4d2f86b22d91b49e945b65a66cba6c3c6,
    0x1ce93d54ba54a0258093fa4b11d07e372bbfd0a7ce177cb160,
    0x31fafd369d5f25c9cbfd7312763e099ce9d37f35a093bee2b6].flatMap
      (BigEndian.encode 25)

def otherSolution : Bytes :=
  [0x0559567db78f9dc8ebd54647019147f9a7cad7abefbfddf3bd,
    0x0a350aed08d27044629aea9c0416b02b7ee309e9e1f930a79a,
    0x0d5712f963c8507da9dff0174403beebd10911c5745bd6b1e3,
    0x3a7332249274d278678d0349ae6e6247bd48dfa1346be28471].flatMap
      (BigEndian.encode 25)

def job : Job where
  jobId := text "1"
  kind := .bitcoinGold
  chainConfig := {
    diff1 := 0x0007ffffffffffffffffffffffffffffffffffffffffffffffffffffffffffff
    solver := .btg
    solutionSize := 100
    solutionPreambleSize := 1 }
  version := 0x20000000
  previousBlockhash := List.Vector.replicate 32 0x11
  merkleRoot := List.Vector.replicate 32 0x22
  bits := 0x1d00ffff
  curTime := 0x5b000000
  height := 500000
  transactions := []
  coinbaseInitial := []
  blockTargetValue := 0xffff * 2 ^ 208
  difficulty := 2 ^ 19
  shareMultiplier := 1
  rewardToPool := 25 / 2

def header : Bytes :=
  encode 4 0x20000000 ++ List.replicate 32 0x11 ++ List.replicate 32 0x22 ++ encode 32 500000 ++
    encode 4 0x5b0000f2 ++ encode 4 0x1d00ffff ++ BigEndian.encode 4 0x01000058 ++
    BigEndian.encode 28 1

def environment : Environment where
  culture := .ordinal
  equihashVerify _ given candidate :=
    given == header && (candidate == solution || candidate == otherSolution)
  headerHasher data _ :=
    if data = header ++ 100 :: solution then
      .ofNumber 32 0xbf07f73aca03bc7c9000910981d9adcb13169bccb7f4f3cf15ba568f3401ae1b
    else
      .ofNumber 32 0xc52f078c118547502f03e4c92e360c32926cd0452a6622b00ffe89711924256e

def submission : Submission where
  worker := {
    extraNonce1 := text "01000058"
    difficulty := { difficulty := 1 / 10 ^ 6, previousDifficulty := none, retargeted := false } }
  now := 0x5b000100
  extraNonce2 := some (toHexString (BigEndian.encode 28 1))
  nTime := some (text "f200005b")
  solution := some (toHexString (100 :: solution))

/-- The same solution with the first `3` of its text spelled as a colon. -/
def respelled : Text := (toHexString (100 :: solution)).set 5 58

end SampleShare

theorem acceptedShares_two_btg_solutions :
    let submissions := [SampleShare.submission, { SampleShare.submission with
      solution := some (toHexString (100 :: SampleShare.otherSolution)) }]
    (SampleShare.job.acceptedShares SampleShare.environment submissions).length = 2 ∧
      (SampleShare.job.acceptedShares SampleShare.environment submissions).Pairwise
        fun earlier later => earlier.2.1 ≠ later.2.1 :=
  ⟨by decide +kernel, SampleShare.job.acceptedShares_header_solution_distinct
    SampleShare.environment _ (by decide)⟩

/-- A colon has the value of the digit 3: another text of the same solution is
credited again. -/
theorem acceptedShares_colon_digit :
    ¬(SampleShare.job.acceptedShares SampleShare.environment [SampleShare.submission,
      { SampleShare.submission with solution := some SampleShare.respelled }]).Pairwise
        fun earlier later => earlier.2.1 ≠ later.2.1 := by
  decide +kernel

end Miningcore.ZCash

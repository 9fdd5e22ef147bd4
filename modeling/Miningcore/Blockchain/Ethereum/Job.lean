import Miningcore.Extensions.StringExtensions
import Miningcore.Stratum.ShareAcceptance

/-! `EthereumJob`: shares whose work is a 64-bit nonce, assembled from the
worker's extra nonce and the submitted text. -/

namespace Miningcore.Ethereum

open LittleEndian StringExtensions

/-- The culture of the process and, for the epoch of a height, the native
computation of the mix digest and the result. -/
structure Environment where
  culture : Culture
  compute : UInt64 → Bytes → UInt64 → Option (FixedBytes 32 × FixedBytes 32)

/-- `EthereumConstants`. -/
def bigMaxValue : Nat := 2 ^ 256

def pow2x32 : ℚ := 2 ^ 32

structure Job where
  id : Text
  height : UInt64
  header : Text
  blockTarget : Nat

/-- The fields of `EthereumWorkerContext` that processing a share reads. -/
structure WorkerContext where
  extraNonce1 : Text
  difficulty : WorkerDifficulty
  minerName : Option Text
  workerName : Option Text

/-- One call of `ProcessShareAsync`: the connection, its context at the call and
the nonce, which the pool has checked not to be empty. -/
structure Submission (Client : Type) where
  client : Client
  worker : WorkerContext
  nonce : Text

def Submission.fullNonceHex {Client : Type} (submission : Submission Client) : Text :=
  submission.worker.extraNonce1 ++ submission.nonce

structure BlockSubmission where
  fullNonceHex : Text
  headerHash : Text
  mixHash : Text
deriving DecidableEq

/-- `ulong.TryParse(fullNonceHex, NumberStyles.HexNumber, ...)`. -/
def tryParseUInt64 (value : Text) : Option UInt64 :=
  match NumberParsing.parseHexNumber 64 value with
  | .ok number => some (UInt64.ofNat number)
  | .error _ => none

namespace Job

variable {Client : Type} [DecidableEq Client]
variable (environment : Environment) (job : Job)

/-- `RegisterNonce` keeps one set of nonces for each client; the model keeps the
pairs. -/
def registrationKey (submission : Submission Client) (_ : Unit) :
    Except Exception (Client × Text) :=
  .ok (submission.client, environment.culture.toLower submission.nonce)

def resultDifficulty (resultValue : Nat) : Except Exception ℚ :=
  if resultValue = 0 then .error .divideByZero
  else .ok ((bigMaxValue / resultValue : Nat) / pow2x32)

/-- `ProcessShareAsync` after the nonce is registered, returning next to the
share also the nonce that was verified. -/
def processNonce (submission : Submission Client) (_ : Unit) :
    Except Exception (UInt64 × Blockchain.Share × Option BlockSubmission) := do
  let fullNonceHex := submission.fullNonceHex
  let some fullNonce := tryParseUInt64 fullNonceHex
    | throw (.badNonce fullNonceHex)
  let header := hexToByteArray environment.culture job.header
  let some (mixDigest, result) := environment.compute job.height header fullNonce
    | throw (.stratum .minusOne "bad hash")
  let resultValue := decode result.toList.reverse
  let shareDiff ← resultDifficulty resultValue
  let isBlockCandidate := decide (resultValue ≤ job.blockTarget)
  let difficulty ← stratumDifficulty submission.worker.difficulty shareDiff isBlockCandidate
  let mixHash := text "0x" ++ toHexString mixDigest.toList
  let share : Blockchain.Share := {
    blockHeight := job.height.toNat
    miner := submission.worker.minerName
    worker := submission.worker.workerName
    isBlockCandidate
    difficulty := difficulty * pow2x32
    blockHash := some mixHash }
  if isBlockCandidate then
    let prefixed := text "0x" ++ fullNonceHex
    return (fullNonce,
      { share with transactionConfirmationData := some (mixHash ++ text ":" ++ prefixed) },
      some { fullNonceHex := prefixed, headerHash := job.header, mixHash })
  return (fullNonce, share, none)

def processShare (workerNonces : Submissions (Client × Text)) (submission : Submission Client) :
    Submissions (Client × Text) ×
      Except Exception (UInt64 × Blockchain.Share × Option BlockSubmission) :=
  processSubmission (fun _ => .ok ()) (registrationKey environment)
    (.stratum .minusOne "duplicate share") (job.processNonce environment) workerNonces submission

def acceptedShares (submissions : List (Submission Client)) :
    List (Submission Client × UInt64 × Blockchain.Share × Option BlockSubmission) :=
  (submissionGuard (fun _ => .ok ()) (registrationKey environment)
    (.stratum .minusOne "duplicate share") (job.processNonce environment)).acceptances []
    submissions

omit [DecidableEq Client] in
theorem processNonce_ok {submission : Submission Client}
    {result : UInt64 × Blockchain.Share × Option BlockSubmission}
    (processed : job.processNonce environment submission () = .ok result) :
    tryParseUInt64 submission.fullNonceHex = some result.1 := by
  simp only [processNonce] at processed
  split at processed
  · rename_i fullNonce parsed
    rw [parsed]
    split at processed
    · simp only [bind_eq_ok] at processed
      rcases processed with ⟨_, _, _, _, returned⟩
      split at returned <;>
      · rw [pure_eq_ok] at returned
        rw [← returned]
    · cases processed
  · cases processed

end Job

theorem tryParseUInt64_injective {left right : Text} {number : UInt64}
    (leftHex : left.isHex = true) (rightHex : right.isHex = true)
    (sameLength : left.length = right.length)
    (leftParsed : tryParseUInt64 left = some number)
    (rightParsed : tryParseUInt64 right = some number) :
    left.asciiLower = right.asciiLower := by
  have parsed {value : Text} (parse : tryParseUInt64 value = some number) :
      NumberParsing.parseHexNumber 64 value = .ok number.toNat := by
    unfold tryParseUInt64 at parse
    split at parse
    · rename_i result equation
      have fits := NumberParsing.parseHexNumber_lt equation
      cases parse
      rw [equation, UInt64.toNat_ofNat', Nat.mod_eq_of_lt fits]
    · cases parse
  exact NumberParsing.parseHexNumber_injective 64 left right number.toNat leftHex rightHex
    sameLength (parsed leftParsed) (parsed rightParsed)

/-- The spelling the protocol asks for: a two-byte extra nonce and the remaining
six bytes of the nonce, in hexadecimal digits. -/
def Submission.isCanonical {Client : Type} (submission : Submission Client) : Bool :=
  submission.worker.extraNonce1.isHex && submission.worker.extraNonce1.length == 4 &&
    submission.nonce.isHex && submission.nonce.length == 12

namespace Job

variable {Client : Type} [DecidableEq Client]
variable (environment : Environment) (job : Job)

/-- In every run of canonically spelled submissions in which no extra nonce is
used by two connections, a full nonce is accepted at most once. -/
theorem acceptedShares_nonce_distinct (submissions : List (Submission Client))
    (canonical : ∀ submission ∈ submissions, submission.isCanonical = true)
    (exclusive : ∀ left ∈ submissions, ∀ right ∈ submissions,
      left.worker.extraNonce1.asciiLower = right.worker.extraNonce1.asciiLower →
      left.client = right.client) :
    (job.acceptedShares environment submissions).Pairwise fun earlier later =>
      earlier.2.1 ≠ later.2.1 := by
  apply submissionGuard_work_pairwise (fun _ => .ok ()) (registrationKey environment)
    (.stratum .minusOne "duplicate share") (job.processNonce environment)
    (fun result => result.1) (fun submission => submission ∈ submissions)
  · intro left _ leftResult right _ rightResult leftMember rightMember _ _ leftProcessed
      rightProcessed equal
    have leftCanonical := canonical left leftMember
    have rightCanonical := canonical right rightMember
    simp only [Submission.isCanonical, Bool.and_eq_true, beq_iff_eq] at leftCanonical rightCanonical
    rcases leftCanonical with ⟨⟨⟨leftExtraHex, leftExtraLength⟩, leftHex⟩, leftLength⟩
    rcases rightCanonical with ⟨⟨⟨rightExtraHex, rightExtraLength⟩, rightHex⟩, rightLength⟩
    have leftParsed := job.processNonce_ok environment leftProcessed
    have rightParsed := job.processNonce_ok environment rightProcessed
    rw [equal] at leftParsed
    have fullNonces := tryParseUInt64_injective
      (by rw [Submission.fullNonceHex, Text.isHex_append, leftExtraHex, leftHex]; rfl)
      (by rw [Submission.fullNonceHex, Text.isHex_append, rightExtraHex, rightHex]; rfl)
      (by
        simp [Submission.fullNonceHex, leftExtraLength, leftLength, rightExtraLength, rightLength])
      leftParsed rightParsed
    rw [Submission.fullNonceHex, Submission.fullNonceHex, Text.asciiLower_append,
      Text.asciiLower_append] at fullNonces
    rcases List.append_inj fullNonces (by
      simp [Text.asciiLower, leftExtraLength, rightExtraLength]) with ⟨extraNonces, nonces⟩
    rw [registrationKey, registrationKey, environment.culture.toLower_hex _ leftHex,
      environment.culture.toLower_hex _ rightHex, nonces,
      exclusive left leftMember right rightMember extraNonces]
  · exact fun _ member => member

end Job

/-! ## A block candidate at height 1939983

The computation is given by its value on the verified nonce. -/

namespace SampleShare

def environment : Environment where
  culture := .ordinal
  compute _ _ nonce :=
    if nonce = 0x0003000009f3003a then
      some (.ofNumber 32 0xbaa8dfa217eca2af764164cbb2e1112663ffac64940cc237d8a884500f62b3a2,
        .ofNumber 32 0x00000000256bcf28bb961a856ebd06b72bfed895cc259d6cb0cd82aba9b97ba9)
    else
      none

def job : Job where
  id := text "00000062"
  height := 1939983
  header := text "0x" ++ toHexString (BigEndian.encode 32
    0x2b1dc55864dc6785ae5694b2a5c8fb301fee511262385007b69c06f6940f0ee3)
  blockTarget := 5547597442670231301113464668059123372289016956050714228028458602362

def submission : Submission Nat where
  client := 1
  worker := {
    extraNonce1 := text "0003"
    difficulty := { difficulty := 1 / 20, previousDifficulty := none, retargeted := false }
    minerName := none
    workerName := none }
  nonce := text "000009f3003a"

end SampleShare

theorem acceptedShares_upper_case_nonce :
    let submissions := [SampleShare.submission,
      { SampleShare.submission with nonce := text "000009F3003A" }]
    (SampleShare.job.acceptedShares SampleShare.environment submissions).length = 1 ∧
      (SampleShare.job.acceptedShares SampleShare.environment submissions).Pairwise
        fun earlier later => earlier.2.1 ≠ later.2.1 :=
  ⟨by decide, SampleShare.job.acceptedShares_nonce_distinct SampleShare.environment _
    (by decide) (by decide)⟩

/-- A space after the nonce is another text for the set of the client and the
same number for the parser: the full nonce is accepted again. -/
theorem acceptedShares_trailing_space :
    ¬(SampleShare.job.acceptedShares SampleShare.environment [SampleShare.submission,
      { SampleShare.submission with nonce := text "000009f3003a " }]).Pairwise
        fun earlier later => earlier.2.1 ≠ later.2.1 := by
  decide

end Miningcore.Ethereum

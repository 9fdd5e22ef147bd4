import Miningcore.Blockchain.Ethereum.Job
import Miningcore.Crypto.EthashDag

/-! The job with the datasets of `EthashFull`: how its shares look to a light client. -/

namespace Miningcore.Ethereum

open ByteLayout Ethash StringExtensions

section Dags

variable (sha3_256 : Bytes → FixedBytes 32) (sha3_512 : Bytes → FixedBytes 64) (sizes : DataSizes)
  (files : UInt64 → Option (List Node))

/-- `Dag.Compute` with the dataset for a height, which is generated from the files there are. The
native code reads 32 bytes of the header. -/
def dagCompute (height : UInt64) (header : Bytes) (nonce : UInt64) :
    Option (FixedBytes 32 × FixedBytes 32) :=
  match readArray 32 header, generate sha3_256 sha3_512 sizes (files (epochOf height))
      (epochOf height) with
  | some (headerHash, _), .ok (some full) =>
      match fullCompute sha3_256 sha3_512 full headerHash nonce with
      | .ok (some value) => some (value.mixHash, value.result)
      | _ => none
  | _, _ => none

def Environment.withDags (environment : Environment) : Environment :=
  { environment with compute := dagCompute sha3_256 sha3_512 sizes files }

variable {sha3_256 sha3_512 sizes files}

theorem dagCompute_eq_some {height : UInt64} (inTable : (epochOf height).toNat < 2048)
    (generated : IsGenerated sha3_256 sha3_512 sizes (files (epochOf height)) (epochOf height)) :
    ∃ light, lightNew sha3_256 sha3_512 sizes height = .ok light ∧
      ∀ header nonce mixDigest result,
        dagCompute sha3_256 sha3_512 sizes files height header nonce = some (mixDigest, result) →
        ∃ headerHash rest, readArray 32 header = some (headerHash, rest) ∧
          lightCompute sha3_256 sha3_512 sizes light headerHash nonce =
            .ok (some ⟨result, mixDigest⟩) ∧
          quickHash sha3_256 sha3_512 headerHash nonce mixDigest = result := by
  rcases generate_returns sha3_256 sha3_512 sizes inTable generated with
    ⟨full, light, generates, creates, same⟩
  refine ⟨light, creates, ?_⟩
  intro header nonce mixDigest result found
  cases reads : readArray 32 header with
  | none =>
      rw [dagCompute, reads] at found
      cases found
  | some split =>
      rcases split with ⟨headerHash, rest⟩
      rcases same.computes sha3_256 sha3_512 sizes headerHash nonce with
        ⟨value, full, light, quick⟩
      simp only [dagCompute, reads, generates, full, Option.some.injEq, Prod.mk.injEq] at found
      rw [← found.1, ← found.2]
      exact ⟨headerHash, rest, rfl, light, quick⟩

theorem dagCompute_isSome {height : UInt64} (inTable : (epochOf height).toNat < 2048)
    (generated : IsGenerated sha3_256 sha3_512 sizes (files (epochOf height)) (epochOf height))
    {header rest : Bytes} {headerHash : FixedBytes 32}
    (reads : readArray 32 header = some (headerHash, rest)) (nonce : UInt64) :
    ∃ mixDigest, dagCompute sha3_256 sha3_512 sizes files height header nonce =
      some (mixDigest, quickHash sha3_256 sha3_512 headerHash nonce mixDigest) := by
  rcases generate_returns sha3_256 sha3_512 sizes inTable generated with
    ⟨full, light, generates, creates, same⟩
  rcases same.computes sha3_256 sha3_512 sizes headerHash nonce with
    ⟨value, full, light, quick⟩
  refine ⟨value.mixHash, ?_⟩
  simp only [dagCompute, reads, generates, full, quick]

end Dags

namespace Job

variable {Client : Type}

theorem processNonce_computed (environment : Environment) (job : Job)
    {submission : Submission Client}
    {accepted : UInt64 × Blockchain.Share × Option BlockSubmission}
    (processed : job.processNonce environment submission () = .ok accepted) :
    ∃ mixDigest result, environment.compute job.height
        (hexToByteArray environment.culture job.header) accepted.1 = some (mixDigest, result) ∧
      accepted.2.1.isBlockCandidate =
        decide (BigEndian.decode result.toList ≤ job.blockTarget) ∧
      accepted.2.1.blockHash = some (text "0x" ++ toHexString mixDigest.toList) ∧
      accepted.2.2 = if accepted.2.1.isBlockCandidate then
        some {
          fullNonceHex := text "0x" ++ submission.fullNonceHex
          headerHash := job.header
          mixHash := text "0x" ++ toHexString mixDigest.toList }
        else none := by
  simp only [processNonce] at processed
  split at processed
  · rename_i fullNonce parsed
    split at processed
    · rename_i mixDigest result computed
      simp only [bind_eq_ok] at processed
      rcases processed with ⟨shareDiff, _, difficulty, _, returned⟩
      split at returned
      · rename_i candidate
        rw [pure_eq_ok] at returned
        rw [← returned]
        exact ⟨mixDigest, result, computed, rfl, rfl, (if_pos candidate).symm⟩
      · rename_i noCandidate
        rw [pure_eq_ok] at returned
        rw [← returned]
        exact ⟨mixDigest, result, computed, rfl, rfl, (if_neg noCandidate).symm⟩
    · cases processed
  · cases processed

variable [DecidableEq Client]

theorem acceptedShares_computed (environment : Environment) (job : Job)
    (submissions : List (Submission Client)) :
    ∀ entry ∈ job.acceptedShares environment submissions,
      job.processNonce environment entry.1 () = .ok entry.2 := by
  refine Run.emitted_forall _ _ (fun _ => True) (fun _ => True) (fun _ _ _ => trivial) _ ?_
    [] trivial submissions (fun _ _ => trivial)
  intro registered submission entry _ _ accepted
  rcases accepted_ok _ _ _ _ accepted with ⟨_, _, same, _, _, _, _, computed⟩
  rw [same]
  exact computed

/-- What a light client for the block says of an accepted share: it computes the digest of the
share, and the share is a block candidate exactly if it passes the quick check. -/
structure Verifies (sha3_256 : Bytes → FixedBytes 32) (sha3_512 : Bytes → FixedBytes 64)
    (sizes : DataSizes) (job : Job) (light : Light) (headerHash : FixedBytes 32)
    (entry : Submission Client × UInt64 × Blockchain.Share × Option BlockSubmission)
    (value : ReturnValue) : Prop where
  computes : lightCompute sha3_256 sha3_512 sizes light headerHash entry.2.1 = .ok (some value)
  blockHash : entry.2.2.1.blockHash = some (text "0x" ++ toHexString value.mixHash.toList)
  candidate : ∀ boundary : FixedBytes 32, BigEndian.decode boundary.toList = job.blockTarget →
    entry.2.2.1.isBlockCandidate =
      quickCheckDifficulty sha3_256 sha3_512 headerHash entry.2.1 value.mixHash boundary
  submitted : entry.2.2.2 = if entry.2.2.1.isBlockCandidate then
    some {
      fullNonceHex := text "0x" ++ entry.1.fullNonceHex
      headerHash := job.header
      mixHash := text "0x" ++ toHexString value.mixHash.toList }
    else none

/-- In every run light clients verify the shares of a job. -/
theorem acceptedShares_verify {sha3_256 : Bytes → FixedBytes 32}
    {sha3_512 : Bytes → FixedBytes 64} {sizes : DataSizes} {files : UInt64 → Option (List Node)}
    (environment : Environment) (job : Job) (inTable : (epochOf job.height).toNat < 2048)
    (generated : IsGenerated sha3_256 sha3_512 sizes (files (epochOf job.height))
      (epochOf job.height))
    (submissions : List (Submission Client)) :
    ∃ light, lightNew sha3_256 sha3_512 sizes job.height = .ok light ∧
      ∀ entry ∈ job.acceptedShares (environment.withDags sha3_256 sha3_512 sizes files)
          submissions,
        ∃ headerHash rest value,
          readArray 32 (hexToByteArray environment.culture job.header) =
            some (headerHash, rest) ∧
          Verifies sha3_256 sha3_512 sizes job light headerHash entry value := by
  rcases dagCompute_eq_some inTable generated with ⟨light, creates, computes⟩
  refine ⟨light, creates, ?_⟩
  intro entry member
  have processed := acceptedShares_computed _ job submissions entry member
  rcases processNonce_computed _ job processed with
    ⟨mixDigest, result, computed, candidate, blockHash, submitted⟩
  rcases computes _ _ _ _ computed with ⟨headerHash, rest, reads, computes, quick⟩
  refine ⟨headerHash, rest, ⟨result, mixDigest⟩, reads, computes, blockHash, ?_, submitted⟩
  intro boundary isTarget
  rw [candidate, quickCheckDifficulty, quick, checkDifficulty_eq (by
    rw [result.toList_length, boundary.toList_length]), isTarget]

theorem acceptedShares_single {environment : Environment} {job : Job}
    {submission : Submission Client} {accepted : UInt64 × Blockchain.Share × Option BlockSubmission}
    (processed : job.processNonce environment submission () = .ok accepted) :
    job.acceptedShares environment [submission] = [(submission, accepted)] := by
  simp [acceptedShares, OnceOnly.acceptances, Run.emitted, submissionGuard, processSubmission,
    registrationKey, registerSubmit, processed]

omit [DecidableEq Client] in
theorem processNonce_block {environment : Environment} {job : Job} {submission : Submission Client}
    {fullNonce : UInt64} {mixDigest result : FixedBytes 32}
    (parsed : tryParseUInt64 submission.fullNonceHex = some fullNonce)
    (computed : environment.compute job.height (hexToByteArray environment.culture job.header)
      fullNonce = some (mixDigest, result))
    (positive : BigEndian.decode result.toList ≠ 0)
    (below : BigEndian.decode result.toList ≤ job.blockTarget) :
    ∃ share block, job.processNonce environment submission () = .ok (fullNonce, share, block) ∧
      share.isBlockCandidate = true := by
  rw [BigEndian.decode] at positive below
  have shareDiff : ∃ shareDiff,
      resultDifficulty (LittleEndian.decode result.toList.reverse) = .ok shareDiff :=
    ⟨_, if_neg positive⟩
  rcases shareDiff with ⟨shareDiff, isDifficulty⟩
  have isBlock : decide (LittleEndian.decode result.toList.reverse ≤ job.blockTarget) = true :=
    decide_eq_true below
  simp only [processNonce, parsed, computed, bind, Except.bind, isDifficulty, isBlock]
  exact ⟨_, _, rfl, rfl⟩

theorem SampleShare.header_reads :
    readArray 32 (hexToByteArray .ordinal SampleShare.job.header) =
      some (FixedBytes.ofNumber 32
        0x2b1dc55864dc6785ae5694b2a5c8fb301fee511262385007b69c06f6940f0ee3, []) := by
  decide

theorem SampleShare.nonce_parsed :
    tryParseUInt64 SampleShare.submission.fullNonceHex = some 0x0003000009f3003a := by
  decide

theorem acceptedShares_verify_one :
    let sha3_256 : Bytes → FixedBytes 32 := fun _ => .ofNumber 32 1
    let sha3_512 : Bytes → FixedBytes 64 := fun _ => List.Vector.replicate 64 0
    let environment := SampleShare.environment.withDags sha3_256 sha3_512 SampleTables.sizes
      fun _ => none
    (SampleShare.job.acceptedShares environment [SampleShare.submission]).map
        (fun entry => entry.2.2.1.isBlockCandidate) = [true] ∧
      ∃ light, lightNew sha3_256 sha3_512 SampleTables.sizes SampleShare.job.height = .ok light ∧
        ∀ entry ∈ SampleShare.job.acceptedShares environment [SampleShare.submission],
          ∃ headerHash rest value,
            readArray 32 (hexToByteArray .ordinal SampleShare.job.header) =
              some (headerHash, rest) ∧
            Verifies sha3_256 sha3_512 SampleTables.sizes SampleShare.job light headerHash entry
              value := by
  intro sha3_256 sha3_512 environment
  constructor
  · have inTable : (epochOf SampleShare.job.height).toNat < 2048 := by decide
    have generated : IsGenerated sha3_256 sha3_512 SampleTables.sizes none
        (epochOf SampleShare.job.height) := by
      intro data member
      cases member
    rcases @dagCompute_isSome sha3_256 sha3_512 SampleTables.sizes (fun _ => none) _ inTable
      generated _ _ _ SampleShare.header_reads 0x0003000009f3003a with ⟨mixDigest, computed⟩
    have isCompute : environment.compute =
        dagCompute sha3_256 sha3_512 SampleTables.sizes fun _ => none := rfl
    have isCulture : environment.culture = .ordinal := rfl
    have isOne : quickHash sha3_256 sha3_512
        (.ofNumber 32 0x2b1dc55864dc6785ae5694b2a5c8fb301fee511262385007b69c06f6940f0ee3)
        0x0003000009f3003a mixDigest = .ofNumber 32 1 := rfl
    rw [← isCompute, ← isCulture, isOne] at computed
    rcases processNonce_block SampleShare.nonce_parsed computed (by decide)
      (by decide) with ⟨share, block, processed, isBlock⟩
    rw [acceptedShares_single processed, List.map_singleton, isBlock]
  · exact acceptedShares_verify SampleShare.environment SampleShare.job (by decide)
      (by intro data member; cases member) [SampleShare.submission]

end Job

end Miningcore.Ethereum

import Miningcore.Blockchain.ZCash.Job
import Miningcore.Blockchain.Bitcoin.Coinbase

/-! The solution of a share is sent with its size before it. The hash of the share and the block
cover the size, the Equihash solver does not. -/

namespace Miningcore.ZCash

open ByteLayout LittleEndian StringExtensions
open Bitcoin (varInt readVarInt readVarInt_ofNat)

/-- The solvers, sizes of solutions and sizes of preambles in `ZCashConstants`. -/
def configuredSizes : List (EquihashSolver × Nat × Nat) := [(.zcash, 1344, 3), (.btg, 100, 1)]

namespace ChainConfig

variable (config : ChainConfig)

def IsConfigured : Prop :=
  (config.solver, config.solutionSize, config.solutionPreambleSize) ∈ configuredSizes

def compactSize : Bytes := varInt (.ofNat config.solutionSize)

variable {config}

theorem sizes_of_isConfigured (configured : config.IsConfigured) :
    config.solver.solutionLength = config.solutionSize ∧
      config.compactSize.length = config.solutionPreambleSize ∧
        config.solutionSize < 2 ^ 32 := by
  simp only [IsConfigured, configuredSizes, List.mem_cons, Prod.mk.injEq, List.not_mem_nil,
    or_false] at configured
  rw [compactSize]
  rcases configured with ⟨solver, size, preamble⟩ | ⟨solver, size, preamble⟩
  · rw [solver, size, preamble]
    decide
  · rw [solver, size, preamble]
    decide

end ChainConfig

def readHeaderAndSolution : Reader (Bytes × Bytes) := do
  let header ← readBytes 140
  let size ← readVarInt
  let solution ← readBytes size
  return (header, solution)

namespace Job

variable (environment : Environment) (job : Job)

def verifiedPart (work : Work) : Bytes := work.solution.drop job.chainConfig.solutionPreambleSize

/-- What is to be said of an accepted share: the compact size stands before the verified
solution, the block can be read again, and what is hashed is made of the job, the time, the nonce
and a verified solution. -/
structure IsCanonical (submission : Submission) (work : Work) (blockHex : Option Text) : Prop where
  preamble : work.solution.take job.chainConfig.solutionPreambleSize = job.chainConfig.compactSize
  size : (job.verifiedPart work).length = job.chainConfig.solutionSize
  verified : environment.equihashVerify job.chainConfig.solver work.header
    (job.verifiedPart work) = true
  block : ∀ hex, blockHex = some hex →
    hex = toHexString (job.serializeBlock work.header job.coinbaseInitial work.solution)
  parses : readHeaderAndSolution
      (job.serializeBlock work.header job.coinbaseInitial work.solution) =
    some ((work.header, job.verifiedPart work),
      varInt (UInt32.ofNat job.transactions.length + 1) ++ job.coinbaseInitial ++
        job.transactions.flatten)
  hashed : ∃ validated, job.validate environment submission = .ok validated ∧
    work.header ++ work.solution =
      job.serializeHeader environment validated.nTime validated.nonce ++
        job.chainConfig.compactSize ++ job.verifiedPart work

def SendsCompactSize (submission : Submission) : Prop :=
  ∃ solution, submission.solution = some solution ∧
    hexPairs (solution.take (job.chainConfig.solutionPreambleSize * 2)) =
      job.chainConfig.compactSize

variable {environment job}

theorem validate_solution_length {submission : Submission} {validated : Validated}
    (valid : job.validate environment submission = .ok validated) :
    validated.solution.length =
      (job.chainConfig.solutionSize + job.chainConfig.solutionPreambleSize) * 2 := by
  simp only [validate, bind_eq_ok, throwIf_eq_ok, pure_eq_ok, exists_and_left, exists_const,
    not_not] at valid
  rcases valid with ⟨_, _, _, _, solution, _, _, _, _, _, _, solutionLength, rfl⟩
  exact solutionLength

theorem verifySolution_ok {work : Work}
    (verified : job.verifySolution environment work = .ok true) :
    work.header.length = 140 ∧
      (job.verifiedPart work).length = job.chainConfig.solver.solutionLength ∧
        environment.equihashVerify job.chainConfig.solver work.header
          (job.verifiedPart work) = true := by
  simp only [verifySolution, bind_eq_ok, throwIf_eq_ok, pure_eq_ok, exists_and_left, exists_const,
    not_not] at verified
  exact verified

theorem processShareInternal_verified {submission : Submission} {validated : Validated}
    {work : Work} {share : Blockchain.Share} {blockHex : Option Text}
    (processed : job.processShareInternal environment submission validated =
      .ok (work, share, blockHex)) :
    job.verifySolution environment work = .ok true ∧
      ∀ hex, blockHex = some hex →
        hex = toHexString (job.serializeBlock work.header job.coinbaseInitial work.solution) := by
  have isWork := job.processShareInternal_work environment processed
  simp only at isWork
  simp only [processShareInternal, bind_eq_ok, throwIf_eq_ok, Bool.not_eq_false] at processed
  rcases processed with ⟨isValid, verified, _, valid, _, _, _, _, returned⟩
  rw [← isWork, valid] at verified
  refine ⟨verified, ?_⟩
  intro hex isHex
  split at returned
  · simp only [pure_eq_ok, Prod.mk.injEq] at returned
    rcases returned with ⟨same, _, isBlock⟩
    rw [← isBlock, Option.some.injEq, same] at isHex
    exact isHex.symm
  · simp only [pure_eq_ok, Prod.mk.injEq] at returned
    rw [← returned.2.2] at isHex
    cases isHex

theorem work_solution {validated : Validated}
    (length : validated.solution.length =
      (job.chainConfig.solutionSize + job.chainConfig.solutionPreambleSize) * 2)
    (part : (job.verifiedPart (job.decodeWork environment validated)).length =
      job.chainConfig.solutionSize) (positive : 0 < job.chainConfig.solutionSize) :
    (job.decodeWork environment validated).solution = hexPairs validated.solution := by
  simp only [verifiedPart, decodeWork, hexToByteArray, List.length_drop, hexPairs_length] at part ⊢
  split_ifs at part ⊢ with marked
  · rw [List.length_drop, length] at part
    omega
  · rfl

theorem readHeaderAndSolution_serializeBlock (configured : job.chainConfig.IsConfigured)
    {header solution : Bytes} (headerLength : header.length = 140)
    (solutionLength : solution.length = job.chainConfig.solutionSize) (coinbase : Bytes) :
    readHeaderAndSolution
        (job.serializeBlock header coinbase (job.chainConfig.compactSize ++ solution)) =
      some ((header, solution), varInt (UInt32.ofNat job.transactions.length + 1) ++ coinbase ++
        job.transactions.flatten) := by
  have sizes := ChainConfig.sizes_of_isConfigured configured
  simp only [serializeBlock, readHeaderAndSolution, List.append_assoc]
  rw [← headerLength, read_bind (readBytes_append header _), ChainConfig.compactSize,
    read_bind (readVarInt_ofNat sizes.2.2 _), ← solutionLength,
    read_bind (readBytes_append solution _)]
  rfl

theorem processShare_verified {submissions : Submissions Text} {submission : Submission}
    {work : Work} {share : Blockchain.Share} {blockHex : Option Text}
    (accepted : (job.processShare environment submissions submission).2 =
      .ok (work, share, blockHex)) :
    ∃ validated, job.validate environment submission = .ok validated ∧
      work = job.decodeWork environment validated ∧
        job.verifySolution environment work = .ok true ∧
          ∀ hex, blockHex = some hex →
            hex = toHexString
              (job.serializeBlock work.header job.coinbaseInitial work.solution) := by
  rcases processSubmission_ok _ _ _ _ (Prod.ext rfl accepted :
    job.processShare environment submissions submission = (_, .ok (work, share, blockHex))) with
    ⟨validated, _, valid, _, _, _, processed⟩
  have verified := processShareInternal_verified processed
  exact ⟨validated, valid, job.processShareInternal_work environment processed, verified.1,
    verified.2⟩

/-- For every share that a job of a configured chain accepts, at whatever point of a run, the
solution is canonical exactly if the miner has sent the compact size before it. -/
theorem isCanonical_iff (environment : Environment) (job : Job)
    (configured : job.chainConfig.IsConfigured) (submissions : Submissions Text)
    (submission : Submission) (work : Work) (share : Blockchain.Share) (blockHex : Option Text)
    (accepted : (job.processShare environment submissions submission).2 =
      .ok (work, share, blockHex)) :
    job.IsCanonical environment submission work blockHex ↔ job.SendsCompactSize submission := by
  rcases processShare_verified accepted with ⟨validated, valid, rfl, verified, isBlock⟩
  rcases verifySolution_ok verified with ⟨headerLength, partLength, isVerified⟩
  have sizes := ChainConfig.sizes_of_isConfigured configured
  have given := (job.validate_ok environment valid).2.1
  have length := validate_solution_length valid
  have size : (job.verifiedPart (job.decodeWork environment validated)).length =
      job.chainConfig.solutionSize := partLength.trans sizes.1
  have solution := work_solution length size (by
    rw [← sizes.1]
    cases job.chainConfig.solver <;> decide)
  have sent : job.SendsCompactSize submission ↔
      (job.decodeWork environment validated).solution.take job.chainConfig.solutionPreambleSize =
        job.chainConfig.compactSize := by
    simp only [SendsCompactSize, given, Option.some.injEq, exists_eq_left', hexPairs_take, solution]
  rw [sent]
  constructor
  · intro canonical
    exact canonical.preamble
  · intro preamble
    have split : (job.decodeWork environment validated).solution =
        job.chainConfig.compactSize ++ job.verifiedPart (job.decodeWork environment validated) := by
      rw [← preamble, verifiedPart, List.take_append_drop]
    refine ⟨preamble, size, isVerified, isBlock, ?_, validated, valid, ?_⟩
    · rw [split]
      exact readHeaderAndSolution_serializeBlock configured headerLength size _
    · rw [List.append_assoc, ← split]
      rfl

end Job

namespace SampleShare

def workWith (preamble : UInt8) : Job.Work where
  header := header
  solution := preamble :: solution

/-- The double SHA-256 of the same header and solution with 101 before it instead of 100. -/
def forgedEnvironment : Environment :=
  { environment with
    headerHasher := fun data nTime =>
      if data = header ++ 101 :: solution then
        .ofNumber 32 0x1695b701bdc5f8ea925e8a19fe87e2e40a0cab395218b4e1f332df08fc2ccd23
      else environment.headerHasher data nTime }

def forged : Submission :=
  { submission with solution := some (toHexString (101 :: solution)) }

def share : Blockchain.Share where
  blockHeight := 500000
  networkDifficulty := 2 ^ 19
  difficulty := 1 / 10 ^ 6

end SampleShare

theorem isCanonical_sample :
    (SampleShare.job.processShare SampleShare.environment [] SampleShare.submission).2 =
        .ok (SampleShare.workWith 100, SampleShare.share, none) ∧
      SampleShare.job.IsCanonical SampleShare.environment SampleShare.submission
        (SampleShare.workWith 100) none := by
  have accepted : (SampleShare.job.processShare SampleShare.environment []
      SampleShare.submission).2 = .ok (SampleShare.workWith 100, SampleShare.share, none) := by
    decide +kernel
  have configured : SampleShare.job.chainConfig.IsConfigured :=
    List.mem_cons_of_mem _ List.mem_cons_self
  refine ⟨accepted, ?_⟩
  exact (Job.isCanonical_iff SampleShare.environment SampleShare.job configured []
    SampleShare.submission _ _ _ accepted).mpr ⟨_, rfl, by decide⟩

/-- Another byte there is accepted too, on top of the share that is right: the hash is another
one, but the solution is the same. -/
theorem processShare_forged_preamble :
    (SampleShare.job.processShare SampleShare.forgedEnvironment
        (SampleShare.job.processShare SampleShare.forgedEnvironment []
          SampleShare.submission).1 SampleShare.forged).2 =
        .ok (SampleShare.workWith 101, SampleShare.share, none) ∧
      ¬SampleShare.job.IsCanonical SampleShare.forgedEnvironment SampleShare.forged
        (SampleShare.workWith 101) none := by
  refine ⟨by decide +kernel, ?_⟩
  intro canonical
  exact absurd canonical.preamble (by decide)

end Miningcore.ZCash

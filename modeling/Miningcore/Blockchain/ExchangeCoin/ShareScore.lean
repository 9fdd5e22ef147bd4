import Miningcore.Blockchain.ExchangeCoin.BlockSubmission
import Miningcore.Blockchain.StratumPools
import Miningcore.Payments.PayoutManager

/-! The scores of ExchangeCoin shares.

The payment scheme divides the difficulty of a share by the network difficulty that the share was
stored with. Both were computed elsewhere: the one is the difficulty of the worker over the share
multiplier, the other comes from the compact bits of the header through an integer division and a
64-bit number. -/

namespace Miningcore

namespace Persistence

/-- The score before its conversion to a decimal. Dividing by zero gives an infinity or no
number. -/
def Share.quotient (share : Share) : Option ℚ :=
  if share.networkDifficulty = 0 then none else some share.score

/-- The effort that `CalculateBlockEffortAsync` sets. -/
def Block.quotient (block : Block) (accumulated : ℚ) : Option ℚ :=
  if block.networkDifficulty = 0 then none else some (accumulated / block.networkDifficulty)

def decimalMax : ℚ := 2 ^ 96 - 1

def toDecimal : Option ℚ → Except Exception ℚ
  | none => .error .overflow
  | some value => if |value| ≤ decimalMax then .ok value else .error .overflow

end Persistence

namespace ExchangeCoin

open Miningcore.Configuration Persistence Payments

def BlockSubmission.Share.record (share : BlockSubmission.Share) : ShareRecord where
  share := {
    poolId := share.poolId.getD []
    miner := share.miner.getD []
    payoutInfo := none
    difficulty := share.difficulty
    networkDifficulty := share.networkDifficulty
    created := share.created.getD 0 }
  blockHeight := share.blockHeight
  isBlockCandidate := share.isBlockCandidate
  blockReward := share.blockReward
  blockHash := share.blockHash
  transactionConfirmationData := share.transactionConfirmationData.getD []

/-! ## The network difficulty of a job -/

/-- A job as `Init` leaves it. -/
structure Job.Prepared (environment : Environment) (job : Job) : Prop where
  target : job.blockTarget = environment.expandBits job.blockHeader.bits
  positive : 0 < job.blockTarget
  difficulty : job.difficulty = environment.toDouble (longValue (diff1 / job.blockTarget))

theorem Job.init_ok {environment : Environment} {blockHeader : BlockHeader} {jobId : Text}
    {job : Job} (initialized : Job.init environment blockHeader jobId = .ok job) :
    job.Prepared environment ∧ job.blockHeader = blockHeader := by
  simp only [Job.init] at initialized
  split_ifs at initialized with zero
  cases initialized
  exact ⟨⟨rfl, Nat.pos_of_ne_zero zero, rfl⟩, rfl⟩

theorem longValue_eq_iff (value : Nat) : longValue value = value ↔ value < 2 ^ 63 := by
  rw [longValue, BitVec.toInt_ofNat']
  constructor
  · intro same
    have below := Int.bmod_lt (x := (value : Int)) (m := 2 ^ 64) (by decide)
    omega
  · intro fits
    apply Int.bmod_eq_of_le
    · omega
    · omega

theorem longValue_lt (value : Nat) : longValue value < 2 ^ 63 := by
  rw [longValue, BitVec.toInt_ofNat']
  have below := Int.bmod_lt (x := (value : Int)) (m := 2 ^ 64) (by decide)
  omega

theorem toDouble_longValue_eq_iff (value : Nat) :
    FloatingPoint.toDouble (longValue value) = value ↔
      value < 2 ^ 63 ∧ FloatingPoint.IsFloat 53 value := by
  rcases lt_or_ge value (2 ^ 63) with fits | large
  · rw [(longValue_eq_iff value).mpr fits, FloatingPoint.toDouble, FloatingPoint.roundInt_natCast,
      Nat.cast_inj, FloatingPoint.roundNat_eq_iff]
    exact (and_iff_right fits).symm
  · refine iff_of_false ?_ (fun both => absurd both.1 large.not_gt)
    intro same
    -- the low 64 bits are positive then, and round to 2 ^ 63 at most
    have below := longValue_lt value
    have positive : 0 < longValue value := by
      by_contra negative
      rw [FloatingPoint.toDouble, FloatingPoint.roundInt] at same
      have sign : (longValue value).sign ≤ 0 := Int.sign_nonpos_iff.mpr (not_lt.mp negative)
      have product := Int.mul_nonpos_of_nonpos_of_nonneg sign
        (Int.natCast_nonneg (FloatingPoint.roundNat 53 (longValue value).natAbs))
      omega
    obtain ⟨bits, isBits⟩ := Int.eq_ofNat_of_zero_le positive.le
    rw [isBits] at same below
    rw [FloatingPoint.toDouble, FloatingPoint.roundInt_natCast, Nat.cast_inj] at same
    have size : bits.size ≤ 63 := by
      rw [Nat.size_le]
      omega
    have rounded : FloatingPoint.roundNat 53 bits ≤ 2 ^ 63 :=
      FloatingPoint.roundNat_le.trans (Nat.pow_le_pow_right two_pos size)
    have isValue : value = 2 ^ 63 := by omega
    rw [isValue] at isBits
    have negative : longValue (2 ^ 63) < 0 := by decide
    omega

def TargetInRange (target : Nat) : Prop := 2 ^ 191 ≤ target ∧ target ≤ diff1

theorem diff1_div_lt_iff {target : Nat} (positive : 0 < target) :
    diff1 / target < 2 ^ 63 ↔ 2 ^ 191 ≤ target := by
  rw [Nat.div_lt_iff_lt_mul positive, diff1]
  omega

theorem one_le_diff1_div_iff {target : Nat} (positive : 0 < target) :
    1 ≤ diff1 / target ↔ target ≤ diff1 := by
  rw [Nat.le_div_iff_mul_le positive, one_mul]

theorem Job.Prepared.difficulty_iff {environment : Environment} {job : Job}
    (prepared : job.Prepared environment)
    (isBinary64 : environment.toDouble = FloatingPoint.toDouble) :
    (1 ≤ job.difficulty ∧ job.difficulty = (diff1 / job.blockTarget : Nat)) ↔
      TargetInRange job.blockTarget ∧
        FloatingPoint.IsFloat 53 ((diff1 / job.blockTarget : Nat) : ℚ) := by
  rw [TargetInRange, prepared.difficulty, isBinary64, toDouble_longValue_eq_iff,
    ← one_le_diff1_div_iff prepared.positive, ← diff1_div_lt_iff prepared.positive]
  constructor
  · rintro ⟨atLeast, fits, isFloat⟩
    rw [(toDouble_longValue_eq_iff _).mpr ⟨fits, isFloat⟩] at atLeast
    exact ⟨⟨fits, by omega⟩, isFloat⟩
  · rintro ⟨⟨fits, atLeast⟩, isFloat⟩
    rw [(toDouble_longValue_eq_iff _).mpr ⟨fits, isFloat⟩]
    exact ⟨by omega, fits, isFloat⟩

theorem Job.Prepared.one_le_difficulty {environment : Environment} {job : Job}
    (prepared : job.Prepared environment)
    (isBinary64 : environment.toDouble = FloatingPoint.toDouble)
    (inRange : TargetInRange job.blockTarget) : 1 ≤ job.difficulty := by
  rw [TargetInRange, ← one_le_diff1_div_iff prepared.positive,
    ← diff1_div_lt_iff prepared.positive] at inRange
  rw [prepared.difficulty, isBinary64, (longValue_eq_iff _).mpr inRange.1, FloatingPoint.toDouble,
    FloatingPoint.roundInt_natCast]
  exact_mod_cast FloatingPoint.roundNat_pos (by decide) inRange.2

/-! ## The jobs of a run -/

inductive SubmissionEvent
  | updateJob (forceUpdate : Bool) (reply : GetWorkReply)
  | submitShare (request : BlockSubmission.Request)

section Runs

variable (manager : JobManager) (poolConfig : PoolConfig) (clusterName : Option Text)

def submissionStep (state : JobManager.State) : SubmissionEvent → JobManager.State
  | .updateJob forceUpdate reply => (manager.updateJob state forceUpdate reply).1
  | .submitShare request =>
      (BlockSubmission.submitShare manager poolConfig clusterName state request).1

def returnedShare (state : JobManager.State) : SubmissionEvent → Option BlockSubmission.Share
  | .updateJob _ _ => none
  | .submitShare request =>
      (BlockSubmission.submitShare manager poolConfig clusterName state request).2.toOption

def AllJobs (property : Job → Prop) (state : JobManager.State) : Prop :=
  ∀ job ∈ state.validJobs.map ActiveJob.job, property job

theorem installJob_allJobs {property : Job → Prop} {state : JobManager.State}
    {blockHeader : BlockHeader} (holds : AllJobs property state)
    (new : ∀ jobId job, Job.init manager.environment blockHeader jobId = .ok job → property job) :
    AllJobs property (manager.installJob state blockHeader).1 := by
  have kept : ∀ job ∈ (manager.keptJobs state blockHeader).1.map ActiveJob.job, property job := by
    intro job isJob
    exact holds job (List.map_subset _ (manager.keptJobs_subset state blockHeader) isJob)
  simp only [JobManager.installJob]
  split
  · exact holds
  · rename_i job initialized
    split_ifs
    · intro other isOther
      rw [List.map_append] at isOther
      rcases List.mem_append.mp isOther with old | added
      · exact kept other old
      · rw [List.mem_singleton.mp added]
        exact new _ job initialized
    · exact kept

theorem updateJob_allJobs {property : Job → Prop} {state : JobManager.State} (forceUpdate : Bool)
    {reply : GetWorkReply} (holds : AllJobs property state)
    (new : ∀ data blockHeader jobId job, reply = .work data →
      BlockHeader.read data = some blockHeader →
      Job.init manager.environment blockHeader jobId = .ok job → property job) :
    AllJobs property (manager.updateJob state forceUpdate reply).1 := by
  cases reply with
  | error => exact holds
  | unusable => exact holds
  | work data =>
      simp only [JobManager.updateJob]
      split
      · exact holds
      · rename_i blockHeader parsed
        split_ifs
        · apply installJob_allJobs manager holds
          intro jobId job initialized
          exact new data blockHeader jobId job rfl parsed initialized
        · exact holds

theorem BlockSubmission.submitShare_jobs (state : JobManager.State)
    (request : BlockSubmission.Request) :
    (submitShare manager poolConfig clusterName state request).1.validJobs.map ActiveJob.job =
      state.validJobs.map ActiveJob.job := by
  rcases submitShare_replies manager poolConfig clusterName state request with ⟨replies, same, -⟩
  rw [← same]
  exact manager.submitShare_jobs state (request.submitRequest replies)

theorem submissionStep_allJobs {property : Job → Prop} {state : JobManager.State}
    {event : SubmissionEvent} (holds : AllJobs property state)
    (new : ∀ forceUpdate data blockHeader jobId job,
      event = .updateJob forceUpdate (.work data) → BlockHeader.read data = some blockHeader →
      Job.init manager.environment blockHeader jobId = .ok job → property job) :
    AllJobs property (submissionStep manager poolConfig clusterName state event) := by
  cases event with
  | updateJob forceUpdate reply =>
      apply updateJob_allJobs manager forceUpdate holds
      intro data blockHeader jobId job isReply
      rw [isReply] at new
      exact new forceUpdate data blockHeader jobId job rfl
  | submitShare request =>
      rw [submissionStep, AllJobs, BlockSubmission.submitShare_jobs]
      exact holds

theorem allJobs_initial (property : Job → Prop) : AllJobs property JobManager.initial := by
  intro job isJob
  cases isJob

theorem final_prepared (events : List SubmissionEvent) :
    AllJobs (Job.Prepared manager.environment)
      (Run.final (submissionStep manager poolConfig clusterName) JobManager.initial events) := by
  apply Run.final_invariant (submissionStep manager poolConfig clusterName)
    (AllJobs (Job.Prepared manager.environment)) _ JobManager.initial (allJobs_initial _)
  intro state event holds
  apply submissionStep_allJobs manager poolConfig clusterName holds
  intro forceUpdate data blockHeader jobId job _ _ initialized
  exact (Job.init_ok initialized).1

theorem BlockSubmission.completeShare_difficulties {workerValue : Text}
    {request : BlockSubmission.Request} {job : Job} {processed : Blockchain.Share} {share : Share}
    (completes : completeShare manager poolConfig clusterName workerValue request job processed =
      .ok share) :
    share.difficulty = processed.difficulty / manager.shareMultiplier ∧
      share.networkDifficulty = job.difficulty := by
  simp only [completeShare, submitted, bind_eq_ok, pure_eq_ok] at completes
  rcases completes with ⟨given, isGiven, rfl⟩
  refine ⟨?_, rfl⟩
  have same : given.difficulty = processed.difficulty := by
    split_ifs at isGiven
    · simp only [submitCandidate, bind_eq_ok] at isGiven
      rcases isGiven with ⟨⟨accepted, coinbaseTransaction⟩, -, rest⟩
      split_ifs at rest
      · simp only [bind_eq_ok, pure_eq_ok] at rest
        rcases rest with ⟨reward, -, rfl⟩
        rfl
      · cases rest
        rfl
    · cases isGiven
      rfl
  rw [enrich, same]

theorem BlockSubmission.submitShare_difficulties {state : JobManager.State}
    {request : BlockSubmission.Request} {share : Share}
    (returns : (submitShare manager poolConfig clusterName state request).2 = .ok share) :
    ∃ job work processed blockHex,
      manager.acceptedByJob state (request.submitRequest unanswered) =
        some (job, work, processed, blockHex) ∧
      job ∈ state.validJobs.map ActiveJob.job ∧
      share.difficulty = processed.difficulty / manager.shareMultiplier ∧
      share.networkDifficulty = job.difficulty := by
  rw [submitShare] at returns
  rw [JobManager.acceptedByJob]
  cases read : JobManager.readRequest (request.submitRequest unanswered) with
  | error exception =>
      rw [read] at returns
      cases returns
  | ok parts =>
      rcases parts with ⟨workerValue, jobId, submission⟩
      rw [read] at returns
      dsimp only at returns ⊢
      split at returns
      · cases returns
      · rename_i validJobs result processed
        simp only [bind_eq_ok] at returns
        rcases returns with ⟨⟨job, work, given, blockHex⟩, rfl, completes⟩
        rcases Option.bind_eq_some_iff.mp processed with ⟨identifier, -, found⟩
        refine ⟨job, work, given, blockHex, ?_, (manager.processInJobs_ok found).1,
          completeShare_difficulties manager poolConfig clusterName completes⟩
        rw [processed]
        rfl

end Runs

/-! ## Scores -/

/-- The multiplier leaves the score alone. Where the difficulty that is stored is not the quotient
itself, it would have to make up for that. -/
def ScoreFits (multiplier difficulty : ℚ) (quotient : Nat) (stored : Int) : Prop :=
  if stored = quotient then difficulty = 0 ∨ multiplier = 1
  else stored ≠ 0 ∧ (difficulty = 0 ∨ multiplier = quotient / (stored : ℚ))

theorem scaled_eq_iff {difficulty multiplier divisor quotient : ℚ}
    (multiplierNonzero : multiplier ≠ 0) (divisorNonzero : divisor ≠ 0)
    (quotientNonzero : quotient ≠ 0) :
    difficulty / multiplier / divisor = difficulty / quotient ↔
      difficulty = 0 ∨ multiplier = quotient / divisor := by
  rw [div_div, div_eq_div_iff (mul_ne_zero multiplierNonzero divisorNonzero) quotientNonzero,
    mul_eq_mul_left_iff, eq_div_iff divisorNonzero, eq_comm, or_comm]

theorem scoreFits_iff {multiplier difficulty : ℚ} {quotient : Nat} {stored : Int}
    (nonzero : multiplier ≠ 0) (positive : 1 ≤ quotient) :
    ScoreFits multiplier difficulty quotient stored ↔ (stored : ℚ) ≠ 0 ∧
      difficulty / multiplier / (stored : ℚ) = difficulty / quotient := by
  have quotientNonzero : (quotient : ℚ) ≠ 0 := Nat.cast_ne_zero.mpr (by omega)
  rw [ScoreFits]
  split_ifs with same
  · rw [same, Int.cast_natCast, scaled_eq_iff nonzero quotientNonzero quotientNonzero,
      div_self quotientNonzero]
    exact ⟨fun either => ⟨quotientNonzero, either⟩, fun both => both.2⟩
  · rw [Int.cast_ne_zero]
    constructor
    · rintro ⟨divisorNonzero, either⟩
      have cast := Int.cast_ne_zero (α := ℚ).mpr divisorNonzero
      exact ⟨divisorNonzero, (scaled_eq_iff nonzero cast quotientNonzero).mpr either⟩
    · rintro ⟨divisorNonzero, same⟩
      have cast := Int.cast_ne_zero (α := ℚ).mpr divisorNonzero
      exact ⟨divisorNonzero, (scaled_eq_iff nonzero cast quotientNonzero).mp same⟩

theorem scoreFits_of_exact {environment : Environment} (exact : environment.toDouble = id)
    {multiplier difficulty : ℚ} {quotient : Nat} (fits : quotient < 2 ^ 63) :
    ScoreFits multiplier difficulty quotient (environment.toDouble (longValue quotient)) ↔
      difficulty = 0 ∨ multiplier = 1 := by
  rw [ScoreFits, exact, id, if_pos ((longValue_eq_iff quotient).mpr fits)]

section Scores

variable (manager : JobManager) (poolConfig : PoolConfig) (clusterName : Option Text)

/-- In every run and for every returned share: the share was accepted by a job at a difficulty of
its worker, and, if the target of the job is at most the first difficulty's, its score is the
ratio of the two amounts of work exactly if the multiplier does not come between them. -/
theorem score_eq_workRatio_iff (nonzero : manager.shareMultiplier ≠ 0)
    (events : List SubmissionEvent) (request : BlockSubmission.Request)
    (share : BlockSubmission.Share)
    (returns : (BlockSubmission.submitShare manager poolConfig clusterName
      (Run.final (submissionStep manager poolConfig clusterName) JobManager.initial events)
      request).2 = .ok share) :
    ∃ job work processed blockHex,
      manager.acceptedByJob
          (Run.final (submissionStep manager poolConfig clusterName) JobManager.initial events)
          (request.submitRequest BlockSubmission.unanswered) =
        some (job, work, processed, blockHex) ∧
      job.Prepared manager.environment ∧
      stratumDifficulty request.worker.difficulty (Job.shareDiff manager.environment work)
        processed.isBlockCandidate = .ok processed.difficulty ∧
      (job.blockTarget ≤ diff1 →
        (share.record.share.quotient =
            some (processed.difficulty / (diff1 / job.blockTarget : Nat)) ↔
          ScoreFits manager.shareMultiplier processed.difficulty (diff1 / job.blockTarget)
            (manager.environment.toDouble (longValue (diff1 / job.blockTarget))))) := by
  rcases BlockSubmission.submitShare_difficulties manager poolConfig clusterName returns with
    ⟨job, work, processed, blockHex, accepted, isJob, isDifficulty, isNetwork⟩
  have prepared := final_prepared manager poolConfig clusterName events job isJob
  refine ⟨job, work, processed, blockHex, accepted, prepared,
    manager.acceptedByJob_difficulty accepted, ?_⟩
  intro atMost
  rw [scoreFits_iff nonzero ((one_le_diff1_div_iff prepared.positive).mpr atMost),
    ← prepared.difficulty, ← isNetwork, ← isDifficulty]
  change (if share.networkDifficulty = 0 then none
    else some (share.difficulty / share.networkDifficulty)) = _ ↔ _
  split_ifs with zero
  · simp [zero]
  · rw [Option.some.injEq]
    exact ⟨fun same => ⟨zero, same⟩, fun both => both.2⟩

end Scores

namespace SampleShare

def quarterManager : JobManager := { manager with shareMultiplier := 1 / 4 }

def workEvents : List SubmissionEvent := [.updateJob false (.work blockHeader.write)]

def workState (manager : JobManager) : JobManager.State :=
  Run.final (submissionStep manager poolConfig none) JobManager.initial workEvents

def workRequest : BlockSubmission.Request := answeredRequest submission blockFound coinbaseFound

def acceptedAt (manager : JobManager) : Option (Nat × ℚ) :=
  (manager.acceptedByJob (workState manager)
    (workRequest.submitRequest BlockSubmission.unanswered)).map fun accepted =>
      (accepted.1.blockTarget, accepted.2.2.1.difficulty)

def scored (manager : JobManager) : Option (Option ℚ) :=
  (BlockSubmission.submitShare manager poolConfig none (workState manager)
    workRequest).2.toOption.map fun share => share.record.share.quotient

def workTarget : Nat := 0x3fffff * 256 ^ 28

theorem acceptedAt_manager : acceptedAt manager = some (workTarget, 1 / 10) := by
  decide +kernel

theorem workTarget_div : diff1 / workTarget = 256 := by
  decide

theorem workTarget_le : workTarget ≤ diff1 := by
  decide

end SampleShare

open SampleShare

theorem score_eq_workRatio_iff_unscaled : ∃ share,
    (BlockSubmission.submitShare manager poolConfig none (workState manager) workRequest).2 =
        .ok share ∧
      share.record.share.quotient = some (1 / 10 / 256) := by
  have isOk : (BlockSubmission.submitShare manager poolConfig none (workState manager)
      workRequest).2.toOption.isSome = true := by
    decide +kernel
  rcases exists_ok_of_isSome isOk with ⟨share, returns⟩
  refine ⟨share, returns, ?_⟩
  rcases score_eq_workRatio_iff manager poolConfig none one_ne_zero workEvents workRequest share
    returns with ⟨job, work, processed, blockHex, accepted, -, -, score⟩
  have computed := acceptedAt_manager
  rw [acceptedAt, workState, accepted, Option.map_some, Option.some.injEq, Prod.mk.injEq]
    at computed
  rw [computed.1, computed.2, workTarget_div] at score
  have fits : ScoreFits manager.shareMultiplier (1 / 10) 256
      (manager.environment.toDouble (longValue 256)) := by
    have exact : manager.environment.toDouble (longValue 256) = (256 : Nat) := by decide
    rw [ScoreFits, if_pos exact]
    exact .inr rfl
  exact (score workTarget_le).mpr fits

theorem score_quadrupled :
    acceptedAt quarterManager = some (workTarget, 1 / 10) ∧ workTarget ≤ diff1 ∧
      diff1 / workTarget = 256 ∧ scored quarterManager = some (some (4 * (1 / 10 / 256))) ∧
      scored quarterManager ≠ some (some (1 / 10 / 256)) := by
  have same : scored quarterManager = some (some (4 * (1 / 10 / 256))) := by
    decide +kernel
  have accepted : acceptedAt quarterManager = some (workTarget, 1 / 10) := by
    decide +kernel
  refine ⟨accepted, workTarget_le, workTarget_div, same, ?_⟩
  rw [same]
  decide +kernel

/-! ## Divisions -/

/-- The payments can do with the rows of a share: its score becomes a decimal, and the effort of
its block is a number. -/
structure Divides (record : ShareRecord) : Prop where
  positive : 1 ≤ record.share.networkDifficulty
  score : toDecimal record.share.quotient = .ok record.share.score
  effort : ∀ accumulated, record.block.quotient accumulated =
    some (accumulated / record.block.networkDifficulty)

/-- The header has a target in the range, and the difficulties of a worker are not out of all
proportion to those of the jobs. -/
def IsMeasured (manager : JobManager) (state : JobManager.State) : SubmissionEvent → Prop
  | .updateJob _ reply => ∀ data blockHeader, reply = .work data →
      BlockHeader.read data = some blockHeader →
      0 < manager.environment.expandBits blockHeader.bits →
      TargetInRange (manager.environment.expandBits blockHeader.bits)
  | .submitShare request => ∀ job ∈ state.validJobs.map ActiveJob.job, ∀ difficulty,
      (difficulty = request.worker.difficulty.difficulty ∨
        request.worker.difficulty.previousDifficulty = some difficulty) →
      |difficulty / manager.shareMultiplier / job.difficulty| ≤ decimalMax

section Divisions

variable (manager : JobManager) (poolConfig : PoolConfig) (clusterName : Option Text)

def IsPositive : JobManager.State → Prop := AllJobs fun job => 1 ≤ job.difficulty

theorem submissionStep_isPositive
    (isBinary64 : manager.environment.toDouble = FloatingPoint.toDouble)
    (state : JobManager.State) (event : SubmissionEvent)
    (measured : IsMeasured manager state event) (holds : IsPositive state) :
    IsPositive (submissionStep manager poolConfig clusterName state event) := by
  apply submissionStep_allJobs manager poolConfig clusterName holds
  intro forceUpdate data blockHeader jobId job isEvent parsed initialized
  rw [isEvent] at measured
  rcases Job.init_ok initialized with ⟨prepared, isHeader⟩
  have isTarget := prepared.target
  rw [isHeader] at isTarget
  have inRange := measured data blockHeader rfl parsed (isTarget ▸ prepared.positive)
  rw [← isTarget] at inRange
  exact prepared.one_le_difficulty isBinary64 inRange

theorem returnedShare_divides {state : JobManager.State} {event : SubmissionEvent}
    {share : BlockSubmission.Share} (measured : IsMeasured manager state event)
    (holds : IsPositive state)
    (returns : returnedShare manager poolConfig clusterName state event = some share) :
    Divides share.record := by
  cases event with
  | updateJob forceUpdate reply => cases returns
  | submitShare request =>
      have isOk : (BlockSubmission.submitShare manager poolConfig clusterName state request).2 =
          .ok share := by
        rw [returnedShare] at returns
        cases outcome : (BlockSubmission.submitShare manager poolConfig clusterName state
            request).2 with
        | error exception =>
            rw [outcome] at returns
            cases returns
        | ok given =>
            rw [outcome] at returns
            cases returns
            rfl
      rcases BlockSubmission.submitShare_difficulties manager poolConfig clusterName isOk with
        ⟨job, work, processed, blockHex, accepted, isJob, isDifficulty, isNetwork⟩
      have atLeast : (1 : ℚ) ≤ share.networkDifficulty := by
        rw [isNetwork]
        exact_mod_cast holds job isJob
      have nonzero : share.networkDifficulty ≠ 0 := by linarith
      have credited : processed.difficulty = request.worker.difficulty.difficulty ∨
          request.worker.difficulty.previousDifficulty = some processed.difficulty := by
        rcases Stratum.stratumDifficulty_ok (Job.shareDiff_nonneg manager.environment work)
          (manager.acceptedByJob_difficulty accepted) with ⟨current, -⟩ | ⟨either, -⟩
        · exact .inl current
        · exact either
      have bound := measured job isJob processed.difficulty credited
      rw [← isDifficulty, ← isNetwork] at bound
      refine ⟨atLeast, ?_, ?_⟩
      · change toDecimal (if share.networkDifficulty = 0 then none
          else some (share.difficulty / share.networkDifficulty)) = _
        rw [if_neg nonzero, toDecimal, if_pos bound]
        rfl
      · intro accumulated
        exact if_neg nonzero

/-- For every header with a positive target the network difficulty is positive and the whole
quotient exactly if the target is in the range and the quotient is a double; and in every run
whose targets are in the range, with workers of moderate difficulties, no share and no block that
is stored makes a division fail. -/
theorem networkDifficulty_positive_iff
    (isBinary64 : manager.environment.toDouble = FloatingPoint.toDouble) :
    (∀ blockHeader jobId, 0 < manager.environment.expandBits blockHeader.bits →
      ∃ job, Job.init manager.environment blockHeader jobId = .ok job ∧
        ((1 ≤ job.difficulty ∧ job.difficulty =
            (diff1 / manager.environment.expandBits blockHeader.bits : Nat)) ↔
          TargetInRange (manager.environment.expandBits blockHeader.bits) ∧
            FloatingPoint.IsFloat 53
              ((diff1 / manager.environment.expandBits blockHeader.bits : Nat) : ℚ))) ∧
      ∀ events, Run.Along (submissionStep manager poolConfig clusterName) (IsMeasured manager)
          JobManager.initial events →
        ∀ share ∈ Run.emitted (submissionStep manager poolConfig clusterName)
          (returnedShare manager poolConfig clusterName) JobManager.initial events,
          Divides share.record := by
  constructor
  · intro blockHeader jobId positive
    have initialized : Job.init manager.environment blockHeader jobId = .ok
        { jobId, blockHeader
          blockTarget := manager.environment.expandBits blockHeader.bits
          difficulty := manager.environment.toDouble
            (longValue (diff1 / manager.environment.expandBits blockHeader.bits)) } :=
      if_neg positive.ne'
    exact ⟨_, initialized, (Job.init_ok initialized).1.difficulty_iff isBinary64⟩
  · intro events measured
    apply Run.emitted_forall_along (submissionStep manager poolConfig clusterName)
      (returnedShare manager poolConfig clusterName) (IsMeasured manager) IsPositive
      (submissionStep_isPositive manager poolConfig clusterName isBinary64)
      (fun share => Divides share.record) _ JobManager.initial (allJobs_initial _) events measured
    intro state event share now holds returns
    exact returnedShare_divides manager poolConfig clusterName now holds returns

end Divisions

namespace SampleShare

def easyEvents : List SubmissionEvent :=
  [.updateJob false (.work easyHeader.write),
    .submitShare (blockRequest blockFound coinbaseFound)]

theorem workStep_difficulties :
    ((submissionStep manager poolConfig none JobManager.initial
      (.updateJob false (.work blockHeader.write))).validJobs.map ActiveJob.job).map
        Job.difficulty = [256] := by
  decide +kernel

/-- The network difficulties and the scores of the shares that a run returns. -/
def stored (manager : JobManager) (events : List SubmissionEvent) :
    List (ℚ × Option ℚ) :=
  (Run.emitted (submissionStep manager poolConfig none) (returnedShare manager poolConfig none)
    JobManager.initial events).map fun share =>
      (share.record.share.networkDifficulty, (toDecimal share.record.share.quotient).toOption)

end SampleShare

theorem networkDifficulty_positive_iff_work :
    (∃ job, Job.init manager.environment blockHeader (text "00000001") = .ok job ∧
      1 ≤ job.difficulty ∧
        job.difficulty = (diff1 / manager.environment.expandBits blockHeader.bits : Nat)) ∧
      (stored manager (workEvents ++ [.submitShare workRequest])).length = 1 ∧
      ∀ share ∈ Run.emitted (submissionStep manager poolConfig none)
        (returnedShare manager poolConfig none) JobManager.initial
        (workEvents ++ [.submitShare workRequest]), Divides share.record := by
  have both := networkDifficulty_positive_iff manager poolConfig none rfl
  refine ⟨?_, by decide +kernel, both.2 _ ⟨?_, ?_, trivial⟩⟩
  · rcases both.1 blockHeader (text "00000001") (by decide) with ⟨job, initialized, exact⟩
    have quotient : diff1 / manager.environment.expandBits blockHeader.bits = 256 := by
      decide
    refine ⟨job, initialized, exact.mpr ⟨⟨by decide, by decide⟩, ?_⟩⟩
    rw [quotient]
    exact ⟨256, 0, by decide, by norm_num⟩
  · intro data given isReply parsed _
    cases isReply
    rw [BlockHeader.read_write] at parsed
    cases parsed
    exact ⟨by decide, by decide⟩
  · intro job isJob difficulty isDifficulty
    have isNetwork : job.difficulty = 256 := by
      have isValue := List.mem_map_of_mem (f := Job.difficulty) isJob
      rw [workStep_difficulties] at isValue
      exact List.mem_singleton.mp isValue
    rcases isDifficulty with current | previous
    · rw [current, isNetwork]
      decide +kernel
    · cases previous

/-- These bits give a target above the first one: the share is stored with a network difficulty of
zero, and its score throws. The smallest target gives a negative difficulty, and between them there
are targets whose quotient is no double. -/
theorem networkDifficulty_zero :
    environment.expandBits 0x207fffff = 0x7fffff * 256 ^ 29 ∧
      (Job.init environment easyHeader (text "00000001")).toOption.map Job.difficulty = some 0 ∧
      stored manager easyEvents = [(0, none)] ∧
      environment.expandBits 0x03000001 = 1 ∧
      (Job.init environment { blockHeader with bits := 0x03000001 }
        (text "00000001")).toOption.map Job.difficulty = some (-1) ∧
      diff1 / environment.expandBits 0x19400001 = 72057576858062847 ∧
      (Job.init environment { blockHeader with bits := 0x19400001 }
        (text "00000001")).toOption.map Job.difficulty = some 72057576858062848 := by
  refine ⟨by decide +kernel, by decide +kernel, by decide +kernel, by decide +kernel, ?_⟩
  exact ⟨by decide, by decide, by decide⟩

end ExchangeCoin

end Miningcore

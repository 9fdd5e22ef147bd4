import Miningcore.Blockchain.ValidJobs
import Miningcore.Stratum.DifficultyFloor

/-! The connections of an ExchangeCoin pool and of a pool of the Bitcoin family: what
the shares they publish prove, and to whom they are attributed. -/

namespace Miningcore

open Miningcore.Configuration Stratum

theorem shareDifficulty_ok {diff1 hash : Nat} {shareDiff : ℚ}
    (computed : shareDifficulty diff1 hash = .ok shareDiff) : shareDiff = diff1 / hash := by
  rw [shareDifficulty] at computed
  split_ifs at computed
  cases computed
  rfl

theorem forall_le_div_iff {difficulty work : ℚ} (nonneg : 0 ≤ work) (bound : Nat) :
    (∀ hash : Nat, 0 < hash → hash ≤ bound → difficulty ≤ work / hash) ↔
      difficulty * bound ≤ work := by
  constructor
  · intro proves
    rcases Nat.eq_zero_or_pos bound with zero | positive
    · rw [zero, Nat.cast_zero, mul_zero]
      exact nonneg
    · rw [← le_div_iff₀ (Nat.cast_pos.mpr positive)]
      exact proves bound positive le_rfl
  · intro largest hash positive within
    rw [le_div_iff₀ (Nat.cast_pos.mpr positive)]
    rcases le_total 0 difficulty with above | below
    · exact (mul_le_mul_of_nonneg_left (Nat.cast_le.mpr within) above).trans largest
    · exact (mul_nonpos_of_nonpos_of_nonneg below (Nat.cast_nonneg _)).trans nonneg

theorem shareDifficulty_pos {diff1 hash : Nat} {shareDiff : ℚ}
    (computed : shareDifficulty diff1 hash = .ok shareDiff) : 0 < hash := by
  rw [shareDifficulty] at computed
  split_ifs at computed with zero
  exact Nat.pos_of_ne_zero zero

theorem head?_of_submitParam {submitParams : List (Option Text)} {given : Text}
    (isFirst : ExchangeCoin.JobManager.submitParam submitParams 0 = .ok (some given)) :
    submitParams.head?.join = some given := by
  cases submitParams with
  | nil => cases isFirst
  | cons first rest =>
      cases isFirst
      rfl

namespace ExchangeCoin

def Job.shareDiff (environment : Environment) (work : Work) : ℚ :=
  diff1 / LittleEndian.decode (environment.headerHasher (work.header ++ work.solution)).toList

theorem Job.shareDiff_nonneg (environment : Environment) (work : Work) :
    0 ≤ Job.shareDiff environment work := by
  rw [Job.shareDiff]
  exact div_nonneg (Nat.cast_nonneg _) (Nat.cast_nonneg _)

def Job.blocksProve (job : Job) (difficulty : ℚ) : Bool :=
  decide (99 / 100 * difficulty * (job.blockTarget - 1 : Nat) ≤ diff1)

theorem Job.blocksProve_iff (job : Job) (difficulty : ℚ) :
    job.blocksProve difficulty = true ↔ ∀ hash : Nat, 0 < hash → hash < job.blockTarget →
      99 / 100 * difficulty ≤ diff1 / hash := by
  rw [Job.blocksProve, decide_eq_true_eq, ← forall_le_div_iff (Nat.cast_nonneg _)]
  constructor
  · intro proves hash positive below
    exact proves hash positive (Nat.le_sub_one_of_lt below)
  · intro proves hash positive within
    exact proves hash positive (by omega)

theorem Job.processShareInternal_belowTarget {environment : Environment} {job : Job}
    {submission : Submission} {validated : Validated} {work : Work} {share : Blockchain.Share}
    {blockHex : Option Text}
    (processed : job.processShareInternal environment submission validated =
      .ok (work, share, blockHex)) (isBlock : share.isBlockCandidate = true) :
    ∃ hash : Nat, Job.shareDiff environment work = diff1 / hash ∧ 0 < hash ∧
      hash < job.blockTarget := by
  simp only [processShareInternal, bind_eq_ok, throwIf_eq_ok] at processed
  rcases processed with ⟨decoded, _, _, _, _, _, shareDiff, computed, _, _, returned⟩
  split_ifs at returned with candidate
  · rw [pure_eq_ok] at returned
    cases returned
    exact ⟨_, rfl, shareDifficulty_pos computed, of_decide_eq_true candidate⟩
  · rw [pure_eq_ok] at returned
    cases returned
    cases isBlock

theorem Job.processShareInternal_difficulty {environment : Environment} {job : Job}
    {submission : Submission} {validated : Validated} {work : Work} {share : Blockchain.Share}
    {blockHex : Option Text}
    (processed : job.processShareInternal environment submission validated =
      .ok (work, share, blockHex)) :
    stratumDifficulty submission.worker.difficulty (Job.shareDiff environment work)
      share.isBlockCandidate = .ok share.difficulty := by
  simp only [processShareInternal, bind_eq_ok, throwIf_eq_ok] at processed
  rcases processed with ⟨decoded, _, _, _, _, _, shareDiff, computed, difficulty, tested, returned⟩
  have hashed := shareDifficulty_ok computed
  split_ifs at returned with candidate
  · rw [pure_eq_ok] at returned
    cases returned
    rw [candidate] at tested
    rw [Job.shareDiff, ← hashed]
    exact tested
  · rw [pure_eq_ok] at returned
    cases returned
    rw [Bool.eq_false_iff.mpr candidate] at tested
    rw [Job.shareDiff, ← hashed]
    exact tested

theorem Job.exists_unproven {environment : Environment} {job : Job} {submission : Submission}
    {validated : Validated} {work : Work}
    (decoded : job.decodeWork environment validated = .ok work)
    (verified : verifySolution environment work = .ok true) (fits : job.blockTarget ≤ 256 ^ 32)
    (high : job.blocksProve submission.worker.difficulty.difficulty = false) :
    ∃ headerHash share blockHex,
      let hashed := { environment with headerHasher := fun _ => headerHash }
      job.processShareInternal hashed submission validated = .ok (work, share, blockHex) ∧
        Job.shareDiff hashed work < 99 / 100 * share.difficulty := by
  rw [← Bool.not_eq_true, job.blocksProve_iff] at high
  push Not at high
  rcases high with ⟨hash, positive, below, misses⟩
  let headerHash : FixedBytes 32 := ⟨LittleEndian.encode 32 hash, LittleEndian.encode_length 32 hash⟩
  have isHash : LittleEndian.decode headerHash.toList = hash :=
    LittleEndian.decode_encode 32 hash (lt_of_lt_of_le below fits)
  refine ⟨headerHash, {
    blockHeight := job.blockHeader.height.toNat
    networkDifficulty := job.difficulty
    difficulty := submission.worker.difficulty.difficulty
    isBlockCandidate := true
    blockHash := some (StringExtensions.toHexString headerHash.toList.reverse) },
    some (StringExtensions.toHexString (work.header ++ work.solution)), ?_, ?_⟩
  · have sameWork : job.decodeWork { environment with headerHasher := fun _ => headerHash }
        validated = .ok work := decoded
    have sameVerdict : verifySolution { environment with headerHasher := fun _ => headerHash }
        work = .ok true := verified
    have isDifficulty : shareDifficulty diff1 hash = .ok (diff1 / hash : ℚ) := if_neg positive.ne'
    have isCandidate : decide (hash < job.blockTarget) = true := decide_eq_true below
    simp only [processShareInternal, sameWork, bind, Except.bind, sameVerdict, isHash,
      isDifficulty, isCandidate]
    rfl
  · rw [Job.shareDiff, isHash]
    exact misses

namespace JobManager

variable (manager : JobManager)

/-- The job and the share that a request is accepted for, before a block candidate is
submitted. -/
def acceptedByJob (state : State) (request : SubmitRequest) :
    Option (Job × Job.Work × Blockchain.Share × Option Text) :=
  match readRequest request with
  | .error _ => none
  | .ok (_, jobId, submission) =>
      (jobId.bind fun given => manager.processInJobs given submission state.validJobs).bind
        fun processed => processed.2.toOption

theorem readRequest_ok {request : SubmitRequest} {workerValue : Text} {jobId : Option Text}
    {submission : Submission}
    (read : readRequest request = .ok (workerValue, jobId, submission)) :
    submission.worker = request.worker ∧ ∃ given,
      (request.submitParams.bind fun params => params.head?.join) = some given ∧
        workerValue = given.trim := by
  cases params : request.submitParams with
  | none =>
      rw [readRequest, params] at read
      cases read
  | some submitParams =>
      simp only [readRequest, params, bind_eq_ok] at read
      rcases read with ⟨first, isFirst, _, _, _, _, _, _, _, _, _, _, rest⟩
      cases first with
      | none => cases rest
      | some given =>
          simp only [Option.map_some, bind_eq_ok, throwIf_eq_ok, pure_eq_ok] at rest
          rcases rest with ⟨_, _, _, _, equal⟩
          cases equal
          exact ⟨rfl, given, head?_of_submitParam isFirst, rfl⟩

def addressedJob (state : State) (request : SubmitRequest) : Option Job :=
  match readRequest request with
  | .ok (_, some given, _) =>
      (state.validJobs.find? fun active => active.job.jobId == given).map ActiveJob.job
  | _ => none

theorem acceptedByJob_processed {state : State} {request : SubmitRequest} {job : Job}
    {work : Job.Work} {share : Blockchain.Share} {blockHex : Option Text}
    (accepted : manager.acceptedByJob state request = some (job, work, share, blockHex)) :
    addressedJob state request = some job ∧ ∃ submission validated,
      submission.worker = request.worker ∧
      job.processShareInternal manager.environment submission validated =
        .ok (work, share, blockHex) := by
  rw [acceptedByJob] at accepted
  split at accepted
  · cases accepted
  · rename_i workerValue jobId submission read
    rcases Option.bind_eq_some_iff.mp accepted with ⟨⟨next, result⟩, processed, isResult⟩
    rcases Option.bind_eq_some_iff.mp processed with ⟨given, rfl, found⟩
    have first := congrArg (Option.map Prod.snd) found
    rw [processInJobs, Registry.updateFirst_result, Option.map_some] at first
    rcases Option.map_eq_some_iff.mp first with ⟨active, isFirst, isOutcome⟩
    rcases outcome : active.job.processShare manager.environment active.submissions submission with
      ⟨registered, exception | returned⟩
    · simp only [outcome] at isOutcome
      rw [← isOutcome] at isResult
      cases isResult
    · simp only [outcome] at isOutcome
      rw [← isOutcome] at isResult
      cases isResult
      rcases processSubmission_ok _ _ _ _ outcome with ⟨validated, _, _, _, _, _, computed⟩
      refine ⟨?_, submission, validated, (readRequest_ok read).1, computed⟩
      simp only [addressedJob, read, isFirst]
      rfl

theorem acceptedByJob_difficulty {state : State} {request : SubmitRequest} {job : Job}
    {work : Job.Work} {share : Blockchain.Share} {blockHex : Option Text}
    (accepted : manager.acceptedByJob state request = some (job, work, share, blockHex)) :
    stratumDifficulty request.worker.difficulty (Job.shareDiff manager.environment work)
      share.isBlockCandidate = .ok share.difficulty := by
  rcases manager.acceptedByJob_processed accepted with
    ⟨-, submission, validated, sameWorker, processed⟩
  rw [← sameWorker]
  exact Job.processShareInternal_difficulty processed

theorem completeShare_miner {workerValue : Text} {replies : BlockReplies} {job : Job}
    {share completed : Blockchain.Share}
    (completion : manager.completeShare workerValue replies job share = .ok completed) :
    completed.miner = (workerValue.split 46).head? := by
  simp only [completeShare] at completion
  split_ifs at completion
  · rw [bind_eq_ok] at completion
    rcases completion with ⟨⟨accepted, coinbaseTransaction⟩, -, rest⟩
    split_ifs at rest
    · simp only [bind_eq_ok, pure_eq_ok] at rest
      rcases rest with ⟨_, _, _, _, rfl⟩
      rfl
    · simp only [bind_eq_ok, pure_eq_ok] at rest
      rcases rest with ⟨_, _, rfl⟩
      rfl
  · simp only [bind_eq_ok, pure_eq_ok] at completion
    rcases completion with ⟨_, _, rfl⟩
    rfl

theorem submitShare_miner {state : State} {request : SubmitRequest} {acceptance : AcceptedShare}
    (accepted : (manager.submitShare state request).2 = .ok acceptance) :
    ∃ given, (request.submitParams.bind fun params => params.head?.join) = some given ∧
      acceptance.share.miner = (given.trim.split 46).head? := by
  rw [submitShare] at accepted
  split at accepted
  · cases accepted
  · rename_i workerValue jobId submission read
    rcases readRequest_ok read with ⟨-, given, isGiven, isTrimmed⟩
    refine ⟨given, isGiven, ?_⟩
    split at accepted
    · cases accepted
    · simp only [bind_eq_ok, pure_eq_ok] at accepted
      rcases accepted with ⟨⟨job, work, share, blockHex⟩, -, completed, completion, rfl⟩
      rw [manager.completeShare_miner completion, isTrimmed]

end JobManager

def submitRequest (worker : BitcoinWorkerContext) (request : Submit BlockReplies) :
    SubmitRequest where
  submitParams := request.requestParams
  worker
  now := request.now
  replies := request.replies

def pool (manager : JobManager) (endpoint : PoolEndpoint) :
    Stratum.Pool JobManager.State JobManager.Event BlockReplies where
  endpoint
  advance := manager.step
  submitShare state worker request :=
    let (next, result) := manager.submitShare state (submitRequest worker request)
    (next, result.map AcceptedShare.share)
  credit state worker request :=
    (manager.acceptedByJob state (submitRequest worker request)).map fun (_, work, share, _) =>
      { shareDiff := Job.shareDiff manager.environment work
        isBlockCandidate := share.isBlockCandidate
        difficulty := share.difficulty }
  blocksProve state worker request :=
    (JobManager.addressedJob state (submitRequest worker request)).all fun job =>
      job.blocksProve worker.difficulty.difficulty
  Sound _ := True
  sound_advance _ _ _ := trivial
  sound_submitShare _ _ _ _ := trivial
  credit_nonneg state worker request credited _ found := by
    rcases Option.map_eq_some_iff.mp found with ⟨⟨job, work, share, blockHex⟩, -, rfl⟩
    exact Job.shareDiff_nonneg manager.environment work
  credit_difficulty state worker request credited found := by
    rcases Option.map_eq_some_iff.mp found with ⟨⟨job, work, share, blockHex⟩, accepted, rfl⟩
    exact manager.acceptedByJob_difficulty accepted
  credit_blocksProve state worker request credited _ found isBlock proves := by
    rcases Option.map_eq_some_iff.mp found with ⟨⟨job, work, share, blockHex⟩, accepted, rfl⟩
    rcases manager.acceptedByJob_processed accepted with ⟨addressed, _, _, -, processed⟩
    rcases Job.processShareInternal_belowTarget processed isBlock with
      ⟨hash, isDifficulty, positive, below⟩
    rw [addressed, Option.all_some] at proves
    have meets := (job.blocksProve_iff _).mp proves hash positive below
    exact meets.trans_eq isDifficulty.symm
  submitShare_miner state worker request share submitted := by
    rcases outcome : (manager.submitShare state (submitRequest worker request)).2 with
      exception | acceptance
    · simp only [outcome] at submitted
      cases submitted
    · simp only [outcome] at submitted
      cases submitted
      rcases manager.submitShare_miner outcome with ⟨given, isGiven, isMiner⟩
      rw [isMiner, Submit.miner]
      rw [submitRequest] at isGiven
      rw [isGiven]
      rfl

end ExchangeCoin

namespace Bitcoin

/-- The difficulty of the hash of a piece of work, at the time its header names. -/
def Job.shareDiff (environment : Environment) (job : Job) (work : Work) (nTime : UInt32) : ℚ :=
  diff1 / LittleEndian.decode (environment.headerHasher work.header nTime).toList *
    job.shareMultiplier

theorem Job.shareDiff_nonneg (environment : Environment) {job : Job} (work : Work)
    (nTime : UInt32) (positive : 0 < job.shareMultiplier) :
    0 ≤ job.shareDiff environment work nTime := by
  rw [Job.shareDiff]
  exact mul_nonneg (div_nonneg (Nat.cast_nonneg _) (Nat.cast_nonneg _)) positive.le

def Job.blocksProve (job : Job) (difficulty : ℚ) : Bool :=
  decide (99 / 100 * difficulty * job.blockTargetValue ≤ diff1 * job.shareMultiplier)

theorem Job.blocksProve_iff {job : Job} (positive : 0 < job.shareMultiplier) (difficulty : ℚ) :
    job.blocksProve difficulty = true ↔ ∀ hash : Nat, 0 < hash → hash ≤ job.blockTargetValue →
      99 / 100 * difficulty ≤ diff1 / hash * job.shareMultiplier := by
  rw [Job.blocksProve, decide_eq_true_eq,
    ← forall_le_div_iff (mul_nonneg (Nat.cast_nonneg _) positive.le)]
  simp only [div_mul_eq_mul_div]

theorem Job.processShareInternal_belowTarget {environment : Environment} {job : Job}
    {submission : Submission} {validated : Validated} {work : Work} {share : Blockchain.Share}
    {blockHex : Option Text}
    (processed : job.processShareInternal environment submission validated =
      .ok (work, share, blockHex)) (isBlock : share.isBlockCandidate = true) :
    ∃ hash : Nat, job.shareDiff environment work validated.nTimeInt =
      diff1 / hash * job.shareMultiplier ∧ 0 < hash ∧ hash ≤ job.blockTargetValue := by
  simp only [processShareInternal, bind_eq_ok] at processed
  rcases processed with ⟨hashDiff, computed, _, _, returned⟩
  split_ifs at returned with candidate
  · rw [pure_eq_ok] at returned
    cases returned
    exact ⟨_, rfl, shareDifficulty_pos computed, of_decide_eq_true candidate⟩
  · rw [pure_eq_ok] at returned
    cases returned
    cases isBlock

theorem Job.processShareInternal_difficulty {environment : Environment} {job : Job}
    {submission : Submission} {validated : Validated} {work : Work} {share : Blockchain.Share}
    {blockHex : Option Text}
    (processed : job.processShareInternal environment submission validated =
      .ok (work, share, blockHex)) :
    stratumDifficulty submission.worker.difficulty
      (job.shareDiff environment work validated.nTimeInt) share.isBlockCandidate =
        .ok share.difficulty := by
  simp only [processShareInternal, bind_eq_ok] at processed
  rcases processed with ⟨hashDiff, computed, difficulty, tested, returned⟩
  have hashed := shareDifficulty_ok computed
  split_ifs at returned with candidate
  · rw [pure_eq_ok] at returned
    cases returned
    rw [candidate] at tested
    rw [Job.shareDiff, ← hashed]
    exact tested
  · rw [pure_eq_ok] at returned
    cases returned
    rw [Bool.eq_false_iff.mpr candidate] at tested
    rw [Job.shareDiff, ← hashed]
    exact tested

theorem Job.exists_unproven {environment : Environment} {job : Job} (submission : Submission)
    (validated : Validated) (positive : 0 < job.shareMultiplier)
    (fits : job.blockTargetValue < 256 ^ 32)
    (high : job.blocksProve submission.worker.difficulty.difficulty = false) :
    ∃ headerHash work share blockHex,
      let hashed := { environment with headerHasher := fun _ _ => headerHash }
      job.processShareInternal hashed submission validated = .ok (work, share, blockHex) ∧
        job.shareDiff hashed work validated.nTimeInt < 99 / 100 * share.difficulty := by
  rw [← Bool.not_eq_true, Job.blocksProve_iff positive] at high
  push Not at high
  rcases high with ⟨hash, hashPositive, within, misses⟩
  let headerHash : FixedBytes 32 := ⟨LittleEndian.encode 32 hash, LittleEndian.encode_length 32 hash⟩
  have isHash : LittleEndian.decode headerHash.toList = hash :=
    LittleEndian.decode_encode 32 hash (lt_of_le_of_lt within fits)
  let hashed := { environment with headerHasher := fun _ _ => headerHash }
  let work := job.decodeWork hashed submission validated
  refine ⟨headerHash, work, {
    blockHeight := job.height
    networkDifficulty := job.difficulty * job.shareMultiplier
    difficulty := submission.worker.difficulty.difficulty
    isBlockCandidate := true
    blockReward := job.rewardToPool
    blockHash := some (StringExtensions.toHexString
      (hashed.blockHasher work.header validated.nTimeInt)) },
    some (StringExtensions.toHexString (job.serializeBlock work.header work.coinbase)), ?_, ?_⟩
  · have isDifficulty : shareDifficulty diff1 hash = .ok (diff1 / hash : ℚ) :=
      if_neg hashPositive.ne'
    have isCandidate : decide (hash ≤ job.blockTargetValue) = true := decide_eq_true within
    simp only [processShareInternal, isHash, isDifficulty, bind, Except.bind, isCandidate]
    rfl
  · rw [Job.shareDiff, isHash]
    exact misses

def Submission.nTimeInt (submission : Submission) : UInt32 :=
  (submission.nTime.bind fun nTime => (parseUInt32 nTime).toOption).getD 0

namespace JobManager

variable {Extra : Type} (manager : JobManager Extra)

/-- The job and the share that a request is accepted for, before a block candidate is
submitted, with the time the request names. -/
def acceptedByJob (state : State Extra) (request : SubmitRequest) :
    Option (UInt32 × Job × Job.Work × Blockchain.Share × Option Text) :=
  match readRequest request with
  | .error _ => none
  | .ok (_, jobId, submission) =>
      (jobId.bind fun given => manager.processInJobs given submission state.validJobs).bind
        fun processed => processed.2.toOption.map fun accepted => (submission.nTimeInt, accepted)

theorem readRequest_ok {request : SubmitRequest} {workerValue : Text} {jobId : Option Text}
    {submission : Submission}
    (read : readRequest request = .ok (workerValue, jobId, submission)) :
    submission.worker = request.worker ∧ ∃ given,
      (request.submitParams.bind fun params => params.head?.join) = some given ∧
        workerValue = given.trim := by
  cases params : request.submitParams with
  | none =>
      rw [readRequest, params] at read
      cases read
  | some submitParams =>
      simp only [readRequest, params, bind_eq_ok] at read
      rcases read with ⟨first, isFirst, _, _, _, _, _, _, _, _, rest⟩
      cases first with
      | none => cases rest
      | some given =>
          simp only [Option.map_some, bind_eq_ok, throwIf_eq_ok, pure_eq_ok] at rest
          rcases rest with ⟨_, _, equal⟩
          cases equal
          exact ⟨rfl, given, head?_of_submitParam isFirst, rfl⟩

def addressedJob (state : State Extra) (request : SubmitRequest) : Option Job :=
  match readRequest request with
  | .ok (_, some given, _) =>
      (state.validJobs.find? fun active => active.job.jobId == given).map ActiveJob.job
  | _ => none

theorem addressedJob_mem {state : State Extra} {request : SubmitRequest} {job : Job}
    (addressed : addressedJob state request = some job) :
    job ∈ state.validJobs.map ActiveJob.job := by
  rw [addressedJob] at addressed
  split at addressed
  · rcases Option.map_eq_some_iff.mp addressed with ⟨active, isFirst, rfl⟩
    exact List.mem_map_of_mem (List.mem_of_find?_eq_some isFirst)
  · cases addressed

theorem acceptedByJob_processed {state : State Extra} {request : SubmitRequest} {nTime : UInt32}
    {job : Job} {work : Job.Work} {share : Blockchain.Share} {blockHex : Option Text}
    (accepted : manager.acceptedByJob state request = some (nTime, job, work, share, blockHex)) :
    addressedJob state request = some job ∧ ∃ submission validated,
      submission.worker = request.worker ∧ validated.nTimeInt = nTime ∧
      job.processShareInternal manager.environment submission validated =
        .ok (work, share, blockHex) := by
  rw [acceptedByJob] at accepted
  split at accepted
  · cases accepted
  · rename_i workerValue jobId submission read
    rcases Option.bind_eq_some_iff.mp accepted with ⟨⟨next, result⟩, processed, isResult⟩
    rcases Option.bind_eq_some_iff.mp processed with ⟨given, rfl, found⟩
    have first := congrArg (Option.map Prod.snd) found
    rw [processInJobs, Registry.updateFirst_result, Option.map_some] at first
    rcases Option.map_eq_some_iff.mp first with ⟨active, isFirst, isOutcome⟩
    rcases outcome : active.job.processShare manager.environment active.submissions submission with
      ⟨registered, exception | returned⟩
    · simp only [outcome] at isOutcome
      rw [← isOutcome] at isResult
      cases isResult
    · simp only [outcome] at isOutcome
      rw [← isOutcome] at isResult
      cases isResult
      rcases processSubmission_ok _ _ _ _ outcome with ⟨validated, _, valid, _, _, _, computed⟩
      rcases active.job.validate_ok valid with ⟨-, hasTime, -, -, -, parsed, -⟩
      have time : submission.nTimeInt = validated.nTimeInt := by
        rw [Submission.nTimeInt, hasTime, Option.bind_some, parsed]
        rfl
      refine ⟨?_, submission, validated, (readRequest_ok read).1, time.symm, computed⟩
      simp only [addressedJob, read, isFirst]
      rfl

theorem acceptedByJob_difficulty {state : State Extra} {request : SubmitRequest} {nTime : UInt32}
    {job : Job} {work : Job.Work} {share : Blockchain.Share} {blockHex : Option Text}
    (accepted : manager.acceptedByJob state request = some (nTime, job, work, share, blockHex)) :
    job ∈ state.validJobs.map ActiveJob.job ∧
      stratumDifficulty request.worker.difficulty (job.shareDiff manager.environment work nTime)
        share.isBlockCandidate = .ok share.difficulty := by
  rcases manager.acceptedByJob_processed accepted with
    ⟨addressed, submission, validated, sameWorker, rfl, processed⟩
  refine ⟨addressedJob_mem addressed, ?_⟩
  rw [← sameWorker]
  exact Job.processShareInternal_difficulty processed

theorem completeShare_miner {workerValue : Text} {replies : BlockReplies}
    {share completed : Blockchain.Share}
    (completion : completeShare workerValue replies share = .ok completed) :
    completed.miner = (workerValue.split 46).head? := by
  simp only [completeShare] at completion
  split_ifs at completion
  · rw [bind_eq_ok] at completion
    rcases completion with ⟨⟨accepted, coinbaseTransaction⟩, -, rest⟩
    split_ifs at rest
    · cases rest
      rfl
    · cases rest
      rfl
  · cases completion
    rfl

theorem submitShare_miner {state : State Extra} {request : SubmitRequest}
    {share : Blockchain.Share} (accepted : (manager.submitShare state request).2 = .ok share) :
    ∃ given, (request.submitParams.bind fun params => params.head?.join) = some given ∧
      share.miner = (given.trim.split 46).head? := by
  rw [submitShare] at accepted
  split at accepted
  · cases accepted
  · rename_i workerValue jobId submission read
    rcases readRequest_ok read with ⟨-, given, isGiven, isTrimmed⟩
    refine ⟨given, isGiven, ?_⟩
    split at accepted
    · cases accepted
    · rw [bind_eq_ok] at accepted
      rcases accepted with ⟨⟨job, work, found, blockHex⟩, -, completion⟩
      rw [completeShare_miner completion, isTrimmed]

def PositiveMultipliers (state : State Extra) : Prop :=
  ∀ job ∈ state.validJobs.map ActiveJob.job, 0 < job.shareMultiplier

theorem submitShare_multipliers {state : State Extra} (request : SubmitRequest)
    (positive : PositiveMultipliers state) :
    PositiveMultipliers (manager.submitShare state request).1 := by
  have jobs : (manager.submitShare state request).1.validJobs.map ActiveJob.job =
      state.validJobs.map ActiveJob.job := by
    have made := congrArg (List.map Prod.snd) (manager.submitShare_jobs state request).1
    rwa [List.map_map, List.map_map] at made
  rw [PositiveMultipliers, jobs]
  exact positive

theorem installJob_multipliers {state : State Extra} (given : Option (BlockTemplate Extra))
    (positive : PositiveMultipliers state) :
    PositiveMultipliers (manager.installJob state given).1 := by
  have kept : ∀ job ∈ (manager.keptJobs state given).1.map ActiveJob.job,
      0 < job.shareMultiplier := by
    intro job member
    apply positive job
    refine List.map_subset _ ?_ member
    rw [keptJobs]
    split_ifs
    · exact List.nil_subset _
    · exact List.nil_subset _
    · exact (RecentWindow.latest_sublist _ _).subset
  simp only [installJob]
  split
  · exact positive
  · rename_i template job initialized
    cases given with
    | none => cases initialized
    | some blockTemplate =>
        cases made : manager.init blockTemplate with
        | error exception =>
            rw [initJob, made] at initialized
            cases initialized
        | ok derived =>
            rw [initJob, made] at initialized
            cases initialized
            split_ifs
            · intro job member
              rw [List.map_append] at member
              rcases List.mem_append.mp member with old | new
              · exact kept job old
              · rw [List.map_singleton, List.mem_singleton] at new
                rw [new]
                exact manager.init_shareMultiplier _ derived made
            · exact kept

theorem step_multipliers (state : State Extra) (event : Event Extra)
    (positive : PositiveMultipliers state) : PositiveMultipliers (manager.step state event) := by
  cases event with
  | submitShare request => exact manager.submitShare_multipliers request positive
  | updateJob forceUpdate reply =>
      cases reply with
      | error => exact positive
      | unusable => exact positive
      | template given =>
          simp only [step, updateJob]
          split_ifs
          · exact manager.installJob_multipliers given positive
          · exact positive

end JobManager

def submitRequest (worker : BitcoinWorkerContext) (request : Submit BlockReplies) :
    SubmitRequest where
  submitParams := request.requestParams
  worker
  now := request.now
  replies := request.replies

def pool {Extra : Type} (manager : JobManager Extra) (endpoint : PoolEndpoint) :
    Stratum.Pool (JobManager.State Extra) (JobManager.Event Extra) BlockReplies where
  endpoint
  advance := manager.step
  submitShare state worker request := manager.submitShare state (submitRequest worker request)
  credit state worker request :=
    (manager.acceptedByJob state (submitRequest worker request)).map
      fun (nTime, job, work, share, _) =>
        { shareDiff := job.shareDiff manager.environment work nTime
          isBlockCandidate := share.isBlockCandidate
          difficulty := share.difficulty }
  blocksProve state worker request :=
    (JobManager.addressedJob state (submitRequest worker request)).all fun job =>
      job.blocksProve worker.difficulty.difficulty
  Sound := JobManager.PositiveMultipliers
  sound_advance := manager.step_multipliers
  sound_submitShare _ worker request positive :=
    manager.submitShare_multipliers (submitRequest worker request) positive
  credit_nonneg state worker request credited positive found := by
    rcases Option.map_eq_some_iff.mp found with ⟨⟨nTime, job, work, share, blockHex⟩, accepted, rfl⟩
    apply Job.shareDiff_nonneg
    exact positive job (manager.acceptedByJob_difficulty accepted).1
  credit_difficulty state worker request credited found := by
    rcases Option.map_eq_some_iff.mp found with ⟨⟨nTime, job, work, share, blockHex⟩, accepted, rfl⟩
    exact (manager.acceptedByJob_difficulty accepted).2
  credit_blocksProve state worker request credited positive found isBlock proves := by
    rcases Option.map_eq_some_iff.mp found with ⟨⟨nTime, job, work, share, blockHex⟩, accepted, rfl⟩
    rcases manager.acceptedByJob_processed accepted with ⟨addressed, _, _, -, rfl, processed⟩
    rcases Job.processShareInternal_belowTarget processed isBlock with
      ⟨hash, isDifficulty, hashPositive, below⟩
    have multiplier := positive job (JobManager.addressedJob_mem addressed)
    rw [addressed, Option.all_some] at proves
    have meets := (Job.blocksProve_iff multiplier _).mp proves hash hashPositive below
    exact meets.trans_eq isDifficulty.symm
  submitShare_miner state worker request share submitted := by
    rcases manager.submitShare_miner submitted with ⟨given, isGiven, isMiner⟩
    rw [isMiner, Submit.miner]
    rw [submitRequest] at isGiven
    rw [isGiven]
    rfl

end Bitcoin

section Runs

variable {Extra : Type} (exchangeCoin : ExchangeCoin.JobManager)
variable (bitcoin : Bitcoin.JobManager Extra) (endpoint : PoolEndpoint)
variable (exchangeCoinEvents : List (Event ExchangeCoin.JobManager.Event ExchangeCoin.BlockReplies))
variable (bitcoinEvents : List (Event (Bitcoin.JobManager.Event Extra) Bitcoin.BlockReplies))

theorem Bitcoin.JobManager.positiveMultipliers_initial :
    PositiveMultipliers (initial : State Extra) := by
  intro job member
  cases member

/-- In every run of a connection each accepted share is credited with a difficulty its
hash proves, if at each submission the block target of the addressed job is low enough for
the difficulty that the worker has. -/
theorem creditedShares_proven :
    (Run.Along (step (ExchangeCoin.pool exchangeCoin endpoint))
        (TargetsProve (ExchangeCoin.pool exchangeCoin endpoint))
        (connect (ExchangeCoin.pool exchangeCoin endpoint) ExchangeCoin.JobManager.initial)
        exchangeCoinEvents →
      ∀ credit ∈ creditedShares (ExchangeCoin.pool exchangeCoin endpoint)
        ExchangeCoin.JobManager.initial exchangeCoinEvents, Proven credit) ∧
    (Run.Along (step (Bitcoin.pool bitcoin endpoint))
        (TargetsProve (Bitcoin.pool bitcoin endpoint))
        (connect (Bitcoin.pool bitcoin endpoint) Bitcoin.JobManager.initial) bitcoinEvents →
      ∀ credit ∈ creditedShares (Bitcoin.pool bitcoin endpoint) Bitcoin.JobManager.initial
        bitcoinEvents, Proven credit) :=
  ⟨credited_forall (ExchangeCoin.pool exchangeCoin endpoint) trivial,
    credited_forall (Bitcoin.pool bitcoin endpoint) Bitcoin.JobManager.positiveMultipliers_initial⟩

/-- In every run of a connection each published share is attributed to the address the
connection is authorized for, if and only if every submission that is published names
that address. -/
theorem publishedShares_attributed_iff :
    ((∀ publication ∈ publishedShares (ExchangeCoin.pool exchangeCoin endpoint)
        ExchangeCoin.JobManager.initial exchangeCoinEvents, Attributed publication) ↔
      Run.Along (step (ExchangeCoin.pool exchangeCoin endpoint))
        (NamesMiner (ExchangeCoin.pool exchangeCoin endpoint))
        (connect (ExchangeCoin.pool exchangeCoin endpoint) ExchangeCoin.JobManager.initial)
        exchangeCoinEvents) ∧
    ((∀ publication ∈ publishedShares (Bitcoin.pool bitcoin endpoint) Bitcoin.JobManager.initial
        bitcoinEvents, Attributed publication) ↔
      Run.Along (step (Bitcoin.pool bitcoin endpoint))
        (NamesMiner (Bitcoin.pool bitcoin endpoint))
        (connect (Bitcoin.pool bitcoin endpoint) Bitcoin.JobManager.initial) bitcoinEvents) := by
  constructor
  · exact published_forall_iff (ExchangeCoin.pool exchangeCoin endpoint) trivial exchangeCoinEvents
  · exact published_forall_iff (Bitcoin.pool bitcoin endpoint)
      Bitcoin.JobManager.positiveMultipliers_initial bitcoinEvents

/-- The difficulties of a worker after a run: none is below that of the port, or the
minimum of its variable difficulty if that is lower, and all are positive if the minimum
is. -/
theorem difficulties_aboveFloor (validates : endpoint.validates = true) :
    (∀ difficulty ∈ (Run.final (step (ExchangeCoin.pool exchangeCoin endpoint))
        (connect (ExchangeCoin.pool exchangeCoin endpoint) ExchangeCoin.JobManager.initial)
        exchangeCoinEvents).context.difficulties,
      floor endpoint ≤ difficulty ∧
        ((∀ config ∈ endpoint.varDiff, 0 < config.minDiff) → 0 < difficulty)) ∧
    (∀ difficulty ∈ (Run.final (step (Bitcoin.pool bitcoin endpoint))
        (connect (Bitcoin.pool bitcoin endpoint) Bitcoin.JobManager.initial)
        bitcoinEvents).context.difficulties,
      floor endpoint ≤ difficulty ∧
        ((∀ config ∈ endpoint.varDiff, 0 < config.minDiff) → 0 < difficulty)) := by
  constructor
  · exact final_difficulties (ExchangeCoin.pool exchangeCoin endpoint) validates _
      exchangeCoinEvents
  · exact final_difficulties (Bitcoin.pool bitcoin endpoint) validates _ bitcoinEvents

end Runs

/-- A miner gets above the difficulty of the port, and idles for so long that the variable
difficulty falls to its minimum, which is below the port's. -/
theorem difficulties_aboveFloor_idle :
    let port : PoolEndpoint := {
      difficulty := 8
      varDiff := some {
        minDiff := 2, maxDiff := some 16, maxDelta := none
        targetTime := 15, retargetTime := 90, variancePercent := 30 } }
    let context := (Run.final (step (Bitcoin.pool Bitcoin.SampleShare.manager port))
      (connect (Bitcoin.pool Bitcoin.SampleShare.manager port) Bitcoin.JobManager.initial)
      [.suggestDifficulty (some 12), .idleUpdate 0 0, .idleUpdate 1000 1000]).context
    context.difficulties = [2, 12] ∧
      ∀ difficulty ∈ context.difficulties, 2 ≤ difficulty ∧ 0 < difficulty := by
  intro port context
  refine ⟨by decide +kernel, ?_⟩
  intro difficulty member
  have above := (difficulties_aboveFloor ExchangeCoin.SampleShare.manager
    Bitcoin.SampleShare.manager port [] _ (by decide)).2 difficulty member
  refine ⟨above.1, above.2 ?_⟩
  intro config isConfig
  cases isConfig
  decide

namespace ExchangeCoin.SampleShare

def port : PoolEndpoint where
  difficulty := 1 / 10
  varDiff := none

def atWork (header : BlockHeader) : List (Event JobManager.Event BlockReplies) :=
  [.update (.updateJob false (.work header.write)),
    .subscribe true (text "01000058"),
    .authorize {
      hasId := true
      requestParams := some [some (text "miner.rig"), some (text "x")]
      validateAddress := fun address => .ok (address == text "miner") }]

def submit (workerValue : Text) (submission : Submission) : Submit BlockReplies where
  hasId := true
  isStale := false
  requestParams := some [some workerValue, some (text "00000001"), submission.extraNonce,
    submission.nTime, submission.nonce, submission.solution]
  replies := {
    submitError := none
    acceptError := false
    block := some (blockHash, [text "c0"])
    transaction := .ok (some 38) }
  now := submission.now
  ts := submission.now

def easyShares : List (Event JobManager.Event BlockReplies) :=
  [.submit (submit (text "miner") (submissionOf easySolution)),
    .submit (submit (text "miner") blockSubmission)]

end ExchangeCoin.SampleShare

open ExchangeCoin.SampleShare

/-- At the difficulty of the port both shares are credited, and the block among them is proven,
too. -/
theorem creditedShares_proven_port :
    let credits := creditedShares (ExchangeCoin.pool manager port) ExchangeCoin.JobManager.initial
      (atWork easyHeader ++ easyShares)
    credits.map (fun credit => (credit.2.isBlockCandidate, credit.2.difficulty)) =
        [(false, 1 / 10), (true, 1 / 10)] ∧ (∀ credit ∈ credits, Proven credit) ∧
      ∀ credit ∈ creditedShares (Bitcoin.pool Bitcoin.SampleShare.manager port)
        Bitcoin.JobManager.initial [], Proven credit :=
  have proven := creditedShares_proven manager Bitcoin.SampleShare.manager port
    (atWork easyHeader ++ easyShares) []
  ⟨by decide +kernel, proven.1 (by decide +kernel), proven.2 trivial⟩

/-- A miner suggests a difficulty above that of the network and finds a block. The
share is credited with a difficulty that its hash is far from. -/
theorem creditedShares_suggested_difficulty :
    ¬∀ credit ∈ creditedShares (ExchangeCoin.pool manager port)
      ExchangeCoin.JobManager.initial
      (atWork easyHeader ++ [.suggestDifficulty (some 1000000),
        .submit (submit (text "miner") blockSubmission)]), Proven credit := by
  decide +kernel

/-- A submission under another name is published with that name, which the daemon was
never asked about. -/
theorem publishedShares_other_name :
    ¬∀ publication ∈ publishedShares (ExchangeCoin.pool manager port)
      ExchangeCoin.JobManager.initial
      (atWork blockHeader ++ [.submit (submit (text "somebody.else") submission)]),
      Attributed publication := by
  decide +kernel

end Miningcore

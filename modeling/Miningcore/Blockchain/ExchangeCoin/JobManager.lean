import Miningcore.Blockchain.ExchangeCoin.Job
import Miningcore.Foundation.Registry

/-! `ExchangeCoinJobManager`: the list of jobs miners may still work on, kept up
to date from `getwork` replies, and the submissions routed to them. -/

namespace Miningcore.ExchangeCoin

open StringExtensions

structure ActiveJob where
  job : Job
  submissions : Submissions Text

/-- A reply to `getwork`: an error answer, no usable answer at all (the request,
its JSON or the hexadecimal data is broken), or the decoded data. -/
inductive GetWorkReply
  | error
  | unusable
  | work (data : Bytes)

structure BlockReplies where
  submitError : Option Text
  acceptError : Bool
  /-- Hash and transactions of the block, as `getblock` returns it. -/
  block : Option (Text × List Text)
  /-- The amount of the coinbase transaction; reading it from an incomplete
  wallet answer throws. -/
  transaction : Except Exception (Option ℚ)

/-- One `mining.submit`: its parameters, where a value that is no string is null,
with the state `ProcessShare` reads and the replies a block candidate meets. -/
structure SubmitRequest where
  submitParams : Option (List (Option Text))
  worker : BitcoinWorkerContext
  now : Int
  replies : BlockReplies

structure AcceptedShare where
  jobId : Text
  work : Job.Work
  share : Blockchain.Share

structure JobManager where
  environment : Environment
  maxActiveJobs : Int
  shareMultiplier : ℚ

namespace JobManager

structure State where
  jobId : UInt32
  currentJob : Option Job
  validJobs : List ActiveJob

def initial : State where
  jobId := 0
  currentJob := none
  validJobs := []

/-- `NextJobId`: the counter restarts after the largest signed value, but the
value that triggers the restart is still handed out. -/
def nextJobId (jobId : UInt32) : UInt32 × Text :=
  let value := jobId + 1
  (if value = 0x80000000 then 0 else value, toStringHex8 value)

/-- The trimming loop `while(Count > maxActiveJobs - 1) RemoveAt(0)`. A limit
below one empties the list and then fails on it. -/
def trimJobs (maxActiveJobs : Int) (validJobs : List ActiveJob) : List ActiveJob × Bool :=
  if maxActiveJobs < 1 then
    ([], false)
  else
    (validJobs.drop (validJobs.length - (maxActiveJobs - 1).toNat), true)

variable (manager : JobManager)

/-- A job is new if there was none or its height is greater. The comparison of
the previous-block arrays compares references, which always differ. -/
def isNew (state : State) (blockHeader : BlockHeader) : Bool :=
  match state.currentJob with
  | none => true
  | some job => decide (job.blockHeader.height < blockHeader.height)

/-- The jobs that stay valid beside a new one: none when a block was found, else
what the trimming leaves. -/
def keptJobs (state : State) (blockHeader : BlockHeader) : List ActiveJob × Bool :=
  if isNew state blockHeader then ([], true) else trimJobs manager.maxActiveJobs state.validJobs

/-- The part of `UpdateJob` that installs a job, and whether it ends without an
exception. The identifier is consumed even if `Init` throws, and a failing trim
leaves the list empty. -/
def installJob (state : State) (blockHeader : BlockHeader) : State × Bool :=
  let (counter, identifier) := nextJobId state.jobId
  match Job.init manager.environment blockHeader identifier with
  | .error _ => ({ state with jobId := counter }, false)
  | .ok job =>
      let (kept, trimmed) := manager.keptJobs state blockHeader
      if trimmed then
        ({ jobId := counter, currentJob := some job, validJobs := kept ++ [⟨job, []⟩] }, true)
      else
        ({ state with jobId := counter, validJobs := kept }, false)

/-- `UpdateJob`, returning `IsNew` and `Force`. Exceptions are logged and leave
what was changed so far. -/
def updateJob (state : State) (forceUpdate : Bool) (reply : GetWorkReply) :
    State × Bool × Bool :=
  match reply with
  | .error => (state, false, forceUpdate)
  | .unusable => (state, false, forceUpdate)
  | .work data =>
      match BlockHeader.read data with
      | none => (state, false, forceUpdate)
      | some blockHeader =>
          if isNew state blockHeader || forceUpdate then
            let (next, completed) := manager.installJob state blockHeader
            (next, completed && isNew state blockHeader, forceUpdate)
          else
            (state, false, forceUpdate)

/-- `ProcessShare` of the first valid job with the identifier, if there is one. -/
def processInJobs (jobId : Text) (submission : Submission) :
    List ActiveJob →
    Option (List ActiveJob × Except Exception (Job × Job.Work × Blockchain.Share × Option Text)) :=
  Registry.updateFirst (fun active => active.job.jobId == jobId) fun active =>
    let (submissions, result) :=
      active.job.processShare manager.environment active.submissions submission
    ({ active with submissions }, result.map fun accepted => (active.job, accepted))

/-- `SubmitBlockAsync`. The notification about a block that was not found reads
the share's pool, which is not set yet, and throws. -/
def submitBlock (share : Blockchain.Share) (replies : BlockReplies) :
    Except Exception (Bool × Option Text) :=
  if replies.submitError.any fun message => message ≠ [] then
    .ok (false, none)
  else if replies.acceptError = false ∧ replies.block.map Prod.fst = share.blockHash then
    .ok (true, replies.block.bind fun block => block.2.head?)
  else
    .error .nullReference

/-- What happens to a share after its job accepted it: a block candidate is
submitted, and the share is completed with miner, worker and difficulty. -/
def completeShare (workerValue : Text) (replies : BlockReplies) (job : Job)
    (share : Blockchain.Share) : Except Exception Blockchain.Share := do
  let names := workerValue.split 46
  let submitted : Blockchain.Share ←
    if share.isBlockCandidate then do
      let (accepted, coinbaseTransaction) ← submitBlock share replies
      if accepted then do
        let amount ← replies.transaction
        pure { share with
          transactionConfirmationData := coinbaseTransaction
          blockReward := amount.getD share.blockReward }
      else
        pure { share with isBlockCandidate := false, transactionConfirmationData := none }
    else
      pure share
  return { submitted with
    miner := names.head?
    worker := names[1]?
    networkDifficulty := job.difficulty
    difficulty := submitted.difficulty / manager.shareMultiplier }

/-- The parameters `SubmitShareAsync` extracts from the request. -/
def submitParam (submitParams : List (Option Text)) (index : Nat) :
    Except Exception (Option Text) :=
  match submitParams[index]? with
  | none => .error .indexOutOfRange
  | some value => .ok value

/-- The checks of `SubmitShareAsync` before the job is looked up. -/
def readRequest (request : SubmitRequest) :
    Except Exception (Text × Option Text × Submission) := do
  let some submitParams := request.submitParams
    | throw (.stratum .other "invalid params")
  let workerValue := (← submitParam submitParams 0).map Text.trim
  let jobId ← submitParam submitParams 1
  let extraNonce ← submitParam submitParams 2
  let nTime ← submitParam submitParams 3
  let nonce ← submitParam submitParams 4
  let solution ← submitParam submitParams 5
  let some workerName := workerValue
    | throw (.stratum .other "missing or invalid workername")
  throwIf (workerName = []) (.stratum .other "missing or invalid workername")
  throwIf (solution.getD [] = []) (.stratum .other "missing or invalid solution")
  return (workerName, jobId,
    { worker := request.worker, now := request.now, extraNonce, nTime, nonce, solution })

def submitShare (state : State) (request : SubmitRequest) :
    State × Except Exception AcceptedShare :=
  match readRequest request with
  | .error exception => (state, .error exception)
  | .ok (workerValue, jobId, submission) =>
      match jobId.bind fun given => manager.processInJobs given submission state.validJobs with
      | none => (state, .error (.stratum .jobNotFound "job not found"))
      | some (validJobs, result) =>
          ({ state with validJobs }, do
            let (job, work, share, _) ← result
            let completed ← manager.completeShare workerValue request.replies job share
            return { jobId := job.jobId, work, share := completed })

inductive Event
  | updateJob (forceUpdate : Bool) (reply : GetWorkReply)
  | submitShare (request : SubmitRequest)

def step (state : State) : Event → State
  | .updateJob forceUpdate reply => (manager.updateJob state forceUpdate reply).1
  | .submitShare request => (manager.submitShare state request).1

def accepted (state : State) : Event → Option AcceptedShare
  | .updateJob _ _ => none
  | .submitShare request => (manager.submitShare state request).2.toOption

/-- The identifier and header `UpdateJob` sets out to build a job from: the reply
holds a header that is new, or the update is forced. -/
def installed (state : State) : Event → Option (Text × BlockHeader)
  | .updateJob forceUpdate (.work data) =>
      (BlockHeader.read data).bind fun blockHeader =>
        if isNew state blockHeader || forceUpdate then
          some ((nextJobId state.jobId).2, blockHeader)
        else
          none
  | _ => none

def acceptedShares (events : List Event) : List AcceptedShare :=
  Run.emitted manager.step manager.accepted initial events

def installedJobs (events : List Event) : List (Text × BlockHeader) :=
  Run.emitted manager.step installed initial events

/-! ## Every accepted share belongs to an installed job -/

theorem keptJobs_subset (state : State) (blockHeader : BlockHeader) :
    (manager.keptJobs state blockHeader).1 ⊆ state.validJobs := by
  unfold keptJobs trimJobs
  split_ifs
  · exact List.nil_subset _
  · exact List.nil_subset _
  · exact List.drop_subset _ _

theorem installJob_validJobs (state : State) (blockHeader : BlockHeader) :
    ∀ active ∈ (manager.installJob state blockHeader).1.validJobs, active ∈ state.validJobs ∨
      (active.job.jobId, active.job.blockHeader) = ((nextJobId state.jobId).2, blockHeader) := by
  intro active member
  simp only [installJob] at member
  split at member
  · exact .inl member
  · rename_i job initialized
    split_ifs at member
    · rcases List.mem_append.mp member with old | new
      · exact .inl (manager.keptJobs_subset state blockHeader old)
      · rw [List.mem_singleton] at new
        simp only [Job.init] at initialized
        split_ifs at initialized
        cases initialized
        rw [new]
        exact .inr rfl
    · exact .inl (manager.keptJobs_subset state blockHeader member)

theorem updateJob_validJobs (state : State) (forceUpdate : Bool) (reply : GetWorkReply) :
    ∀ active ∈ (manager.updateJob state forceUpdate reply).1.validJobs,
      active ∈ state.validJobs ∨ installed state (.updateJob forceUpdate reply) =
        some (active.job.jobId, active.job.blockHeader) := by
  intro active member
  cases reply with
  | error => exact .inl member
  | unusable => exact .inl member
  | work data =>
      simp only [updateJob] at member
      split at member
      · exact .inl member
      · rename_i blockHeader parsed
        split_ifs at member with installs
        · rcases manager.installJob_validJobs state blockHeader active member with old | new
          · exact .inl old
          · right
            rw [installed, parsed, Option.bind_some, if_pos installs, new]
        · exact .inl member

theorem processInJobs_jobs {jobId : Text} {submission : Submission} {jobs next : List ActiveJob}
    {result : Except Exception (Job × Job.Work × Blockchain.Share × Option Text)}
    (processed : manager.processInJobs jobId submission jobs = some (next, result)) :
    next.map ActiveJob.job = jobs.map ActiveJob.job := by
  rcases Registry.updateFirst_some processed with ⟨front, active, back, rfl, -, rfl, -⟩
  simp only [List.map_append, List.map_cons]

theorem processInJobs_ok {jobId : Text} {submission : Submission} {jobs next : List ActiveJob}
    {job : Job} {accepted : Job.Work × Blockchain.Share × Option Text}
    (processed : manager.processInJobs jobId submission jobs = some (next, .ok (job, accepted))) :
    job ∈ jobs.map ActiveJob.job ∧ job.Describes accepted.1 := by
  rcases Registry.updateFirst_some processed with ⟨front, active, back, rfl, -, -, result⟩
  rcases outcome : (active.job.processShare manager.environment active.submissions
    submission).2 with exception | share
  · simp only [outcome] at result
    cases result
  · simp only [outcome] at result
    cases result
    refine ⟨?_, active.job.describes_of_processShare _ outcome⟩
    simp only [List.map_append, List.map_cons]
    exact List.mem_append_right _ List.mem_cons_self

theorem submitShare_jobs (state : State) (request : SubmitRequest) :
    (manager.submitShare state request).1.validJobs.map ActiveJob.job =
      state.validJobs.map ActiveJob.job := by
  unfold submitShare
  split
  · rfl
  · split
    · rfl
    · rename_i validJobs result processed
      rcases Option.bind_eq_some_iff.mp processed with ⟨jobId, -, found⟩
      exact manager.processInJobs_jobs found

theorem submitShare_ok {state : State} {request : SubmitRequest} {acceptance : AcceptedShare}
    (accepted : (manager.submitShare state request).2 = .ok acceptance) :
    ∃ job ∈ state.validJobs.map ActiveJob.job,
      job.jobId = acceptance.jobId ∧ job.Describes acceptance.work := by
  unfold submitShare at accepted
  split at accepted
  · cases accepted
  · split at accepted
    · cases accepted
    · rename_i validJobs result processed
      rcases Option.bind_eq_some_iff.mp processed with ⟨jobId, -, found⟩
      simp only [bind_eq_ok, pure_eq_ok] at accepted
      rcases accepted with ⟨⟨job, work, share, blockHex⟩, rfl, completed, -, rfl⟩
      have facts := manager.processInJobs_ok found
      exact ⟨job, facts.1, rfl, facts.2⟩

theorem accepted_installed (state : State) (events : List Event) :
    ∀ acceptance ∈ Run.emitted manager.step manager.accepted state events,
      ∃ job : Job, (job ∈ state.validJobs.map ActiveJob.job ∨
        (job.jobId, job.blockHeader) ∈ Run.emitted manager.step installed state events) ∧
        job.jobId = acceptance.jobId ∧ job.Describes acceptance.work := by
  induction events generalizing state with
  | nil => simp
  | cons event events induction =>
      intro acceptance member
      simp only [Run.mem_emitted_cons]
      rcases (Run.mem_emitted_cons manager.step manager.accepted).mp member with now | later
      · cases event with
        | updateJob forceUpdate reply => cases now
        | submitShare request =>
            rcases outcome : (manager.submitShare state request).2 with exception | share
            · rw [accepted, outcome] at now
              cases now
            · rw [accepted, outcome] at now
              cases now
              rcases manager.submitShare_ok outcome with ⟨job, valid, facts⟩
              exact ⟨job, .inl valid, facts⟩
      · rcases induction (manager.step state event) acceptance later with ⟨job, origin, facts⟩
        refine ⟨job, ?_, facts⟩
        rcases origin with valid | installedLater
        · cases event with
          | updateJob forceUpdate reply =>
              rcases List.mem_map.mp valid with ⟨active, activeMember, rfl⟩
              rcases manager.updateJob_validJobs state forceUpdate reply active activeMember
                with old | new
              · exact .inl (List.mem_map_of_mem old)
              · exact .inr (.inl new)
          | submitShare request =>
              rw [step, manager.submitShare_jobs] at valid
              exact .inl valid
        · exact .inr (.inr installedLater)

/-- In every run whose installed jobs have pairwise different templates, shares
accepted through different job identifiers are different work. -/
theorem acceptedShares_distinct_across_jobs (events : List Event)
    (templatesDiffer : ((manager.installedJobs events).map fun installed =>
      installed.2.template).Nodup) :
    (manager.acceptedShares events).Pairwise fun earlier later =>
      earlier.jobId ≠ later.jobId → earlier.work ≠ later.work := by
  apply List.pairwise_of_forall_mem_list
  intro earlier earlierMember later laterMember differentJobs sameWork
  rcases manager.accepted_installed initial events earlier earlierMember with
    ⟨earlierJob, earlierOrigin, earlierId, earlierDescribes⟩
  rcases manager.accepted_installed initial events later laterMember with
    ⟨laterJob, laterOrigin, laterId, laterDescribes⟩
  have earlierInstalled := earlierOrigin.resolve_left (by simp [initial])
  have laterInstalled := laterOrigin.resolve_left (by simp [initial])
  have sameTemplate := Job.template_eq_of_describes (sameWork ▸ earlierDescribes) laterDescribes
  have sameJob := List.inj_on_of_nodup_map templatesDiffer earlierInstalled laterInstalled
    sameTemplate
  exact differentJobs (earlierId.symm.trans ((congrArg Prod.fst sameJob).trans laterId))

end JobManager

namespace SampleShare

def manager : JobManager where
  environment
  maxActiveJobs := 4
  shareMultiplier := 1

def requestOf (jobId : Text) (submission : Submission) : SubmitRequest where
  submitParams := some [some (text "miner.rig"), some jobId, submission.extraNonce,
    submission.nTime, submission.nonce, submission.solution]
  worker := submission.worker
  now := submission.now
  replies := { submitError := none, acceptError := false, block := none, transaction := .ok none }

def request (jobId : Text) : SubmitRequest := requestOf jobId submission

end SampleShare

/-- A forced update installs another template beside the sample's; each of the jobs accepts
the share that was made for it. -/
theorem acceptedShares_forced_update :
    let events := [.updateJob false (.work SampleShare.blockHeader.write),
      .updateJob true (.work SampleShare.fewerVoters.write),
      .submitShare (SampleShare.request (text "00000001")),
      .submitShare (SampleShare.requestOf (text "00000002")
        (SampleShare.submissionOf SampleShare.fewerVotersSolution))]
    (SampleShare.manager.acceptedShares events).map AcceptedShare.jobId =
        [text "00000001", text "00000002"] ∧
      (SampleShare.manager.acceptedShares events).Pairwise fun earlier later =>
        earlier.jobId ≠ later.jobId → earlier.work ≠ later.work :=
  ⟨by decide +kernel,
    SampleShare.manager.acceptedShares_distinct_across_jobs _ (by decide +kernel)⟩

/-- A forced update with unchanged data puts a second job with the same template
beside the first, and each of them accepts the same share once. -/
theorem acceptedShares_repeated_template :
    ¬(SampleShare.manager.acceptedShares
      [.updateJob false (.work SampleShare.blockHeader.write),
        .updateJob true (.work SampleShare.blockHeader.write),
        .submitShare (SampleShare.request (text "00000001")),
        .submitShare (SampleShare.request (text "00000002"))]).Pairwise fun earlier later =>
          earlier.jobId ≠ later.jobId → earlier.work ≠ later.work := by
  decide +kernel

end Miningcore.ExchangeCoin

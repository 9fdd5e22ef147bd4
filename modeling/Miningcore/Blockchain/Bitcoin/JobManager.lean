import Miningcore.Blockchain.Bitcoin.Job
import Miningcore.Blockchain.ExchangeCoin.JobManager
import Miningcore.Foundation.RecentWindow

/-! `BitcoinJobManager`: the jobs made from `getblocktemplate` replies, and the
submissions routed to them. The class is generic in the block template and in the
class of the jobs, whose `Init` the coins override. -/

namespace Miningcore.Bitcoin

open ExchangeCoin.JobManager (nextJobId submitParam)

/-- A block template: what the job manager reads of it, and what only the jobs of
the coin do. -/
structure BlockTemplate (Extra : Type) where
  previousBlockhash : Option Text
  height : UInt32
  extra : Extra

structure ActiveJob (Extra : Type) where
  blockTemplate : BlockTemplate Extra
  job : Job
  submissions : Submissions Text

/-- A reply to `getblocktemplate`: an error answer, no usable answer at all, or the
template, which may be null. -/
inductive GetBlockTemplateReply (Extra : Type)
  | error
  | unusable
  | template (blockTemplate : Option (BlockTemplate Extra))

structure BlockReplies where
  /-- The error of the submission or, without one, the text of its result. -/
  submitError : Option Text
  acceptError : Bool
  /-- Hash and transactions of the block, as `getblock` returns it. -/
  block : Option (Option Text × Option (List Text))

/-- One `mining.submit`: its parameters, where a value that is no string is null,
with the state `ProcessShare` reads and the replies a block candidate meets. -/
structure SubmitRequest where
  submitParams : Option (List (Option Text))
  worker : BitcoinWorkerContext
  now : Int
  replies : BlockReplies

/-- The job manager of a coin. `Init` of the class of its jobs is what it makes of
a template, apart from the identifier of the job. The share multiplier it is given
is a positive constant of the coin. -/
structure JobManager (Extra : Type) where
  environment : Environment
  maxActiveJobs : Int
  init : BlockTemplate Extra → Except Exception Job
  init_shareMultiplier : ∀ blockTemplate job, init blockTemplate = .ok job →
    0 < job.shareMultiplier

namespace JobManager

variable {Extra : Type}

structure State (Extra : Type) where
  jobId : UInt32
  currentJob : Option (BlockTemplate Extra × Job)
  validJobs : List (ActiveJob Extra)

def initial : State Extra where
  jobId := 0
  currentJob := none
  validJobs := []

variable (manager : JobManager Extra)

/-- A job is new if there was none, or if both the previous block differs and the
height is greater. A template that is null is never new beside a job. -/
def isNew (state : State Extra) (blockTemplate : Option (BlockTemplate Extra)) : Bool :=
  match state.currentJob, blockTemplate with
  | none, _ => true
  | some _, none => false
  | some (known, _), some given =>
      decide (known.previousBlockhash ≠ given.previousBlockhash) &&
        decide (known.height < given.height)

def initJob (blockTemplate : Option (BlockTemplate Extra)) (jobId : Text) :
    Except Exception (BlockTemplate Extra × Job) :=
  match blockTemplate with
  | none => .error (.argument "blockTemplate")
  | some given => (manager.init given).map fun job => (given, { job with jobId })

/-- The jobs that stay valid beside a new one: none when a block was found, else
what the trimming leaves. A limit below one empties the list and then fails on it. -/
def keptJobs (state : State Extra) (blockTemplate : Option (BlockTemplate Extra)) :
    List (ActiveJob Extra) × Bool :=
  if isNew state blockTemplate then ([], true)
  else if manager.maxActiveJobs < 1 then ([], false)
  else (RecentWindow.latest (manager.maxActiveJobs - 1).toNat state.validJobs, true)

/-- The part of `UpdateJob` that installs a job, and whether it ends without an
exception. The identifier is consumed even if `Init` throws. -/
def installJob (state : State Extra) (blockTemplate : Option (BlockTemplate Extra)) :
    State Extra × Bool :=
  let (counter, identifier) := nextJobId state.jobId
  match manager.initJob blockTemplate identifier with
  | .error _ => ({ state with jobId := counter }, false)
  | .ok (given, job) =>
      let (kept, trimmed) := manager.keptJobs state blockTemplate
      if trimmed then
        ({ jobId := counter
           currentJob := some (given, job)
           validJobs := kept ++ [⟨given, job, []⟩] }, true)
      else
        ({ state with jobId := counter, validJobs := kept }, false)

/-- `UpdateJob`, returning `IsNew` and `Force`. Exceptions are logged and leave
what was changed so far. -/
def updateJob (state : State Extra) (forceUpdate : Bool) (reply : GetBlockTemplateReply Extra) :
    State Extra × Bool × Bool :=
  match reply with
  | .error => (state, false, forceUpdate)
  | .unusable => (state, false, forceUpdate)
  | .template blockTemplate =>
      if isNew state blockTemplate || forceUpdate then
        let (next, completed) := manager.installJob state blockTemplate
        (next, completed && isNew state blockTemplate, forceUpdate)
      else
        (state, false, forceUpdate)

/-- `ProcessShare` of the first valid job with the identifier, if there is one. -/
def processInJobs (jobId : Text) (submission : Submission) :
    List (ActiveJob Extra) → Option (List (ActiveJob Extra) ×
      Except Exception (Job × Job.Work × Blockchain.Share × Option Text)) :=
  Registry.updateFirst (fun active => active.job.jobId == jobId) fun active =>
    let (submissions, result) :=
      active.job.processShare manager.environment active.submissions submission
    ({ active with submissions }, result.map fun accepted => (active.job, accepted))

/-- `SubmitBlockAsync`. Unlike its counterpart for ExchangeCoin it is called with
the pool of the share set. The transactions of a block may be missing, and taking
the first of none throws. -/
def submitBlock (share : Blockchain.Share) (replies : BlockReplies) :
    Except Exception (Bool × Option Text) :=
  if replies.submitError.any fun message => message ≠ [] then
    .ok (false, none)
  else
    let accepted := decide (replies.acceptError = false ∧
      replies.block.bind Prod.fst = share.blockHash)
    match replies.block with
    | none => .ok (accepted, none)
    | some (_, none) => .error (.argument "source")
    | some (_, some transactions) => .ok (accepted, transactions.head?)

/-- What happens to a share after its job accepted it: it is completed with miner
and worker, and a block candidate is submitted. -/
def completeShare (workerValue : Text) (replies : BlockReplies) (share : Blockchain.Share) :
    Except Exception Blockchain.Share :=
  let names := workerValue.split 46
  let completed := { share with miner := names.head?, worker := names[1]? }
  if share.isBlockCandidate then do
    let (accepted, coinbaseTransaction) ← submitBlock completed replies
    if accepted then
      return { completed with transactionConfirmationData := coinbaseTransaction }
    else
      return { completed with isBlockCandidate := false, transactionConfirmationData := none }
  else
    return completed

/-- The checks of `SubmitShareAsync` before the job is looked up. -/
def readRequest (request : SubmitRequest) :
    Except Exception (Text × Option Text × Submission) := do
  let some submitParams := request.submitParams
    | throw (.argument "submission")
  let workerValue := (← submitParam submitParams 0).map Text.trim
  let jobId ← submitParam submitParams 1
  let extraNonce2 ← submitParam submitParams 2
  let nTime ← submitParam submitParams 3
  let nonce ← submitParam submitParams 4
  let some workerName := workerValue
    | throw (.stratum .other "missing or invalid workername")
  throwIf (workerName = []) (.stratum .other "missing or invalid workername")
  return (workerName, jobId,
    { worker := request.worker, now := request.now, extraNonce2, nTime, nonce })

def submitShare (state : State Extra) (request : SubmitRequest) :
    State Extra × Except Exception Blockchain.Share :=
  match readRequest request with
  | .error exception => (state, .error exception)
  | .ok (workerValue, jobId, submission) =>
      match jobId.bind fun given => manager.processInJobs given submission state.validJobs with
      | none => (state, .error (.stratum .jobNotFound "job not found"))
      | some (validJobs, result) =>
          ({ state with validJobs }, do
            let (_, _, share, _) ← result
            completeShare workerValue request.replies share)

inductive Event (Extra : Type)
  | updateJob (forceUpdate : Bool) (reply : GetBlockTemplateReply Extra)
  | submitShare (request : SubmitRequest)

def step (state : State Extra) : Event Extra → State Extra
  | .updateJob forceUpdate reply => (manager.updateJob state forceUpdate reply).1
  | .submitShare request => (manager.submitShare state request).1

end JobManager

end Miningcore.Bitcoin

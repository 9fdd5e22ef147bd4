import Miningcore.Blockchain.ExchangeCoin.JobManager
import Miningcore.Configuration.ClusterConfig
import Miningcore.DaemonInterface.DaemonClient

/-! `SubmitShareAsync` of the ExchangeCoin job manager, reading what the daemon and the
wallet reply field by field.

By the time the replies are read the block is in the chain, and an exception loses the
share that found it. The theorem at the end says which replies are handled. -/

namespace Miningcore.ExchangeCoin.BlockSubmission

open Miningcore.Configuration DaemonInterface

structure Block where
  hash : Option Text
  transactions : Option (List (Option Text))

/-- `DaemonResponses.Transaction`, as far as it is read: the amounts of its details. -/
structure Transaction where
  details : Option (List (Option ℚ))

/-- A share with the fields that `SubmitShareAsync` sets last. -/
structure Share extends Blockchain.Share where
  poolId : Option Text := none
  ipAddress : Option Text := none
  userAgent : Option Text := none
  source : Option Text := none
  created : Option Int := none
deriving DecidableEq

/-- One `mining.submit`, with the connection it arrives on and the replies that a block
candidate meets: to the batch of `getwork` and `getblock`, and to `gettransaction`. -/
structure Request where
  submitParams : Option (List (Option Text))
  worker : BitcoinWorkerContext
  ipAddress : Text
  userAgent : Option Text
  now : Int
  batch : Reply (List (Option (JsonRpcResponse Block)))
  wallet : Reply (JsonRpcResponse Transaction)
  created : Int

def Request.submitRequest (request : Request) (replies : BlockReplies) : SubmitRequest where
  submitParams := request.submitParams
  worker := request.worker
  now := request.now
  replies

/-- The notification about a block that was not found names the pool of the share. -/
def notifyRefused (share : Share) (accepted : Bool) : Except Exception Unit :=
  if accepted then .ok () else (dereference share.poolId).map fun _ => ()

/-- `block?.Transactions.FirstOrDefault()`. -/
def firstTransaction : Option Block → Except Exception (Option Text)
  | none => .ok none
  | some block =>
      match block.transactions with
      | none => .error (.argument "source")
      | some transactions => .ok transactions.head?.join

/-- The second half of `SubmitBlockAsync`: was the block accepted? -/
def checkAccepted (share : Share) (acceptResult : DaemonResponse (Option (Token Block))) :
    Except Exception (Bool × Option Text) := do
  let block ← toObject acceptResult.response
  let accepted := acceptResult.error.isNone && block.bind Block.hash == share.blockHash
  notifyRefused share accepted
  let coinbaseTransaction ← firstTransaction block
  return (accepted, coinbaseTransaction)

def submitBlock (share : Share) (batch : Reply (List (Option (JsonRpcResponse Block)))) :
    Except Exception (Bool × Option Text) := do
  let results ← executeBatchAny batch
  let submitResult ← elementAt results 0
  if (errorText submitResult.error).getD [] ≠ [] then
    return (false, none)
  else do
    let acceptResult ← elementAt results 1
    checkAccepted share acceptResult

def firstAmount (transaction : Transaction) : Except Exception ℚ :=
  match transaction.details with
  | none => .error .invalidOperation
  | some [] => .error .indexOutOfRange
  | some (none :: _) => .error .invalidOperation
  | some (some amount :: _) => .ok amount

/-- The block reward after the wallet was asked for the coinbase transaction. An error
of the wallet is not looked at. -/
def blockReward (share : Share) (wallet : Reply (JsonRpcResponse Transaction)) :
    Except Exception ℚ := do
  let result ← executeCmdSingle wallet
  match result.response with
  | none => return share.blockReward
  | some transactionInfo => firstAmount transactionInfo

/-- What `SubmitShareAsync` does with a block candidate. -/
def submitCandidate (share : Share) (request : Request) : Except Exception Share := do
  let (accepted, coinbaseTransaction) ← submitBlock share request.batch
  if accepted then do
    let reward ← blockReward share request.wallet
    return { share with
      isBlockCandidate := true
      transactionConfirmationData := coinbaseTransaction
      blockReward := reward }
  else
    return { share with isBlockCandidate := false, transactionConfirmationData := none }

/-- The share as the job returns it, with the submission of a block behind it. -/
def submitted (request : Request) (processed : Blockchain.Share) : Except Exception Share :=
  if processed.isBlockCandidate then submitCandidate { processed with } request
  else .ok { processed with }

variable (manager : JobManager) (poolConfig : PoolConfig) (clusterName : Option Text)

/-- `SubmitShareAsync` enriches the share with common data at the very end. -/
def enrich (workerValue : Text) (request : Request) (job : Job) (share : Share) : Share :=
  { share with
    poolId := some poolConfig.id
    ipAddress := some request.ipAddress
    miner := (workerValue.split 46).head?
    worker := (workerValue.split 46)[1]?
    userAgent := request.userAgent
    source := clusterName
    networkDifficulty := job.difficulty
    difficulty := share.difficulty / manager.shareMultiplier
    created := some request.created }

/-- `SubmitShareAsync` after the job accepted the share. -/
def completeShare (workerValue : Text) (request : Request) (job : Job)
    (processed : Blockchain.Share) : Except Exception Share := do
  let share ← submitted request processed
  return enrich manager poolConfig clusterName workerValue request job share

def unanswered : BlockReplies where
  submitError := none
  acceptError := true
  block := none
  transaction := .ok none

def submitShare (state : JobManager.State) (request : Request) :
    JobManager.State × Except Exception Share :=
  match JobManager.readRequest (request.submitRequest unanswered) with
  | .error exception => (state, .error exception)
  | .ok (workerValue, jobId, submission) =>
      match jobId.bind fun given => manager.processInJobs given submission state.validJobs with
      | none => (state, .error (.stratum .jobNotFound "job not found"))
      | some (validJobs, result) =>
          ({ state with validJobs }, do
            let (job, _, share, _) ← result
            completeShare manager poolConfig clusterName workerValue request job share)

/-! ## Which replies are handled -/

/-- The daemon confirms the block of a candidate: it reports no error for the
submission, and `getblock` finds a block with the hash of the share. -/
def Confirmed (share : Blockchain.Share) (batch : Reply (List (Option (JsonRpcResponse Block)))) :
    Prop :=
  share.isBlockCandidate = true ∧ ∃ submitted found block rest,
    batch = .received (some (some submitted :: some found :: rest)) ∧ submitted.error = none ∧
      found.error = none ∧ found.result = some (.ok (some block)) ∧ block.hash = share.blockHash

/-- The block is not lost: a complete share is returned, and it counts as a block
exactly if the daemon confirmed it. -/
def Returned (workerValue : Text) (request : Request) (processed : Blockchain.Share)
    (outcome : Except Exception Share) : Prop :=
  ∃ share, outcome = .ok share ∧ share.poolId = some poolConfig.id ∧
    share.miner = (workerValue.split 46).head? ∧ share.worker = (workerValue.split 46)[1]? ∧
    share.difficulty = processed.difficulty / manager.shareMultiplier ∧
    share.created = some request.created ∧
    (share.isBlockCandidate = true ↔ Confirmed processed request.batch) ∧
    (share.isBlockCandidate = false → share.transactionConfirmationData = none)

/-- The wallet answers, and a transaction that it knows has an amount in its first
detail. -/
def RewardAnswered (wallet : Reply (JsonRpcResponse Transaction)) : Prop :=
  ∃ body, wallet = .received body ∧ ∀ response ∈ body, ∀ token ∈ response.result,
    token = .ok none ∨ ∃ amount rest, token = .ok (some { details := some (some amount :: rest) })

/-- The replies that do not lose a block. All responses of the batch are there, and
either the first has an error whose message is missing or not empty, or there is no
error and the second holds the block of the share with its transactions; then the
wallet has to answer, too. -/
def Answered (share : Blockchain.Share) (request : Request) : Prop :=
  ∃ responses : List (JsonRpcResponse Block),
    request.batch = .received (some (responses.map some)) ∧
      ((∃ submitted rest error, responses = submitted :: rest ∧ submitted.error = some error ∧
          error.message ≠ some []) ∨
        ∃ submitted hash transactions rest,
          responses = submitted ::
            ⟨some (.ok (some { hash, transactions := some transactions })), none⟩ :: rest ∧
          submitted.error = none ∧ hash = share.blockHash ∧ RewardAnswered request.wallet)

theorem firstAmount_ok {transaction : Transaction} {amount : ℚ} :
    firstAmount transaction = .ok amount ↔
      ∃ rest, transaction = { details := some (some amount :: rest) } := by
  rcases transaction with ⟨details⟩
  rcases details with _ | ⟨_ | ⟨_ | first, rest⟩⟩
  · simp [firstAmount]
  · simp [firstAmount]
  · simp [firstAmount]
  · simp [firstAmount]

theorem blockReward_ok_iff (share : Share) (wallet : Reply (JsonRpcResponse Transaction)) :
    (∃ reward, blockReward share wallet = .ok reward) ↔ RewardAnswered wallet := by
  cases wallet with
  | lost exception => simp [blockReward, executeCmdSingle, RewardAnswered, bind, Except.bind]
  | received body =>
      rcases body with _ | ⟨⟨_ | ⟨exception | _ | transaction⟩, error⟩⟩
      · simp [blockReward, executeCmdSingle, RewardAnswered]
      · simp [blockReward, executeCmdSingle, toObject, RewardAnswered]
      · simp [blockReward, executeCmdSingle, toObject, RewardAnswered]
      · simp [blockReward, executeCmdSingle, toObject, RewardAnswered]
      · simp [blockReward, executeCmdSingle, toObject, RewardAnswered, firstAmount_ok]

theorem notifyRefused_ok {share : Share} {accepted : Bool} (noPool : share.poolId = none) :
    notifyRefused share accepted = .ok () ↔ accepted = true := by
  cases accepted <;> simp [notifyRefused, noPool, dereference, Except.map]

theorem firstTransaction_ok {block : Block} {coinbaseTransaction : Option Text} :
    firstTransaction (some block) = .ok coinbaseTransaction ↔
      ∃ transactions, block.transactions = some transactions ∧
        coinbaseTransaction = transactions.head?.join := by
  rw [firstTransaction]
  split
  · simp [*]
  · simp [*, eq_comm]

theorem checkAccepted_ok_iff {share : Share} {hash : Text}
    {acceptResult : DaemonResponse (Option (Token Block))} {accepted : Bool}
    {coinbaseTransaction : Option Text} (noPool : share.poolId = none)
    (isHash : share.blockHash = some hash) :
    checkAccepted share acceptResult = .ok (accepted, coinbaseTransaction) ↔
      accepted = true ∧ ∃ transactions,
        acceptResult = ⟨none, some (.ok (some ⟨some hash, some transactions⟩))⟩ ∧
        coinbaseTransaction = transactions.head?.join := by
  simp only [checkAccepted, bind_eq_ok, notifyRefused_ok noPool, pure_eq_ok, Prod.mk.injEq]
  constructor
  · rintro ⟨block, converted, -, isAccepted, read, first, rfl, rfl⟩
    refine ⟨isAccepted, ?_⟩
    rw [Bool.and_eq_true, Option.isNone_iff_eq_none, beq_iff_eq, isHash] at isAccepted
    rcases Option.bind_eq_some_iff.mp isAccepted.2 with ⟨⟨foundHash, found⟩, rfl, sameHash⟩
    rcases firstTransaction_ok.mp first with ⟨transactions, given, isFirst⟩
    refine ⟨transactions, ?_, isFirst⟩
    rcases acceptResult with ⟨error, _ | token⟩
    · cases converted
    · cases isAccepted.1
      cases sameHash
      cases given
      rw [show token = _ from converted]
  · rintro ⟨rfl, transactions, rfl, rfl⟩
    refine ⟨some ⟨some hash, some transactions⟩, rfl, (), ?_, _, rfl, ?_, rfl⟩
    · simp [isHash]
    · simp [isHash]

theorem submitBlock_ok_iff {share : Share} {hash : Text}
    {batch : Reply (List (Option (JsonRpcResponse Block)))} {accepted : Bool}
    {coinbaseTransaction : Option Text} (noPool : share.poolId = none)
    (isHash : share.blockHash = some hash) :
    submitBlock share batch = .ok (accepted, coinbaseTransaction) ↔
      ∃ submitted rest, batch = .received (some ((submitted :: rest).map some)) ∧
        ((accepted = false ∧ coinbaseTransaction = none ∧
            (errorText submitted.error).getD [] ≠ []) ∨
          accepted = true ∧ (errorText submitted.error).getD [] = [] ∧ ∃ transactions others,
            rest = ⟨some (.ok (some ⟨some hash, some transactions⟩)), none⟩ :: others ∧
            coinbaseTransaction = transactions.head?.join) := by
  simp only [submitBlock, bind_eq_ok, executeBatchAny_ok, elementAt_ok]
  constructor
  · rintro ⟨results, ⟨-, rfl⟩ | ⟨responses, rfl, rfl⟩, submitResult, ⟨elements, isElements, first⟩,
      rest⟩
    · cases isElements
    cases isElements
    cases responses with
    | nil => cases first
    | cons submitted others =>
        cases first
        refine ⟨submitted, others, rfl, ?_⟩
        split_ifs at rest with failed
        · rw [pure_eq_ok] at rest
          cases rest
          exact .inl ⟨rfl, rfl, failed⟩
        · rw [bind_eq_ok] at rest
          rcases rest with ⟨acceptResult, second, checked⟩
          rcases elementAt_ok.mp second with ⟨_, isElements, isSecond⟩
          cases isElements
          rcases (checkAccepted_ok_iff noPool isHash).mp checked with
            ⟨isAccepted, transactions, rfl, isFirst⟩
          cases others with
          | nil => cases isSecond
          | cons found others =>
              rcases found with ⟨result, error⟩
              cases isSecond
              exact .inr ⟨isAccepted, not_not.mp failed, transactions, others, rfl, isFirst⟩
  · rintro ⟨submitted, rest, rfl, outcome⟩
    refine ⟨_, .inr ⟨submitted :: rest, rfl, rfl⟩, ⟨submitted.error, submitted.result⟩,
      ⟨_, rfl, rfl⟩, ?_⟩
    rcases outcome with ⟨rfl, rfl, failed⟩ |
      ⟨isAccepted, succeeded, transactions, others, rfl, isFirst⟩
    · rw [if_pos failed]
      rfl
    · rw [if_neg (not_not.mpr succeeded), bind_eq_ok]
      refine ⟨⟨none, some (.ok (some ⟨some hash, some transactions⟩))⟩,
        elementAt_ok.mpr ⟨_, rfl, rfl⟩, ?_⟩
      exact (checkAccepted_ok_iff noPool isHash).mpr ⟨isAccepted, transactions, rfl, isFirst⟩

theorem submitCandidate_ok_iff {processed : Blockchain.Share} {hash : Text} {request : Request}
    {share : Share} (isHash : processed.blockHash = some hash) :
    submitCandidate { processed with } request = .ok share ↔
      ∃ submitted rest, request.batch = .received (some ((submitted :: rest).map some)) ∧
        (((errorText submitted.error).getD [] ≠ [] ∧ share = { processed with
            isBlockCandidate := false, transactionConfirmationData := none }) ∨
          ((errorText submitted.error).getD [] = [] ∧ ∃ transactions others reward,
            rest = ⟨some (.ok (some ⟨some hash, some transactions⟩)), none⟩ :: others ∧
            blockReward { processed with } request.wallet = .ok reward ∧
            share = { processed with
              isBlockCandidate := true
              transactionConfirmationData := transactions.head?.join
              blockReward := reward })) := by
  simp only [submitCandidate, bind_eq_ok]
  constructor
  · rintro ⟨⟨accepted, coinbaseTransaction⟩, submission, completion⟩
    rcases (submitBlock_ok_iff rfl isHash).mp submission with ⟨submitted, rest, isBatch,
      ⟨rfl, rfl, failed⟩ | ⟨rfl, succeeded, transactions, others, isRest, rfl⟩⟩
    · cases completion
      exact ⟨submitted, rest, isBatch, .inl ⟨failed, rfl⟩⟩
    · simp only [if_true, bind_eq_ok, pure_eq_ok] at completion
      rcases completion with ⟨reward, isReward, rfl⟩
      exact ⟨submitted, rest, isBatch,
        .inr ⟨succeeded, transactions, others, reward, isRest, isReward, rfl⟩⟩
  · rintro ⟨submitted, rest, isBatch,
      ⟨failed, rfl⟩ | ⟨succeeded, transactions, others, reward, isRest, isReward, rfl⟩⟩
    · refine ⟨(false, none), (submitBlock_ok_iff rfl isHash).mpr ?_, rfl⟩
      exact ⟨submitted, rest, isBatch, .inl ⟨rfl, rfl, failed⟩⟩
    · refine ⟨(true, transactions.head?.join), (submitBlock_ok_iff rfl isHash).mpr ?_, ?_⟩
      · exact ⟨submitted, rest, isBatch, .inr ⟨rfl, succeeded, transactions, others, isRest, rfl⟩⟩
      · simp only [if_true, bind_eq_ok, pure_eq_ok]
        exact ⟨reward, isReward, rfl⟩

theorem Confirmed.noError {share : Blockchain.Share} {submitted : JsonRpcResponse Block}
    {rest : List (JsonRpcResponse Block)}
    (confirmed : Confirmed share (.received (some ((submitted :: rest).map some)))) :
    submitted.error = none := by
  rcases confirmed with ⟨-, first, second, block, others, isBatch, noError, -⟩
  simp only [Reply.received.injEq, List.map_cons, Option.some.injEq, List.cons.injEq] at isBatch
  rw [isBatch.1, noError]

theorem candidate_returned_iff {processed : Blockchain.Share} {hash : Text} {request : Request}
    (isCandidate : processed.isBlockCandidate = true) (isHash : processed.blockHash = some hash)
    (workerValue : Text) (job : Job) :
    Returned manager poolConfig workerValue request processed
        (completeShare manager poolConfig clusterName workerValue request job processed) ↔
      Answered processed request := by
  simp only [completeShare, submitted, isCandidate, if_true, Returned, bind_eq_ok, pure_eq_ok]
  constructor
  · rintro ⟨_, ⟨share, submission, rfl⟩, -, -, -, -, -, confirmed, -⟩
    rcases (submitCandidate_ok_iff isHash).mp submission with ⟨submitted, rest, isBatch,
      ⟨failed, rfl⟩ | ⟨succeeded, transactions, others, reward, rfl, isReward, rfl⟩⟩
    · rw [ne_eq, errorText_empty_iff] at failed
      push Not at failed
      rcases failed with ⟨error, isError, message⟩
      exact ⟨submitted :: rest, isBatch, .inl ⟨submitted, rest, error, rfl, isError, message⟩⟩
    · have isConfirmed := confirmed.mp rfl
      rw [isBatch] at isConfirmed
      refine ⟨_, isBatch, .inr ⟨submitted, some hash, transactions, others, rfl,
        isConfirmed.noError, isHash.symm, ?_⟩⟩
      exact (blockReward_ok_iff _ _).mp ⟨reward, isReward⟩
  · rintro ⟨responses, isBatch, ⟨submitted, rest, error, rfl, isError, message⟩ |
      ⟨submitted, blockHash, transactions, rest, rfl, noError, sameHash, answered⟩⟩
    · have failed : (errorText submitted.error).getD [] ≠ [] := by
        rw [ne_eq, errorText_empty_iff, isError]
        simpa using message
      refine ⟨_, ⟨_, (submitCandidate_ok_iff isHash).mpr
        ⟨submitted, rest, isBatch, .inl ⟨failed, rfl⟩⟩, rfl⟩, rfl, rfl, rfl, rfl, rfl, ?_,
        fun _ => rfl⟩
      constructor
      · intro isBlock
        cases isBlock
      · intro confirmed
        rw [isBatch] at confirmed
        cases confirmed.noError.symm.trans isError
    · rcases (blockReward_ok_iff { processed with } _).mpr answered with ⟨reward, isReward⟩
      rw [isHash] at sameHash
      cases sameHash
      have succeeded : (errorText submitted.error).getD [] = [] := by
        rw [noError]
        rfl
      refine ⟨_, ⟨_, (submitCandidate_ok_iff isHash).mpr ⟨submitted, _, isBatch,
        .inr ⟨succeeded, transactions, rest, reward, rfl, isReward, rfl⟩⟩, rfl⟩,
        rfl, rfl, rfl, rfl, rfl, ?_, ?_⟩
      · refine ⟨fun _ => ?_, fun _ => rfl⟩
        exact ⟨isCandidate, submitted, _, _, rest.map some, isBatch, noError, rfl, rfl,
          isHash.symm⟩
      · intro isShare
        cases isShare

theorem ordinary_returned {processed : Blockchain.Share} {request : Request}
    (isOrdinary : ¬processed.isBlockCandidate = true)
    (unconfirmed : processed.transactionConfirmationData = none) (workerValue : Text) (job : Job) :
    Returned manager poolConfig workerValue request processed
      (completeShare manager poolConfig clusterName workerValue request job processed) := by
  simp only [completeShare, submitted, isOrdinary, Returned, bind_eq_ok, pure_eq_ok]
  refine ⟨_, ⟨_, rfl, rfl⟩, rfl, rfl, rfl, rfl, rfl, ?_, fun _ => unconfirmed⟩
  constructor
  · intro isBlock
    exact absurd isBlock isOrdinary
  · intro confirmed
    exact absurd confirmed.1 isOrdinary

theorem processShareInternal_share {environment : Environment} {job : Job}
    {submission : Submission} {validated : Validated} {work : Job.Work}
    {share : Blockchain.Share} {blockHex : Option Text}
    (processed : job.processShareInternal environment submission validated =
      .ok (work, share, blockHex)) :
    (share.isBlockCandidate = true → ∃ hash, share.blockHash = some hash) ∧
      share.transactionConfirmationData = none := by
  simp only [Job.processShareInternal, bind_eq_ok, throwIf_eq_ok] at processed
  rcases processed with ⟨_, _, _, _, _, _, _, _, _, _, returned⟩
  split_ifs at returned
  · cases returned
    exact ⟨fun _ => ⟨_, rfl⟩, rfl⟩
  · cases returned
    exact ⟨fun isBlock => (by cases isBlock), rfl⟩

theorem processInJobs_share {jobId : Text} {submission : Submission}
    {jobs validJobs : List ActiveJob} {job : Job} {work : Job.Work} {share : Blockchain.Share}
    {blockHex : Option Text}
    (processed : manager.processInJobs jobId submission jobs =
      some (validJobs, .ok (job, work, share, blockHex))) :
    (share.isBlockCandidate = true → ∃ hash, share.blockHash = some hash) ∧
      share.transactionConfirmationData = none := by
  rcases Registry.updateFirst_some processed with ⟨front, active, back, -, -, -, result⟩
  rcases outcome : (active.job.processShare manager.environment active.submissions
    submission).2 with exception | accepted
  · simp only [outcome] at result
    cases result
  · simp only [outcome] at result
    cases result
    rcases processSubmission_ok _ _ _ _ (Prod.ext rfl outcome :
      active.job.processShare manager.environment active.submissions submission = (_, .ok _)) with
      ⟨validated, _, _, _, _, _, computed⟩
    exact processShareInternal_share computed

/-- A share that its job accepted is returned complete, and as a block exactly if the
daemon confirmed it, if and only if it is no block candidate or its replies are
complete. -/
theorem submitShare_returned_iff {state : JobManager.State} {request : Request}
    {workerValue jobId : Text} {submission : Submission} {validJobs : List ActiveJob} {job : Job}
    {work : Job.Work} {share : Blockchain.Share} {blockHex : Option Text}
    (read : JobManager.readRequest (request.submitRequest unanswered) =
      .ok (workerValue, some jobId, submission))
    (processed : manager.processInJobs jobId submission state.validJobs =
      some (validJobs, .ok (job, work, share, blockHex))) :
    Returned manager poolConfig workerValue request share
        (submitShare manager poolConfig clusterName state request).2 ↔
      (share.isBlockCandidate = true → Answered share request) := by
  have outcome : (submitShare manager poolConfig clusterName state request).2 =
      completeShare manager poolConfig clusterName workerValue request job share := by
    simp only [submitShare, read, Option.bind_some, processed]
    rfl
  have fields := processInJobs_share manager processed
  rw [outcome]
  by_cases isCandidate : share.isBlockCandidate = true
  · rcases fields.1 isCandidate with ⟨hash, isHash⟩
    rw [candidate_returned_iff manager poolConfig clusterName isCandidate isHash]
    exact ⟨fun answered _ => answered, fun answered => answered isCandidate⟩
  · constructor
    · intro _ isBlock
      exact absurd isBlock isCandidate
    · intro _
      exact ordinary_returned manager poolConfig clusterName isCandidate fields.2 workerValue job

/-! ## The replies as the job manager's own model has them -/

theorem submitCandidate_replies {processed : Blockchain.Share} {hash : Text} (request : Request)
    (isCandidate : processed.isBlockCandidate = true) (isHash : processed.blockHash = some hash)
    (workerValue : Text) (job : Job) : ∃ replies : BlockReplies,
      (manager.completeShare workerValue replies job processed).toOption =
        (completeShare manager poolConfig clusterName workerValue request job
          processed).toOption.map Share.toShare := by
  cases outcome : submitCandidate { processed with } request with
  | error exception =>
      refine ⟨unanswered, ?_⟩
      simp only [completeShare, submitted, isCandidate, if_true, outcome, JobManager.completeShare]
      rfl
  | ok share =>
      rcases (submitCandidate_ok_iff isHash).mp outcome with ⟨_, _, -,
        ⟨-, rfl⟩ | ⟨-, transactions, others, reward, -, -, rfl⟩⟩
      · refine ⟨{ unanswered with submitError := some (text "error") }, ?_⟩
        simp only [completeShare, submitted, isCandidate, if_true, outcome,
          JobManager.completeShare]
        rfl
      · let replies : BlockReplies := {
          submitError := none
          acceptError := false
          block := some (hash, transactions.head?.join.toList)
          transaction := .ok (some reward) }
        have accepted : JobManager.submitBlock processed replies =
            .ok (true, transactions.head?.join) := by
          simp [JobManager.submitBlock, replies, isHash]
        refine ⟨replies, ?_⟩
        simp only [completeShare, submitted, isCandidate, if_true, outcome,
          JobManager.completeShare, accepted]
        rfl

theorem completeShare_replies {jobId : Text} {submission : Submission}
    {jobs validJobs : List ActiveJob} {job : Job} {work : Job.Work} {share : Blockchain.Share}
    {blockHex : Option Text} (request : Request)
    (processed : manager.processInJobs jobId submission jobs =
      some (validJobs, .ok (job, work, share, blockHex))) (workerValue : Text) :
    ∃ replies : BlockReplies,
      (manager.completeShare workerValue replies job share).toOption =
        (completeShare manager poolConfig clusterName workerValue request job share).toOption.map
          Share.toShare := by
  by_cases isCandidate : share.isBlockCandidate = true
  · rcases (processInJobs_share manager processed).1 isCandidate with ⟨hash, isHash⟩
    exact submitCandidate_replies manager poolConfig clusterName request isCandidate isHash
      workerValue job
  · refine ⟨unanswered, ?_⟩
    simp only [completeShare, submitted, isCandidate, JobManager.completeShare]
    rfl

theorem submitShare_replies (state : JobManager.State) (request : Request) :
    ∃ replies, (manager.submitShare state (request.submitRequest replies)).1 =
        (submitShare manager poolConfig clusterName state request).1 ∧
      (manager.submitShare state (request.submitRequest replies)).2.toOption.map
          AcceptedShare.share =
        (submitShare manager poolConfig clusterName state request).2.toOption.map
          Share.toShare := by
  have sameRead : ∀ replies, JobManager.readRequest (request.submitRequest replies) =
      JobManager.readRequest (request.submitRequest unanswered) := fun _ => rfl
  simp only [JobManager.submitShare, submitShare, sameRead]
  rcases JobManager.readRequest (request.submitRequest unanswered) with
    exception | ⟨workerValue, jobId, submission⟩
  · exact ⟨unanswered, rfl, rfl⟩
  dsimp only
  rcases found : jobId.bind fun given => manager.processInJobs given submission state.validJobs
    with _ | ⟨validJobs, exception | ⟨job, work, share, blockHex⟩⟩
  · exact ⟨unanswered, rfl, rfl⟩
  · exact ⟨unanswered, rfl, rfl⟩
  rcases Option.bind_eq_some_iff.mp found with ⟨given, -, processed⟩
  rcases completeShare_replies manager poolConfig clusterName request processed workerValue with
    ⟨replies, same⟩
  refine ⟨replies, rfl, ?_⟩
  refine Eq.trans ?_ same
  change ((manager.completeShare workerValue replies job share >>= fun completed =>
    pure ({ jobId := job.jobId, work, share := completed } : AcceptedShare)).toOption.map
      AcceptedShare.share) = _
  cases manager.completeShare workerValue replies job share <;> rfl

end BlockSubmission

namespace SampleShare

open DaemonInterface

def poolConfig : Configuration.PoolConfig where
  id := text "excc1"
  coin := .EXCC
  address := text "pool"
  rewardRecipients := []
  payoutScheme := .pplns none

/-- The manager at work on the header that has a solution whose hash makes a block. -/
def easyState : JobManager.State :=
  (manager.updateJob JobManager.initial false (.work easyHeader.write)).1

/-- A share made of a solution, with a reply to `getblock` and one of the wallet. -/
def answeredRequest (submission : Submission) (getBlock : JsonRpcResponse BlockSubmission.Block)
    (wallet : Reply (JsonRpcResponse BlockSubmission.Transaction)) : BlockSubmission.Request where
  submitParams := (requestOf (text "00000001") submission).submitParams
  worker := submission.worker
  ipAddress := text "127.0.0.1"
  userAgent := none
  now := submission.now
  batch := .received (some [some { result := some (.ok none), error := none }, some getBlock])
  wallet
  created := submission.now

def blockRequest : JsonRpcResponse BlockSubmission.Block →
    Reply (JsonRpcResponse BlockSubmission.Transaction) → BlockSubmission.Request :=
  answeredRequest blockSubmission

def blockNotFound : JsonRpcResponse BlockSubmission.Block where
  result := none
  error := some { code := -5, message := some (text "Block not found") }

def blockFound : JsonRpcResponse BlockSubmission.Block where
  result := some (.ok (some { hash := some blockHash, transactions := some [some (text "c0")] }))
  error := none

def coinbaseFound : Reply (JsonRpcResponse BlockSubmission.Transaction) :=
  .received (some { result := some (.ok (some { details := some [some 38] })), error := none })

example : ((BlockSubmission.submitShare manager poolConfig none easyState
    (blockRequest blockFound coinbaseFound)).2.toOption.map fun share =>
      (share.poolId, share.isBlockCandidate, share.blockReward)) =
    some (some (text "excc1"), true, 38) := by
  decide +kernel

theorem blockHash_processed :
    ((manager.processInJobs (text "00000001") blockSubmission easyState.validJobs).bind
      fun processed => processed.2.toOption.map fun accepted =>
        (accepted.2.2.1.isBlockCandidate, accepted.2.2.1.blockHash)) =
      some (true, some blockHash) := by
  decide +kernel

theorem blockRequest_read (getBlock : JsonRpcResponse BlockSubmission.Block)
    (wallet : Reply (JsonRpcResponse BlockSubmission.Transaction)) :
    JobManager.readRequest ((blockRequest getBlock wallet).submitRequest
      BlockSubmission.unanswered) =
      .ok (text "miner.rig", some (text "00000001"), blockSubmission) := by
  rfl

theorem processed_block : ∃ validJobs job work share blockHex,
    manager.processInJobs (text "00000001") blockSubmission easyState.validJobs =
        some (validJobs, .ok (job, work, share, blockHex)) ∧
      share.isBlockCandidate = true ∧ share.blockHash = some blockHash := by
  have computed := blockHash_processed
  rcases outcome : manager.processInJobs (text "00000001") blockSubmission easyState.validJobs with
    _ | ⟨validJobs, exception | ⟨job, work, share, blockHex⟩⟩
  · rw [outcome] at computed
    cases computed
  · rw [outcome] at computed
    cases computed
  · rw [outcome] at computed
    simp only [Option.bind_some, Except.toOption, Option.map_some, Option.some.injEq,
      Prod.mk.injEq] at computed
    exact ⟨validJobs, job, work, share, blockHex, rfl, computed⟩

end SampleShare

open SampleShare

/-- The sample block comes back complete if the daemon finds it and the wallet knows its
coinbase transaction. -/
theorem submitShare_confirmed_block : ∃ share : Blockchain.Share,
    share.isBlockCandidate = true ∧
      BlockSubmission.Returned manager poolConfig (text "miner.rig")
        (blockRequest blockFound coinbaseFound) share
        (BlockSubmission.submitShare manager poolConfig none easyState
          (blockRequest blockFound coinbaseFound)).2 := by
  rcases processed_block with ⟨validJobs, job, work, share, blockHex, processed, isBlock, isHash⟩
  refine ⟨share, isBlock, ?_⟩
  rw [BlockSubmission.submitShare_returned_iff manager poolConfig none
    (blockRequest_read blockFound coinbaseFound) processed]
  intro _
  refine ⟨[{ result := some (.ok none), error := none }, blockFound], rfl, .inr ?_⟩
  refine ⟨_, some blockHash, [some (text "c0")], [], rfl, rfl, isHash.symm, _, rfl, ?_⟩
  intro response isResponse token isToken
  cases isResponse
  cases isToken
  exact .inr ⟨38, [], rfl⟩

/-- A block that the daemon does not find after the submission is not returned as an
ordinary share. The notification about it throws. -/
theorem submitShare_block_not_found : ∃ validJobs job work share blockHex,
    manager.processInJobs (text "00000001") blockSubmission easyState.validJobs =
        some (validJobs, .ok (job, work, share, blockHex)) ∧
      ¬BlockSubmission.Returned manager poolConfig (text "miner.rig")
        (blockRequest blockNotFound coinbaseFound) share
        (BlockSubmission.submitShare manager poolConfig none easyState
          (blockRequest blockNotFound coinbaseFound)).2 := by
  rcases processed_block with ⟨validJobs, job, work, share, blockHex, processed, -, -⟩
  refine ⟨validJobs, job, work, share, blockHex, processed, ?_⟩
  rintro ⟨completed, returned, -⟩
  have thrown : (BlockSubmission.submitShare manager poolConfig none easyState
      (blockRequest blockNotFound coinbaseFound)).2.toOption = none := by
    decide +kernel
  rw [returned] at thrown
  cases thrown

end Miningcore.ExchangeCoin

import Miningcore.Banning.IntegratedBanManager
import Miningcore.Blockchain.ExchangeCoin.BlockSubmission
import Miningcore.Foundation.Exceptions
import Miningcore.Foundation.Run

/-! `OnSubmitAsync` of an ExchangeCoin pool.

Only a `StratumException` is caught and answered. Reading the parameters can throw others, and a
request that is rejected late has already been registered as a submission of its job. -/

namespace Miningcore

open Exceptions

def Exception.isStratum : Exception → Bool
  | .stratum _ _ | .lowDifficultyShare _ | .badNonce _ => true
  | _ => false

abbrev Answerable {Result : Type} (outcome : Except Exception Result) : Prop :=
  ThrowsOnly (fun exception => exception.isStratum = true) outcome

abbrev Foreign {Result : Type} (outcome : Except Exception Result) : Prop :=
  ThrowsOnly (fun exception => ¬exception.isStratum = true) outcome

namespace ExchangeCoin

open Miningcore.Configuration DaemonInterface StringExtensions
open Banning (seconds)
open Banning.IntegratedBanManager

/-! ## Requests -/

/-- `WorkerContextStats`. -/
structure ShareStats where
  validShares : Nat
  invalidShares : Nat
deriving DecidableEq

def ShareStats.start : ShareStats where
  validShares := 0
  invalidShares := 0

/-- `PoolShareBasedBanningConfig`. No rule requires a positive `Time`. -/
structure BanningConfig where
  enabled : Bool
  checkThreshold : Int
  invalidPercent : ℚ
  time : Int

/-- The pool, with its section on banning and `BanOnInvalidShares` of the cluster, either of which
may be missing, and the division of doubles. -/
structure PoolSettings where
  manager : JobManager
  poolConfig : PoolConfig
  clusterName : Option Text
  banning : Option BanningConfig
  banOnInvalidShares : Option (Option Bool)
  divide : ℚ → ℚ → ℚ

/-- One `mining.submit`. The conversion of its parameters to strings may throw, and so may writing
the answer, publishing the share, `UpdateVarDiffAsync`, which notifies the client, and closing its
connection. These exceptions come from libraries, as those of the daemon and the wallet do. -/
structure SubmitCall extends BlockSubmission.Request where
  client : Nat
  hasId : Bool
  requestAge : Int
  isAuthorized : Bool
  isSubscribed : Bool
  conversionFailure : Option Exception
  respondFailure : Option Exception
  publishFailure : Option Exception
  varDiffFailure : Option Exception
  disconnectFailure : Option Exception
  conversion_foreign : ∀ exception, conversionFailure = some exception →
    ¬exception.isStratum = true
  batch_foreign : ∀ exception, batch = .lost exception → ¬exception.isStratum = true
  block_foreign : ∀ elements, batch = .received (some elements) → ∀ response,
    some response ∈ elements → ∀ exception, response.result = some (.error exception) →
    ¬exception.isStratum = true
  wallet_foreign : ∀ exception, wallet = .lost exception → ¬exception.isStratum = true
  transaction_foreign : ∀ response, wallet = .received (some response) → ∀ exception,
    response.result = some (.error exception) → ¬exception.isStratum = true

def maxShareAge : Int := 60000000

inductive Answer
  | accepted
  | rejected (exception : Exception)
deriving DecidableEq

structure SubmitOutcome where
  manager : JobManager.State
  stats : ShareStats
  published : List BlockSubmission.Share
  answers : List Answer
  /-- The statistics that a ban was considered with. -/
  considered : Option ShareStats
  banned : Bool
  thrown : Option Exception

def SubmitOutcome.start (manager : JobManager.State) (stats : ShareStats) : SubmitOutcome where
  manager
  stats
  published := []
  answers := []
  considered := none
  banned := false
  thrown := none

section Handler

variable (settings : PoolSettings)

/-- The body of the `try` block up to `SubmitShareAsync`, which does not take null. A request that
is too old is dropped. -/
def attempt (state : JobManager.State) (call : SubmitCall) :
    JobManager.State × Except Exception (Option BlockSubmission.Share) :=
  if call.hasId = false then (state, .error (.stratum .minusOne "missing request id"))
  else if maxShareAge < call.requestAge then (state, .ok none)
  else if call.isAuthorized = false then
    (state, .error (.stratum .unauthorizedWorker "Unauthorized worker"))
  else if call.isSubscribed = false then
    (state, .error (.stratum .notSubscribed "Not subscribed"))
  else
    match call.conversionFailure, call.submitParams with
    | some exception, _ => (state, .error exception)
    | none, none => (state, .error (.argument "submission"))
    | none, some _ =>
        let (next, result) := BlockSubmission.submitShare settings.manager settings.poolConfig
          settings.clusterName state call.toRequest
        (next, result.map some)

/-- The rejected shares are too many, and they are banned for. -/
structure IsBanDue (config : BanningConfig) (stats : ShareStats) : Prop where
  enough : config.checkThreshold < stats.validShares + stats.invalidShares
  invalid : settings.divide config.invalidPercent 100 ≤
    settings.divide stats.invalidShares (stats.validShares + stats.invalidShares : Nat)
  enabled : config.enabled = true
  onInvalidShares : settings.banOnInvalidShares = some none ∨
    settings.banOnInvalidShares = some (some true)

/-- `ConsiderBan`, with a section on banning: the statistics, and whether it bans. -/
def considerBan (config : BanningConfig) (stats : ShareStats) : ShareStats × Bool :=
  let totalShares := stats.validShares + stats.invalidShares
  if config.checkThreshold < totalShares then
    if settings.divide stats.invalidShares totalShares <
        settings.divide config.invalidPercent 100 then
      (.start, false)
    else
      (stats, config.enabled && (settings.banOnInvalidShares == some none ||
        settings.banOnInvalidShares == some (some true)))
  else (stats, false)

theorem considerBan_bans_iff (config : BanningConfig) (stats : ShareStats) :
    (considerBan settings config stats).2 = true ↔ IsBanDue settings config stats := by
  rw [considerBan]
  constructor
  · intro bans
    split_ifs at bans with enough few
    simp only [Bool.and_eq_true, Bool.or_eq_true, beq_iff_eq] at bans
    exact ⟨by exact_mod_cast enough, not_lt.mp few, bans.1, bans.2⟩
  · rintro ⟨enough, invalid, enabled, onInvalidShares⟩
    rw [if_pos (by exact_mod_cast enough), if_neg (not_lt.mpr invalid)]
    simpa [enabled] using onInvalidShares

/-- The body of `ConsiderBan` that bans: `Ban`, and then the connection is closed. -/
def banClient (config : BanningConfig) (call : SubmitCall) : Except Exception Unit := do
  requireDuration (seconds config.time)
  match call.disconnectFailure with
  | none => return
  | some failure => throw failure

theorem banClient_ok_iff {config : BanningConfig} {call : SubmitCall} :
    banClient config call = .ok () ↔ 0 < config.time ∧ call.disconnectFailure = none := by
  rw [banClient, bind_eq_ok]
  constructor
  · rintro ⟨_, required, closes⟩
    have positive := requireDuration_ok_iff.mp required
    rw [seconds] at positive
    refine ⟨by omega, ?_⟩
    cases isFailure : call.disconnectFailure with
    | none => rfl
    | some failure =>
        rw [isFailure] at closes
        cases closes
  · rintro ⟨positive, closes⟩
    refine ⟨(), requireDuration_of_pos (Int.mul_pos (by decide) positive), ?_⟩
    rw [closes]
    rfl

/-- The `catch` block, for a share that may have been published and answered. Without a section on
banning, considering a ban throws. -/
def reject (done : SubmitOutcome) (call : SubmitCall) (exception : Exception) : SubmitOutcome :=
  match exception.isStratum, call.respondFailure with
  | false, _ => { done with thrown := some exception }
  | true, some failure => { done with thrown := some failure }
  | true, none =>
      let counted := { done.stats with invalidShares := done.stats.invalidShares + 1 }
      let answers := done.answers ++ [.rejected exception]
      match settings.banning with
      | none => { done with stats := counted, answers, thrown := some .nullReference }
      | some config =>
          match considerBan settings config counted with
          | (stats, false) => { done with stats, answers, considered := some counted }
          | (stats, true) =>
              match banClient config call with
              | .ok () => { done with stats, answers, considered := some counted, banned := true }
              | .error failure =>
                  { done with stats, answers, considered := some counted, thrown := some failure }

/-- The share is answered, published and counted, and the difficulty is adapted. -/
def accept (done : SubmitOutcome) (call : SubmitCall) (share : BlockSubmission.Share) :
    SubmitOutcome :=
  match call.respondFailure with
  | some failure => reject settings done call failure
  | none =>
      let published := { done with published := [share], answers := [.accepted] }
      match call.publishFailure with
      | some failure => reject settings published call failure
      | none =>
          let counted := { published with
            stats := { done.stats with validShares := done.stats.validShares + 1 } }
          match call.varDiffFailure with
          | some failure => reject settings counted call failure
          | none => counted

/-- `OnSubmitAsync`, but for the time of the last block. Nothing listens to its telemetry. -/
def onSubmit (state : JobManager.State) (stats : ShareStats) (call : SubmitCall) :
    SubmitOutcome :=
  match attempt settings state call with
  | (manager, .error exception) => reject settings (.start manager stats) call exception
  | (manager, .ok none) => .start manager stats
  | (manager, .ok (some share)) => accept settings (.start manager stats) call share

/-- The request has one of the two results that it should have: a published share that counts as
valid, or an answer with an error that counts as invalid and may lead to a ban. -/
def Handled (stats : ShareStats) (outcome : SubmitOutcome) : Prop :=
  outcome.thrown = none ∧
    ((∃ share, outcome.published = [share] ∧
        outcome.stats = { stats with validShares := stats.validShares + 1 }) ∨
      ∃ exception, exception.isStratum = true ∧ outcome.published = [] ∧
        outcome.answers = [.rejected exception] ∧
        outcome.considered = some { stats with invalidShares := stats.invalidShares + 1 })

def BansProperly (stats : ShareStats) (call : SubmitCall) : Prop :=
  ∃ config, settings.banning = some config ∧
    (IsBanDue settings config { stats with invalidShares := stats.invalidShares + 1 } →
      0 < config.time ∧ call.disconnectFailure = none)

/-- What remains of an accepted share throws nothing. -/
def Publishes (call : SubmitCall) : Prop :=
  call.publishFailure = none ∧ call.varDiffFailure = none

theorem reject_handled_iff {done : SubmitOutcome} (unharmed : done.thrown = none)
    (unpublished : done.published = []) (unanswered : done.answers = []) (call : SubmitCall)
    (exception : Exception) :
    Handled done.stats (reject settings done call exception) ↔
      call.respondFailure = none ∧ exception.isStratum = true ∧
        BansProperly settings done.stats call := by
  rw [reject]
  cases isStratum : exception.isStratum with
  | false => simp [Handled]
  | true =>
      cases call.respondFailure with
      | some failure => simp [Handled]
      | none =>
          cases isBanning : settings.banning with
          | none => simp [Handled, BansProperly, isBanning]
          | some config =>
              have dueIff := considerBan_bans_iff settings config
                { done.stats with invalidShares := done.stats.invalidShares + 1 }
              have properly : BansProperly settings done.stats call ↔
                  (IsBanDue settings config
                    { done.stats with invalidShares := done.stats.invalidShares + 1 } →
                    banClient config call = .ok ()) := by
                simp only [BansProperly, isBanning, Option.some.injEq, banClient_ok_iff]
                exact ⟨fun ⟨_, same, bans⟩ => same ▸ bans, fun bans => ⟨config, rfl, bans⟩⟩
              simp only [true_and, properly, ← dueIff]
              cases considerBan settings config
                  { done.stats with invalidShares := done.stats.invalidShares + 1 } with
              | mk stats bans =>
                  cases bans with
                  | false => simp [Handled, unharmed, unpublished, unanswered, isStratum]
                  | true =>
                      cases banClient config call with
                      | ok => simp [Handled, unharmed, unpublished, unanswered, isStratum]
                      | error failure => simp [Handled]

theorem reject_unhandled {done : SubmitOutcome} {stats : ShareStats}
    (published : done.published ≠ [])
    (kept : done.stats.invalidShares = stats.invalidShares) (call : SubmitCall)
    (exception : Exception) : ¬Handled stats (reject settings done call exception) := by
  have counted (next : ShareStats) (bans : Bool) (config : BanningConfig)
      (considered : considerBan settings config
        { done.stats with invalidShares := done.stats.invalidShares + 1 } = (next, bans)) :
      next ≠ { stats with validShares := stats.validShares + 1 } := by
    rintro rfl
    rw [considerBan] at considered
    split_ifs at considered <;>
      simp only [Prod.mk.injEq, ShareStats.mk.injEq, ShareStats.start] at considered <;> omega
  rw [reject]
  cases exception.isStratum with
  | false => simp [Handled]
  | true =>
      cases call.respondFailure with
      | some failure => simp [Handled]
      | none =>
          cases settings.banning with
          | none => simp [Handled]
          | some config =>
              simp only
              split
              · rename_i next considered
                rintro ⟨-, ⟨_, -, isNext⟩ | ⟨_, -, isPublished, -⟩⟩
                · exact counted next _ config considered isNext
                · exact published isPublished
              · rename_i next considered
                split
                · rintro ⟨-, ⟨_, -, isNext⟩ | ⟨_, -, isPublished, -⟩⟩
                  · exact counted next _ config considered isNext
                  · exact published isPublished
                · simp [Handled]

theorem accept_handled_iff {done : SubmitOutcome} (unharmed : done.thrown = none)
    (call : SubmitCall) (share : BlockSubmission.Share) :
    Handled done.stats (accept settings done call share) ↔
      call.respondFailure = none ∧ Publishes call := by
  rw [accept, Publishes]
  cases responds : call.respondFailure with
  | some failure =>
      have thrown : (reject settings done call failure).thrown ≠ none := by
        rw [reject, responds]
        cases failure.isStratum with
        | false => exact Option.some_ne_none _
        | true => exact Option.some_ne_none _
      simp only [reduceCtorEq, false_and, iff_false]
      exact fun handled => thrown handled.1
  | none =>
      cases call.publishFailure with
      | some failure =>
          simp only [reduceCtorEq, false_and, and_false, iff_false]
          apply reject_unhandled
          · exact List.cons_ne_nil share []
          · rfl
      | none =>
          cases call.varDiffFailure with
          | some failure =>
              simp only [reduceCtorEq, and_false, iff_false]
              apply reject_unhandled
              · exact List.cons_ne_nil share []
              · rfl
          | none => simp [Handled, unharmed]

theorem onSubmit_handled_iff (state : JobManager.State) (stats : ShareStats) (call : SubmitCall) :
    Handled stats (onSubmit settings state stats call) ↔
      call.respondFailure = none ∧ (attempt settings state call).2 ≠ .ok none ∧
        Answerable (attempt settings state call).2 ∧
        ((∃ share, (attempt settings state call).2 = .ok (some share)) → Publishes call) ∧
        ((¬∃ share, (attempt settings state call).2 = .ok (some share)) →
          BansProperly settings stats call) := by
  rw [onSubmit]
  rcases attempt settings state call with ⟨manager, exception | share⟩
  · have rejects : Handled stats (reject settings (.start manager stats) call exception) ↔ _ :=
      reject_handled_iff settings rfl rfl rfl call exception
    rw [rejects]
    simp [SubmitOutcome.start]
  · cases share with
    | none => simp [Handled, SubmitOutcome.start]
    | some share =>
        have accepts : Handled stats (accept settings (.start manager stats) call share) ↔ _ :=
          accept_handled_iff settings rfl call share
        rw [accepts]
        simp

end Handler

/-! ## What reading a request throws -/

theorem answerable_throwIf (condition : Prop) [Decidable condition] {exception : Exception}
    (isStratum : exception.isStratum = true) : Answerable (throwIf condition exception) := by
  rw [throwIf]
  split_ifs
  · exact (throwsOnly_error _).mpr isStratum
  · exact throwsOnly_ok ()

theorem answerable_requireNonEmpty_iff (name : String) (value : Option Text) :
    Answerable (requireNonEmpty name value) ↔ value.getD [] ≠ [] := by
  match value with
  | none => simp [requireNonEmpty, Exception.isStratum]
  | some [] => simp [requireNonEmpty, Exception.isStratum]
  | some (unit :: rest) => simp [requireNonEmpty]

theorem answerable_parseUInt32_iff (value : Text) :
    Answerable (parseUInt32 value) ↔ ∃ number, parseUInt32 value = .ok number := by
  apply throwsOnly_iff_returns
  rw [parseUInt32]
  split
  · exact throwsOnly_ok _
  · rename_i error _
    rw [throwsOnly_error]
    cases error with
    | format => exact Bool.false_ne_true
    | overflow => exact Bool.false_ne_true

theorem answerable_dereference_iff (value : Option Text) :
    Answerable (dereference value) ↔ ∃ given, value = some given := by
  cases value with
  | none => simp [dereference, Exception.isStratum]
  | some given => simp [dereference]

theorem answerable_submitParam_iff (submitParams : List (Option Text)) (index : Nat) :
    Answerable (JobManager.submitParam submitParams index) ↔ index < submitParams.length := by
  rw [JobManager.submitParam]
  cases given : submitParams[index]? with
  | none =>
      rw [List.getElem?_eq_none_iff] at given
      simp [Exception.isStratum, given]
  | some value =>
      have within := (List.getElem?_eq_some_iff.mp given).1
      simp [within]

theorem submitParam_of_lt {submitParams : List (Option Text)} {index : Nat}
    (within : index < submitParams.length) :
    ∃ value, JobManager.submitParam submitParams index = .ok value := by
  rw [JobManager.submitParam, List.getElem?_eq_getElem within]
  exact ⟨_, rfl⟩

theorem answerable_readRequest_iff {request : SubmitRequest} {submitParams : List (Option Text)}
    (isParams : request.submitParams = some submitParams) :
    Answerable (JobManager.readRequest request) ↔ 6 ≤ submitParams.length := by
  simp only [JobManager.readRequest, isParams, throwsOnly_bind, answerable_submitParam_iff]
  constructor
  · rintro ⟨first, rest⟩
    rcases submitParam_of_lt first with ⟨_, isFirst⟩
    rcases rest _ isFirst with ⟨second, rest⟩
    rcases submitParam_of_lt second with ⟨_, isSecond⟩
    rcases rest _ isSecond with ⟨third, rest⟩
    rcases submitParam_of_lt third with ⟨_, isThird⟩
    rcases rest _ isThird with ⟨fourth, rest⟩
    rcases submitParam_of_lt fourth with ⟨_, isFourth⟩
    rcases rest _ isFourth with ⟨fifth, rest⟩
    rcases submitParam_of_lt fifth with ⟨_, isFifth⟩
    exact (rest _ isFifth).1
  · intro enough
    refine ⟨by omega, fun workerValue _ => ⟨by omega, fun _ _ => ⟨by omega, fun _ _ =>
      ⟨by omega, fun _ _ => ⟨by omega, fun _ _ => ⟨by omega, fun _ _ => ?_⟩⟩⟩⟩⟩⟩
    cases workerValue with
    | none => exact (throwsOnly_error _).mpr rfl
    | some given =>
        simp only [Option.map_some, throwsOnly_bind, throwsOnly_pure, implies_true, and_true]
        exact ⟨answerable_throwIf _ rfl, fun _ _ => answerable_throwIf _ rfl⟩

/-! ## The job that a request addresses -/

def addressed (state : JobManager.State) (jobId : Option Text) : Option ActiveJob :=
  jobId.bind fun given => state.validJobs.find? fun active => active.job.jobId == given

section Jobs

variable (manager : JobManager) (poolConfig : PoolConfig) (clusterName : Option Text)

/-- `SubmitShareAsync` behind the lookup of the job. -/
def processed (request : BlockSubmission.Request) (workerValue : Text) (submission : Submission)
    (active : ActiveJob) : Except Exception BlockSubmission.Share := do
  let (_, share, _) ←
    (active.job.processShare manager.environment active.submissions submission).2
  BlockSubmission.completeShare manager poolConfig clusterName workerValue request active.job share

theorem submitShare_result (state : JobManager.State) (request : BlockSubmission.Request) :
    (BlockSubmission.submitShare manager poolConfig clusterName state request).2 = (do
      let (workerValue, jobId, submission) ←
        JobManager.readRequest (request.submitRequest BlockSubmission.unanswered)
      match addressed state jobId with
      | none => .error (.stratum .jobNotFound "job not found")
      | some active =>
          processed manager poolConfig clusterName request workerValue submission active) := by
  rw [BlockSubmission.submitShare]
  cases read : JobManager.readRequest (request.submitRequest BlockSubmission.unanswered) with
  | error exception => rfl
  | ok given =>
      rcases given with ⟨workerValue, jobId, submission⟩
      cases jobId with
      | none => rfl
      | some jobId =>
          have result := Registry.updateFirst_result (fun active => active.job.jobId == jobId)
            (fun active => ({ active with submissions := (active.job.processShare
              manager.environment active.submissions submission).1 },
              (active.job.processShare manager.environment active.submissions submission).2.map
                fun accepted => (active.job, accepted))) state.validJobs
          change (manager.processInJobs jobId submission state.validJobs).map Prod.snd = _ at result
          simp only [bind, Except.bind, addressed, Option.bind_some]
          cases found : state.validJobs.find? fun active => active.job.jobId == jobId with
          | none =>
              rw [found, Option.map_none, Option.map_eq_none_iff] at result
              rw [result]
          | some active =>
              rw [found, Option.map_some, Option.map_eq_some_iff] at result
              rcases result with ⟨⟨next, outcome⟩, isProcessed, rfl⟩
              rw [isProcessed]
              simp only [processed, bind, Except.bind]
              cases (active.job.processShare manager.environment active.submissions submission).2
                with
              | error exception => rfl
              | ok accepted => rfl

end Jobs

/-! ## What a job throws -/

theorem answerable_processSubmission_iff {Request Validated Key Result : Type} [DecidableEq Key]
    {validate : Request → Except Exception Validated}
    {key : Request → Validated → Except Exception Key} {duplicate : Exception}
    {compute : Request → Validated → Except Exception Result} {submissions : Submissions Key}
    {request : Request} (isStratum : duplicate.isStratum = true) :
    Answerable (processSubmission validate key duplicate compute submissions request).2 ↔
      Answerable (validate request) ∧ ∀ validated, validate request = .ok validated →
        Answerable (key request validated) ∧ ∀ submissionKey,
          key request validated = .ok submissionKey → submissionKey ∉ submissions →
            Answerable (compute request validated) := by
  rw [processSubmission]
  cases validate request with
  | error exception => simp
  | ok validated =>
      simp only [throwsOnly_ok, true_and, Except.ok.injEq, forall_eq']
      cases key request validated with
      | error exception => simp
      | ok submissionKey =>
          simp only [throwsOnly_ok, true_and, Except.ok.injEq, forall_eq', registerSubmit]
          by_cases known : submissionKey ∈ submissions
          · simp [known, isStratum]
          · simp [known]

namespace Job

variable (environment : Environment) (job : Job)

theorem answerable_validate_iff (submission : Submission) :
    Answerable (job.validate submission) ↔
      submission.extraNonce.getD [] ≠ [] ∧ submission.nTime.getD [] ≠ [] ∧
        submission.solution.getD [] ≠ [] ∧ ∀ nTime, submission.nTime = some nTime →
          nTime.length = 8 → ∃ number, parseUInt32 nTime = .ok number := by
  have given {name : String} {value : Option Text} (isPresent : value.getD [] ≠ []) :
      requireNonEmpty name value = .ok (value.getD []) := by
    match value with
    | none => exact absurd rfl isPresent
    | some [] => exact absurd rfl isPresent
    | some (unit :: rest) => rfl
  simp only [validate, throwsOnly_bind, answerable_requireNonEmpty_iff, throwIf_eq_ok, not_not,
    answerable_parseUInt32_iff, throwsOnly_pure, implies_true, and_true]
  constructor
  · rintro ⟨extraNonce, rest⟩
    rcases rest _ (given extraNonce) with ⟨nTime, rest⟩
    rcases rest _ (given nTime) with ⟨solution, rest⟩
    refine ⟨extraNonce, nTime, solution, ?_⟩
    intro time isTime eight
    have same : submission.nTime.getD [] = time := by
      rw [isTime]
      rfl
    rcases rest _ (given solution) with ⟨-, rest⟩
    rw [same] at rest
    exact (rest () eight).1
  · rintro ⟨extraNonce, nTime, solution, parses⟩
    refine ⟨extraNonce, fun _ _ => ⟨nTime, fun time isTime => ⟨solution, fun _ _ =>
      ⟨answerable_throwIf _ rfl, fun _ eight => ⟨?_, ?_⟩⟩⟩⟩⟩
    · exact parses time (requireNonEmpty_ok isTime) eight
    · intro number _
      refine ⟨answerable_throwIf _ rfl, fun _ _ => ⟨answerable_throwIf _ rfl, fun _ _ =>
        ⟨answerable_throwIf _ rfl, fun _ _ => answerable_throwIf _ rfl⟩⟩⟩

theorem answerable_registrationKey_iff (submission : Submission) (validated : Validated) :
    Answerable (registrationKey environment submission validated) ↔
      ∃ nonce, validated.nonce = some nonce := by
  simp only [registrationKey, throwsOnly_bind, throwsOnly_pure, implies_true, and_true,
    answerable_dereference_iff]

def headerHash (work : Work) : Bytes :=
  (environment.headerHasher (work.header ++ work.solution)).toList

def headerValue (work : Work) : Nat := LittleEndian.decode (headerHash environment work)

theorem answerable_decodeWork_iff (validated : Validated) :
    Answerable (job.decodeWork environment validated) ↔
      ∃ nonce number, validated.nonce = some nonce ∧ parseUInt32 nonce = .ok number := by
  simp only [decodeWork, throwsOnly_bind, answerable_dereference_iff, answerable_parseUInt32_iff,
    dereference_eq_ok, serializeHeader_eq, throwsOnly_ok, throwsOnly_pure, implies_true, and_true]
  constructor
  · rintro ⟨⟨nonce, isNonce⟩, parses⟩
    rcases parses nonce isNonce with ⟨number, isNumber⟩
    exact ⟨nonce, number, isNonce, isNumber⟩
  · rintro ⟨nonce, number, isNonce, isNumber⟩
    refine ⟨⟨nonce, isNonce⟩, ?_⟩
    intro other isOther
    rw [isNonce] at isOther
    cases isOther
    exact ⟨number, isNumber⟩

theorem verifySolution_of_decoded {validated : Validated} {work : Work}
    (decoded : job.decodeWork environment validated = .ok work) :
    verifySolution environment work =
      if (hexToByteArray environment.culture validated.solution).length ≠ 100 then
        .error (.argument "solution must be exactly 100 bytes")
      else .ok (environment.equihashVerify work.header work.solution) := by
  rcases job.decodeWork_ok environment decoded with ⟨nonce, number, -, -, header, solution⟩
  rw [serializeHeader_eq, Except.ok.injEq] at header
  have headerLength : work.header.length = 180 := by
    rw [← header, BlockHeader.writeWithoutSolution_length]
  rw [verifySolution, if_neg (not_not.mpr headerLength), solution]

theorem answerable_verifySolution_iff {validated : Validated} {work : Work}
    (decoded : job.decodeWork environment validated = .ok work) :
    Answerable (verifySolution environment work) ↔
      (hexToByteArray environment.culture validated.solution).length = 100 := by
  rw [job.verifySolution_of_decoded environment decoded]
  split_ifs with other
  · simp [Exception.isStratum, other]
  · simp [not_not.mp other]

theorem answerable_stratumDifficulty (worker : WorkerDifficulty) (shareDiff : ℚ)
    (isBlockCandidate : Bool) :
    Answerable (stratumDifficulty worker shareDiff isBlockCandidate) := by
  rw [stratumDifficulty]
  split_ifs
  · split
    · split_ifs
      · exact (throwsOnly_error _).mpr rfl
      · exact throwsOnly_ok _
    · exact (throwsOnly_error _).mpr rfl
  · exact throwsOnly_ok _

theorem answerable_shareDifficulty_iff (hash : Nat) :
    Answerable (shareDifficulty diff1 hash) ↔ hash ≠ 0 := by
  rw [shareDifficulty]
  split_ifs with zero
  · simp [Exception.isStratum, zero]
  · simp [zero]

theorem answerable_processShareInternal_iff (submission : Submission) (validated : Validated) :
    Answerable (job.processShareInternal environment submission validated) ↔
      (∃ nonce number, validated.nonce = some nonce ∧ parseUInt32 nonce = .ok number) ∧
        (hexToByteArray environment.culture validated.solution).length = 100 ∧
        ∀ work, job.decodeWork environment validated = .ok work →
          environment.equihashVerify work.header work.solution = true →
          headerValue environment work ≠ 0 := by
  have decodesIff := job.answerable_decodeWork_iff environment validated
  rw [Answerable] at decodesIff ⊢
  rw [processShareInternal, throwsOnly_bind, decodesIff]
  apply and_congr_right
  rintro ⟨nonce, number, isNonce, isNumber⟩
  have decodes : ∃ work, job.decodeWork environment validated = .ok work := by
    simp only [decodeWork, bind_eq_ok, dereference_eq_ok, pure_eq_ok]
    exact ⟨_, nonce, isNonce, number, isNumber, _, job.serializeHeader_eq _ _ _, rfl⟩
  rcases decodes with ⟨work, decoded⟩
  simp only [decoded, Except.ok.injEq, forall_eq']
  have verifiesIff := job.answerable_verifySolution_iff environment decoded
  rw [Answerable] at verifiesIff
  rw [throwsOnly_bind, verifiesIff]
  apply and_congr_right
  intro hundred
  have verified : verifySolution environment work =
      .ok (environment.equihashVerify work.header work.solution) := by
    rw [job.verifySolution_of_decoded environment decoded, if_neg (not_not.mpr hundred)]
  simp only [verified, Except.ok.injEq, forall_eq', throwsOnly_bind, throwIf_eq_ok,
    Bool.not_eq_false]
  have throws : Answerable (throwIf
      (environment.equihashVerify work.header work.solution = false)
      (.stratum .other "invalid solution")) := answerable_throwIf _ rfl
  simp only [throws, true_and, forall_const]
  apply imp_congr_right
  intro _
  change Answerable (shareDifficulty diff1 (headerValue environment work)) ∧ _ ↔ _
  rw [answerable_shareDifficulty_iff]
  refine ⟨And.left, fun nonzero => ⟨nonzero, ?_⟩⟩
  intro shareDiff _
  refine ⟨answerable_stratumDifficulty _ _ _, ?_⟩
  intro difficulty _
  split_ifs
  · exact throwsOnly_pure _
  · exact throwsOnly_pure _

end Job

/-! ## What the replies to a block throw -/

/-- The replies that a block gets through with: an error for the submission, or the block and its
reward. -/
def BlockSubmission.Completes (blockHash : Option Text) (request : Request) : Prop :=
  ∃ submitted rest, request.batch = .received (some ((submitted :: rest).map some)) ∧
    ((errorText submitted.error).getD [] ≠ [] ∨
      (errorText submitted.error).getD [] = [] ∧ ∃ transactions others,
        rest = ⟨some (.ok (some ⟨blockHash, some transactions⟩)), none⟩ :: others ∧
        RewardAnswered request.wallet)

theorem foreign_elementAt {Element : Type} (results : Option (List Element)) (index : Nat) :
    Foreign (elementAt results index) := by
  cases results with
  | none => exact (throwsOnly_error _).mpr Bool.false_ne_true
  | some elements =>
      rw [elementAt]
      cases elements[index]? with
      | none => exact (throwsOnly_error _).mpr Bool.false_ne_true
      | some element => exact throwsOnly_ok _

theorem foreign_executeBatchAny {Element : Type}
    {batch : Reply (List (Option (JsonRpcResponse Element)))}
    (lost : ∀ exception, batch = .lost exception → ¬exception.isStratum = true) :
    Foreign (executeBatchAny batch) := by
  match batch with
  | .lost exception => exact (throwsOnly_error _).mpr (lost exception rfl)
  | .received none => exact throwsOnly_ok _
  | .received (some elements) =>
      rw [executeBatchAny, Foreign, throwsOnly_bind]
      refine ⟨throwsOnly_mapM ?_, fun _ _ => throwsOnly_pure _⟩
      intro element _
      cases element with
      | none => exact (throwsOnly_error _).mpr Bool.false_ne_true
      | some response => exact throwsOnly_ok _

theorem foreign_toObject {Element : Type} {token : Option (Token Element)}
    (converts : ∀ exception, token = some (.error exception) → ¬exception.isStratum = true) :
    Foreign (toObject token) := by
  match token with
  | none => exact throwsOnly_ok _
  | some (.error exception) => exact (throwsOnly_error _).mpr (converts exception rfl)
  | some (.ok element) => exact throwsOnly_ok _

theorem foreign_dereference (value : Option Text) : Foreign (dereference value) := by
  cases value with
  | none => exact (throwsOnly_error _).mpr Bool.false_ne_true
  | some given => exact throwsOnly_ok _

theorem foreign_checkAccepted {share : BlockSubmission.Share}
    {acceptResult : DaemonResponse (Option (Token BlockSubmission.Block))}
    (converts : ∀ exception, acceptResult.response = some (.error exception) →
      ¬exception.isStratum = true) :
    Foreign (BlockSubmission.checkAccepted share acceptResult) := by
  simp only [BlockSubmission.checkAccepted, throwsOnly_bind, throwsOnly_pure, implies_true,
    and_true]
  refine ⟨foreign_toObject converts, fun block _ => ⟨?_, fun _ _ => ?_⟩⟩
  · rw [BlockSubmission.notifyRefused]
    split_ifs
    · exact throwsOnly_ok _
    · exact (throwsOnly_map _ _).mpr (foreign_dereference _)
  · cases block with
    | none => exact throwsOnly_ok _
    | some given =>
        rw [BlockSubmission.firstTransaction]
        cases given.transactions with
        | none => exact (throwsOnly_error _).mpr Bool.false_ne_true
        | some transactions => exact throwsOnly_ok _

theorem foreign_submitBlock (call : SubmitCall) (share : BlockSubmission.Share) :
    Foreign (BlockSubmission.submitBlock share call.batch) := by
  simp only [BlockSubmission.submitBlock, throwsOnly_bind]
  refine ⟨foreign_executeBatchAny call.batch_foreign, fun results executes =>
    ⟨foreign_elementAt results 0, fun submitResult _ => ?_⟩⟩
  split_ifs
  · exact throwsOnly_pure _
  · rw [throwsOnly_bind]
    refine ⟨foreign_elementAt results 1, fun acceptResult isElement => ?_⟩
    apply foreign_checkAccepted
    intro exception fails
    rcases elementAt_ok.mp isElement with ⟨elements, rfl, isMember⟩
    rcases executeBatchAny_ok.mp executes with ⟨-, isNone⟩ | ⟨responses, isBatch, isSome⟩
    · cases isNone
    · cases isSome
      rcases List.mem_map.mp (List.mem_of_getElem? isMember) with ⟨response, isResponse, rfl⟩
      exact call.block_foreign _ isBatch response (List.mem_map_of_mem isResponse) exception fails

theorem foreign_blockReward (call : SubmitCall) (share : BlockSubmission.Share) :
    Foreign (BlockSubmission.blockReward share call.wallet) := by
  rw [BlockSubmission.blockReward, Foreign, throwsOnly_bind]
  constructor
  · rcases isReply : call.wallet with exception | response
    · exact (throwsOnly_error _).mpr (call.wallet_foreign exception isReply)
    · cases response with
      | none => exact throwsOnly_ok _
      | some response =>
          rw [executeCmdSingle, throwsOnly_bind]
          refine ⟨foreign_toObject (call.transaction_foreign response isReply), ?_⟩
          intro _ _
          exact throwsOnly_pure _
  · intro result _
    split
    · exact throwsOnly_pure _
    · rename_i transactionInfo _
      rw [BlockSubmission.firstAmount]
      split
      · exact (throwsOnly_error _).mpr Bool.false_ne_true
      · exact (throwsOnly_error _).mpr Bool.false_ne_true
      · exact (throwsOnly_error _).mpr Bool.false_ne_true
      · exact throwsOnly_ok _

section Completion

variable (manager : JobManager) (poolConfig : PoolConfig) (clusterName : Option Text)

theorem foreign_completeShare (call : SubmitCall) (workerValue : Text) (job : Job)
    (share : Blockchain.Share) :
    Foreign (BlockSubmission.completeShare manager poolConfig clusterName workerValue
      call.toRequest job share) := by
  rw [BlockSubmission.completeShare, Foreign, throwsOnly_bind, BlockSubmission.submitted]
  refine ⟨?_, fun _ _ => throwsOnly_pure _⟩
  split_ifs
  · rw [BlockSubmission.submitCandidate, throwsOnly_bind]
    refine ⟨foreign_submitBlock call _, ?_⟩
    rintro ⟨accepted, coinbaseTransaction⟩ _
    simp only
    split_ifs
    · rw [throwsOnly_bind]
      exact ⟨foreign_blockReward call _, fun _ _ => throwsOnly_pure _⟩
    · exact throwsOnly_pure _
  · exact throwsOnly_ok _

theorem completeShare_returns_iff {processed : Blockchain.Share} (request : BlockSubmission.Request)
    (workerValue : Text) (job : Job)
    (isHash : processed.isBlockCandidate = true → ∃ hash, processed.blockHash = some hash) :
    (∃ share, BlockSubmission.completeShare manager poolConfig clusterName workerValue request job
        processed = .ok share) ↔
      (processed.isBlockCandidate = true → BlockSubmission.Completes processed.blockHash request) := by
  simp only [BlockSubmission.completeShare, BlockSubmission.submitted, bind_eq_ok, pure_eq_ok]
  by_cases candidate : processed.isBlockCandidate = true
  · rcases isHash candidate with ⟨hash, hasHash⟩
    simp only [candidate, if_true, forall_const, hasHash]
    constructor
    · rintro ⟨share, given, isGiven, _⟩
      rcases (BlockSubmission.submitCandidate_ok_iff hasHash).mp isGiven with ⟨submitted, rest,
        isBatch, ⟨failed, -⟩ | ⟨succeeded, transactions, others, reward, isRest, isReward, -⟩⟩
      · exact ⟨submitted, rest, isBatch, .inl failed⟩
      · exact ⟨submitted, rest, isBatch, .inr ⟨succeeded, transactions, others, isRest,
          (BlockSubmission.blockReward_ok_iff _ _).mp ⟨reward, isReward⟩⟩⟩
    · rintro ⟨submitted, rest, isBatch, outcome⟩
      rcases outcome with failed | ⟨succeeded, transactions, others, isRest, answered⟩
      · exact ⟨_, _, (BlockSubmission.submitCandidate_ok_iff hasHash).mpr
          ⟨submitted, rest, isBatch, .inl ⟨failed, rfl⟩⟩, rfl⟩
      · rcases (BlockSubmission.blockReward_ok_iff { processed with } _).mpr answered with
          ⟨reward, isReward⟩
        exact ⟨_, _, (BlockSubmission.submitCandidate_ok_iff hasHash).mpr ⟨submitted, rest, isBatch,
          .inr ⟨succeeded, transactions, others, reward, isRest, isReward, rfl⟩⟩, rfl⟩
  · simp [candidate]

end Completion

/-! ## Which requests are handled -/

theorem processSubmission_result_iff {Request Validated Key Result : Type} [DecidableEq Key]
    {validate : Request → Except Exception Validated}
    {key : Request → Validated → Except Exception Key} {duplicate : Exception}
    {compute : Request → Validated → Except Exception Result} {submissions : Submissions Key}
    {request : Request} {result : Result} :
    (processSubmission validate key duplicate compute submissions request).2 = .ok result ↔
      ∃ validated submissionKey, validate request = .ok validated ∧
        key request validated = .ok submissionKey ∧ submissionKey ∉ submissions ∧
        compute request validated = .ok result := by
  constructor
  · intro returns
    rcases processSubmission_ok validate key duplicate compute (Prod.ext rfl returns :
      processSubmission validate key duplicate compute submissions request = (_, .ok result)) with
      ⟨validated, submissionKey, isValid, isKey, fresh, -, computes⟩
    exact ⟨validated, submissionKey, isValid, isKey, fresh, computes⟩
  · rintro ⟨validated, submissionKey, isValid, isKey, fresh, computes⟩
    simp only [processSubmission, isValid, isKey, registerSubmit, fresh, if_false, computes]

namespace Job

variable (environment : Environment) (job : Job)

def blockHash (work : Work) : Text := toHexString (headerHash environment work).reverse

theorem processShareInternal_candidate {submission : Submission} {validated : Validated}
    {work : Work} {share : Blockchain.Share} {blockHex : Option Text}
    (processes : job.processShareInternal environment submission validated =
      .ok (work, share, blockHex)) :
    job.decodeWork environment validated = .ok work ∧
      environment.equihashVerify work.header work.solution = true ∧
      (share.isBlockCandidate = true → headerValue environment work < job.blockTarget ∧
        share.blockHash = some (blockHash environment work)) := by
  simp only [processShareInternal, bind_eq_ok, throwIf_eq_ok] at processes
  rcases processes with ⟨decoded, decodes, isValid, verifies, _, valid, _, _, _, _, returned⟩
  have isTrue : environment.equihashVerify decoded.header decoded.solution = true := by
    rw [verifySolution] at verifies
    split_ifs at verifies
    cases verifies
    exact Bool.eq_true_of_not_eq_false valid
  split_ifs at returned with candidate
  · rw [pure_eq_ok] at returned
    cases returned
    refine ⟨decodes, isTrue, fun _ => ⟨?_, rfl⟩⟩
    exact of_decide_eq_true candidate
  · rw [pure_eq_ok] at returned
    cases returned
    refine ⟨decodes, isTrue, fun isBlock => ?_⟩
    cases isBlock

theorem processShareInternal_of_candidate {validated : Validated} {work : Work}
    (submission : Submission) (decodes : job.decodeWork environment validated = .ok work)
    (hundred : (hexToByteArray environment.culture validated.solution).length = 100)
    (valid : environment.equihashVerify work.header work.solution = true)
    (nonzero : headerValue environment work ≠ 0)
    (below : headerValue environment work < job.blockTarget) :
    ∃ share blockHex,
      job.processShareInternal environment submission validated = .ok (work, share, blockHex) ∧
        share.isBlockCandidate = true := by
  have verifies : verifySolution environment work = .ok true := by
    rw [job.verifySolution_of_decoded environment decodes, if_neg (not_not.mpr hundred), valid]
  have isBlock : decide (headerValue environment work < job.blockTarget) = true :=
    decide_eq_true below
  refine ⟨{
    blockHeight := job.blockHeader.height.toNat
    networkDifficulty := job.difficulty
    difficulty := submission.worker.difficulty.difficulty
    isBlockCandidate := true
    blockHash := some (blockHash environment work) },
    some (toHexString (work.header ++ work.solution)), ?_, rfl⟩
  simp only [processShareInternal, bind_eq_ok]
  refine ⟨work, decodes, true, verifies, (), (throwIf_eq_ok _ _ _).mpr (by decide),
    diff1 / headerValue environment work, if_neg nonzero,
    submission.worker.difficulty.difficulty, ?_, ?_⟩
  · change stratumDifficulty _ _ (decide (headerValue environment work < job.blockTarget)) = _
    rw [isBlock]
    rfl
  · exact if_pos isBlock

end Job

/-- The parameters can be read, as far as the checks of the job let them be: the time and the nonce
are numbers and the solution has 100 bytes, and the replies to a block are complete. -/
structure IsProcessable (environment : Environment) (active : ActiveJob)
    (submission : Submission) (request : BlockSubmission.Request) : Prop where
  extraNonce : submission.extraNonce.getD [] ≠ []
  nTime : submission.nTime.getD [] ≠ []
  time : ∀ nTime, submission.nTime = some nTime → nTime.length = 8 →
    ∃ number, parseUInt32 nTime = .ok number
  nonce : ∀ validated, active.job.validate submission = .ok validated →
    ∃ nonce, validated.nonce = some nonce
  work : ∀ validated key, active.job.validate submission = .ok validated →
    Job.registrationKey environment submission validated = .ok key → key ∉ active.submissions →
    (∃ nonce number, validated.nonce = some nonce ∧ parseUInt32 nonce = .ok number) ∧
      (hexToByteArray environment.culture validated.solution).length = 100
  block : ∀ validated key work, active.job.validate submission = .ok validated →
    Job.registrationKey environment submission validated = .ok key → key ∉ active.submissions →
    active.job.decodeWork environment validated = .ok work →
    environment.equihashVerify work.header work.solution = true →
    Job.headerValue environment work ≠ 0 ∧
      (Job.headerValue environment work < active.job.blockTarget →
        BlockSubmission.Completes (some (Job.blockHash environment work)) request)

def IsAccepted (environment : Environment) (active : ActiveJob) (submission : Submission)
    (request : BlockSubmission.Request) : Prop :=
  ∃ validated key work share blockHex, active.job.validate submission = .ok validated ∧
    Job.registrationKey environment submission validated = .ok key ∧ key ∉ active.submissions ∧
    active.job.processShareInternal environment submission validated =
      .ok (work, share, blockHex) ∧
    (share.isBlockCandidate = true →
      BlockSubmission.Completes (some (Job.blockHash environment work)) request)

section Requests

variable (manager : JobManager) (poolConfig : PoolConfig) (clusterName : Option Text)

theorem completeShare_answerable_iff {submission : Submission} {validated : Validated}
    {active : ActiveJob} {work : Job.Work} {share : Blockchain.Share} {blockHex : Option Text}
    (call : SubmitCall) (workerValue : Text)
    (processes : active.job.processShareInternal manager.environment submission validated =
      .ok (work, share, blockHex)) :
    (∃ completed, BlockSubmission.completeShare manager poolConfig clusterName workerValue
        call.toRequest active.job share = .ok completed) ↔
      (share.isBlockCandidate = true →
        BlockSubmission.Completes (some (Job.blockHash manager.environment work))
          call.toRequest) := by
  have facts := (active.job.processShareInternal_candidate manager.environment processes).2.2
  have hasHash : share.isBlockCandidate = true → ∃ hash, share.blockHash = some hash := by
    intro isBlock
    exact ⟨_, (facts isBlock).2⟩
  rw [completeShare_returns_iff manager poolConfig clusterName call.toRequest workerValue
    active.job hasHash]
  apply imp_congr_right
  intro isBlock
  rw [(facts isBlock).2]

theorem processed_returns_iff (call : SubmitCall) (workerValue : Text) (submission : Submission)
    (active : ActiveJob) :
    (∃ share, processed manager poolConfig clusterName call.toRequest workerValue submission
        active = .ok share) ↔
      IsAccepted manager.environment active submission call.toRequest := by
  simp only [processed, bind_eq_ok]
  constructor
  · rintro ⟨completed, ⟨work, share, blockHex⟩, returns, completes⟩
    rcases processSubmission_result_iff.mp returns with
      ⟨validated, key, isValid, isKey, fresh, processes⟩
    refine ⟨validated, key, work, share, blockHex, isValid, isKey, fresh, processes, ?_⟩
    exact (completeShare_answerable_iff manager poolConfig clusterName call workerValue
      processes).mp ⟨completed, completes⟩
  · rintro ⟨validated, key, work, share, blockHex, isValid, isKey, fresh, processes, complete⟩
    rcases (completeShare_answerable_iff manager poolConfig clusterName call workerValue
      processes).mpr complete with ⟨completed, completes⟩
    exact ⟨completed, (work, share, blockHex), processSubmission_result_iff.mpr
      ⟨validated, key, isValid, isKey, fresh, processes⟩, completes⟩

theorem processed_answerable_iff (call : SubmitCall) (workerValue : Text)
    (submission : Submission) (active : ActiveJob)
    (hasSolution : submission.solution.getD [] ≠ []) :
    Answerable (processed manager poolConfig clusterName call.toRequest workerValue submission
        active) ↔
      IsProcessable manager.environment active submission call.toRequest := by
  rw [processed, Answerable, throwsOnly_bind]
  have stages : ThrowsOnly (fun exception => exception.isStratum = true)
      (active.job.processShare manager.environment active.submissions submission).2 ↔ _ :=
    answerable_processSubmission_iff rfl
  rw [stages]
  have completes {validated : Validated} {work : Job.Work} {share : Blockchain.Share}
      {blockHex : Option Text}
      (processes : active.job.processShareInternal manager.environment submission validated =
        .ok (work, share, blockHex)) :=
    (throwsOnly_iff_returns (foreign_completeShare manager poolConfig clusterName call workerValue
      active.job share)).trans
      (completeShare_answerable_iff manager poolConfig clusterName call workerValue processes)
  constructor
  · rintro ⟨⟨validates, registers⟩, finishes⟩
    rcases (active.job.answerable_validate_iff submission).mp validates with
      ⟨extraNonce, nTime, -, time⟩
    have computes {validated : Validated} {key : Text}
        (isValid : active.job.validate submission = .ok validated)
        (isKey : Job.registrationKey manager.environment submission validated = .ok key)
        (fresh : key ∉ active.submissions) :=
      (active.job.answerable_processShareInternal_iff manager.environment submission validated).mp
        ((registers validated isValid).2 key isKey fresh)
    refine ⟨extraNonce, nTime, time, ?_, ?_, ?_⟩
    · intro validated isValid
      exact (Job.answerable_registrationKey_iff manager.environment submission validated).mp
        (registers validated isValid).1
    · intro validated key isValid isKey fresh
      have facts := computes isValid isKey fresh
      exact ⟨facts.1, facts.2.1⟩
    · intro validated key work isValid isKey fresh decodes valid
      have facts := computes isValid isKey fresh
      have nonzero := facts.2.2 work decodes valid
      refine ⟨nonzero, ?_⟩
      intro below
      rcases active.job.processShareInternal_of_candidate manager.environment submission decodes
        facts.2.1 valid nonzero below with ⟨share, blockHex, processes, isBlock⟩
      have finished := finishes (work, share, blockHex) (processSubmission_result_iff.mpr
        ⟨validated, key, isValid, isKey, fresh, processes⟩)
      exact (completes processes).mp finished isBlock
  · intro processable
    refine ⟨⟨?_, ?_⟩, ?_⟩
    · exact (active.job.answerable_validate_iff submission).mpr
        ⟨processable.extraNonce, processable.nTime, hasSolution, processable.time⟩
    · intro validated isValid
      refine ⟨(Job.answerable_registrationKey_iff manager.environment submission validated).mpr
        (processable.nonce validated isValid), ?_⟩
      intro key isKey fresh
      have facts := processable.work validated key isValid isKey fresh
      exact (active.job.answerable_processShareInternal_iff manager.environment submission
        validated).mpr ⟨facts.1, facts.2, fun work decodes valid =>
          (processable.block validated key work isValid isKey fresh decodes valid).1⟩
    · rintro ⟨work, share, blockHex⟩ returns
      rcases processSubmission_result_iff.mp returns with
        ⟨validated, key, isValid, isKey, fresh, processes⟩
      apply (completes processes).mpr
      intro isBlock
      rcases active.job.processShareInternal_candidate manager.environment processes with
        ⟨decodes, valid, candidate⟩
      exact (processable.block validated key work isValid isKey fresh decodes valid).2
        (candidate isBlock).1

end Requests

section Submittable

variable (settings : PoolSettings) (state : JobManager.State)

def Addresses (call : SubmitCall) (workerValue : Text) (submission : Submission)
    (active : ActiveJob) : Prop :=
  ∃ jobId, JobManager.readRequest (call.submitRequest BlockSubmission.unanswered) =
      .ok (workerValue, jobId, submission) ∧
    addressed state jobId = some active

def Submits (call : SubmitCall) : Prop :=
  call.hasId = true ∧ ∃ workerValue submission active,
    Addresses state call workerValue submission active ∧
    IsAccepted settings.manager.environment active submission call.toRequest

/-- The requests that are handled: the answer can be written, a request with an id is in time, has
its six parameters as strings and can be processed by the job that it names, an accepted share is
published and the difficulty adapted without an exception, and for any other share the pool has a
section on banning, with a positive time if a ban is due. -/
structure IsSubmittable (stats : ShareStats) (call : SubmitCall) : Prop where
  respond : call.respondFailure = none
  inTime : call.hasId = true → call.requestAge ≤ maxShareAge
  converts : call.hasId = true → call.conversionFailure = none
  params : call.hasId = true → ∃ submitParams, call.submitParams = some submitParams ∧
    6 ≤ submitParams.length
  processable : call.hasId = true → ∀ workerValue submission active,
    Addresses state call workerValue submission active →
    IsProcessable settings.manager.environment active submission call.toRequest
  publishes : Submits settings state call → Publishes call
  bans : ¬Submits settings state call → BansProperly settings stats call

theorem readRequest_solution {request : SubmitRequest} {workerValue : Text} {jobId : Option Text}
    {submission : Submission}
    (reads : JobManager.readRequest request = .ok (workerValue, jobId, submission)) :
    submission.solution.getD [] ≠ [] := by
  cases isParams : request.submitParams with
  | none =>
      rw [JobManager.readRequest, isParams] at reads
      cases reads
  | some submitParams =>
      simp only [JobManager.readRequest, isParams, bind_eq_ok] at reads
      rcases reads with ⟨first, -, _, -, _, -, _, -, _, -, solution, -, rest⟩
      cases first with
      | none => cases rest
      | some given =>
          simp only [Option.map_some, bind_eq_ok, throwIf_eq_ok, pure_eq_ok] at rest
          rcases rest with ⟨_, _, _, present, isResult⟩
          cases isResult
          exact present

theorem submitShare_answerable_iff {call : SubmitCall} {submitParams : List (Option Text)}
    (isParams : call.submitParams = some submitParams) :
    Answerable (BlockSubmission.submitShare settings.manager settings.poolConfig
        settings.clusterName state call.toRequest).2 ↔
      6 ≤ submitParams.length ∧ ∀ workerValue submission active,
        Addresses state call workerValue submission active →
        IsProcessable settings.manager.environment active submission call.toRequest := by
  have readsIff : ThrowsOnly (fun exception => exception.isStratum = true)
      (JobManager.readRequest (call.submitRequest BlockSubmission.unanswered)) ↔
        6 ≤ submitParams.length := answerable_readRequest_iff isParams
  rw [submitShare_result, Answerable, throwsOnly_bind, readsIff]
  apply and_congr_right
  intro _
  constructor
  · rintro answers workerValue submission active ⟨jobId, reads, isActive⟩
    have answered := answers (workerValue, jobId, submission) reads
    simp only [isActive] at answered
    exact (processed_answerable_iff settings.manager settings.poolConfig settings.clusterName call
      workerValue submission active (readRequest_solution reads)).mp answered
  · rintro processable ⟨workerValue, jobId, submission⟩ reads
    cases isActive : addressed state jobId with
    | none =>
        simp only [isActive]
        exact (throwsOnly_error _).mpr rfl
    | some active =>
        simp only [isActive]
        exact (processed_answerable_iff settings.manager settings.poolConfig settings.clusterName
          call workerValue submission active (readRequest_solution reads)).mpr
          (processable workerValue submission active ⟨jobId, reads, isActive⟩)

theorem submitShare_accepted_iff (call : SubmitCall) :
    (∃ share, (BlockSubmission.submitShare settings.manager settings.poolConfig
        settings.clusterName state call.toRequest).2 = .ok share) ↔
      ∃ workerValue submission active, Addresses state call workerValue submission active ∧
        IsAccepted settings.manager.environment active submission call.toRequest := by
  simp only [submitShare_result, bind_eq_ok]
  constructor
  · rintro ⟨share, ⟨workerValue, jobId, submission⟩, reads, returns⟩
    cases isActive : addressed state jobId with
    | none =>
        rw [isActive] at returns
        cases returns
    | some active =>
        rw [isActive] at returns
        refine ⟨workerValue, submission, active, ⟨jobId, reads, isActive⟩, ?_⟩
        exact (processed_returns_iff settings.manager settings.poolConfig settings.clusterName call
          workerValue submission active).mp ⟨share, returns⟩
  · rintro ⟨workerValue, submission, active, ⟨jobId, reads, isActive⟩, accepted⟩
    rcases (processed_returns_iff settings.manager settings.poolConfig settings.clusterName call
      workerValue submission active).mpr accepted with ⟨share, returns⟩
    refine ⟨share, (workerValue, jobId, submission), reads, ?_⟩
    rw [isActive]
    exact returns

theorem map_some_ok_iff {Result : Type} (outcome : Except Exception Result) (result : Result) :
    outcome.map some = .ok (some result) ↔ outcome = .ok result := by
  cases outcome with
  | error exception => simp [Except.map]
  | ok given => simp [Except.map]

theorem map_some_ne_none {Result : Type} (outcome : Except Exception Result) :
    outcome.map some ≠ .ok none := by
  cases outcome with
  | error exception => simp [Except.map]
  | ok given => simp [Except.map]

theorem handled_iff_isSubmittable (stats : ShareStats) (call : SubmitCall)
    (isAuthorized : call.isAuthorized = true) (isSubscribed : call.isSubscribed = true) :
    Handled stats (onSubmit settings state stats call) ↔
      IsSubmittable settings state stats call := by
  rw [onSubmit_handled_iff, attempt]
  cases hasId : call.hasId with
  | false =>
      have withoutId : ¬Submits settings state call := by
        rintro ⟨isTrue, -⟩
        rw [hasId] at isTrue
        cases isTrue
      simp only [if_true, throwsOnly_error, reduceCtorEq, exists_false, false_imp_iff,
        not_false_eq_true, forall_const, true_and]
      constructor
      · rintro ⟨respond, -, -, bans⟩
        refine ⟨respond, ?_, ?_, ?_, ?_, fun submits => absurd submits withoutId, fun _ => bans⟩
        all_goals simp [hasId]
      · intro submittable
        refine ⟨submittable.respond, ?_, rfl, submittable.bans withoutId⟩
        simp
  | true =>
      simp only [Bool.true_eq_false, if_false, isAuthorized, isSubscribed]
      by_cases late : maxShareAge < call.requestAge
      · simp only [late, if_true, ne_eq, not_true_eq_false, false_and, and_false, false_iff]
        intro submittable
        exact absurd (submittable.inTime hasId) (not_le.mpr late)
      · simp only [late, if_false]
        cases conversion : call.conversionFailure with
        | some exception =>
            have foreign := call.conversion_foreign exception conversion
            simp only [throwsOnly_error, foreign, Bool.false_eq_true, false_and, and_false,
              false_iff]
            intro submittable
            rw [submittable.converts hasId] at conversion
            cases conversion
        | none =>
            cases isParams : call.submitParams with
            | none =>
                simp only [throwsOnly_error, Exception.isStratum, Bool.false_eq_true, false_and,
                  and_false, false_iff]
                intro submittable
                rcases submittable.params hasId with ⟨submitParams, given, -⟩
                rw [isParams] at given
                cases given
            | some submitParams =>
                have answers := submitShare_answerable_iff settings state isParams
                have accepts : (∃ share, (BlockSubmission.submitShare settings.manager
                    settings.poolConfig settings.clusterName state call.toRequest).2 =
                      .ok share) ↔ Submits settings state call := by
                  rw [submitShare_accepted_iff, Submits, hasId, eq_self, true_and]
                rw [Answerable] at answers
                simp only [throwsOnly_map, answers, map_some_ok_iff, accepts]
                constructor
                · rintro ⟨respond, -, ⟨enough, processable⟩, publishes, bans⟩
                  exact ⟨respond, fun _ => not_lt.mp late, fun _ => conversion,
                    fun _ => ⟨submitParams, isParams, enough⟩, fun _ => processable,
                    publishes, bans⟩
                · intro submittable
                  rcases submittable.params hasId with ⟨given, isGiven, enough⟩
                  rw [isParams] at isGiven
                  cases isGiven
                  exact ⟨submittable.respond, map_some_ne_none _, ⟨enough,
                    submittable.processable hasId⟩, submittable.publishes, submittable.bans⟩

end Submittable

end ExchangeCoin

end Miningcore

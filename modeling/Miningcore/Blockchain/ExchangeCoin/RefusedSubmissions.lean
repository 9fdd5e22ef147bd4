import Miningcore.Blockchain.ExchangeCoin.SubmitRequests

/-! What a rejected ExchangeCoin submission leaves behind.

A request is registered before its solution is verified. The key has neither the time nor the
bytes that the parameters decode to, so that it may stand for other work than that of the request
that was rejected. -/

namespace Miningcore.ExchangeCoin

open StringExtensions

/-! ## Keys -/

def Validated.isHex (validated : Validated) : Bool :=
  validated.extraNonce.isHex && validated.solution.isHex && validated.nonce.all Text.isHex

theorem asciiLower_length (value : Text) : value.asciiLower.length = value.length :=
  List.length_map _

theorem Job.registrationKey_parts {environment : Environment} {left right : Validated}
    {leftNonce rightNonce : Text}
    (leftExtra : left.extraNonce.length = 24) (rightExtra : right.extraNonce.length = 24)
    (leftSolution : left.solution.length = 200) (rightSolution : right.solution.length = 200)
    (leftHex : left.isHex = true) (rightHex : right.isHex = true)
    (isLeft : left.nonce = some leftNonce) (isRight : right.nonce = some rightNonce)
    (same : environment.culture.toLower left.extraNonce ++ environment.culture.toLower leftNonce ++
        environment.culture.toLower left.solution =
      environment.culture.toLower right.extraNonce ++ environment.culture.toLower rightNonce ++
        environment.culture.toLower right.solution) :
    left.extraNonce.asciiLower = right.extraNonce.asciiLower ∧
      leftNonce.asciiLower = rightNonce.asciiLower ∧
      left.solution.asciiLower = right.solution.asciiLower := by
  simp only [Validated.isHex, Bool.and_eq_true, isLeft, isRight, Option.all_some]
    at leftHex rightHex
  rw [environment.culture.toLower_hex _ leftHex.1.1, environment.culture.toLower_hex _ leftHex.2,
    environment.culture.toLower_hex _ leftHex.1.2, environment.culture.toLower_hex _ rightHex.1.1,
    environment.culture.toLower_hex _ rightHex.2, environment.culture.toLower_hex _ rightHex.1.2]
    at same
  have lengths := congrArg List.length same
  simp only [List.length_append, asciiLower_length, leftExtra, rightExtra, leftSolution,
    rightSolution] at lengths
  have front : (left.extraNonce.asciiLower ++ leftNonce.asciiLower).length =
      (right.extraNonce.asciiLower ++ rightNonce.asciiLower).length := by
    simp only [List.length_append, asciiLower_length]
    omega
  rcases List.append_inj same front with ⟨sameFront, sameSolution⟩
  have first : left.extraNonce.asciiLower.length = right.extraNonce.asciiLower.length := by
    rw [asciiLower_length, asciiLower_length, leftExtra, rightExtra]
  rcases List.append_inj sameFront first with ⟨sameExtra, sameNonce⟩
  exact ⟨sameExtra, sameNonce, sameSolution⟩

theorem Job.decodeWork_eq_of_key {environment : Environment} (job : Job) {left right : Validated}
    {leftNonce rightNonce : Text}
    (leftHex : left.isHex = true) (rightHex : right.isHex = true)
    (isLeft : left.nonce = some leftNonce) (isRight : right.nonce = some rightNonce)
    (sameExtra : left.extraNonce.asciiLower = right.extraNonce.asciiLower)
    (sameNonce : leftNonce.asciiLower = rightNonce.asciiLower)
    (sameSolution : left.solution.asciiLower = right.solution.asciiLower)
    (sameTime : left.nTime = right.nTime) :
    job.decodeWork environment left = job.decodeWork environment right := by
  simp only [Validated.isHex, Bool.and_eq_true, isLeft, isRight, Option.all_some]
    at leftHex rightHex
  have extraNonce : hexToByteArray environment.culture left.extraNonce =
      hexToByteArray environment.culture right.extraNonce := by
    rw [hexToByteArray_of_isHex _ leftHex.1.1, hexToByteArray_of_isHex _ rightHex.1.1]
    exact hexPairs_congr _ _ leftHex.1.1 rightHex.1.1 sameExtra
  have solution : hexToByteArray environment.culture left.solution =
      hexToByteArray environment.culture right.solution := by
    rw [hexToByteArray_of_isHex _ leftHex.1.2, hexToByteArray_of_isHex _ rightHex.1.2]
    exact hexPairs_congr _ _ leftHex.1.2 rightHex.1.2 sameSolution
  have nonce : parseUInt32 leftNonce = parseUInt32 rightNonce := by
    rw [parseUInt32, parseUInt32, NumberParsing.parseHexNumber_congr 32 leftHex.2 rightHex.2
      sameNonce]
  rw [decodeWork, decodeWork, isLeft, isRight, sameTime, extraNonce, solution]
  simp only [dereference, bind, Except.bind, nonce]

/-! ## Runs -/

structure Refusal where
  job : Job
  validated : Validated
  key : Text

structure PoolState where
  manager : JobManager.State
  stats : Nat → ShareStats
  refusals : List Refusal

def PoolState.initial : PoolState where
  manager := JobManager.initial
  stats _ := .start
  refusals := []

inductive RequestEvent
  | updateJob (forceUpdate : Bool) (reply : GetWorkReply)
  | submit (call : SubmitCall)

/-- The request gets to `SubmitShareAsync`. -/
def SubmitCall.reaches (call : SubmitCall) : Bool :=
  call.hasId && decide (call.requestAge ≤ maxShareAge) && call.isAuthorized &&
    call.isSubscribed && call.conversionFailure.isNone

section Steps

variable (settings : PoolSettings)

def keyed (state : JobManager.State) (call : SubmitCall) :
    Option (ActiveJob × Validated × Text) :=
  if call.reaches then
    match JobManager.readRequest (call.submitRequest BlockSubmission.unanswered) with
    | .error _ => none
    | .ok (_, jobId, submission) =>
        (addressed state jobId).bind fun active =>
          match active.job.validate submission with
          | .error _ => none
          | .ok validated =>
              match Job.registrationKey settings.manager.environment submission validated with
              | .error _ => none
              | .ok key => some (active, validated, key)
  else none

def refusal (state : JobManager.State) (call : SubmitCall) : Option Refusal :=
  match keyed settings state call, (attempt settings state call).2 with
  | some (active, validated, key), .error _ =>
      if key ∈ active.submissions then none else some ⟨active.job, validated, key⟩
  | _, _ => none

def requestStep (state : PoolState) : RequestEvent → PoolState
  | .updateJob forceUpdate reply =>
      { state with manager := (settings.manager.updateJob state.manager forceUpdate reply).1 }
  | .submit call =>
      let outcome := onSubmit settings state.manager (state.stats call.client) call
      { manager := outcome.manager
        stats := fun client => if client = call.client then outcome.stats else state.stats client
        refusals := state.refusals ++ (refusal settings state.manager call).toList }

def received (state : PoolState) : RequestEvent → Option (PoolState × SubmitCall)
  | .updateJob _ _ => none
  | .submit call => some (state, call)

/-- A request that is rejected as a duplicate of one that was rejected itself decodes to the same
header and solution. -/
def NotMisled (state : PoolState) (call : SubmitCall) : Prop :=
  ∀ active validated key, keyed settings state.manager call = some (active, validated, key) →
    (attempt settings state.manager call).2 =
      .error (.stratum .duplicateShare "duplicate share") →
    ∀ refused ∈ state.refusals, refused.job = active.job → refused.key = key →
      ∀ work, active.job.decodeWork settings.manager.environment validated = .ok work →
        refused.job.decodeWork settings.manager.environment refused.validated = .ok work

/-- The parameters are spelled with digits, and a request with the key of a rejected one has its
time, too. -/
def IsPlain (state : PoolState) : RequestEvent → Prop
  | .updateJob _ _ => True
  | .submit call => ∀ active validated key,
      keyed settings state.manager call = some (active, validated, key) →
      validated.isHex = true ∧ ∀ refused ∈ state.refusals, refused.job = active.job →
        refused.key = key → refused.validated.nTime = validated.nTime

structure Registered (environment : Environment) (validated : Validated) (key : Text) : Prop where
  extraNonce : validated.extraNonce.length = 24
  solution : validated.solution.length = 200
  nonce : ∃ nonce, validated.nonce = some nonce ∧
    key = environment.culture.toLower validated.extraNonce ++ environment.culture.toLower nonce ++
      environment.culture.toLower validated.solution

theorem keyed_registered {state : JobManager.State} {call : SubmitCall} {active : ActiveJob}
    {validated : Validated} {key : Text}
    (isKeyed : keyed settings state call = some (active, validated, key)) :
    Registered settings.manager.environment validated key := by
  rw [keyed] at isKeyed
  split_ifs at isKeyed
  cases reads : JobManager.readRequest (call.submitRequest BlockSubmission.unanswered) with
  | error exception =>
      rw [reads] at isKeyed
      cases isKeyed
  | ok given =>
      rcases given with ⟨workerValue, jobId, submission⟩
      simp only [reads] at isKeyed
      rcases Option.bind_eq_some_iff.mp isKeyed with ⟨found, -, rest⟩
      cases isValid : found.job.validate submission with
      | error exception =>
          rw [isValid] at rest
          cases rest
      | ok checked =>
          simp only [isValid] at rest
          cases isKey : Job.registrationKey settings.manager.environment submission checked with
          | error exception =>
              rw [isKey] at rest
              cases rest
          | ok registered =>
              rw [isKey] at rest
              cases rest
              rcases active.job.validate_ok isValid with ⟨-, -, -, extraNonce, solution⟩
              simp only [Job.registrationKey, bind_eq_ok, dereference_eq_ok, pure_eq_ok] at isKey
              rcases isKey with ⟨nonce, isNonce, rfl⟩
              exact ⟨extraNonce, solution, nonce, isNonce, rfl⟩

def RefusalsPlain (state : PoolState) : Prop :=
  ∀ refused ∈ state.refusals, refused.validated.isHex = true ∧
    Registered settings.manager.environment refused.validated refused.key

theorem requestStep_refusalsPlain (state : PoolState) (event : RequestEvent)
    (plain : IsPlain settings state event) (holds : RefusalsPlain settings state) :
    RefusalsPlain settings (requestStep settings state event) := by
  cases event with
  | updateJob forceUpdate reply => exact holds
  | submit call =>
      intro refused isRefused
      rcases List.mem_append.mp isRefused with old | new
      · exact holds refused old
      · have isRefusal := Option.mem_toList.mp new
        rw [refusal] at isRefusal
        split at isRefusal
        · rename_i active validated key exception isKeyed _
          split_ifs at isRefusal
          cases isRefusal
          exact ⟨(plain active validated key isKeyed).1, keyed_registered settings isKeyed⟩
        · cases isRefusal

theorem notMisled_of_isPlain {state : PoolState} {call : SubmitCall}
    (plain : IsPlain settings state (.submit call)) (holds : RefusalsPlain settings state) :
    NotMisled settings state call := by
  intro active validated key isKeyed _ refused isRefused sameJob sameKey work decodes
  rcases plain active validated key isKeyed with ⟨hex, times⟩
  have now := keyed_registered settings isKeyed
  rcases holds refused isRefused with ⟨refusedHex, before⟩
  rcases now.nonce with ⟨nonce, isNonce, isKey⟩
  rcases before.nonce with ⟨refusedNonce, isRefusedNonce, isRefusedKey⟩
  rw [isRefusedKey, isKey] at sameKey
  rcases Job.registrationKey_parts before.extraNonce now.extraNonce before.solution now.solution
    refusedHex hex isRefusedNonce isNonce sameKey with ⟨sameExtra, sameNonce, sameSolution⟩
  have sameTime := times refused isRefused sameJob (isRefusedKey.trans (sameKey.trans isKey.symm))
  rw [sameJob, active.job.decodeWork_eq_of_key refusedHex hex isRefusedNonce isNonce sameExtra
    sameNonce sameSolution sameTime]
  exact decodes

/-- Every request of an authorized, subscribed worker is handled exactly if it is submittable; and
in every run in which the parameters are spelled with digits and the key of a rejected request
comes with its time, no rejected request makes other work a duplicate. -/
theorem requests_handled_iff :
    (∀ state stats call, call.isAuthorized = true → call.isSubscribed = true →
      (Handled stats (onSubmit settings state stats call) ↔
        IsSubmittable settings state stats call)) ∧
      ∀ events, Run.Along (requestStep settings) (IsPlain settings) .initial events →
        ∀ submitted ∈ Run.emitted (requestStep settings) received .initial events,
          NotMisled settings submitted.1 submitted.2 := by
  constructor
  · intro state stats call isAuthorized isSubscribed
    exact handled_iff_isSubmittable settings state stats call isAuthorized isSubscribed
  · intro events plain
    apply Run.emitted_forall_along (requestStep settings) received (IsPlain settings)
      (RefusalsPlain settings) (requestStep_refusalsPlain settings)
      (fun submitted => NotMisled settings submitted.1 submitted.2) _ .initial _ events plain
    · intro state event submitted now holds isSubmitted
      cases event with
      | updateJob forceUpdate reply => cases isSubmitted
      | submit call =>
          cases isSubmitted
          exact notMisled_of_isPlain settings now holds
    · intro refused isRefused
      cases isRefused

end Steps

/-! ## Requests to the sample job -/

namespace SampleShare

def settings : PoolSettings where
  manager
  poolConfig
  clusterName := none
  banning := some { enabled := true, checkThreshold := 50, invalidPercent := 50, time := 600 }
  banOnInvalidShares := some none
  divide := (· / ·)

/-- A request of one worker, with the replies that the sample block gets. -/
def call (submitParams : List (Option Text)) : SubmitCall :=
  { blockRequest blockFound coinbaseFound with
    submitParams := some submitParams
    client := 0
    hasId := true
    requestAge := 0
    isAuthorized := true
    isSubscribed := true
    conversionFailure := none
    respondFailure := none
    publishFailure := none
    varDiffFailure := none
    disconnectFailure := none
    conversion_foreign := nofun
    batch_foreign := nofun
    block_foreign := by
      intro elements isBatch response isResponse exception fails
      cases isBatch
      rcases List.mem_cons.mp isResponse with first | isResponse
      · cases first
        cases fails
      · cases List.mem_singleton.mp isResponse
        cases fails
    wallet_foreign := nofun
    transaction_foreign := by
      intro response isReply exception fails
      cases isReply
      cases fails }

def submitParams (nTime : Text) (given : Bytes) : List (Option Text) :=
  [some (text "miner.rig"), some (text "00000001"), submission.extraNonce, some nTime,
    submission.nonce, some (toHexString given)]

def right : SubmitCall := call (submitParams (text "5b0000f2") solution)

def early : SubmitCall := call (submitParams (text "5b0000f3") solution)

def wrong : SubmitCall := call (submitParams (text "5b0000f2") (List.replicate 100 0))

def truncated : SubmitCall := call ((submitParams (text "5b0000f2") solution).take 5)

def events (calls : List SubmitCall) : List RequestEvent :=
  .updateJob false (.work blockHeader.write) :: calls.map .submit

def withJob : JobManager.State :=
  (requestStep settings .initial (.updateJob false (.work blockHeader.write))).manager

def outcomes (calls : List SubmitCall) : List SubmitOutcome :=
  (Run.emitted (requestStep settings) received .initial (events calls)).map fun submitted =>
    onSubmit settings submitted.1.manager (submitted.1.stats submitted.2.client) submitted.2

def results (calls : List SubmitCall) : List (List Answer × Option Exception) :=
  (outcomes calls).map fun outcome => (outcome.answers, outcome.thrown)

theorem isPlain_of_all {state : PoolState} {given : SubmitCall}
    (all : (keyed settings state.manager given).all (fun entry => entry.2.1.isHex &&
      state.refusals.all fun refused => refused.validated.nTime == entry.2.1.nTime) = true) :
    IsPlain settings state (.submit given) := by
  intro active validated key isKeyed
  rw [isKeyed, Option.all_some, Bool.and_eq_true, List.all_eq_true] at all
  refine ⟨all.1, ?_⟩
  intro refused isRefused _ _
  exact beq_iff_eq.mp (all.2 refused isRefused)

def fiftyRejected : ShareStats where
  validShares := 0
  invalidShares := 50

def withoutTime : PoolSettings := { settings with
  banning := some { enabled := true, checkThreshold := 50, invalidPercent := 50, time := 0 } }

end SampleShare

open SampleShare

theorem requests_handled_iff_sample :
    IsSubmittable SampleShare.settings withJob .start right ∧
      IsSubmittable SampleShare.settings withJob fiftyRejected wrong ∧
      ∀ submitted ∈ Run.emitted (requestStep SampleShare.settings) received .initial
          (events [wrong, wrong]),
        NotMisled SampleShare.settings submitted.1 submitted.2 := by
  have handledIff := (requests_handled_iff SampleShare.settings).1 withJob
  have notMisled := (requests_handled_iff SampleShare.settings).2 (events [wrong, wrong])
  refine ⟨?_, ?_, ?_⟩
  · rw [← handledIff .start right rfl rfl]
    have counted : (onSubmit SampleShare.settings withJob .start right).stats =
        { ShareStats.start with validShares := 1 } := by
      decide +kernel
    have unharmed : (onSubmit SampleShare.settings withJob .start right).thrown = none := by
      decide +kernel
    have single : (onSubmit SampleShare.settings withJob .start right).published.length = 1 := by
      decide +kernel
    rcases List.length_eq_one_iff.mp single with ⟨share, published⟩
    exact ⟨unharmed, .inl ⟨share, published, counted⟩⟩
  · rw [← handledIff fiftyRejected wrong rfl rfl]
    refine ⟨?_, .inr ⟨.stratum .other "invalid solution", rfl, ?_, ?_, ?_⟩⟩
    · decide +kernel
    · exact List.length_eq_zero_iff.mp (by decide +kernel)
    · decide +kernel
    · decide +kernel
  · apply notMisled
    refine ⟨trivial, isPlain_of_all ?_, isPlain_of_all ?_, trivial⟩
    · decide +kernel
    · decide +kernel

/-- With five parameters, and with a time that is no number, other exceptions leave the handler, and
so does one for a ban without a time; and after a request with the time of another second the right
one is a duplicate. -/
theorem requests_unhandled :
    (onSubmit SampleShare.settings withJob .start truncated).thrown = some .indexOutOfRange ∧
      ¬Handled .start (onSubmit SampleShare.settings withJob .start truncated) ∧
      results [call (submitParams (text "5b0000g2") solution)] = [([], some .format)] ∧
      (onSubmit withoutTime withJob fiftyRejected wrong).thrown =
        some (.argument "duration must not be empty") ∧
      results [right] = [([.accepted], none)] ∧
      results [early, right] =
        [([.rejected (.stratum .other "invalid solution")], none),
          ([.rejected (.stratum .duplicateShare "duplicate share")], none)] := by
  have thrown : (onSubmit SampleShare.settings withJob .start truncated).thrown =
      some .indexOutOfRange := by
    decide
  refine ⟨thrown, ?_, ?_, ?_, ?_, ?_⟩
  · intro handled
    rw [handled.1] at thrown
    cases thrown
  · decide +kernel
  · decide +kernel
  · decide +kernel
  · decide +kernel

end Miningcore.ExchangeCoin

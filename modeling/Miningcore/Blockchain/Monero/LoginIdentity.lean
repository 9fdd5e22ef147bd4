import Miningcore.Blockchain.Monero.Pool
import Miningcore.Blockchain.ExchangeCoin.SubmitRequests
import Miningcore.Payments.MoneroPayout
import Miningcore.Payments.Pplns
import Miningcore.Stratum.Connection

/-! `MoneroPool.OnLoginAsync`: who the shares of a connection are credited to.

The name and the payment id of a login are kept in the context, go with every share into the
database, make the key that its reward is booked under, and are taken out of the key again when it
is paid. -/

namespace Miningcore.Monero

open Miningcore.Configuration
open Payments.Monero (LibCryptonote MoneroNetworkType addressPrefix addressPrefixIntegrated
  paymentIdHexLength extractAddressAndPaymentId)

/-- `MoneroLoginRequest`. -/
structure LoginRequest where
  login : Option Text
  password : Option Text
  userAgent : Option Text

/-- A login, with what the handler finds: the parameters, if they can be read, and the job that is
prepared for the answer. -/
structure Login where
  hasRequestId : Bool
  params : Except Exception (Option LoginRequest)
  taken : Nat
  prepared : Except Exception (Option (UInt32 × UInt32))

inductive Answer
  | error (message : String)
  | response
deriving DecidableEq

/-- `MoneroWorkerContext`, without the jobs. -/
structure Context extends Stratum.WorkerContext where
  paymentId : Option Text := none
  userAgent : Option Text := none

/-- A connection of the pool. The last login and its answer are history. After an exception that
no handler catches no more of its requests are read. -/
structure Session where
  connection : Connection
  context : Context
  isOpen : Bool := true
  lastLogin : Option (Login × Except Exception Answer) := none

structure Pool where
  id : Text
  coin : CoinType
  networkType : MoneroNetworkType
  library : LibCryptonote

def Pool.validateAddress (pool : Pool) (address : Text) : Except Exception Bool := do
  throwIf (address = []) (.argument "address must not be empty")
  return pool.library.decodeAddress address = addressPrefix pool.networkType pool.coin ∨
    pool.library.decodeIntegratedAddress address =
      addressPrefixIntegrated pool.networkType pool.coin

/-! ## Logins -/

def isNullOrEmpty (value : Option Text) : Bool := value.all List.isEmpty

def loginName (login : Text) : Text := Text.trim ((login.split 46).headD [])

def splitName (name : Text) : Text × Option Text :=
  match name.dropWhile (· ≠ 35) with
  | [] => (name, none)
  | _ :: paymentId => (Text.trim (name.takeWhile (· ≠ 35)), some (Text.trim paymentId))

def Context.withNames (context : Context) (request : LoginRequest) (login : Text) : Context :=
  let (minerName, paymentId) := splitName (loginName login)
  { context with
    minerName := some minerName
    workerName := (login.split 46)[1]?.map Text.trim
    userAgent := request.userAgent.map Text.trim
    paymentId := paymentId.or context.paymentId }

def Context.withPassword (context : Context) (password : Option Text) : Context :=
  match password.bind fun password => Stratum.getStaticDiffFromPassparts (password.split 59) with
  | none => context
  | some staticDiff =>
      { context with toWorkerContext := Stratum.applyStaticDiff context.toWorkerContext staticDiff }

variable (pool : Pool)

/-- `OnLoginAsync` for a login that is there. -/
def Session.logIn (session : Session) (event : Login) (request : LoginRequest) (login : Text) :
    Session × Except Exception Answer :=
  let named := session.context.withNames request login
  match pool.validateAddress (named.minerName.getD []) with
  | .error exception => ({ session with context := named }, .error exception)
  | .ok result =>
      let context := { named with isSubscribed := result, isAuthorized := result }
      if result = false then
        ({ session with context }, .ok (.error "invalid login"))
      else if !isNullOrEmpty context.paymentId &&
          context.paymentId.any (·.length ≠ paymentIdHexLength) then
        ({ session with context }, .ok (.error "invalid payment id"))
      else
        let context := context.withPassword request.password
        match event.prepared with
        | .error exception => ({ session with context }, .error exception)
        | .ok prepared =>
            ({ session with
              context
              connection := session.connection.createWorkerJob event.taken context.difficulty
                prepared }, .ok .response)

def Session.onLogin (session : Session) (event : Login) : Session × Except Exception Answer :=
  if event.hasRequestId = false then (session, .ok (.error "missing request id"))
  else
    match event.params with
    | .error exception => (session, .error exception)
    | .ok none => (session, .ok (.error "missing login"))
    | .ok (some request) =>
        if isNullOrEmpty request.login then (session, .ok (.error "missing login"))
        else session.logIn pool event request (request.login.getD [])

/-! ## Shares -/

structure SubmitCall where
  hasRequestId : Bool
  isTooOld : Bool
  params : Option SubmitShareRequest
  currentJob : Option Job
  blockAccepted : Except Exception Bool
  created : Int
  ts : ℚ

inductive Session.Event
  | login (event : Login)
  | submit (call : SubmitCall)
  | createWorkerJob (taken : Nat) (prepared : Option (UInt32 × UInt32))

structure Credit where
  share : Persistence.Share
  lastLogin : Option (Login × Except Exception Answer)

namespace Session

variable (environment : Environment)

/-- What `OnSubmitAsync` reads. -/
def submission (session : Session) (call : SubmitCall) : Submit where
  hasRequestId := call.hasRequestId
  isTooOld := call.isTooOld
  params := call.params
  isAuthorized := session.context.isAuthorized
  worker := session.context.forShares.difficulty
  minerName := session.context.minerName
  workerName := session.context.workerName
  currentJob := call.currentJob
  blockAccepted := call.blockAccepted

/-- The fields that `SubmitShareAsync` takes from the context and that the payouts read. -/
def record (session : Session) (call : SubmitCall) (acceptance : AcceptedShare) :
    Persistence.Share where
  poolId := pool.id
  miner := acceptance.share.miner.getD []
  payoutInfo := session.context.paymentId
  difficulty := acceptance.share.difficulty
  networkDifficulty := acceptance.share.networkDifficulty
  created := call.created

/-- `OnSubmitAsync`. An accepted share may change the difficulty. -/
def onSubmit (session : Session) (call : SubmitCall) : Session :=
  let (connection, result) := session.connection.onSubmit environment (session.submission call)
  match result with
  | none => session
  | some (.error exception) => { session with connection, isOpen := exception.isStratum }
  | some (.ok _) =>
      { session with
        connection
        context := { session.context with
          toWorkerContext := Stratum.updateVarDiff session.context.toWorkerContext call.ts
            call.created false } }

def step (session : Session) (event : Event) : Session :=
  if session.isOpen then
    match event with
    | .login login =>
        let (next, answer) := session.onLogin pool login
        { next with isOpen := answer.toOption.isSome, lastLogin := some (login, answer) }
    | .submit call => session.onSubmit environment call
    | .createWorkerJob taken prepared =>
        { session with
          connection := session.connection.createWorkerJob taken session.context.difficulty
            prepared }
  else session

def credited (session : Session) : Event → Option Credit
  | .submit call =>
      if session.isOpen then
        ((session.connection.onSubmit environment (session.submission call)).2.bind
          Except.toOption).map fun acceptance =>
            { share := session.record pool call acceptance, lastLogin := session.lastLogin }
      else none
  | _ => none

def initial (endpoint : PoolEndpoint) (connectionId : Text) (currentJobId : Nat) : Session where
  connection := Connection.initial connectionId currentJobId
  context := { Stratum.WorkerContext.init endpoint with }

def after (endpoint : PoolEndpoint) (connectionId : Text) (currentJobId : Nat)
    (events : List Event) : Session :=
  Run.final (step pool environment) (initial endpoint connectionId currentJobId) events

def credits (endpoint : PoolEndpoint) (connectionId : Text) (currentJobId : Nat)
    (events : List Event) : List Credit :=
  Run.emitted (step pool environment) (credited pool environment)
    (initial endpoint connectionId currentJobId) events

end Session

/-! ## Identity -/

def Login.isIncomplete (event : Login) : Bool :=
  !event.hasRequestId || match event.params with
    | .error _ => false
    | .ok params => isNullOrEmpty (params.bind LoginRequest.login)

def Login.text (event : Login) : Option Text :=
  if event.isIncomplete then none else (event.params.toOption.join).bind LoginRequest.login

def loginIdentity (login : Text) : Text × Option Text :=
  let (address, paymentId) := splitName (loginName login)
  (address, paymentId.filter (· ≠ []))

def Credit.lastIdentity (credit : Credit) : Option (Text × Option Text) :=
  match credit.lastLogin with
  | some (event, .ok .response) => event.text.map loginIdentity
  | _ => none

/-- The last login has been accepted, and the payouts take what it names out of the key that the
rewards for the share are booked under. -/
def Credit.IsOfLastLogin (credit : Credit) : Prop :=
  credit.lastIdentity = some (extractAddressAndPaymentId credit.share.address)

instance : DecidablePred Credit.IsOfLastLogin := fun _ => inferInstanceAs (Decidable (_ = _))

/-- A login has a payment id of the right length, or an empty one; or it has none, and the context
has none of another login. -/
def Context.admits (context : Context) (login : Text) : Bool :=
  match (splitName (loginName login)).2 with
  | none => isNullOrEmpty context.paymentId
  | some paymentId => paymentId = [] ∨ paymentId.length = paymentIdHexLength

/-- What a step has to meet: a request that is not complete comes while the worker is not
authorized, and the context admits a login with an address of the network. -/
def Session.Admissible (session : Session) : Session.Event → Prop
  | .login event =>
      (event.isIncomplete = true → session.context.isAuthorized = false) ∧
        ∀ login ∈ event.text,
          (pool.validateAddress (loginIdentity login).1).toOption = some true →
            session.context.admits login = true
  | _ => True

instance (session : Session) : (event : Session.Event) → Decidable (session.Admissible pool event)
  | .login _ => inferInstanceAs (Decidable ((_ → _) ∧ ∀ _ ∈ _, _ → _))
  | .submit _ => .isTrue trivial
  | .createWorkerJob _ _ => .isTrue trivial

theorem not_mem_head_splitOn (separator : CodeUnit) (value : Text) :
    separator ∉ (Text.split separator value).headD [] := by
  induction value with
  | nil => simp [Text.split]
  | cons unit rest induction =>
      rw [Text.split, List.splitOn] at induction ⊢
      rw [List.splitOnP_cons_eq_if_modifyHead]
      split_ifs with isSeparator
      · exact List.not_mem_nil
      · cases parts : rest.splitOnP (· == separator) with
        | nil => exact List.not_mem_nil
        | cons first others =>
            rw [parts] at induction
            rw [List.modifyHead_cons, List.headD_cons, List.mem_cons]
            rintro (rfl | inFirst)
            · exact isSeparator (beq_self_eq_true separator)
            · exact induction inFirst

theorem mem_of_mem_trim {unit : CodeUnit} {value : Text} (member : unit ∈ value.trim) :
    unit ∈ value := by
  rw [Text.trim, List.mem_reverse] at member
  have reversed := (List.dropWhile_sublist _).mem member
  rw [List.mem_reverse] at reversed
  exact (List.dropWhile_sublist _).mem reversed

theorem not_mem_loginName (login : Text) : 46 ∉ loginName login := by
  intro member
  exact not_mem_head_splitOn 46 login (mem_of_mem_trim member)

theorem not_mem_splitName {name : Text} (absent : 46 ∉ name) : 46 ∉ (splitName name).1 := by
  rw [splitName]
  split
  · exact absent
  · intro member
    exact absent ((List.takeWhile_sublist _).mem (mem_of_mem_trim member))

theorem extract_of_absent {address : Text} (absent : 46 ∉ address) :
    extractAddressAndPaymentId address = (address, none) := by
  have nothing : address.dropWhile (· ≠ Payments.Monero.payoutInfoSeperator) = [] := by
    rw [List.dropWhile_eq_nil_iff]
    intro unit member
    rw [decide_eq_true_eq]
    rintro rfl
    exact absent member
  rw [extractAddressAndPaymentId, nothing]

theorem extract_append {address : Text} (absent : 46 ∉ address) (paymentId : Text) :
    extractAddressAndPaymentId (address ++ 46 :: paymentId) =
      (address, if paymentId.length = paymentIdHexLength then some paymentId else none) := by
  have passes : ∀ unit ∈ address,
      decide (unit ≠ Payments.Monero.payoutInfoSeperator) = true := by
    intro unit member
    rw [decide_eq_true_eq]
    rintro rfl
    exact absent member
  have rest : (address ++ 46 :: paymentId).dropWhile
      (· ≠ Payments.Monero.payoutInfoSeperator) = 46 :: paymentId := by
    rw [List.dropWhile_append_of_pos passes]
    rfl
  have front : (address ++ 46 :: paymentId).takeWhile
      (· ≠ Payments.Monero.payoutInfoSeperator) = address := by
    rw [List.takeWhile_append_of_pos passes]
    exact List.append_nil address
  rw [extractAddressAndPaymentId, rest, front]

theorem extract_address (share : Persistence.Share) (absent : 46 ∉ share.miner)
    (fits : ∀ paymentId ∈ share.payoutInfo.filter (· ≠ []),
      paymentId.length = paymentIdHexLength) :
    extractAddressAndPaymentId share.address =
      (share.miner, share.payoutInfo.filter (· ≠ [])) := by
  rw [Persistence.Share.address]
  cases given : share.payoutInfo with
  | none => exact extract_of_absent absent
  | some paymentId =>
      cases paymentId with
      | nil => exact extract_of_absent absent
      | cons unit rest =>
          have length := fits (unit :: rest) (by rw [given]; rfl)
          exact (extract_append absent (unit :: rest)).trans (by rw [if_pos length]; rfl)

namespace Session

variable {pool} {environment : Environment} {session : Session}

structure Carries (context : Context) (login : Text) : Prop where
  minerName : context.minerName = some (loginIdentity login).1
  paymentId : context.paymentId.filter (· ≠ []) = (loginIdentity login).2
  fits : ∀ paymentId ∈ (loginIdentity login).2, paymentId.length = paymentIdHexLength

theorem Carries.of_same {context next : Context} {login : Text} (carries : Carries context login)
    (minerName : next.minerName = context.minerName)
    (paymentId : next.paymentId = context.paymentId) : Carries next login := by
  refine ⟨?_, ?_, carries.fits⟩
  · rw [minerName, carries.minerName]
  · rw [paymentId, carries.paymentId]

structure Sound (session : Session) : Prop where
  noLogin : session.lastLogin = none → session.context.isAuthorized = false
  refused : ∀ event message, session.lastLogin = some (event, .ok (.error message)) →
    session.context.isAuthorized = false
  broken : ∀ event exception, session.lastLogin = some (event, .error exception) →
    session.isOpen = false
  carries : ∀ event, session.lastLogin = some (event, .ok .response) →
    ∃ login, event.text = some login ∧ Carries session.context login

theorem sound_initial (endpoint : PoolEndpoint) (connectionId : Text) (currentJobId : Nat) :
    (initial endpoint connectionId currentJobId).Sound where
  noLogin _ := rfl
  refused _ _ impossible := by cases impossible
  broken _ _ impossible := by cases impossible
  carries _ impossible := by cases impossible

theorem Sound.of_same {next : Session} (sound : session.Sound)
    (lastLogin : next.lastLogin = session.lastLogin)
    (isOpen : session.isOpen = false → next.isOpen = false)
    (isAuthorized : next.context.isAuthorized = session.context.isAuthorized)
    (minerName : next.context.minerName = session.context.minerName)
    (paymentId : next.context.paymentId = session.context.paymentId) : next.Sound := by
  constructor
  · rw [lastLogin, isAuthorized]
    exact sound.noLogin
  · rw [lastLogin, isAuthorized]
    exact sound.refused
  · intro event exception isLast
    rw [lastLogin] at isLast
    exact isOpen (sound.broken event exception isLast)
  · intro event isLast
    rw [lastLogin] at isLast
    rcases sound.carries event isLast with ⟨login, isText, carries⟩
    exact ⟨login, isText, carries.of_same minerName paymentId⟩

/-! ### Logins -/

theorem filter_eq_none_of_isNullOrEmpty {value : Option Text}
    (isEmpty : isNullOrEmpty value = true) : value.filter (· ≠ []) = none := by
  cases value with
  | none => rfl
  | some value =>
      cases value with
      | nil => rfl
      | cons unit rest => cases isEmpty

theorem withNames_carries (context : Context) (request : LoginRequest) {login : Text}
    (admits : context.admits login = true) : Carries (context.withNames request login) login := by
  rw [Context.admits] at admits
  cases found : (splitName (loginName login)).2 with
  | none =>
      rw [found] at admits
      have identity : (loginIdentity login).2 = none := by
        simp only [loginIdentity, found, Option.filter_none]
      have kept : (context.withNames request login).paymentId = context.paymentId := by
        simp only [Context.withNames, found, Option.none_or]
      refine ⟨rfl, ?_, ?_⟩
      · rw [identity, kept]
        exact filter_eq_none_of_isNullOrEmpty admits
      · rw [identity]
        intro paymentId impossible
        cases impossible
  | some paymentId =>
      rw [found, decide_eq_true_eq] at admits
      have identity : (loginIdentity login).2 = (some paymentId).filter (· ≠ []) := by
        simp only [loginIdentity, found]
      have given : (context.withNames request login).paymentId = some paymentId := by
        simp only [Context.withNames, found, Option.some_or]
      refine ⟨rfl, ?_, ?_⟩
      · rw [identity, given]
      · rw [identity]
        intro other member
        rw [Option.mem_def, Option.filter_eq_some_iff] at member
        rcases member with ⟨same, nonempty⟩
        cases same
        rcases admits with isEmpty | fits
        · rw [isEmpty] at nonempty
          cases nonempty
        · exact fits

theorem Carries.passes {context : Context} {login : Text} (carries : Carries context login) :
    (!isNullOrEmpty context.paymentId &&
      context.paymentId.any (·.length ≠ paymentIdHexLength)) = false := by
  have fits := carries.fits
  rw [← carries.paymentId] at fits
  cases given : context.paymentId with
  | none => rfl
  | some paymentId =>
      cases paymentId with
      | nil => rfl
      | cons unit rest =>
          rw [given] at fits
          have length : (unit :: rest).length = paymentIdHexLength := fits _ rfl
          simp [length]

theorem withPassword_minerName (context : Context) (password : Option Text) :
    (context.withPassword password).minerName = context.minerName := by
  rw [Context.withPassword]
  split
  · rfl
  · exact (Stratum.WorkerContext.applyStaticDiff_identity _ _).2

theorem withPassword_paymentId (context : Context) (password : Option Text) :
    (context.withPassword password).paymentId = context.paymentId := by
  rw [Context.withPassword]
  split
  · rfl
  · rfl

theorem logIn_cases (event : Login) (request : LoginRequest) {login : Text}
    (admits : (pool.validateAddress (loginIdentity login).1).toOption = some true →
      session.context.admits login = true) :
    (∃ exception, (session.logIn pool event request login).2 = .error exception) ∨
    ((∃ message, (session.logIn pool event request login).2 = .ok (.error message)) ∧
      (session.logIn pool event request login).1.context.isAuthorized = false) ∨
    ((session.logIn pool event request login).2 = .ok .response ∧
      Carries (session.logIn pool event request login).1.context login) := by
  have name : (session.context.withNames request login).minerName.getD [] =
    (loginIdentity login).1 := rfl
  simp only [logIn, name]
  cases validated : pool.validateAddress (loginIdentity login).1 with
  | error exception => exact .inl ⟨exception, rfl⟩
  | ok result =>
      cases result with
      | false => exact .inr (.inl ⟨⟨_, rfl⟩, rfl⟩)
      | true =>
          have carries := withNames_carries session.context request
            (admits (by rw [validated]; rfl))
          simp only [carries.passes, Bool.true_eq_false, Bool.false_eq_true, if_false]
          cases event.prepared with
          | error exception => exact .inl ⟨exception, rfl⟩
          | ok prepared =>
              refine .inr (.inr ⟨rfl, carries.of_same ?_ ?_⟩)
              · exact withPassword_minerName _ _
              · exact withPassword_paymentId _ _

variable (pool) in
theorem onLogin_cases (session : Session) (event : Login) :
    (event.isIncomplete = true ∧
      ∃ message, session.onLogin pool event = (session, .ok (.error message))) ∨
    (∃ exception, session.onLogin pool event = (session, .error exception)) ∨
    ∃ request login, event.text = some login ∧
      session.onLogin pool event = session.logIn pool event request login := by
  rw [onLogin]
  split_ifs with hasRequestId
  · exact .inl ⟨by rw [Login.isIncomplete, hasRequestId]; rfl, _, rfl⟩
  · rw [Bool.not_eq_false] at hasRequestId
    cases params : event.params with
    | error exception => exact .inr (.inl ⟨exception, rfl⟩)
    | ok given =>
        cases given with
        | none => exact .inl ⟨by rw [Login.isIncomplete, hasRequestId, params]; rfl, _, rfl⟩
        | some request =>
            have incomplete : event.isIncomplete = isNullOrEmpty request.login := by
              rw [Login.isIncomplete, hasRequestId, params]
              rfl
            dsimp only
            split_ifs with isEmpty
            · exact .inl ⟨incomplete.trans isEmpty, _, rfl⟩
            · refine .inr (.inr ⟨request, request.login.getD [], ?_, rfl⟩)
              rw [Login.text, incomplete, if_neg isEmpty, params]
              cases login : request.login with
              | none =>
                  rw [login] at isEmpty
                  exact absurd rfl isEmpty
              | some login => exact login

theorem onLogin_outcome {event : Login} (admissible : session.Admissible pool (.login event)) :
    (∃ exception, (session.onLogin pool event).2 = .error exception) ∨
    ((∃ message, (session.onLogin pool event).2 = .ok (.error message)) ∧
      (session.onLogin pool event).1.context.isAuthorized = false) ∨
    ((session.onLogin pool event).2 = .ok .response ∧
      ∃ login, event.text = some login ∧
        Carries (session.onLogin pool event).1.context login) := by
  rcases admissible with ⟨incomplete, admits⟩
  rcases onLogin_cases pool session event with ⟨isIncomplete, message, answered⟩ |
    ⟨exception, answered⟩ | ⟨request, login, isText, answered⟩
  · rw [answered]
    exact .inr (.inl ⟨⟨message, rfl⟩, incomplete isIncomplete⟩)
  · rw [answered]
    exact .inl ⟨exception, rfl⟩
  · rw [answered]
    rcases logIn_cases event request (admits login isText) with broken | refused |
      ⟨accepted, carries⟩
    · exact .inl broken
    · exact .inr (.inl refused)
    · exact .inr (.inr ⟨accepted, login, isText, carries⟩)

theorem onLogin_sound {event : Login} (admissible : session.Admissible pool (.login event))
    (isOpen : session.isOpen = true) : (session.step pool environment (.login event)).Sound := by
  have outcome := onLogin_outcome admissible
  rw [step, if_pos isOpen]
  dsimp only
  generalize session.onLogin pool event = result at outcome ⊢
  rcases result with ⟨next, answer⟩
  rcases outcome with ⟨exception, rfl⟩ | ⟨⟨message, rfl⟩, unauthorized⟩ |
    ⟨rfl, login, isText, carries⟩
  · refine ⟨?_, ?_, fun _ _ _ => rfl, ?_⟩
    · rintro ⟨⟩
    · rintro _ _ ⟨⟩
    · rintro _ ⟨⟩
  · refine ⟨fun _ => unauthorized, fun _ _ _ => unauthorized, ?_, ?_⟩
    · rintro _ _ ⟨⟩
    · rintro _ ⟨⟩
  · refine ⟨?_, ?_, ?_, ?_⟩
    · rintro ⟨⟩
    · rintro _ _ ⟨⟩
    · rintro _ _ ⟨⟩
    · rintro _ ⟨⟩
      exact ⟨login, isText, carries⟩

/-! ### Shares -/

theorem accepted_authorized {connection : Connection} {submit : Submit}
    {acceptance : AcceptedShare}
    (accepted : (connection.onSubmit environment submit).2.bind Except.toOption =
      some acceptance) :
    submit.isAuthorized = true ∧ acceptance.share.miner = submit.minerName := by
  change connection.accepted environment (.submit submit) = some acceptance at accepted
  rcases connection.onSubmit_cases environment submit with ⟨-, rejected⟩ |
    ⟨params, front, workerJob, back, ⟨-, isAuthorized⟩, -, -, processed⟩
  · rw [rejected] at accepted
    cases accepted
  · rw [processed] at accepted
    have submitted := (Connection.processInJob_ok environment accepted).1
    exact ⟨isAuthorized, (Connection.submitShare_ok environment submitted).2.2.1⟩

theorem onSubmit_sound (sound : session.Sound) (call : SubmitCall)
    (isOpen : session.isOpen = true) : (session.step pool environment (.submit call)).Sound := by
  rw [step, if_pos isOpen]
  simp only [onSubmit]
  split
  · exact sound
  · refine sound.of_same rfl ?_ rfl rfl rfl
    rw [isOpen]
    rintro ⟨⟩
  · have kept := Stratum.WorkerContext.updateVarDiff_identity session.context.toWorkerContext
      call.ts call.created false
    exact sound.of_same rfl id kept.1 kept.2 rfl

theorem step_sound {event : Event} (admissible : session.Admissible pool event)
    (sound : session.Sound) : (session.step pool environment event).Sound := by
  cases isOpen : session.isOpen with
  | false =>
      have same : session.step pool environment event = session := if_neg (by rw [isOpen]; simp)
      rw [same]
      exact sound
  | true =>
      cases event with
      | login event => exact onLogin_sound admissible isOpen
      | submit call => exact onSubmit_sound sound call isOpen
      | createWorkerJob taken prepared =>
          rw [step, if_pos isOpen]
          exact sound.of_same rfl id rfl rfl rfl

theorem Sound.lastLogin_accepted (sound : session.Sound) (isOpen : session.isOpen = true)
    (isAuthorized : session.context.isAuthorized = true) :
    ∃ event, session.lastLogin = some (event, .ok .response) := by
  cases isLast : session.lastLogin with
  | none =>
      rw [sound.noLogin isLast] at isAuthorized
      cases isAuthorized
  | some last =>
      rcases last with ⟨event, answer⟩
      cases answer with
      | error exception =>
          rw [sound.broken event exception isLast] at isOpen
          cases isOpen
      | ok answer =>
          cases answer with
          | error message =>
              rw [sound.refused event message isLast] at isAuthorized
              cases isAuthorized
          | response => exact ⟨event, rfl⟩

theorem credited_isOfLastLogin {event : Event} {credit : Credit} (sound : session.Sound)
    (isCredited : session.credited pool environment event = some credit) :
    credit.IsOfLastLogin := by
  cases event with
  | login event => cases isCredited
  | createWorkerJob taken prepared => cases isCredited
  | submit call =>
      rw [credited] at isCredited
      split_ifs at isCredited with isOpen
      rw [Option.map_eq_some_iff] at isCredited
      rcases isCredited with ⟨acceptance, accepted, rfl⟩
      rcases accepted_authorized accepted with ⟨isAuthorized, miner⟩
      rcases sound.lastLogin_accepted isOpen isAuthorized with ⟨event, isLast⟩
      rcases sound.carries event isLast with ⟨login, isText, carries⟩
      have named : acceptance.share.miner.getD [] = (loginIdentity login).1 := by
        rw [miner]
        exact congrArg (·.getD []) carries.minerName
      rw [Credit.IsOfLastLogin, Credit.lastIdentity]
      simp only [isLast, isText, Option.map_some]
      have extracted := extract_address (session.record pool call acceptance) ?_ ?_
      · rw [extracted]
        exact congrArg some (Prod.ext named carries.paymentId).symm
      · rw [record, named]
        exact not_mem_splitName (not_mem_loginName login)
      · intro paymentId member
        rw [record, carries.paymentId] at member
        exact carries.fits paymentId member

end Session

/-- Along every run of admissible steps, the worker is not authorized once a login has been
answered with an error, and every share is credited to what the last login names. -/
theorem lastLogin_identity (pool : Pool) (environment : Environment) (endpoint : PoolEndpoint)
    (connectionId : Text) (currentJobId : Nat) (events : List Session.Event)
    (admissible : Run.Along (Session.step pool environment) (Session.Admissible pool)
      (.initial endpoint connectionId currentJobId) events) :
    (∀ front, front <+: events → ∀ event message,
      (Session.after pool environment endpoint connectionId currentJobId front).lastLogin =
          some (event, .ok (.error message)) →
        (Session.after pool environment endpoint connectionId currentJobId
          front).context.isAuthorized = false) ∧
      ∀ credit ∈ Session.credits pool environment endpoint connectionId currentJobId events,
        credit.IsOfLastLogin := by
  have start := Session.sound_initial endpoint connectionId currentJobId
  constructor
  · intro front isPrefix
    have sound := Run.always_of_along _ _ _
      (fun _ _ admissible sound => Session.step_sound admissible sound) _ start events admissible
      front isPrefix
    exact sound.refused
  · exact Run.emitted_forall_along _ _ _ _
      (fun _ _ admissible sound => Session.step_sound admissible sound) _
      (fun _ _ _ _ sound => Session.credited_isOfLastLogin sound) _ start events admissible

/-! ## Sample logins -/

namespace SampleLogin

def address : Text :=
  text "48nhyWcSey31ngSEhV8j8NPm6B8PistCQJBjjDjmTvRSTWYg" ++
    text "6iocAw131vE2JPh3ps33vgQDKLrUx3fcErusYWcMJBxpm1d"

def paymentId : Text := text "0123456789abcdef0123456789abcdef0123456789abcdef0123456789abcdef"

def moneroPool : Pool where
  id := text "xmr1"
  coin := .XMR
  networkType := .main
  library := {
    decodeAddress := fun given => if given = address then 18 else 0
    decodeIntegratedAddress := fun _ => 0 }

def login (login : Text) (extraNonce : UInt32) : Session.Event :=
  .login {
    hasRequestId := true
    params := .ok (some { login := some login, password := none, userAgent := none })
    taken := 0
    prepared := .ok (some (224, extraNonce)) }

def submit : Session.Event :=
  .submit {
    hasRequestId := true
    isTooOld := false
    params := (SampleShare.submit (text "040100a4")).params
    currentJob := some SampleShare.job
    blockAccepted := .ok true
    created := 0
    ts := 0 }

def after : List Session.Event → Session :=
  Session.after moneroPool SampleShare.environment { difficulty := 1000, varDiff := none }
    (text "A") 0

def credits : List Session.Event → List Credit :=
  Session.credits moneroPool SampleShare.environment { difficulty := 1000, varDiff := none }
    (text "A") 0

def events : List Session.Event :=
  [login (address ++ 35 :: paymentId) 1, submit, login (text "nobody") 2]

end SampleLogin

theorem lastLogin_identity_sample :
    ((SampleLogin.credits SampleLogin.events).length = 1 ∧
        (SampleLogin.after SampleLogin.events).lastLogin.map (·.2.toOption) =
          some (some (.error "invalid login"))) ∧
      (∀ front, front <+: SampleLogin.events → ∀ event message,
        (SampleLogin.after front).lastLogin = some (event, .ok (.error message)) →
          (SampleLogin.after front).context.isAuthorized = false) ∧
      ∀ credit ∈ SampleLogin.credits SampleLogin.events, credit.IsOfLastLogin :=
  ⟨by decide +kernel, lastLogin_identity SampleLogin.moneroPool SampleShare.environment
    { difficulty := 1000, varDiff := none } (text "A") 0 SampleLogin.events (by decide +kernel)⟩

/-- A login without a payment id is paid with that of the login before; and a login that is
refused for its payment id is paid all the same. -/
theorem payment_id_of_earlier_login :
    ¬(∀ credit ∈ SampleLogin.credits [SampleLogin.login
          (SampleLogin.address ++ 35 :: SampleLogin.paymentId) 1,
        SampleLogin.login SampleLogin.address 2, SampleLogin.submit], credit.IsOfLastLogin) ∧
      ¬(∀ credit ∈ SampleLogin.credits [SampleLogin.login
          (SampleLogin.address ++ 35 :: text "0123") 1,
        .createWorkerJob 0 (some (224, 1)), SampleLogin.submit], credit.IsOfLastLogin) := by
  decide +kernel

end Miningcore.Monero

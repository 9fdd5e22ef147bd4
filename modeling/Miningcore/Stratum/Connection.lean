import Miningcore.Foundation.Run
import Miningcore.Stratum.WorkerContext
import Mathlib.Tactic.Linarith

/-! The requests of one connection, as `ExchangeCoinPoolBase` and `BitcoinPoolBase`
handle them. The two classes have the same handlers and differ in the job manager
they pass submissions to, which is a parameter here. -/

namespace Miningcore.Stratum

open Miningcore.Configuration Miningcore.VarDiff

/-! ## Handlers -/

def onSubscribe (context : WorkerContext) (hasId : Bool) (extraNonce1 : Text) : WorkerContext :=
  if hasId then { context with extraNonce1 := some extraNonce1, isSubscribed := true }
  else context

/-- A `mining.authorize` request, with what the daemon answers about an address. -/
structure Authorize where
  hasId : Bool
  requestParams : Option (List (Option Text))
  validateAddress : Text → Except Exception Bool

namespace Authorize

variable (request : Authorize)

def param (index : Nat) : Option Text :=
  request.requestParams.bind fun params => (params[index]?).join

def minerName : Option Text :=
  (request.param 0).bind fun workerValue => (workerValue.split 46).head?.map Text.trim

def workerName : Text :=
  ((request.param 0).bind fun workerValue => (workerValue.split 46)[1]?.map Text.trim).getD []

def staticDiff : Option ℚ :=
  (request.param 1).bind fun password => getStaticDiffFromPassparts (password.split 59)

def isAuthorized : Except Exception Bool :=
  match request.minerName with
  | some (unit :: rest) => request.validateAddress (unit :: rest)
  | _ => .ok false

end Authorize

/-- A static difficulty replaces the variable one, if it is not too low. -/
def applyStaticDiff (context : WorkerContext) (staticDiff : ℚ) : WorkerContext :=
  let admitted := match context.varDiff with
    | some varDiff => decide (varDiff.config.minDiff ≤ staticDiff)
    | none => decide (context.difficulty < staticDiff)
  if admitted then { context with varDiff := none }.setDifficulty staticDiff else context

/-- `OnAuthorizeAsync`. If the daemon cannot be asked, an exception leaves the
context as it is. -/
def onAuthorize (context : WorkerContext) (request : Authorize) : WorkerContext :=
  if request.hasId then
    match request.isAuthorized with
    | .error _ => context
    | .ok isAuthorized =>
        let named := { context with
          isAuthorized
          minerName := request.minerName
          workerName := some request.workerName
          validated :=
            if isAuthorized then request.minerName.toList ++ context.validated
            else context.validated }
        match isAuthorized, request.staticDiff with
        | true, some staticDiff => applyStaticDiff named staticDiff
        | _, _ => named
  else context

/-- `OnSuggestDifficultyAsync`; `none` is a parameter that is no number. A client may
suggest a difficulty above that of the port. -/
def onSuggestDifficulty (endpoint : PoolEndpoint) (context : WorkerContext)
    (requestedDiff : Option ℚ) : WorkerContext :=
  match requestedDiff with
  | none => context
  | some requested =>
      if endpoint.difficulty < requested then context.setDifficulty requested else context

/-- The part of `OnNewJob` for the connection. -/
def onNewJob (context : WorkerContext) (isIdle : Bool) : WorkerContext :=
  if context.isSubscribed ∧ context.isAuthorized ∧ isIdle = false then
    context.applyPendingDifficulty
  else context

/-- `OnVarDiffUpdateAsync`: the new difficulty is applied at once. -/
def onVarDiffUpdate (context : WorkerContext) (newDiff : ℚ) : WorkerContext :=
  (context.enqueueNewDifficulty newDiff).applyPendingDifficulty

/-- `UpdateVarDiffAsync`. The manager of a port has the options of its contexts. -/
def updateVarDiff (context : WorkerContext) (ts : ℚ) (now : Int) (isIdleUpdate : Bool) :
    WorkerContext :=
  match context.varDiff with
  | none => context
  | some varDiff =>
      let (updated, newDiff) :=
        update (.exact varDiff.config) varDiff ts now context.difficulty isIdleUpdate
      let context := { context with varDiff := some updated }
      match newDiff with
      | none => context
      | some difficulty => onVarDiffUpdate context difficulty

/-! ## Submissions -/

/-- A `mining.submit` request, with the replies that a block candidate meets and the
times at which it is processed. -/
structure Submit (Replies : Type) where
  hasId : Bool
  isStale : Bool
  requestParams : Option (List (Option Text))
  replies : Replies
  now : Int
  ts : ℚ

def Submit.miner {Replies : Type} (request : Submit Replies) : Option Text :=
  (request.requestParams.bind fun params => params.head?.join).bind fun workerValue =>
    (workerValue.trim.split 46).head?

/-- What a job found when it accepted a share: the difficulty of the header's hash,
whether the hash is below the target of a block, and the difficulty of the share. -/
structure Credit where
  shareDiff : ℚ
  isBlockCandidate : Bool
  difficulty : ℚ
deriving DecidableEq

/-- A pool, as its connections see it. The job manager changes by itself, through new
jobs and through the submissions of other connections. -/
structure Pool (Manager Update Replies : Type) where
  endpoint : PoolEndpoint
  advance : Manager → Update → Manager
  submitShare : Manager → BitcoinWorkerContext → Submit Replies →
    Manager × Except Exception Blockchain.Share
  /-- What the job that is addressed accepts. -/
  credit : Manager → BitcoinWorkerContext → Submit Replies → Option Credit
  /-- Every hash that makes a block of the addressed job meets the worker's difficulty. -/
  blocksProve : Manager → BitcoinWorkerContext → Submit Replies → Bool
  Sound : Manager → Prop
  sound_advance : ∀ manager update, Sound manager → Sound (advance manager update)
  sound_submitShare : ∀ manager worker request, Sound manager →
    Sound (submitShare manager worker request).1
  credit_nonneg : ∀ manager worker request credited, Sound manager →
    credit manager worker request = some credited → 0 ≤ credited.shareDiff
  credit_difficulty : ∀ manager worker request credited,
    credit manager worker request = some credited →
    stratumDifficulty worker.difficulty credited.shareDiff credited.isBlockCandidate =
      .ok credited.difficulty
  credit_blocksProve : ∀ manager worker request credited, Sound manager →
    credit manager worker request = some credited → credited.isBlockCandidate = true →
    blocksProve manager worker request = true →
    99 / 100 * worker.difficulty.difficulty ≤ credited.shareDiff
  submitShare_miner : ∀ manager worker request share,
    (submitShare manager worker request).2 = .ok share → share.miner = request.miner

structure Connection (Manager : Type) where
  manager : Manager
  context : WorkerContext

inductive Event (Update Replies : Type)
  | update (update : Update)
  | subscribe (hasId : Bool) (extraNonce1 : Text)
  | authorize (request : Authorize)
  | suggestDifficulty (requestedDiff : Option ℚ)
  | newJob (isIdle : Bool)
  | idleUpdate (ts : ℚ) (now : Int)
  | submit (request : Submit Replies)

variable {Manager Update Replies : Type} (pool : Pool Manager Update Replies)

/-- `OnConnect`. -/
def connect (manager : Manager) : Connection Manager where
  manager
  context := .init pool.endpoint

/-- The checks of `OnSubmitAsync` before the job manager is asked. -/
def admits (context : WorkerContext) (request : Submit Replies) : Bool :=
  request.hasId && !request.isStale && context.isAuthorized && context.isSubscribed

/-- `OnSubmitAsync`. The variable difficulty is updated after a share was published. -/
def onSubmit (connection : Connection Manager) (request : Submit Replies) : Connection Manager :=
  if admits connection.context request then
    match pool.submitShare connection.manager connection.context.forShares request with
    | (manager, .error _) => { connection with manager }
    | (manager, .ok _) =>
        { manager, context := updateVarDiff connection.context request.ts request.now false }
  else connection

def step (connection : Connection Manager) : Event Update Replies → Connection Manager
  | .update update => { connection with manager := pool.advance connection.manager update }
  | .subscribe hasId extraNonce1 =>
      { connection with context := onSubscribe connection.context hasId extraNonce1 }
  | .authorize request => { connection with context := onAuthorize connection.context request }
  | .suggestDifficulty requestedDiff =>
      { connection with
        context := onSuggestDifficulty pool.endpoint connection.context requestedDiff }
  | .newJob isIdle => { connection with context := onNewJob connection.context isIdle }
  | .idleUpdate ts now =>
      { connection with context := updateVarDiff connection.context ts now true }
  | .submit request => onSubmit pool connection request

def published (connection : Connection Manager) :
    Event Update Replies → Option (WorkerContext × Blockchain.Share)
  | .submit request =>
      if admits connection.context request then
        (pool.submitShare connection.manager connection.context.forShares request).2.toOption.map
          fun share => (connection.context, share)
      else none
  | _ => none

def credited (connection : Connection Manager) :
    Event Update Replies → Option (WorkerContext × Credit)
  | .submit request =>
      if admits connection.context request then
        (pool.credit connection.manager connection.context.forShares request).map
          fun credit => (connection.context, credit)
      else none
  | _ => none

/-! ## What the handlers keep -/

namespace WorkerContext

structure Sound (context : WorkerContext) : Prop where
  assigned : context.Assigned
  authenticated : context.Authenticated

variable {context : WorkerContext}

theorem init_sound (endpoint : PoolEndpoint) : (init endpoint).Sound where
  assigned := init_assigned endpoint
  authenticated := fun impossible => Bool.noConfusion impossible

theorem setDifficulty_sound (difficulty : ℚ) (sound : context.Sound) :
    (context.setDifficulty difficulty).Sound where
  assigned := setDifficulty_assigned difficulty sound.assigned
  authenticated := sound.authenticated

theorem applyPendingDifficulty_sound (sound : context.Sound) :
    context.applyPendingDifficulty.Sound where
  assigned := applyPendingDifficulty_assigned sound.assigned
  authenticated := by
    rw [applyPendingDifficulty]
    split
    · exact sound.authenticated
    · exact sound.authenticated

theorem onSubscribe_sound (hasId : Bool) (extraNonce1 : Text) (sound : context.Sound) :
    (onSubscribe context hasId extraNonce1).Sound := by
  rw [onSubscribe]
  split_ifs
  · exact ⟨sound.assigned, sound.authenticated⟩
  · exact sound

theorem applyStaticDiff_sound (staticDiff : ℚ) (sound : context.Sound) :
    (applyStaticDiff context staticDiff).Sound := by
  simp only [applyStaticDiff]
  split_ifs
  · exact setDifficulty_sound staticDiff ⟨sound.assigned, sound.authenticated⟩
  · exact sound

theorem onAuthorize_sound (request : Authorize) (sound : context.Sound) :
    (onAuthorize context request).Sound := by
  rw [onAuthorize]
  split_ifs
  · cases answer : request.isAuthorized with
    | error exception => exact sound
    | ok isAuthorized =>
        cases isAuthorized with
        | false => exact ⟨sound.assigned, fun impossible => Bool.noConfusion impossible⟩
        | true =>
            cases name : request.minerName with
            | none =>
                rw [Authorize.isAuthorized, name] at answer
                cases answer
            | some address =>
                have named : WorkerContext.Sound { context with
                    isAuthorized := true
                    minerName := some address
                    workerName := some request.workerName
                    validated := address :: context.validated } :=
                  ⟨sound.assigned, fun _ => ⟨address, List.mem_cons_self, rfl⟩⟩
                cases request.staticDiff with
                | none => exact named
                | some staticDiff => exact applyStaticDiff_sound staticDiff named
  · exact sound

theorem onSuggestDifficulty_sound (endpoint : PoolEndpoint) (requestedDiff : Option ℚ)
    (sound : context.Sound) : (onSuggestDifficulty endpoint context requestedDiff).Sound := by
  cases requestedDiff with
  | none => exact sound
  | some requested =>
      rw [onSuggestDifficulty]
      split_ifs
      · exact setDifficulty_sound requested sound
      · exact sound

theorem onNewJob_sound (isIdle : Bool) (sound : context.Sound) :
    (onNewJob context isIdle).Sound := by
  rw [onNewJob]
  split_ifs
  · exact applyPendingDifficulty_sound sound
  · exact sound

theorem updateVarDiff_sound (ts : ℚ) (now : Int) (isIdleUpdate : Bool) (sound : context.Sound) :
    (updateVarDiff context ts now isIdleUpdate).Sound := by
  cases hasVarDiff : context.varDiff with
  | none =>
      simp only [updateVarDiff, hasVarDiff]
      exact sound
  | some varDiff =>
      simp only [updateVarDiff, hasVarDiff]
      split
      · exact ⟨sound.assigned, sound.authenticated⟩
      · apply applyPendingDifficulty_sound
        exact ⟨sound.assigned, sound.authenticated⟩

theorem applyPendingDifficulty_identity (context : WorkerContext) :
    context.applyPendingDifficulty.isAuthorized = context.isAuthorized ∧
      context.applyPendingDifficulty.minerName = context.minerName := by
  rw [applyPendingDifficulty]
  split
  · exact ⟨rfl, rfl⟩
  · exact ⟨rfl, rfl⟩

theorem applyStaticDiff_identity (context : WorkerContext) (staticDiff : ℚ) :
    (applyStaticDiff context staticDiff).isAuthorized = context.isAuthorized ∧
      (applyStaticDiff context staticDiff).minerName = context.minerName := by
  simp only [applyStaticDiff]
  split_ifs
  · exact ⟨rfl, rfl⟩
  · exact ⟨rfl, rfl⟩

theorem updateVarDiff_identity (context : WorkerContext) (ts : ℚ) (now : Int)
    (isIdleUpdate : Bool) :
    (updateVarDiff context ts now isIdleUpdate).isAuthorized = context.isAuthorized ∧
      (updateVarDiff context ts now isIdleUpdate).minerName = context.minerName := by
  cases hasVarDiff : context.varDiff with
  | none =>
      rw [updateVarDiff, hasVarDiff]
      exact ⟨rfl, rfl⟩
  | some varDiff =>
      simp only [updateVarDiff, hasVarDiff]
      split
      · exact ⟨rfl, rfl⟩
      · exact applyPendingDifficulty_identity _

end WorkerContext

structure Connection.Sound (connection : Connection Manager) : Prop where
  manager : pool.Sound connection.manager
  context : connection.context.Sound

theorem connect_sound {manager : Manager} (sound : pool.Sound manager) :
    (connect pool manager).Sound pool where
  manager := sound
  context := WorkerContext.init_sound pool.endpoint

theorem step_sound (connection : Connection Manager) (event : Event Update Replies)
    (sound : connection.Sound pool) : (step pool connection event).Sound pool := by
  cases event with
  | update update => exact ⟨pool.sound_advance _ update sound.manager, sound.context⟩
  | subscribe hasId extraNonce1 =>
      exact ⟨sound.manager, WorkerContext.onSubscribe_sound hasId extraNonce1 sound.context⟩
  | authorize request =>
      exact ⟨sound.manager, WorkerContext.onAuthorize_sound request sound.context⟩
  | suggestDifficulty requestedDiff =>
      exact ⟨sound.manager,
        WorkerContext.onSuggestDifficulty_sound pool.endpoint requestedDiff sound.context⟩
  | newJob isIdle => exact ⟨sound.manager, WorkerContext.onNewJob_sound isIdle sound.context⟩
  | idleUpdate ts now =>
      exact ⟨sound.manager, WorkerContext.updateVarDiff_sound ts now true sound.context⟩
  | submit request =>
      have managerSound := pool.sound_submitShare connection.manager connection.context.forShares
        request sound.manager
      rw [step, onSubmit]
      split_ifs
      · split
        · rename_i manager exception submitted
          rw [submitted] at managerSound
          exact ⟨managerSound, sound.context⟩
        · rename_i manager share submitted
          rw [submitted] at managerSound
          exact ⟨managerSound,
            WorkerContext.updateVarDiff_sound request.ts request.now false sound.context⟩
      · exact sound

/-! ## Credited difficulty -/

/-- A share stands for the work that was done: its difficulty is one of the last two
that the worker was assigned, and the hash of the header meets it. -/
def Proven (credit : WorkerContext × Credit) : Prop :=
  credit.2.difficulty ∈ credit.1.assigned.take 2 ∧
    99 / 100 * credit.2.difficulty ≤ credit.2.shareDiff

instance : DecidablePred Proven := fun _ => inferInstanceAs (Decidable (_ ∧ _))

/-- At a submission, the block target of the job is so low that every hash below it meets
the difficulty that the worker has. -/
def TargetsProve (connection : Connection Manager) : Event Update Replies → Prop
  | .submit request => admits connection.context request = true →
      pool.blocksProve connection.manager connection.context.forShares request = true
  | _ => True

instance (connection : Connection Manager) :
    (event : Event Update Replies) → Decidable (TargetsProve pool connection event)
  | .submit _ => inferInstanceAs (Decidable (_ → _))
  | .update _ => .isTrue trivial
  | .subscribe _ _ => .isTrue trivial
  | .authorize _ => .isTrue trivial
  | .suggestDifficulty _ => .isTrue trivial
  | .newJob _ => .isTrue trivial
  | .idleUpdate _ _ => .isTrue trivial

theorem le_of_not_missesDifficulty {shareDiff difficulty : ℚ} (nonneg : 0 ≤ shareDiff)
    (meets : missesDifficulty shareDiff difficulty = false) :
    99 / 100 * difficulty ≤ shareDiff := by
  simp only [missesDifficulty, Bool.and_eq_false_iff, bne_eq_false_iff_eq,
    decide_eq_false_iff_not, not_lt] at meets
  rcases meets with zero | ratio
  · rw [zero, mul_zero]
    exact nonneg
  · rcases lt_trichotomy difficulty 0 with negative | zero | positive
    · have below := div_nonpos_of_nonneg_of_nonpos nonneg negative.le
      linarith
    · rw [zero, mul_zero]
      exact nonneg
    · rwa [le_div_iff₀ positive] at ratio

theorem stratumDifficulty_ok {worker : WorkerDifficulty} {shareDiff difficulty : ℚ}
    {isBlockCandidate : Bool} (nonneg : 0 ≤ shareDiff)
    (passes : stratumDifficulty worker shareDiff isBlockCandidate = .ok difficulty) :
    difficulty = worker.difficulty ∧ isBlockCandidate = true ∨
      (difficulty = worker.difficulty ∨ worker.previousDifficulty = some difficulty) ∧
        isBlockCandidate = false ∧ 99 / 100 * difficulty ≤ shareDiff := by
  cases isBlockCandidate with
  | true =>
      cases passes
      exact .inl ⟨rfl, rfl⟩
  | false =>
      right
      simp only [stratumDifficulty, Bool.not_false, Bool.true_and] at passes
      split_ifs at passes with misses
      · split at passes
        · rename_i previous _ hasPrevious
          split_ifs at passes with missesPrevious
          cases passes
          refine ⟨.inr hasPrevious, rfl, ?_⟩
          exact le_of_not_missesDifficulty nonneg (Bool.eq_false_iff.mpr missesPrevious)
        · cases passes
      · cases passes
        refine ⟨.inl rfl, rfl, ?_⟩
        exact le_of_not_missesDifficulty nonneg (Bool.eq_false_iff.mpr misses)

theorem credited_proven_iff {connection : Connection Manager} {event : Event Update Replies}
    {credit : WorkerContext × Credit} (sound : connection.Sound pool)
    (accepted : credited pool connection event = some credit) :
    Proven credit ↔ (credit.2.isBlockCandidate = true →
      99 / 100 * connection.context.difficulty ≤ credit.2.shareDiff) := by
  cases event with
  | submit request =>
      simp only [credited] at accepted
      split_ifs at accepted
      rcases Option.map_eq_some_iff.mp accepted with ⟨given, found, rfl⟩
      have nonneg := pool.credit_nonneg _ _ _ _ sound.manager found
      rw [Proven, sound.context.assigned]
      rcases stratumDifficulty_ok nonneg (pool.credit_difficulty _ _ _ _ found) with
        ⟨isCurrent, isBlock⟩ | ⟨isAssigned, isShare, meets⟩
      · rw [isCurrent]
        simp [WorkerContext.forShares, isBlock]
      · have isOneOfTwo : given.difficulty ∈
            connection.context.difficulty :: connection.context.previousDifficulty.toList := by
          rw [List.mem_cons, Option.mem_toList]
          exact isAssigned
        simp [isOneOfTwo, meets, isShare]
  | _ => cases accepted

def creditedShares (manager : Manager) (events : List (Event Update Replies)) :
    List (WorkerContext × Credit) :=
  Run.emitted (step pool) (credited pool) (connect pool manager) events

theorem credited_forall {manager : Manager} (sound : pool.Sound manager)
    {events : List (Event Update Replies)}
    (along : Run.Along (step pool) (TargetsProve pool) (connect pool manager) events) :
    ∀ credit ∈ creditedShares pool manager events, Proven credit := by
  apply Run.emitted_forall_along (step pool) (credited pool) (TargetsProve pool)
    (Connection.Sound pool) (fun connection event _ => step_sound pool connection event) Proven _ _
    (connect_sound pool sound) events along
  intro connection event credit proves connectionSound accepted
  rw [credited_proven_iff pool connectionSound accepted]
  intro isBlock
  cases event with
  | submit request =>
      simp only [credited] at accepted
      split_ifs at accepted with admitted
      rcases Option.map_eq_some_iff.mp accepted with ⟨given, found, rfl⟩
      exact pool.credit_blocksProve _ _ _ _ connectionSound.manager found isBlock
        (proves admitted)
  | _ => cases accepted

/-! ## Attribution -/

/-- A share is attributed to the address the connection is authorized for, and the
daemon reported that address valid. -/
def Attributed (publication : WorkerContext × Blockchain.Share) : Prop :=
  publication.2.miner = publication.1.minerName ∧
    ∃ address ∈ publication.1.validated, publication.2.miner = some address

instance : DecidablePred Attributed := fun _ => inferInstanceAs (Decidable (_ ∧ _))

def NamesMiner (connection : Connection Manager) : Event Update Replies → Prop
  | .submit request => (published pool connection (.submit request)).isSome = true →
      request.miner = connection.context.minerName
  | _ => True

theorem published_attributed_iff (connection : Connection Manager) (event : Event Update Replies)
    (sound : connection.Sound pool) :
    (∀ publication, published pool connection event = some publication →
      Attributed publication) ↔ NamesMiner pool connection event := by
  cases event with
  | submit request =>
      rw [NamesMiner]
      cases outcome : published pool connection (.submit request) with
      | none => simp
      | some publication =>
          simp only [published] at outcome
          split_ifs at outcome with admitted
          rcases Option.map_eq_some_iff.mp outcome with ⟨share, submitted, rfl⟩
          rcases result : (pool.submitShare connection.manager connection.context.forShares
            request).2 with exception | accepted
          · rw [result] at submitted
            cases submitted
          rw [result] at submitted
          cases submitted
          have named := pool.submitShare_miner _ _ _ _ result
          have authorized : connection.context.isAuthorized = true := by
            simp only [admits, Bool.and_eq_true] at admitted
            exact admitted.1.2
          rcases sound.context.authenticated authorized with ⟨address, validated, isMiner⟩
          simp only [Option.some.injEq, forall_eq', Option.isSome_some, forall_const]
          rw [Attributed, named]
          constructor
          · exact fun attributed => attributed.1
          · exact fun names => ⟨names, address, validated, names.trans isMiner⟩
  | _ => simp [published, NamesMiner]

def publishedShares (manager : Manager) (events : List (Event Update Replies)) :
    List (WorkerContext × Blockchain.Share) :=
  Run.emitted (step pool) (published pool) (connect pool manager) events

theorem published_forall_iff {manager : Manager} (sound : pool.Sound manager)
    (events : List (Event Update Replies)) :
    (∀ publication ∈ publishedShares pool manager events, Attributed publication) ↔
      Run.Along (step pool) (NamesMiner pool) (connect pool manager) events :=
  Run.emitted_forall_iff_along (step pool) (published pool) (Connection.Sound pool)
    (step_sound pool) (NamesMiner pool) Attributed (published_attributed_iff pool) _
    (connect_sound pool sound) events

/-- A submission that is passed on names the miner of the context, whatever becomes of it. -/
def SubmitsName (connection : Connection Manager) : Event Update Replies → Prop
  | .submit request => admits connection.context request = true →
      request.miner = connection.context.minerName
  | _ => True

theorem SubmitsName.namesMiner {connection : Connection Manager} {event : Event Update Replies}
    (names : SubmitsName connection event) : NamesMiner pool connection event := by
  cases event with
  | submit request =>
      intro isPublished
      simp only [published] at isPublished
      split_ifs at isPublished with admitted
      · exact names admitted
      · cases isPublished
  | _ => trivial

theorem published_forall {manager : Manager} (sound : pool.Sound manager)
    {events : List (Event Update Replies)}
    (along : Run.Along (step pool) SubmitsName (connect pool manager) events) :
    ∀ publication ∈ publishedShares pool manager events, Attributed publication :=
  (published_forall_iff pool sound events).mpr
    (Run.along_imp (step pool) (fun _ _ names => names.namesMiner pool) along)

end Miningcore.Stratum

import Miningcore.Blockchain.Monero.Job
import Miningcore.Foundation.Registry

/-! `MoneroPool`: the worker jobs of a connection and the shares submitted for
them. -/

namespace Miningcore.Monero

open StringExtensions

/-- `MoneroWorkerJob`. Its identifier is the value of the pool's counter. -/
structure WorkerJob where
  number : Nat
  height : UInt32
  extraNonce : UInt32
  difficulty : ℚ
  submissions : Submissions Text

def WorkerJob.id (workerJob : WorkerJob) : Text := text (toString workerJob.number)

/-- `MoneroSubmitShareRequest`. -/
structure SubmitShareRequest where
  workerId : Option Text
  jobId : Option Text
  nonce : Option Text
  hash : Option Text

/-- One submit request, with what the handler reads at the call: the connection's
authorization and difficulty, the manager's current job and the daemon's answer
to a block candidate. -/
structure Submit where
  hasRequestId : Bool
  isTooOld : Bool
  params : Option SubmitShareRequest
  isAuthorized : Bool
  worker : WorkerDifficulty
  minerName : Option Text
  workerName : Option Text
  currentJob : Option Job
  blockAccepted : Except Exception Bool

structure Connection where
  connectionId : Text
  currentJobId : Nat
  validJobs : List WorkerJob

structure AcceptedShare where
  workerJob : Nat
  nonce : Option Text
  nonceBytes : Bytes
  blobHex : Text
  share : Blockchain.Share

namespace Connection

def addJob (validJobs : List WorkerJob) (workerJob : WorkerJob) : List WorkerJob :=
  (validJobs ++ [workerJob]).drop (validJobs.length + 1 - 4)

/-- `CreateWorkerJob`. Other connections may have taken identifiers since; without
a current job, `PrepareWorkerJob` prepares nothing and the identifier is lost. -/
def createWorkerJob (connection : Connection) (taken : Nat) (difficulty : ℚ)
    (prepared : Option (UInt32 × UInt32)) : Connection :=
  let number := connection.currentJobId + taken + 1
  match prepared with
  | none => { connection with currentJobId := number }
  | some (height, extraNonce) =>
      { connection with
        currentJobId := number
        validJobs := addJob connection.validJobs
          { number, height, extraNonce, difficulty, submissions := [] } }

variable (environment : Environment)

def nonceLower (request : Submit × SubmitShareRequest) (_ : Unit) : Except Exception Text := do
  return environment.culture.toLower (← dereference request.2.nonce)

def confirmBlock (isBlockCandidate : Bool) (blockAccepted : Except Exception Bool) :
    Except Exception Bool :=
  if isBlockCandidate then blockAccepted else .ok false

def submitShare (workerJob : WorkerJob) (request : Submit × SubmitShareRequest) (_ : Unit) :
    Except Exception AcceptedShare := do
  let (submit, params) := request
  throwIf (submit.currentJob.map Job.height ≠ some workerJob.height)
    (.stratum .minusOne "block expired")
  let some job := submit.currentJob
    | throw .nullReference
  let result ← job.processShare environment params.nonce workerJob.extraNonce params.hash
    submit.worker
  let share := { result.share with
    miner := submit.minerName
    worker := submit.workerName
    networkDifficulty := job.difficulty }
  let isBlockCandidate ← confirmBlock share.isBlockCandidate submit.blockAccepted
  let transactionConfirmationData := if isBlockCandidate then some result.blobHash else none
  return {
    workerJob := workerJob.number
    nonce := params.nonce
    nonceBytes := result.nonceBytes
    blobHex := result.blobHex
    share := { share with isBlockCandidate, transactionConfirmationData } }

def processNonce (request : Submit × SubmitShareRequest) (workerJob : WorkerJob) :
    Submissions Text × Except Exception AcceptedShare :=
  processSubmission (fun _ => .ok ()) (nonceLower environment)
    (.stratum .minusOne "duplicate share") (submitShare environment workerJob)
    workerJob.submissions request

def processInJob (request : Submit × SubmitShareRequest) (workerJob : WorkerJob) :
    WorkerJob × Except Exception AcceptedShare :=
  let (submissions, result) := processNonce environment request workerJob
  ({ workerJob with submissions }, result)

/-- The checks of `OnSubmitAsync` before the job is looked up; there is no result
for a request that is dropped because of its age. -/
def checkRequest (connection : Connection) (submit : Submit) :
    Option (Except Exception (SubmitShareRequest × Text)) :=
  if submit.hasRequestId = false then
    some (.error (.stratum .minusOne "missing request id"))
  else if submit.isTooOld then
    none
  else
    match submit.params with
    | some params =>
        if params.workerId ≠ some connection.connectionId ∨ submit.isAuthorized = false then
          some (.error (.stratum .minusOne "unauthorized"))
        else
          match params.jobId with
          | some (unit :: rest) => some (.ok (params, unit :: rest))
          | _ => some (.error (.stratum .minusOne "invalid jobid"))
    | none => some (.error (.stratum .minusOne "unauthorized"))

def onSubmit (connection : Connection) (submit : Submit) :
    Connection × Option (Except Exception AcceptedShare) :=
  match connection.checkRequest submit with
  | none => (connection, none)
  | some (.error exception) => (connection, some (.error exception))
  | some (.ok (params, jobId)) =>
      match Registry.updateFirst (fun workerJob => workerJob.id == jobId)
        (processInJob environment (submit, params)) connection.validJobs with
      | none => (connection, some (.error (.stratum .minusOne "invalid jobid")))
      | some (validJobs, result) => ({ connection with validJobs }, some result)

inductive Event
  | createWorkerJob (taken : Nat) (difficulty : ℚ) (prepared : Option (UInt32 × UInt32))
  | submit (submit : Submit)

def step (connection : Connection) : Event → Connection
  | .createWorkerJob taken difficulty prepared =>
      connection.createWorkerJob taken difficulty prepared
  | .submit submit => (connection.onSubmit environment submit).1

def accepted (connection : Connection) : Event → Option AcceptedShare
  | .createWorkerJob _ _ _ => none
  | .submit submit => (connection.onSubmit environment submit).2.bind Except.toOption

def initial (connectionId : Text) (currentJobId : Nat) : Connection where
  connectionId
  currentJobId
  validJobs := []

structure Valid (connection : Connection) : Prop where
  nodup : (connection.validJobs.map WorkerJob.number).Nodup
  bounded : ∀ workerJob ∈ connection.validJobs, workerJob.number ≤ connection.currentJobId

def Closed (connection : Connection) (key : Nat × Option Text) : Prop :=
  key.1 ≤ connection.currentJobId ∧
    ∀ workerJob ∈ connection.validJobs, workerJob.number = key.1 →
      ∃ known ∈ workerJob.submissions, key.2 = some known

/-! ## One step -/

theorem createWorkerJob_valid {connection : Connection} (valid : connection.Valid) (taken : Nat)
    (difficulty : ℚ) (prepared : Option (UInt32 × UInt32)) :
    (connection.createWorkerJob taken difficulty prepared).Valid := by
  cases prepared with
  | none =>
      refine ⟨valid.nodup, fun workerJob member => ?_⟩
      have bound := valid.bounded workerJob member
      change _ ≤ connection.currentJobId + taken + 1
      omega
  | some prepared =>
      refine ⟨?_, fun workerJob member => ?_⟩
      · apply List.Nodup.sublist ((List.drop_sublist _ _).map _)
        rw [List.map_append, List.nodup_append]
        refine ⟨valid.nodup, List.nodup_singleton _, ?_⟩
        intro old oldMember new newMember equal
        rcases List.mem_map.mp oldMember with ⟨workerJob, member, rfl⟩
        have bound := valid.bounded workerJob member
        rw [List.map_singleton, List.mem_singleton] at newMember
        change new = connection.currentJobId + taken + 1 at newMember
        omega
      · change _ ≤ connection.currentJobId + taken + 1
        rcases List.mem_append.mp (List.mem_of_mem_drop member) with old | new
        · have bound := valid.bounded workerJob old
          omega
        · rw [List.mem_singleton] at new
          rw [new]

theorem createWorkerJob_closed {connection : Connection} {key : Nat × Option Text}
    (closed : connection.Closed key) (taken : Nat) (difficulty : ℚ)
    (prepared : Option (UInt32 × UInt32)) :
    (connection.createWorkerJob taken difficulty prepared).Closed key := by
  rcases closed with ⟨bound, seen⟩
  cases prepared with
  | none =>
      refine ⟨?_, seen⟩
      change _ ≤ connection.currentJobId + taken + 1
      omega
  | some prepared =>
      refine ⟨?_, fun workerJob member same => ?_⟩
      · change _ ≤ connection.currentJobId + taken + 1
        omega
      · rcases List.mem_append.mp (List.mem_of_mem_drop member) with old | new
        · exact seen workerJob old same
        · rw [List.mem_singleton] at new
          rw [new] at same
          change connection.currentJobId + taken + 1 = key.1 at same
          omega

theorem checkRequest_ok {connection : Connection} {submit : Submit} {params : SubmitShareRequest}
    {jobId : Text} (checked : connection.checkRequest submit = some (.ok (params, jobId))) :
    submit.params = some params ∧ submit.isAuthorized = true := by
  unfold checkRequest at checked
  split_ifs at checked
  · cases checked
  · split at checked
    · rename_i given
      rw [given]
      split_ifs at checked with refused
      · cases checked
      · rw [not_or, Bool.not_eq_false] at refused
        split at checked <;> cases checked
        exact ⟨rfl, refused.2⟩
    · cases checked

theorem onSubmit_cases (connection : Connection) (submit : Submit) :
    ((connection.onSubmit environment submit).1 = connection ∧
      connection.accepted environment (.submit submit) = none) ∨
    ∃ params front workerJob back,
      (submit.params = some params ∧ submit.isAuthorized = true) ∧
      connection.validJobs = front ++ workerJob :: back ∧
      (connection.onSubmit environment submit).1 = { connection with
        validJobs := front ++ (processInJob environment (submit, params) workerJob).1 :: back } ∧
      connection.accepted environment (.submit submit) =
        (processInJob environment (submit, params) workerJob).2.toOption := by
  rw [accepted]
  unfold onSubmit
  split
  · exact .inl ⟨rfl, rfl⟩
  · exact .inl ⟨rfl, rfl⟩
  · rename_i params jobId checked
    split
    · exact .inl ⟨rfl, rfl⟩
    · rename_i validJobs result updated
      rcases Registry.updateFirst_some updated with ⟨front, workerJob, back, jobs, -, rfl, rfl⟩
      exact .inr ⟨params, front, workerJob, back, checkRequest_ok checked, jobs, rfl, rfl⟩

theorem processInJob_number (request : Submit × SubmitShareRequest) (workerJob : WorkerJob) :
    (processInJob environment request workerJob).1.number = workerJob.number := rfl

theorem processInJob_subset (request : Submit × SubmitShareRequest) (workerJob : WorkerJob) :
    workerJob.submissions ⊆ (processInJob environment request workerJob).1.submissions :=
  processSubmission_subset (fun _ => .ok ()) (nonceLower environment)
    (.stratum .minusOne "duplicate share") (submitShare environment workerJob)
    workerJob.submissions request

theorem submitShare_ok {workerJob : WorkerJob} {request : Submit × SubmitShareRequest}
    {acceptance : AcceptedShare}
    (submitted : submitShare environment workerJob request () = .ok acceptance) :
    acceptance.workerJob = workerJob.number ∧ acceptance.nonce = request.2.nonce ∧
      acceptance.share.miner = request.1.minerName ∧
      ∃ nonce, request.2.nonce = some nonce ∧ regexValidNonce nonce = true ∧
        acceptance.nonceBytes = hexToByteArray environment.culture nonce := by
  simp only [submitShare, bind_eq_ok] at submitted
  rcases submitted with ⟨_, _, found⟩
  split at found
  · simp only [bind_eq_ok, pure_eq_ok] at found
    rcases found with ⟨result, processed, _, _, rfl⟩
    exact ⟨rfl, rfl, rfl, (Job.processShare_ok environment _ processed).1⟩
  · cases found

theorem submitShare_validates {workerJob : WorkerJob} {request : Submit × SubmitShareRequest}
    {acceptance : AcceptedShare}
    (submitted : submitShare environment workerJob request () = .ok acceptance) :
    ∃ job issued validated, request.1.currentJob = some job ∧ job.height = workerJob.height ∧
      job.workerBlob environment workerJob.extraNonce = .ok issued ∧
      Job.Validates environment acceptance.nonceBytes request.2.hash issued validated ∧
      acceptance.blobHex = toHexString validated := by
  simp only [submitShare, bind_eq_ok, throwIf_eq_ok, not_not] at submitted
  rcases submitted with ⟨_, sameHeight, found⟩
  split at found
  · rename_i job isCurrent
    simp only [bind_eq_ok, pure_eq_ok] at found
    rcases found with ⟨result, processed, _, _, rfl⟩
    rcases (Job.processShare_ok environment job processed).2 with
      ⟨issued, validated, isIssued, validates, blobHex⟩
    rw [isCurrent, Option.map_some, Option.some.injEq] at sameHeight
    exact ⟨job, issued, validated, isCurrent, sameHeight, isIssued, validates, blobHex⟩
  · cases found

theorem processInJob_ok {workerJob : WorkerJob} {request : Submit × SubmitShareRequest}
    {acceptance : AcceptedShare}
    (processed : (processInJob environment request workerJob).2.toOption = some acceptance) :
    submitShare environment workerJob request () = .ok acceptance ∧
      ∃ known, acceptance.nonce.map environment.culture.toLower = some known ∧
        known ∉ workerJob.submissions ∧
        known ∈ (processInJob environment request workerJob).1.submissions := by
  rcases outcome : (processNonce environment request workerJob).2 with exception | share
  · simp only [processInJob, outcome] at processed
    cases processed
  · simp only [processInJob, outcome] at processed
    cases processed
    rcases processSubmission_ok (fun _ => .ok ()) (nonceLower environment)
      (.stratum .minusOne "duplicate share") (submitShare environment workerJob)
      (Prod.ext rfl outcome : processNonce environment request workerJob = (_, .ok acceptance))
      with ⟨_, known, _, keyed, fresh, registered, submitted⟩
    refine ⟨submitted, known, ?_, fresh, ?_⟩
    · simp only [nonceLower, bind_eq_ok, dereference_eq_ok, pure_eq_ok] at keyed
      rcases keyed with ⟨nonce, given, rfl⟩
      rw [(submitShare_ok environment submitted).2.1, given]
      rfl
    · have same : (processInJob environment request workerJob).1.submissions =
          known :: workerJob.submissions := registered
      rw [same]
      exact List.mem_cons_self

theorem onSubmit_valid {connection : Connection} (valid : connection.Valid) (submit : Submit) :
    (connection.onSubmit environment submit).1.Valid := by
  rcases connection.onSubmit_cases environment submit with ⟨same, -⟩ |
    ⟨params, front, workerJob, back, -, jobs, next, -⟩
  · rw [same]
    exact valid
  · have nodup := valid.nodup
    have bounded := valid.bounded
    rw [jobs] at nodup bounded
    rw [next]
    refine ⟨by simpa [processInJob_number] using nodup, ?_⟩
    intro other member
    rcases List.mem_append.mp member with inFront | rest
    · exact bounded other (List.mem_append_left _ inFront)
    · rcases List.mem_cons.mp rest with rfl | inBack
      · exact bounded workerJob (List.mem_append_right _ List.mem_cons_self)
      · exact bounded other (List.mem_append_right _ (List.mem_cons_of_mem _ inBack))

theorem onSubmit_closed {connection : Connection} {key : Nat × Option Text}
    (closed : connection.Closed key) (submit : Submit) :
    (connection.onSubmit environment submit).1.Closed key := by
  rcases connection.onSubmit_cases environment submit with ⟨same, -⟩ |
    ⟨params, front, workerJob, back, -, jobs, next, -⟩
  · rw [same]
    exact closed
  · rcases closed with ⟨bound, seen⟩
    rw [jobs] at seen
    rw [next]
    refine ⟨bound, fun other member number => ?_⟩
    rcases List.mem_append.mp member with inFront | rest
    · exact seen other (List.mem_append_left _ inFront) number
    · rcases List.mem_cons.mp rest with rfl | inBack
      · rcases seen workerJob (List.mem_append_right _ List.mem_cons_self) number with
          ⟨known, member, same⟩
        exact ⟨known, processInJob_subset environment _ workerJob member, same⟩
      · exact seen other (List.mem_append_right _ (List.mem_cons_of_mem _ inBack)) number

theorem processed_unique {connection : Connection} (valid : connection.Valid)
    {front back : List WorkerJob} {workerJob : WorkerJob}
    (jobs : connection.validJobs = front ++ workerJob :: back) :
    ∀ other ∈ front ++ back, other.number ≠ workerJob.number := by
  have nodup := valid.nodup
  rw [jobs, List.map_append, List.map_cons, List.nodup_middle, List.nodup_cons,
    ← List.map_append] at nodup
  intro other member equal
  exact nodup.1 (List.mem_map.mpr ⟨other, member, equal⟩)

def nonceGuard : OnceOnly Connection Event AcceptedShare (Nat × Option Text) where
  step := step environment
  accepted := accepted environment
  key acceptance := (acceptance.workerJob, acceptance.nonce.map environment.culture.toLower)
  closed := Closed
  valid := Valid
  step_valid connection event valid := by
    cases event with
    | createWorkerJob taken difficulty prepared =>
        exact createWorkerJob_valid valid taken difficulty prepared
    | submit submit => exact onSubmit_valid environment valid submit
  accepted_open connection event acceptance valid accepted := by
    cases event with
    | createWorkerJob taken difficulty prepared => cases accepted
    | submit submit =>
        rcases connection.onSubmit_cases environment submit with ⟨-, rejected⟩ |
          ⟨params, front, workerJob, back, -, jobs, -, processed⟩
        · rw [rejected] at accepted
          cases accepted
        · rw [processed] at accepted
          rcases processInJob_ok environment accepted with ⟨submitted, known, key, fresh, -⟩
          rintro ⟨-, seen⟩
          have member : workerJob ∈ connection.validJobs := by
            rw [jobs]
            exact List.mem_append_right _ List.mem_cons_self
          rcases seen workerJob member (submitShare_ok environment submitted).1.symm with
            ⟨earlier, earlierMember, same⟩
          rw [key, Option.some.injEq] at same
          exact fresh (same ▸ earlierMember)
  accepted_closes connection event acceptance valid accepted := by
    cases event with
    | createWorkerJob taken difficulty prepared => cases accepted
    | submit submit =>
        rcases connection.onSubmit_cases environment submit with ⟨-, rejected⟩ |
          ⟨params, front, workerJob, back, -, jobs, next, processed⟩
        · rw [rejected] at accepted
          cases accepted
        · rw [processed] at accepted
          rcases processInJob_ok environment accepted with ⟨submitted, known, key, -, registered⟩
          have number := (submitShare_ok environment submitted).1
          have member : workerJob ∈ connection.validJobs := by
            rw [jobs]
            exact List.mem_append_right _ List.mem_cons_self
          rw [step, next]
          refine ⟨number ▸ valid.bounded workerJob member, fun other otherMember same => ?_⟩
          rw [List.mem_append, List.mem_cons] at otherMember
          rcases otherMember with inFront | rfl | inBack
          · exact absurd (same.trans number)
              (processed_unique valid jobs other (List.mem_append_left _ inFront))
          · exact ⟨known, registered, key⟩
          · exact absurd (same.trans number)
              (processed_unique valid jobs other (List.mem_append_right _ inBack))
  closed_stays connection event key valid closed := by
    cases event with
    | createWorkerJob taken difficulty prepared =>
        exact createWorkerJob_closed closed taken difficulty prepared
    | submit submit => exact onSubmit_closed environment closed submit

def acceptedShares (connectionId : Text) (currentJobId : Nat) (events : List Event) :
    List AcceptedShare :=
  (nonceGuard environment).acceptances (initial connectionId currentJobId) events

def Event.endsInLineFeed : Event → Bool
  | .createWorkerJob _ _ _ => false
  | .submit request => request.params.any fun params => params.nonce.any fun nonce =>
      nonce.getLast? == some 10

theorem accepted_digits {connection : Connection} {event : Event} {acceptance : AcceptedShare}
    (noLineFeed : event.endsInLineFeed = false)
    (accepts : connection.accepted environment event = some acceptance) :
    ∃ nonce, acceptance.nonce = some nonce ∧ nonce.isHex = true ∧ nonce.length = 8 ∧
      acceptance.nonceBytes = hexToByteArray environment.culture nonce := by
  cases event with
  | createWorkerJob taken difficulty prepared => cases accepts
  | submit submit =>
      rcases connection.onSubmit_cases environment submit with ⟨-, rejected⟩ |
        ⟨params, front, workerJob, back, ⟨given, -⟩, -, -, processed⟩
      · rw [rejected] at accepts
        cases accepts
      · rw [processed] at accepts
        rcases submitShare_ok environment (processInJob_ok environment accepts).1 with
          ⟨-, sameNonce, -, nonce, nonceGiven, matching, bytes⟩
        have noLineFeed : nonce.getLast? ≠ some 10 := by
          have submitted : params.nonce = some nonce := nonceGiven
          simpa [Event.endsInLineFeed, given, submitted] using noLineFeed
        rcases isNonce_of_regexValidNonce matching noLineFeed with ⟨hex, length⟩
        exact ⟨nonce, sameNonce.trans nonceGiven, hex, length, bytes⟩

/-- In every run without line feeds at the end of nonces, no worker job accepts
the same nonce bytes twice. -/
theorem acceptedShares_nonceBytes_distinct (connectionId : Text) (currentJobId : Nat)
    (events : List Event) (noLineFeed : ∀ event ∈ events, event.endsInLineFeed = false) :
    (acceptedShares environment connectionId currentJobId events).Pairwise fun earlier later =>
      earlier.workerJob = later.workerJob → earlier.nonceBytes ≠ later.nonceBytes := by
  have start : Valid (initial connectionId currentJobId) := ⟨List.nodup_nil, by simp [initial]⟩
  let digits : AcceptedShare → Prop := fun acceptance => ∃ nonce, acceptance.nonce = some nonce ∧
    nonce.isHex = true ∧ nonce.length = 8 ∧
    acceptance.nonceBytes = hexToByteArray environment.culture nonce
  have distinct := (nonceGuard environment).work_pairwise
    (fun acceptance => (acceptance.workerJob, acceptance.nonceBytes)) digits ?_
    (initial connectionId currentJobId) start events ?_
  · apply distinct.imp
    intro earlier later different sameJob sameBytes
    exact different (Prod.ext sameJob sameBytes)
  · rintro left right ⟨leftNonce, leftGiven, leftHex, leftLength, leftBytes⟩
      ⟨rightNonce, rightGiven, rightHex, rightLength, rightBytes⟩ equal
    rw [Prod.mk.injEq] at equal
    have lower := hexToByteArray_injective environment.culture leftHex rightHex (by omega)
      (by omega) (leftBytes.symm.trans (equal.2.trans rightBytes))
    simp only [nonceGuard, equal.1, leftGiven, rightGiven, Option.map_some, lower]
  · exact Run.emitted_forall _ _ (fun _ => True) (fun event => event.endsInLineFeed = false)
      (fun _ _ _ => trivial) digits
      (fun _ _ _ _ noLineFeed accepts => accepted_digits environment noLineFeed accepts)
      (initial connectionId currentJobId) trivial events noLineFeed

end Connection

/-! ## A block candidate at height 224

The native functions are given by their values on the blob of this share. -/

namespace SampleShare

def blobTemplate : Bytes :=
  [0x0106e7eabdcf058234351e2e6ea901a56b33bb531587424321873072d80a,
    0x9e97295b6c43152b9d00000000019c0201ffe00106e3a1a0cc010275d92c,
    0x0a057aa5f073079694a153d426f837f49fdb9654da10a5364e79a2086280,
    0xa0d9e61d028b46dca0d04998500b40b046fd6f8bb33229e6380fd465dbb1,
    0x327aa6f813d8bd80c0fc82aa0202372f076459e769116d604d30aabff716,
    0x0782acc0d20e0c5cdc8963ed4e16372f8090cad2c60e02f009504ce65538,
    0xbbb684b466b21be3a90e3740f185d7089d37b75f0cf62b6e7680e08d84dd,
    0xcb0102cf01b85c0b592bb6e508e20b5d317052b75de121908390363201ab,
    0xff3476ef0180c0caf384a302024b81076c8ad0cfe84cc32fe0813d63cdd0,
    0xf7d8d0e56d82aa3f58cbbe49d4c61e2b017aaf3074be7ecb30a769595758,
    0xe4da7c7c87ead864baf89b679b73153dfa352c02080000000000d150da00].flatMap
      (BigEndian.encode 30)

def blob : Bytes :=
  blobTemplate.take 39 ++ BigEndian.encode 4 0x040100a4 ++ (blobTemplate.drop 43).take 279 ++
    BigEndian.encode 4 1 ++ blobTemplate.drop 326

def blobConverted : Bytes :=
  blobTemplate.take 39 ++ BigEndian.encode 4 0x040100a4 ++
    BigEndian.encode 33 0xb7dff217012da3129b6e6a4b8705a598f8928469398b3479b711b6ceee16072301

def environment : Environment where
  culture := .ordinal
  rentedLength size := if size ≤ 512 then 512 else size
  le_rentedLength size := by split_ifs <;> omega
  convertBlob given := if given = blob then some blobConverted else none
  hashSlow _ := .ofNumber 32 0xf29c7fbf57d97eeedb61555857d7a34314250da20742b8157f96e0be89530a00
  hashFast _ := .ofNumber 32 0x9258faf2dff5daf026681b5fa5d94a34dbb5bade1d9e2070865ba8c68f8f0454

def job : Job where
  blobTemplate
  reservedOffset := 322
  height := 224
  difficulty := 2

def submit (nonce : Text) : Submit where
  hasRequestId := true
  isTooOld := false
  params := some {
    workerId := some (text "A")
    jobId := some (text "1")
    nonce := some nonce
    hash := some (toHexString (BigEndian.encode 32
      0xf29c7fbf57d97eeedb61555857d7a34314250da20742b8157f96e0be89530a00)) }
  isAuthorized := true
  worker := { difficulty := 1000, previousDifficulty := none, retargeted := false }
  minerName := none
  workerName := none
  currentJob := some job
  blockAccepted := .ok true

def events (first second : Text) : List Connection.Event :=
  [.createWorkerJob 0 1000 (some (224, 1)), .submit (submit first), .submit (submit second)]

end SampleShare

theorem acceptedShares_repeated_nonce :
    let events := SampleShare.events (text "040100a4") (text "040100a4")
    (Connection.acceptedShares SampleShare.environment (text "A") 0 events).length = 1 ∧
      (Connection.acceptedShares SampleShare.environment (text "A") 0 events).Pairwise
        fun earlier later =>
          earlier.workerJob = later.workerJob → earlier.nonceBytes ≠ later.nonceBytes :=
  ⟨by decide +kernel, Connection.acceptedShares_nonceBytes_distinct SampleShare.environment
    (text "A") 0 _ (by decide)⟩

/-- A line feed after the nonce passes the expression, changes the text of the
duplicate check and not the bytes: the same blob is credited again. -/
theorem acceptedShares_trailing_line_feed :
    ¬(Connection.acceptedShares SampleShare.environment (text "A") 0
      (SampleShare.events (text "040100a4") (text "040100a4\n"))).Pairwise
        fun earlier later =>
          earlier.workerJob = later.workerJob → earlier.nonceBytes ≠ later.nonceBytes := by
  decide +kernel

end Miningcore.Monero

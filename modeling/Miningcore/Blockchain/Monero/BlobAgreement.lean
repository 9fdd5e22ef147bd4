import Miningcore.Blockchain.Monero.Pool
import Miningcore.Foundation.Interleaving
import Miningcore.Foundation.RecentWindow

/-! The blobs of `MoneroPool`: what a worker job was issued with and what its shares are
validated against.

A blob is not kept. `ProcessShare` builds it again from the manager's current job and the
extra nonce that the worker job remembers, whatever has happened to the current job in
the meantime. New jobs, worker jobs and shares are handled at the same time; a request is
interrupted wherever it reads or writes what others share. -/

namespace Miningcore.Monero

open ByteLayout Interleaving StringExtensions

/-- A job that is or has been the current one, with its counter and the number of worker
jobs that have been prepared from it. -/
structure IssuingJob where
  job : Job
  extraNonce : UInt32
  prepared : Nat

def IssuingJob.next (issuing : IssuingJob) : IssuingJob :=
  { issuing with extraNonce := issuing.extraNonce + 1, prepared := issuing.prepared + 1 }

/-- `MoneroJobParams`. -/
structure JobParams where
  jobId : Text
  blob : Text
  target : Text

/-- A worker job that `CreateWorkerJob` has returned the parameters of: the one of the
issuing jobs that it was prepared from, and how many were prepared from it before. -/
structure IssuedJob where
  workerJob : WorkerJob
  job : Nat
  position : Nat
  params : JobParams

/-- An accepted share of the worker job that was issued at a position. -/
structure Acceptance where
  issued : Nat
  request : SubmitShareRequest
  share : AcceptedShare

/-- What requests share. The current job is the last one of `jobs`; `update` is the new
job of an `UpdateJob` that is about to replace it. `validJobs` are the worker jobs of each
connection, by their positions among those issued. -/
structure PoolState where
  jobs : List IssuingJob
  update : Option Job
  currentJobId : Nat
  issued : List IssuedJob
  validJobs : Text → List Nat
  accepted : List Acceptance

inductive PoolRequest
  | updateJob (blockTemplate : Option BlockTemplate)
  | publishJob
  | createWorkerJob (connectionId : Text) (difficulty : ℚ)
  | submit (connectionId : Text) (submit : Submit)

inductive PoolTask
  | readIssuingJob (connectionId : Text) (workerJob : WorkerJob)
  | prepareWorkerJob (connectionId : Text) (workerJob : WorkerJob) (job : Nat)
  | addJob (connectionId : Text) (issued : IssuedJob)
  | checkDuplicate (submit : Submit) (params : SubmitShareRequest) (issued : Nat)
  | readCurrentJob (submit : Submit) (params : SubmitShareRequest) (issued : Nat)
  | processShare (submit : Submit) (params : SubmitShareRequest) (issued : Nat)

namespace PoolState

def initial : PoolState where
  jobs := []
  update := none
  currentJobId := 0
  issued := []
  validJobs _ := []
  accepted := []

def currentJob (state : PoolState) : Option Job := state.jobs.getLast?.map IssuingJob.job

def connection (state : PoolState) (connectionId : Text) : Connection where
  connectionId
  currentJobId := state.currentJobId
  validJobs := (state.validJobs connectionId).filterMap fun position =>
    state.issued[position]?.map IssuedJob.workerJob

variable (environment : Environment) (instanceId : FixedBytes 3)

/-- `UpdateJob` up to the assignment to `currentJob`. There is no template if the daemon
responds with an error; an exception is logged. A second `UpdateJob` waits for the first. -/
def updateJob (state : PoolState) (blockTemplate : Option BlockTemplate) : PoolState :=
  match state.update, blockTemplate with
  | none, some blockTemplate =>
      let isNew := state.currentJob.all fun job => job.height < blockTemplate.height
      if isNew then
        match Job.ofTemplate environment.culture instanceId blockTemplate with
        | .ok job => { state with update := some job }
        | .error _ => state
      else
        state
  | _, _ => state

def publishJob (state : PoolState) : PoolState :=
  match state.update with
  | some job => { state with
      jobs := state.jobs ++ [{ job, extraNonce := 0, prepared := 0 }]
      update := none }
  | none => state

/-- `CreateWorkerJob`: a new worker job with the next identifier. -/
def createWorkerJob (state : PoolState) (connectionId : Text) (difficulty : ℚ) :
    PoolState × Option PoolTask :=
  let number := state.currentJobId + 1
  ({ state with currentJobId := number },
    some (.readIssuingJob connectionId
      { number, height := 0, extraNonce := 0, difficulty, submissions := [] }))

/-- `OnSubmitAsync` up to the lookup of the worker job. -/
def findJob (state : PoolState) (connectionId : Text) (submit : Submit) : Option PoolTask :=
  match (state.connection connectionId).checkRequest submit with
  | some (.ok (params, jobId)) => do
      let position ← (state.validJobs connectionId).find? fun position =>
        state.issued[position]?.any fun issued => issued.workerJob.id == jobId
      return .checkDuplicate submit params position
  | _ => none

def start (state : PoolState) : PoolRequest → PoolState × Option PoolTask
  | .updateJob blockTemplate => (state.updateJob environment instanceId blockTemplate, none)
  | .publishJob => (state.publishJob, none)
  | .createWorkerJob connectionId difficulty => state.createWorkerJob connectionId difficulty
  | .submit connectionId submit => (state, state.findJob connectionId submit)

/-- The texts that `PrepareWorkerJob` returns for a worker job. -/
def encodeParams (job : Job) (workerJob : WorkerJob) : Except Exception JobParams := do
  let blob ← job.encodeBlob environment workerJob.extraNonce
  let target ← Job.encodeTarget workerJob.difficulty
  return { jobId := workerJob.id, blob, target }

/-- `PrepareWorkerJob` under the lock of the job. An exception comes too late for the
counter. -/
def prepareWorkerJob (state : PoolState) (connectionId : Text) (workerJob : WorkerJob)
    (job : Nat) : PoolState × Option PoolTask :=
  match state.jobs[job]? with
  | none => (state, none)
  | some issuing =>
      let workerJob := { workerJob with
        height := issuing.job.height
        extraNonce := issuing.next.extraNonce }
      ({ state with jobs := state.jobs.set job issuing.next },
        match encodeParams environment issuing.job workerJob with
        | .ok params =>
            some (.addJob connectionId { workerJob, job, position := issuing.prepared, params })
        | .error _ => none)

def addJob (state : PoolState) (connectionId : Text) (issued : IssuedJob) : PoolState :=
  if issued.params.blob = [] then
    state
  else
    let validJobs := state.validJobs connectionId ++ [state.issued.length]
    { state with
      issued := state.issued ++ [issued]
      validJobs := Function.update state.validJobs connectionId
        (RecentWindow.latest 4 validJobs) }

def registerNonce (request : Submit × SubmitShareRequest) (workerJob : WorkerJob) :
    Except Exception WorkerJob := do
  let nonceLower ← Connection.nonceLower environment request ()
  throwIf (workerJob.submissions.contains nonceLower) (.stratum .minusOne "duplicate share")
  return { workerJob with submissions := nonceLower :: workerJob.submissions }

def checkDuplicate (state : PoolState) (submit : Submit) (params : SubmitShareRequest)
    (position : Nat) : PoolState × Option PoolTask :=
  match state.issued[position]? with
  | none => (state, none)
  | some issued =>
      match registerNonce environment (submit, params) issued.workerJob with
      | .ok workerJob =>
          ({ state with issued := state.issued.set position { issued with workerJob } },
            some (.readCurrentJob submit params position))
      | .error _ => (state, none)

/-- `SubmitShareAsync` with the current job it has read. -/
def processShare (state : PoolState) (submit : Submit) (params : SubmitShareRequest)
    (position : Nat) : PoolState :=
  match state.issued[position]? with
  | none => state
  | some issued =>
      match Connection.submitShare environment issued.workerJob (submit, params) () with
      | .ok share => { state with
          accepted := state.accepted ++ [{ issued := position, request := params, share }] }
      | .error _ => state

def advance (state : PoolState) : PoolTask → PoolState × Option PoolTask
  | .readIssuingJob connectionId workerJob =>
      (state, if state.jobs = [] then none else
        some (.prepareWorkerJob connectionId workerJob (state.jobs.length - 1)))
  | .prepareWorkerJob connectionId workerJob job =>
      state.prepareWorkerJob environment connectionId workerJob job
  | .addJob connectionId issued => (state.addJob connectionId issued, none)
  | .checkDuplicate submit params position =>
      state.checkDuplicate environment submit params position
  | .readCurrentJob submit params position =>
      (state, some (.processShare { submit with currentJob := state.currentJob } params position))
  | .processShare submit params position =>
      (state.processShare environment submit params position, none)

def behaviour : Behaviour PoolState PoolTask PoolRequest where
  start state request := state.start environment instanceId request
  advance state task := state.advance environment task

def reached (events : List (Event PoolRequest)) : PoolState :=
  (Run.final (step (behaviour environment instanceId)) { shared := initial, tasks := [] }
    events).shared

end PoolState

/-- The blob that was issued for a worker job: the template of its job with its extra
nonce in the reserved area. The miner got it converted. -/
structure IsIssuedBlob (environment : Environment) (issuing : IssuingJob) (issued : IssuedJob)
    (blob : Bytes) : Prop where
  template : Written (BigEndian.encode 4 issued.workerJob.extraNonce.toNat)
    issuing.job.reservedOffset.toNat issuing.job.blobTemplate blob
  sent : ∃ blobConverted, environment.convertBlob blob = some blobConverted ∧
    issued.params.blob = toHexString blobConverted

/-- A share was validated against the blob that was issued for its worker job, with the
bytes of its nonce at the nonce offset. -/
def BlobAgrees (environment : Environment) (state : PoolState) (acceptance : Acceptance) : Prop :=
  ∃ issued issuing blob validated nonce,
    state.issued[acceptance.issued]? = some issued ∧
    state.jobs[issued.job]? = some issuing ∧
    acceptance.share.workerJob = issued.workerJob.number ∧
    IsIssuedBlob environment issuing issued blob ∧
    acceptance.request.nonce = some nonce ∧
    Job.Validates environment (hexToByteArray environment.culture nonce) acceptance.request.hash
      blob validated ∧
    acceptance.share.blobHex = toHexString validated

/-! ## What requests rely on -/

def IssuedJob.withSubmissions (issued : IssuedJob) (submissions : Submissions Text) : IssuedJob :=
  { issued with workerJob := { issued.workerJob with submissions } }

/-- What stays as it is: a job keeps its template, and an issued worker job everything but
the nonces submitted for it. -/
structure Preserves (before after : PoolState) : Prop where
  jobs : ∀ (index : Nat) (issuing : IssuingJob), before.jobs[index]? = some issuing → ∃ later,
    after.jobs[index]? = some later ∧ later.job = issuing.job ∧ issuing.prepared ≤ later.prepared
  issued : ∀ (position : Nat) (issued : IssuedJob), before.issued[position]? = some issued →
    ∃ submissions, after.issued[position]? = some (issued.withSubmissions submissions)

theorem preserves_of_append {before after : PoolState}
    (jobs : ∃ new, after.jobs = before.jobs ++ new)
    (issued : ∃ new, after.issued = before.issued ++ new) : Preserves before after := by
  rcases jobs with ⟨newJobs, isJobs⟩
  rcases issued with ⟨newIssued, isIssued⟩
  constructor
  · intro index issuing found
    have bound := (List.getElem?_eq_some_iff.mp found).1
    refine ⟨issuing, ?_, rfl, Nat.le_refl _⟩
    rw [isJobs, List.getElem?_append_left bound, found]
  · intro position given found
    have bound := (List.getElem?_eq_some_iff.mp found).1
    refine ⟨given.workerJob.submissions, ?_⟩
    rw [isIssued, List.getElem?_append_left bound, found]
    rfl

def Issued (environment : Environment) (jobs : List IssuingJob) (issued : IssuedJob) : Prop :=
  ∃ issuing blob, jobs[issued.job]? = some issuing ∧
    issued.workerJob.height = issuing.job.height ∧
    issued.position < issuing.prepared ∧
    issued.workerJob.extraNonce = UInt32.ofNat (issued.position + 1) ∧
    issuing.job.workerBlob environment issued.workerJob.extraNonce = .ok blob ∧
    ∃ blobConverted, environment.convertBlob blob = some blobConverted ∧
      issued.params.blob = toHexString blobConverted

section

variable {environment : Environment} {before after : PoolState}

theorem Issued.preserved {issued : IssuedJob} (preserves : Preserves before after)
    (known : Issued environment before.jobs issued) : Issued environment after.jobs issued := by
  rcases known with ⟨issuing, blob, found, height, bound, extraNonce, isBlob, sent⟩
  rcases preserves.jobs _ _ found with ⟨later, stillFound, sameJob, grown⟩
  refine ⟨later, blob, stillFound, ?_, by omega, extraNonce, ?_, sent⟩
  · rw [sameJob, height]
  · rw [sameJob, isBlob]

theorem BlobAgrees.preserved {acceptance : Acceptance} (preserves : Preserves before after)
    (agrees : BlobAgrees environment before acceptance) :
    BlobAgrees environment after acceptance := by
  rcases agrees with ⟨issued, issuing, blob, validated, nonce, isIssued, isIssuing, number,
    issuedBlob, given, validates, blobHex⟩
  rcases preserves.issued _ _ isIssued with ⟨submissions, stillIssued⟩
  rcases preserves.jobs _ _ isIssuing with ⟨later, stillFound, sameJob, -⟩
  refine ⟨_, later, blob, validated, nonce, stillIssued, stillFound, number, ⟨?_, issuedBlob.sent⟩,
    given, validates, blobHex⟩
  rw [sameJob]
  exact issuedBlob.template

/-- Heights grow from job to job, counters count, and all that was issued and accepted is
in order. -/
structure Consistent (environment : Environment) (state : PoolState) : Prop where
  heights : (state.jobs.map fun issuing => issuing.job.height).Pairwise (· < ·)
  update : ∀ job ∈ state.update, ∀ issuing ∈ state.jobs, issuing.job.height < job.height
  counted : ∀ issuing ∈ state.jobs, issuing.extraNonce = UInt32.ofNat issuing.prepared
  issued : ∀ issued ∈ state.issued, Issued environment state.jobs issued
  accepted : ∀ acceptance ∈ state.accepted, BlobAgrees environment state acceptance

def PoolTask.Valid (environment : Environment) (state : PoolState) : PoolTask → Prop
  | .addJob _ issued => issued.params.blob ≠ [] → Issued environment state.jobs issued
  | .processShare submit _ _ =>
      ∀ job ∈ submit.currentJob, ∃ issuing ∈ state.jobs, issuing.job = job
  | _ => True

theorem PoolTask.Valid.preserved {task : PoolTask} (preserves : Preserves before after)
    (valid : task.Valid environment before) : task.Valid environment after := by
  cases task with
  | addJob connectionId issued =>
      intro nonempty
      exact (valid nonempty).preserved preserves
  | processShare submit params position =>
      intro job isCurrent
      rcases valid job isCurrent with ⟨issuing, member, isJob⟩
      rcases List.getElem?_of_mem member with ⟨index, found⟩
      rcases preserves.jobs index issuing found with ⟨later, stillFound, sameJob, -⟩
      exact ⟨later, List.mem_of_getElem? stillFound, sameJob.trans isJob⟩
  | readIssuingJob | prepareWorkerJob | checkDuplicate | readCurrentJob => trivial

theorem Consistent.job_eq {state : PoolState} (consistent : Consistent environment state)
    {left right : IssuingJob} (inLeft : left ∈ state.jobs) (inRight : right ∈ state.jobs)
    (same : left.job.height = right.job.height) : left.job = right.job := by
  have distinct : (state.jobs.map fun issuing => issuing.job.height).Nodup :=
    consistent.heights.imp UInt32.ne_of_lt
  rw [List.inj_on_of_nodup_map distinct inLeft inRight same]

/-! ## One step -/

abbrev Guaranteed (environment : Environment) (before : PoolState)
    (outcome : PoolState × Option PoolTask) : Prop :=
  Guarantees (Consistent environment) (PoolTask.Valid environment) Preserves before outcome

theorem preserves_refl (state : PoolState) : Preserves state state :=
  preserves_of_append ⟨[], by simp⟩ ⟨[], by simp⟩

theorem guaranteed_of_unchanged (consistent : Consistent environment before)
    {task : Option PoolTask} (valid : ∀ next ∈ task, next.Valid environment before) :
    Guaranteed environment before (before, task) where
  invariant := consistent
  preserves := preserves_refl before
  valid := valid

variable {instanceId : FixedBytes 3}

theorem currentJob_mem {state : PoolState} {job : Job} (isCurrent : job ∈ state.currentJob) :
    ∃ issuing ∈ state.jobs, issuing.job = job := by
  rcases Option.map_eq_some_iff.mp isCurrent with ⟨issuing, isLast, isJob⟩
  exact ⟨issuing, List.mem_of_getLast? isLast, isJob⟩

theorem Consistent.height_lt {state : PoolState} (consistent : Consistent environment state)
    {height : UInt32} (isNew : state.currentJob.all (fun job => job.height < height) = true) :
    ∀ issuing ∈ state.jobs, issuing.job.height < height := by
  intro issuing member
  have heights := consistent.heights
  rcases List.eq_nil_or_concat' state.jobs with none | ⟨front, last, jobs⟩
  · rw [none] at member
    cases member
  · rw [PoolState.currentJob, jobs, List.getLast?_concat, Option.map_some, Option.all_some,
      decide_eq_true_eq] at isNew
    rw [jobs, List.map_append, List.pairwise_append] at heights
    rw [jobs, List.mem_append, List.mem_singleton] at member
    rcases member with inFront | isLast
    · have below := heights.2.2 issuing.job.height (List.mem_map_of_mem inFront) last.job.height
        (by simp)
      exact UInt32.lt_trans below isNew
    · rw [isLast]
      exact isNew

theorem ofTemplate_height {culture : Culture} {blockTemplate : BlockTemplate} {job : Job}
    (constructed : Job.ofTemplate culture instanceId blockTemplate = .ok job) :
    job.height = blockTemplate.height := by
  simp only [Job.ofTemplate, bind_eq_ok, pure_eq_ok] at constructed
  rcases constructed with ⟨_, _, rfl⟩
  rfl

theorem updateJob_guaranteed (consistent : Consistent environment before)
    (blockTemplate : Option BlockTemplate) :
    Guaranteed environment before
      (before.updateJob environment instanceId blockTemplate, none) := by
  have unchanged : Guaranteed environment before (before, none) :=
    guaranteed_of_unchanged consistent (by simp)
  unfold PoolState.updateJob
  split
  · rename_i blockTemplate _
    dsimp only
    split_ifs with isNew
    · split
      · rename_i job constructed
        refine ⟨⟨consistent.heights, ?_, consistent.counted, consistent.issued,
          consistent.accepted⟩, preserves_of_append ⟨[], by simp⟩ ⟨[], by simp⟩, by simp⟩
        intro new isUpdate
        rw [Option.mem_some_iff] at isUpdate
        rw [← isUpdate, ofTemplate_height constructed]
        exact consistent.height_lt isNew
      · exact unchanged
    · exact unchanged
  · exact unchanged

theorem publishJob_guaranteed (consistent : Consistent environment before) :
    Guaranteed environment before (before.publishJob, none) := by
  unfold PoolState.publishJob
  split
  · rename_i job isUpdate
    have preserves : Preserves before { before with
        jobs := before.jobs ++ [{ job, extraNonce := 0, prepared := 0 }], update := none } :=
      preserves_of_append ⟨_, rfl⟩ ⟨[], by simp⟩
    refine ⟨⟨?_, by simp, ?_, ?_, ?_⟩, preserves, by simp⟩
    · rw [List.map_append, List.pairwise_append]
      refine ⟨consistent.heights, List.pairwise_singleton _ _, ?_⟩
      intro height inOld newest isNewest
      rcases List.mem_map.mp inOld with ⟨issuing, member, rfl⟩
      rw [List.map_singleton, List.mem_singleton] at isNewest
      rw [isNewest]
      exact consistent.update job isUpdate issuing member
    · intro issuing member
      rcases List.mem_append.mp member with old | new
      · exact consistent.counted issuing old
      · rw [List.mem_singleton.mp new]
        rfl
    · intro issued member
      exact (consistent.issued issued member).preserved preserves
    · intro acceptance member
      exact (consistent.accepted acceptance member).preserved preserves
  · exact guaranteed_of_unchanged consistent (by simp)

theorem encodeParams_ok {job : Job} {workerJob : WorkerJob} {params : JobParams}
    (encoded : PoolState.encodeParams environment job workerJob = .ok params)
    (nonempty : params.blob ≠ []) :
    ∃ blob, job.workerBlob environment workerJob.extraNonce = .ok blob ∧
      ∃ blobConverted, environment.convertBlob blob = some blobConverted ∧
        params.blob = toHexString blobConverted := by
  simp only [PoolState.encodeParams, Job.encodeBlob, bind_eq_ok, pure_eq_ok] at encoded
  rcases encoded with ⟨_, ⟨blob, isBlob, rfl⟩, _, _, rfl⟩
  refine ⟨blob, isBlob, ?_⟩
  cases converted : environment.convertBlob blob with
  | none =>
      rw [converted] at nonempty
      exact absurd rfl nonempty
  | some blobConverted => exact ⟨blobConverted, rfl, rfl⟩

theorem preserves_next {job : Nat} {issuing : IssuingJob}
    (found : before.jobs[job]? = some issuing) :
    Preserves before { before with jobs := before.jobs.set job issuing.next } := by
  have bound := (List.getElem?_eq_some_iff.mp found).1
  constructor
  · intro index other isOther
    by_cases same : job = index
    · rw [← same, found, Option.some.injEq] at isOther
      rw [← same, ← isOther]
      exact ⟨issuing.next, List.getElem?_set_self bound, rfl, Nat.le_succ _⟩
    · exact ⟨other, by rw [List.getElem?_set_ne same, isOther], rfl, Nat.le_refl _⟩
  · intro position issued isIssued
    exact ⟨issued.workerJob.submissions, isIssued⟩

theorem IssuingJob.next_counted {issuing : IssuingJob}
    (counted : issuing.extraNonce = UInt32.ofNat issuing.prepared) :
    issuing.next.extraNonce = UInt32.ofNat (issuing.prepared + 1) := by
  rw [UInt32.ofNat_add, ← counted]
  rfl

theorem consistent_next (consistent : Consistent environment before) {job : Nat}
    {issuing : IssuingJob} (found : before.jobs[job]? = some issuing) :
    Consistent environment { before with jobs := before.jobs.set job issuing.next } := by
  have preserves := preserves_next found
  have isMember := List.mem_of_getElem? found
  constructor
  · have sameHeights : (before.jobs.set job issuing.next).map (fun issuing => issuing.job.height) =
        before.jobs.map fun issuing => issuing.job.height :=
      Registry.map_set_eq _ found rfl
    change ((before.jobs.set job issuing.next).map fun issuing => issuing.job.height).Pairwise _
    rw [sameHeights]
    exact consistent.heights
  · intro update isUpdate other member
    rcases List.mem_or_eq_of_mem_set member with old | isNext
    · exact consistent.update update isUpdate other old
    · rw [isNext]
      exact consistent.update update isUpdate issuing isMember
  · intro other member
    rcases List.mem_or_eq_of_mem_set member with old | isNext
    · exact consistent.counted other old
    · rw [isNext]
      exact IssuingJob.next_counted (consistent.counted issuing isMember)
  · intro issued member
    exact (consistent.issued issued member).preserved preserves
  · intro acceptance member
    exact (consistent.accepted acceptance member).preserved preserves

theorem prepareWorkerJob_guaranteed (consistent : Consistent environment before)
    (connectionId : Text) (workerJob : WorkerJob) (job : Nat) :
    Guaranteed environment before
      (before.prepareWorkerJob environment connectionId workerJob job) := by
  unfold PoolState.prepareWorkerJob
  split
  · exact guaranteed_of_unchanged consistent (by simp)
  · rename_i issuing found
    refine ⟨consistent_next consistent found, preserves_next found, ?_⟩
    intro task isTask
    dsimp only at isTask
    split at isTask
    · rename_i params encoded
      rw [Option.mem_some_iff] at isTask
      rw [← isTask]
      intro nonempty
      rcases encodeParams_ok encoded nonempty with ⟨blob, isBlob, sent⟩
      have counted := consistent.counted issuing (List.mem_of_getElem? found)
      exact ⟨issuing.next, blob, List.getElem?_set_self (List.getElem?_eq_some_iff.mp found).1, rfl,
        Nat.lt_succ_self _, IssuingJob.next_counted counted, isBlob, sent⟩
    · cases isTask

theorem addJob_guaranteed (consistent : Consistent environment before) (connectionId : Text)
    {issued : IssuedJob}
    (valid : (PoolTask.addJob connectionId issued).Valid environment before) :
    Guaranteed environment before (before.addJob connectionId issued, none) := by
  unfold PoolState.addJob
  split_ifs with isEmpty
  · exact guaranteed_of_unchanged consistent (by simp)
  · have preserves : Preserves before { before with
        issued := before.issued ++ [issued]
        validJobs := Function.update before.validJobs connectionId
          (RecentWindow.latest 4 (before.validJobs connectionId ++ [before.issued.length])) } :=
      preserves_of_append ⟨[], by simp⟩ ⟨[issued], rfl⟩
    refine ⟨⟨consistent.heights, consistent.update, consistent.counted, ?_, ?_⟩, preserves,
      by simp⟩
    · intro other member
      rcases List.mem_append.mp member with old | new
      · exact consistent.issued other old
      · rw [List.mem_singleton.mp new]
        exact valid isEmpty
    · intro acceptance member
      exact (consistent.accepted acceptance member).preserved preserves

theorem registerNonce_ok {request : Submit × SubmitShareRequest} {workerJob registered : WorkerJob}
    (isRegistered : PoolState.registerNonce environment request workerJob = .ok registered) :
    ∃ submissions, registered = { workerJob with submissions } := by
  simp only [PoolState.registerNonce, bind_eq_ok, pure_eq_ok] at isRegistered
  rcases isRegistered with ⟨nonceLower, _, _, _, rfl⟩
  exact ⟨_, rfl⟩

theorem preserves_withSubmissions {position : Nat} {issued : IssuedJob}
    (found : before.issued[position]? = some issued) (submissions : Submissions Text) :
    Preserves before { before with
      issued := before.issued.set position (issued.withSubmissions submissions) } := by
  have bound := (List.getElem?_eq_some_iff.mp found).1
  constructor
  · intro index issuing isIssuing
    exact ⟨issuing, isIssuing, rfl, Nat.le_refl _⟩
  · intro index other isOther
    by_cases same : position = index
    · rw [← same, found, Option.some.injEq] at isOther
      rw [← same, ← isOther]
      exact ⟨submissions, List.getElem?_set_self bound⟩
    · refine ⟨other.workerJob.submissions, ?_⟩
      rw [List.getElem?_set_ne same, isOther]
      rfl

theorem checkDuplicate_guaranteed (consistent : Consistent environment before) (submit : Submit)
    (params : SubmitShareRequest) (position : Nat) :
    Guaranteed environment before
      (before.checkDuplicate environment submit params position) := by
  unfold PoolState.checkDuplicate
  split
  · exact guaranteed_of_unchanged consistent (by simp)
  · rename_i issued found
    split
    · rename_i workerJob isRegistered
      rcases registerNonce_ok isRegistered with ⟨submissions, rfl⟩
      have preserves := preserves_withSubmissions found submissions
      refine ⟨⟨consistent.heights, consistent.update, consistent.counted, ?_, ?_⟩, preserves,
        by simp [PoolTask.Valid]⟩
      · intro other member
        rcases List.mem_or_eq_of_mem_set member with old | isUpdated
        · exact consistent.issued other old
        · rw [isUpdated]
          exact consistent.issued issued (List.mem_of_getElem? found)
      · intro acceptance member
        exact (consistent.accepted acceptance member).preserved preserves
    · exact guaranteed_of_unchanged consistent (by simp)

/-- A share that is accepted for an issued worker job was validated against its blob: the
job that validated it has the height of the worker job, and so it is the job that the
worker job was prepared from. -/
theorem blobAgrees_of_submitShare (consistent : Consistent environment before) {submit : Submit}
    {params : SubmitShareRequest} {position : Nat} {issued : IssuedJob} {share : AcceptedShare}
    (isCurrent : ∀ job ∈ submit.currentJob, ∃ issuing ∈ before.jobs, issuing.job = job)
    (found : before.issued[position]? = some issued)
    (submitted : Connection.submitShare environment issued.workerJob (submit, params) () =
      .ok share) :
    BlobAgrees environment before { issued := position, request := params, share } := by
  rcases Connection.submitShare_ok environment submitted with
    ⟨number, -, -, nonce, given, -, bytes⟩
  rcases Connection.submitShare_validates environment submitted with
    ⟨job, blob, validated, wasCurrent, sameHeight, isBlob, validates, blobHex⟩
  rcases consistent.issued issued (List.mem_of_getElem? found) with
    ⟨issuing, sentBlob, isIssuing, height, -, -, isSentBlob, sent⟩
  rcases isCurrent job wasCurrent with ⟨validating, member, isJob⟩
  have sameJob : issuing.job = job := by
    rw [← isJob]
    apply consistent.job_eq (List.mem_of_getElem? isIssuing) member
    rw [isJob, sameHeight, height]
  rw [sameJob, isBlob, Except.ok.injEq] at isSentBlob
  rw [isSentBlob] at validates isBlob
  rw [bytes] at validates
  refine ⟨issued, issuing, sentBlob, validated, nonce, found, isIssuing, number, ⟨?_, sent⟩, given,
    validates, blobHex⟩
  rw [sameJob]
  exact job.workerBlob_ok environment isBlob

theorem processShare_guaranteed (consistent : Consistent environment before) {submit : Submit}
    {params : SubmitShareRequest} {position : Nat}
    (valid : (PoolTask.processShare submit params position).Valid environment before) :
    Guaranteed environment before
      (before.processShare environment submit params position, none) := by
  unfold PoolState.processShare
  split
  · exact guaranteed_of_unchanged consistent (by simp)
  · rename_i issued found
    split
    · rename_i share submitted
      refine ⟨⟨consistent.heights, consistent.update, consistent.counted, consistent.issued, ?_⟩,
        preserves_of_append ⟨[], by simp⟩ ⟨[], by simp⟩, by simp⟩
      intro acceptance member
      rcases List.mem_append.mp member with old | new
      · exact consistent.accepted acceptance old
      · rw [List.mem_singleton.mp new]
        exact blobAgrees_of_submitShare consistent valid found submitted
    · exact guaranteed_of_unchanged consistent (by simp)

theorem findJob_valid {state : PoolState} {connectionId : Text} {submit : Submit} {task : PoolTask}
    (found : task ∈ state.findJob connectionId submit) :
    ∃ params position, task = .checkDuplicate submit params position := by
  unfold PoolState.findJob at found
  split at found
  · rename_i params jobId _
    rcases Option.bind_eq_some_iff.mp found with ⟨position, -, isTask⟩
    cases isTask
    exact ⟨params, position, rfl⟩
  · cases found

theorem start_guaranteed (consistent : Consistent environment before) (request : PoolRequest) :
    Guaranteed environment before (before.start environment instanceId request) := by
  cases request with
  | updateJob blockTemplate => exact updateJob_guaranteed consistent blockTemplate
  | publishJob => exact publishJob_guaranteed consistent
  | createWorkerJob connectionId difficulty =>
      refine ⟨⟨consistent.heights, consistent.update, consistent.counted, consistent.issued,
        consistent.accepted⟩, preserves_of_append ⟨[], by simp [PoolState.start,
          PoolState.createWorkerJob]⟩
          ⟨[], by simp [PoolState.start, PoolState.createWorkerJob]⟩, ?_⟩
      intro task isTask
      cases isTask
      trivial
  | submit connectionId submit =>
      apply guaranteed_of_unchanged consistent
      intro task isTask
      rcases findJob_valid isTask with ⟨params, position, rfl⟩
      trivial

theorem advance_guaranteed (consistent : Consistent environment before) {task : PoolTask}
    (valid : task.Valid environment before) :
    Guaranteed environment before (before.advance environment task) := by
  cases task with
  | readIssuingJob connectionId workerJob =>
      apply guaranteed_of_unchanged consistent
      intro next isNext
      split_ifs at isNext
      · cases isNext
      · cases isNext
        trivial
  | prepareWorkerJob connectionId workerJob job =>
      exact prepareWorkerJob_guaranteed consistent connectionId workerJob job
  | addJob connectionId issued => exact addJob_guaranteed consistent connectionId valid
  | checkDuplicate submit params position =>
      exact checkDuplicate_guaranteed consistent submit params position
  | readCurrentJob submit params position =>
      apply guaranteed_of_unchanged consistent
      intro next isNext
      cases isNext
      exact fun job => currentJob_mem
  | processShare submit params position => exact processShare_guaranteed consistent valid

/-! ## Extra nonces -/

/-- A prepared worker job owns its turn among those of its job, and keeps it when it is
issued. -/
def turns : Keys PoolState PoolTask (Nat × Nat) where
  key
    | .addJob _ issued => some (issued.job, issued.position)
    | _ => none
  held state := state.issued.map fun issued => (issued.job, issued.position)
  allocated state turn := ∃ issuing, state.jobs[turn.1]? = some issuing ∧ turn.2 < issuing.prepared

theorem turns_allocated (preserves : Preserves before after) (turn : Nat × Nat)
    (allocated : turns.allocated before turn) : turns.allocated after turn := by
  rcases allocated with ⟨issuing, found, bound⟩
  rcases preserves.jobs _ _ found with ⟨later, stillFound, -, grown⟩
  exact ⟨later, stillFound, Nat.lt_of_lt_of_le bound grown⟩

theorem turns_pass {outcome : PoolState × Option PoolTask} (owned : Option (Nat × Nat))
    (preserves : Preserves before outcome.1)
    (same : turns.held outcome.1 = turns.held before) (noKey : outcome.2.bind turns.key = none) :
    turns.Passes before owned outcome :=
  turns.passes_of_held_eq owned (turns_allocated preserves) same noKey

theorem updateJob_unchanged (state : PoolState) (blockTemplate : Option BlockTemplate) :
    (state.updateJob environment instanceId blockTemplate).jobs = state.jobs ∧
      (state.updateJob environment instanceId blockTemplate).issued = state.issued := by
  unfold PoolState.updateJob
  split
  · dsimp only
    split_ifs
    · split
      · exact ⟨rfl, rfl⟩
      · exact ⟨rfl, rfl⟩
    · exact ⟨rfl, rfl⟩
  · exact ⟨rfl, rfl⟩

theorem publishJob_extends (state : PoolState) :
    (∃ new, state.publishJob.jobs = state.jobs ++ new) ∧
      state.publishJob.issued = state.issued := by
  unfold PoolState.publishJob
  split
  · exact ⟨⟨_, rfl⟩, rfl⟩
  · exact ⟨⟨[], by simp⟩, rfl⟩

theorem turns_held {left right : PoolState} (same : left.issued = right.issued) :
    turns.held left = turns.held right := by
  simp only [turns, same]

theorem start_passes (state : PoolState) (request : PoolRequest) :
    turns.Passes state none (state.start environment instanceId request) := by
  cases request with
  | updateJob blockTemplate =>
      rcases updateJob_unchanged state blockTemplate with ⟨jobs, issued⟩
      exact turns_pass none (preserves_of_append ⟨[], by rw [List.append_nil]; exact jobs⟩
        ⟨[], by rw [List.append_nil]; exact issued⟩) (turns_held issued) rfl
  | publishJob =>
      rcases publishJob_extends state with ⟨jobs, issued⟩
      exact turns_pass none (preserves_of_append jobs ⟨[], by rw [List.append_nil]; exact issued⟩)
        (turns_held issued) rfl
  | createWorkerJob connectionId difficulty =>
      exact turns_pass none (preserves_of_append ⟨[], (List.append_nil _).symm⟩
        ⟨[], (List.append_nil _).symm⟩) rfl rfl
  | submit connectionId submit =>
      refine turns_pass none (preserves_refl state) rfl ?_
      cases found : state.findJob connectionId submit with
      | none => simp only [PoolState.start, found, Option.bind_none]
      | some task =>
          rcases findJob_valid found with ⟨params, position, rfl⟩
          simp only [PoolState.start, found, Option.bind_some]
          rfl

theorem prepareWorkerJob_passes (state : PoolState) (connectionId : Text) (workerJob : WorkerJob)
    (job : Nat) :
    turns.Passes state none
      (state.prepareWorkerJob environment connectionId workerJob job) := by
  unfold PoolState.prepareWorkerJob
  split
  · exact turns_pass none (preserves_refl state) rfl rfl
  · rename_i issuing found
    have allocates := turns_allocated (preserves_next found)
    dsimp only
    split
    · refine ⟨allocates, some (job, issuing.prepared), ?_, List.Subperm.refl _⟩
      intro turn isTurn
      rw [Option.mem_some_iff] at isTurn
      rw [← isTurn]
      constructor
      · rintro ⟨other, isOther, bound⟩
        rw [found, Option.some.injEq] at isOther
        rw [← isOther] at bound
        exact Nat.lt_irrefl _ bound
      · exact ⟨issuing.next, List.getElem?_set_self (List.getElem?_eq_some_iff.mp found).1,
          Nat.lt_succ_self _⟩
    · exact turns_pass none (preserves_next found) rfl rfl

theorem addJob_passes (state : PoolState) (connectionId : Text) (issued : IssuedJob) :
    turns.Passes state (some (issued.job, issued.position))
      (state.addJob connectionId issued, none) := by
  unfold PoolState.addJob
  split_ifs
  · exact turns_pass _ (preserves_refl state) rfl rfl
  · refine ⟨turns_allocated (preserves_of_append ⟨[], (List.append_nil _).symm⟩ ⟨[issued], rfl⟩),
      none, by simp, ?_⟩
    simp only [turns, Option.bind_none, Option.toList_none, List.nil_append, List.map_append,
      List.map_singleton, Option.toList_some]
    exact List.perm_append_comm.subperm

theorem checkDuplicate_passes (state : PoolState) (submit : Submit) (params : SubmitShareRequest)
    (position : Nat) :
    turns.Passes state none (state.checkDuplicate environment submit params position) := by
  unfold PoolState.checkDuplicate
  split
  · exact turns_pass none (preserves_refl state) rfl rfl
  · rename_i issued found
    split
    · rename_i workerJob isRegistered
      rcases registerNonce_ok isRegistered with ⟨submissions, rfl⟩
      exact turns_pass none (preserves_withSubmissions found submissions)
        (Registry.map_set_eq _ found rfl) rfl
    · exact turns_pass none (preserves_refl state) rfl rfl

theorem processShare_passes (state : PoolState) (submit : Submit) (params : SubmitShareRequest)
    (position : Nat) :
    turns.Passes state none (state.processShare environment submit params position, none) := by
  unfold PoolState.processShare
  split
  · exact turns_pass none (preserves_refl state) rfl rfl
  · split
    · exact turns_pass none (preserves_of_append ⟨[], (List.append_nil _).symm⟩
        ⟨[], (List.append_nil _).symm⟩) rfl rfl
    · exact turns_pass none (preserves_refl state) rfl rfl

theorem advance_passes (state : PoolState) (task : PoolTask) :
    turns.Passes state (turns.key task) (state.advance environment task) := by
  cases task with
  | readIssuingJob connectionId workerJob =>
      refine turns_pass none (preserves_refl state) rfl ?_
      simp only [PoolState.advance]
      split_ifs
      · rfl
      · rfl
  | prepareWorkerJob connectionId workerJob job =>
      exact prepareWorkerJob_passes state connectionId workerJob job
  | addJob connectionId issued => exact addJob_passes state connectionId issued
  | checkDuplicate submit params position =>
      exact checkDuplicate_passes state submit params position
  | readCurrentJob submit params position =>
      exact turns_pass none (preserves_refl state) rfl rfl
  | processShare submit params position => exact processShare_passes state submit params position

/-! ## Every run -/

theorem initial_consistent : Consistent environment PoolState.initial where
  heights := List.Pairwise.nil
  update := by simp [PoolState.initial]
  counted := by simp [PoolState.initial]
  issued := by simp [PoolState.initial]
  accepted := by simp [PoolState.initial]

theorem reached_consistent (events : List (Event PoolRequest)) :
    Consistent environment (PoolState.reached environment instanceId events) :=
  (run_guarantees (PoolState.behaviour environment instanceId) (Consistent environment)
    (PoolTask.Valid environment) Preserves
    (fun _ _ _ preserves valid => valid.preserved preserves)
    (fun _ request consistent => start_guaranteed consistent request)
    (fun _ _ consistent valid => advance_guaranteed consistent valid)
    { shared := PoolState.initial, tasks := [] } ⟨initial_consistent, by simp⟩ events).1

theorem reached_turns_nodup (events : List (Event PoolRequest)) :
    ((PoolState.reached environment instanceId events).issued.map fun issued =>
      (issued.job, issued.position)).Nodup := by
  have exclusive := turns.run_exclusive (PoolState.behaviour environment instanceId)
    (fun state request => start_passes state request)
    (fun state task => advance_passes state task)
    { shared := PoolState.initial, tasks := [] } ⟨List.nodup_nil, by simp [Keys.all, turns,
      PoolState.initial]⟩ events
  exact exclusive.1.sublist (List.sublist_append_right _ _)

theorem Consistent.extraNonces_nodup {state : PoolState}
    (consistent : Consistent environment state)
    (nodup : (state.issued.map fun issued => (issued.job, issued.position)).Nodup)
    {index : Nat} {issuing : IssuingJob} (found : state.jobs[index]? = some issuing)
    (bound : issuing.prepared ≤ 2 ^ 32) :
    ((state.issued.filter fun issued => issued.job = index).map fun issued =>
      issued.workerJob.extraNonce).Nodup := by
  rw [List.Nodup, List.pairwise_map] at nodup ⊢
  apply List.Pairwise.imp_of_mem _ (nodup.filter _)
  intro left right inLeft inRight different same
  rw [List.mem_filter, decide_eq_true_eq] at inLeft inRight
  have value : ∀ issued ∈ state.issued, issued.job = index → issued.position < 2 ^ 32 ∧
      issued.workerJob.extraNonce = UInt32.ofNat (issued.position + 1) := by
    intro issued member isIndex
    rcases consistent.issued issued member with ⟨other, _, isOther, _, turn, extraNonce, _⟩
    rw [isIndex, found, Option.some.injEq] at isOther
    rw [← isOther] at turn
    exact ⟨by omega, extraNonce⟩
  have isLeft := value left inLeft.1 inLeft.2
  have isRight := value right inRight.1 inRight.2
  rw [isLeft.2, isRight.2, ← UInt32.toNat_inj, UInt32.toNat_ofNat', UInt32.toNat_ofNat'] at same
  apply different
  rw [inLeft.2, inRight.2, Prod.mk.injEq]
  exact ⟨rfl, by omega⟩

end

/-- However requests are interleaved, every accepted share was validated against the blob
that was issued for its worker job with its nonce in place, and the worker jobs of one job
have different extra nonces until its counter has gone all the way round. -/
theorem accepted_blobs_agree (environment : Environment) (instanceId : FixedBytes 3)
    (events : List (Event PoolRequest)) :
    (∀ acceptance ∈ (PoolState.reached environment instanceId events).accepted,
      BlobAgrees environment (PoolState.reached environment instanceId events) acceptance) ∧
    ∀ (index : Nat) (issuing : IssuingJob),
      (PoolState.reached environment instanceId events).jobs[index]? = some issuing →
      issuing.prepared ≤ 2 ^ 32 →
      (((PoolState.reached environment instanceId events).issued.filter fun issued =>
        issued.job = index).map fun issued => issued.workerJob.extraNonce).Nodup := by
  have consistent : Consistent environment (PoolState.reached environment instanceId events) :=
    reached_consistent events
  constructor
  · exact consistent.accepted
  · intro index issuing found bound
    exact consistent.extraNonces_nodup (reached_turns_nodup events) found bound

namespace SampleShare

def issuedBlob : Bytes :=
  blobTemplate.take 322 ++ BigEndian.encode 4 1 ++ blobTemplate.drop 326

def poolEnvironment : Environment where
  culture := .ordinal
  rentedLength := environment.rentedLength
  le_rentedLength := environment.le_rentedLength
  convertBlob given :=
    if given = issuedBlob then some (blobConverted.take 39 ++ List.replicate 4 0 ++
      blobConverted.drop 43)
    else environment.convertBlob given
  hashSlow := environment.hashSlow
  hashFast := environment.hashFast

def blockTemplate (height : UInt32) : BlockTemplate where
  blob := some (toHexString blobTemplate)
  difficulty := 2
  height
  reservedOffset := 322

def instanceId : FixedBytes 3 := .ofNumber 3 0xd150da

/-- A worker job is prepared while an older template comes in, a second one is asked for
and not yet prepared, and a share is submitted for the first one. -/
def requests : List (Event PoolRequest) :=
  [.request (.updateJob (some (blockTemplate 224))), .request .publishJob,
    .request (.createWorkerJob (text "A") 1000), .resume 0,
    .request (.updateJob (some (blockTemplate 223))), .request .publishJob,
    .request (.createWorkerJob (text "A") 2000), .resume 0, .resume 0,
    .request (.submit (text "A") (submit (text "040100a4"))), .resume 1, .resume 1, .resume 1]

end SampleShare

theorem accepted_blobs_agree_sample :
    let state := PoolState.reached SampleShare.poolEnvironment SampleShare.instanceId
      SampleShare.requests
    state.accepted.length = 1 ∧
      ∀ acceptance ∈ state.accepted, BlobAgrees SampleShare.poolEnvironment state acceptance := by
  refine ⟨by decide +kernel, ?_⟩
  exact (accepted_blobs_agree SampleShare.poolEnvironment SampleShare.instanceId
    SampleShare.requests).1

end Miningcore.Monero

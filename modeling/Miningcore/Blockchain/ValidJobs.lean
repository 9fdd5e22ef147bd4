import Miningcore.Blockchain.Bitcoin.JobManager

/-! The jobs that the managers of ExchangeCoin and of the Bitcoin family accept
submissions for, over runs of updates. Both clear their list when a template has a
greater height than the current job; a forced update at any other height puts its
job beside the old ones, whatever block it builds on. -/

namespace Miningcore

namespace ExchangeCoin.JobManager

variable (manager : JobManager)

/-- The current job is the newest of the valid ones. There are at most as many as
configured, with different identifiers, and all build on one block. -/
def ValidJobs (state : State) : Prop :=
  RecentWindow.Valid Job.jobId (fun job => job.blockHeader.prevBlock) manager.maxActiveJobs.toNat
    state.currentJob (state.validJobs.map ActiveJob.job)

def stateAfter (events : List Event) : State := Run.final manager.step initial events

theorem validJobs_initial : manager.ValidJobs initial := RecentWindow.valid_empty _ _ _

/-- The calls of `UpdateJob` that end in an error answer or an exception. -/
def updateFails (state : State) (forceUpdate : Bool) : GetWorkReply → Bool
  | .error => true
  | .unusable => true
  | .work data =>
      match BlockHeader.read data with
      | none => true
      | some blockHeader =>
          (isNew state blockHeader || forceUpdate) && !(manager.installJob state blockHeader).2

/-- A forced update that leaves old jobs beside its own builds on the same block as
the current job, and its identifier is not in use. -/
def KeepsParent (state : State) : Event → Prop
  | .updateJob true (.work data) => ∀ blockHeader, BlockHeader.read data = some blockHeader →
      isNew state blockHeader = false → manager.environment.expandBits blockHeader.bits ≠ 0 →
      1 < manager.maxActiveJobs →
      (∀ current ∈ state.currentJob, current.blockHeader.prevBlock = blockHeader.prevBlock) ∧
        (nextJobId state.jobId).2 ∉ ((manager.keptJobs state blockHeader).1.map
          ActiveJob.job).map Job.jobId
  | _ => True

section Steps

variable {manager} {state : State} {blockHeader : BlockHeader}

theorem isNew_of_none (noJob : state.currentJob = none) : isNew state blockHeader = true := by
  rw [isNew, noJob]

theorem installJob_zero (zero : manager.environment.expandBits blockHeader.bits = 0) :
    manager.installJob state blockHeader =
      ({ state with jobId := (nextJobId state.jobId).1 }, false) := by
  simp only [installJob, Job.init, zero, if_true]

theorem installJob_nonzero (state : State) (positive : 1 ≤ manager.maxActiveJobs)
    (nonzero : manager.environment.expandBits blockHeader.bits ≠ 0) :
    ∃ job, job.jobId = (nextJobId state.jobId).2 ∧ job.blockHeader = blockHeader ∧
      manager.installJob state blockHeader =
        ({ jobId := (nextJobId state.jobId).1
           currentJob := some job
           validJobs := (manager.keptJobs state blockHeader).1 ++ [⟨job, []⟩] }, true) := by
  have trimmed : (manager.keptJobs state blockHeader).2 = true := by
    rw [keptJobs, trimJobs, if_neg (by omega : ¬manager.maxActiveJobs < 1)]
    split_ifs
    · rfl
    · rfl
  refine ⟨{
    jobId := (nextJobId state.jobId).2
    blockHeader
    blockTarget := manager.environment.expandBits blockHeader.bits
    difficulty := manager.environment.toDouble
      (longValue (diff1 / manager.environment.expandBits blockHeader.bits)) },
    rfl, rfl, ?_⟩
  simp only [installJob, Job.init, nonzero, if_false, trimmed, if_true]

theorem keptJobs_eq (positive : 1 ≤ manager.maxActiveJobs) :
    (manager.keptJobs state blockHeader).1 = RecentWindow.kept manager.maxActiveJobs.toNat
      (isNew state blockHeader) state.validJobs := by
  have count : (manager.maxActiveJobs - 1).toNat = manager.maxActiveJobs.toNat - 1 := by omega
  rw [keptJobs, RecentWindow.kept, trimJobs, if_neg (by omega : ¬manager.maxActiveJobs < 1), count]
  split_ifs
  · rfl
  · rfl

theorem submitShare_currentJob (request : SubmitRequest) :
    (manager.submitShare state request).1.currentJob = state.currentJob := by
  unfold submitShare
  split
  · rfl
  · split
    · rfl
    · rfl

theorem installJob_validJobs_iff (positive : 1 ≤ manager.maxActiveJobs)
    (valid : manager.ValidJobs state) :
    manager.ValidJobs (manager.installJob state blockHeader).1 ↔
      (isNew state blockHeader = false →
        manager.environment.expandBits blockHeader.bits ≠ 0 → 1 < manager.maxActiveJobs →
        (∀ current ∈ state.currentJob, current.blockHeader.prevBlock = blockHeader.prevBlock) ∧
          (nextJobId state.jobId).2 ∉ ((manager.keptJobs state blockHeader).1.map
            ActiveJob.job).map Job.jobId) := by
  by_cases zero : manager.environment.expandBits blockHeader.bits = 0
  · rw [installJob_zero zero]
    exact ⟨fun _ _ nonzero => absurd zero nonzero, fun _ => valid⟩
  · rcases installJob_nonzero state positive zero with ⟨job, jobId, isHeader, equal⟩
    rw [equal, ValidJobs, List.map_append, List.map_singleton, keptJobs_eq positive,
      RecentWindow.map_kept, RecentWindow.valid_kept_iff _ _ valid (by omega) isNew_of_none, jobId,
      isHeader]
    have several : 1 < manager.maxActiveJobs.toNat ↔ 1 < manager.maxActiveJobs := by omega
    simp only [several, ne_eq, zero, not_false_eq_true, forall_const]

end Steps

theorem step_validJobs_iff (positive : 1 ≤ manager.maxActiveJobs) (state : State) (event : Event)
    (valid : manager.ValidJobs state) :
    manager.ValidJobs (manager.step state event) ↔ manager.KeepsParent state event := by
  cases event with
  | submitShare request =>
      rw [step, ValidJobs, submitShare_jobs, submitShare_currentJob]
      exact ⟨fun _ => trivial, fun _ => valid⟩
  | updateJob forceUpdate reply =>
      rw [step]
      cases reply with
      | error =>
          refine ⟨fun _ => ?_, fun _ => valid⟩
          cases forceUpdate <;> trivial
      | unusable =>
          refine ⟨fun _ => ?_, fun _ => valid⟩
          cases forceUpdate <;> trivial
      | work data =>
          cases parsed : BlockHeader.read data with
          | none =>
              simp only [updateJob, parsed]
              refine ⟨fun _ => ?_, fun _ => valid⟩
              cases forceUpdate with
              | false => trivial
              | true =>
                  intro blockHeader found
                  rw [parsed] at found
                  cases found
          | some blockHeader =>
              simp only [updateJob, parsed]
              cases forceUpdate with
              | true =>
                  rw [Bool.or_true, if_pos rfl, installJob_validJobs_iff positive valid]
                  simp only [KeepsParent, parsed, Option.some.injEq, forall_eq']
              | false =>
                  rw [Bool.or_false]
                  split_ifs with new
                  · rw [installJob_validJobs_iff positive valid, new]
                    simp only [KeepsParent, Bool.true_eq_false, false_implies]
                  · exact ⟨fun _ => trivial, fun _ => valid⟩

theorem updateFails_unchanged (positive : 1 ≤ manager.maxActiveJobs) (state : State)
    (forceUpdate : Bool) (reply : GetWorkReply)
    (fails : manager.updateFails state forceUpdate reply = true) :
    (manager.updateJob state forceUpdate reply).1.validJobs = state.validJobs ∧
      (manager.updateJob state forceUpdate reply).1.currentJob = state.currentJob := by
  cases reply with
  | error => exact ⟨rfl, rfl⟩
  | unusable => exact ⟨rfl, rfl⟩
  | work data =>
      cases parsed : BlockHeader.read data with
      | none => simp only [updateJob, parsed, and_self]
      | some blockHeader =>
          simp only [updateFails, parsed, Bool.and_eq_true, Bool.not_eq_true'] at fails
          simp only [updateJob, parsed, fails.1, if_true]
          by_cases zero : manager.environment.expandBits blockHeader.bits = 0
          · rw [installJob_zero zero]
            exact ⟨rfl, rfl⟩
          · rcases installJob_nonzero state positive zero with ⟨job, -, -, equal⟩
            rw [equal] at fails
            cases fails.2

end ExchangeCoin.JobManager

def Bitcoin.ActiveJob.made {Extra : Type} (active : ActiveJob Extra) : BlockTemplate Extra × Job :=
  (active.blockTemplate, active.job)

namespace Bitcoin.JobManager

open ExchangeCoin.JobManager (nextJobId)

variable {Extra : Type} (manager : JobManager Extra)

/-- The current job is the newest of the valid ones. There are at most as many as
configured, with different identifiers, and all build on one block. -/
def ValidJobs (state : State Extra) : Prop :=
  RecentWindow.Valid (fun made : BlockTemplate Extra × Job => made.2.jobId)
    (fun made => made.1.previousBlockhash) manager.maxActiveJobs.toNat state.currentJob
    (state.validJobs.map ActiveJob.made)

def stateAfter (events : List (Event Extra)) : State Extra :=
  Run.final manager.step initial events

theorem validJobs_initial : manager.ValidJobs initial := RecentWindow.valid_empty _ _ _

/-- The calls of `UpdateJob` that end in an error answer or an exception. -/
def updateFails (state : State Extra) (forceUpdate : Bool) : GetBlockTemplateReply Extra → Bool
  | .error => true
  | .unusable => true
  | .template blockTemplate =>
      (isNew state blockTemplate || forceUpdate) && !(manager.installJob state blockTemplate).2

/-- A forced update that leaves old jobs beside its own builds on the same block as
the current job, and its identifier is not in use. -/
def KeepsParent (state : State Extra) : Event Extra → Prop
  | .updateJob true (.template (some blockTemplate)) =>
      isNew state (some blockTemplate) = false →
      (∃ job, manager.init blockTemplate = .ok job) → 1 < manager.maxActiveJobs →
      (∀ current ∈ state.currentJob,
          current.1.previousBlockhash = blockTemplate.previousBlockhash) ∧
        (nextJobId state.jobId).2 ∉ ((manager.keptJobs state (some blockTemplate)).1.map
          ActiveJob.made).map fun made => made.2.jobId
  | _ => True

section Steps

variable {manager} {state : State Extra} {blockTemplate : BlockTemplate Extra}

theorem isNew_of_none {given : Option (BlockTemplate Extra)} (noJob : state.currentJob = none) :
    isNew state given = true := by
  simp only [isNew, noJob]

theorem installJob_error {exception : Exception}
    (throws : manager.init blockTemplate = .error exception) :
    manager.installJob state (some blockTemplate) =
      ({ state with jobId := (nextJobId state.jobId).1 }, false) := by
  simp only [installJob, initJob, throws, Except.map]

theorem installJob_ok (positive : 1 ≤ manager.maxActiveJobs) {job : Job}
    (made : manager.init blockTemplate = .ok job) :
    manager.installJob state (some blockTemplate) =
      ({ jobId := (nextJobId state.jobId).1
         currentJob := some (blockTemplate, { job with jobId := (nextJobId state.jobId).2 })
         validJobs := (manager.keptJobs state (some blockTemplate)).1 ++
          [⟨blockTemplate, { job with jobId := (nextJobId state.jobId).2 }, []⟩] }, true) := by
  have trimmed : (manager.keptJobs state (some blockTemplate)).2 = true := by
    rw [keptJobs, if_neg (by omega : ¬manager.maxActiveJobs < 1)]
    split_ifs
    · rfl
    · rfl
  simp only [installJob, initJob, made, Except.map, trimmed, if_true]

theorem keptJobs_eq (positive : 1 ≤ manager.maxActiveJobs) {given : Option (BlockTemplate Extra)} :
    (manager.keptJobs state given).1 = RecentWindow.kept manager.maxActiveJobs.toNat
      (isNew state given) state.validJobs := by
  have count : (manager.maxActiveJobs - 1).toNat = manager.maxActiveJobs.toNat - 1 := by omega
  rw [keptJobs, RecentWindow.kept, if_neg (by omega : ¬manager.maxActiveJobs < 1), count]
  split_ifs
  · rfl
  · rfl

theorem processInJobs_made {jobId : Text} {submission : Submission}
    {jobs next : List (ActiveJob Extra)}
    {result : Except Exception (Job × Job.Work × Blockchain.Share × Option Text)}
    (processed : manager.processInJobs jobId submission jobs = some (next, result)) :
    next.map ActiveJob.made = jobs.map ActiveJob.made := by
  rcases Registry.updateFirst_some processed with ⟨front, active, back, rfl, -, rfl, -⟩
  simp only [List.map_append, List.map_cons]
  rfl

theorem submitShare_jobs (state : State Extra) (request : SubmitRequest) :
    (manager.submitShare state request).1.validJobs.map ActiveJob.made =
        state.validJobs.map ActiveJob.made ∧
      (manager.submitShare state request).1.currentJob = state.currentJob := by
  unfold submitShare
  split
  · exact ⟨rfl, rfl⟩
  · split
    · exact ⟨rfl, rfl⟩
    · rename_i validJobs result processed
      rcases Option.bind_eq_some_iff.mp processed with ⟨jobId, -, found⟩
      exact ⟨processInJobs_made found, rfl⟩

theorem installJob_validJobs_iff (positive : 1 ≤ manager.maxActiveJobs)
    (valid : manager.ValidJobs state) :
    manager.ValidJobs (manager.installJob state (some blockTemplate)).1 ↔
      (isNew state (some blockTemplate) = false →
        (∃ job, manager.init blockTemplate = .ok job) → 1 < manager.maxActiveJobs →
        (∀ current ∈ state.currentJob,
            current.1.previousBlockhash = blockTemplate.previousBlockhash) ∧
          (nextJobId state.jobId).2 ∉ ((manager.keptJobs state (some blockTemplate)).1.map
            ActiveJob.made).map fun made => made.2.jobId) := by
  cases initialized : manager.init blockTemplate with
  | error exception =>
      rw [installJob_error initialized]
      refine ⟨?_, fun _ => valid⟩
      rintro - - ⟨job, impossible⟩
      cases impossible
  | ok job =>
      rw [installJob_ok positive initialized, ValidJobs, List.map_append, List.map_singleton,
        keptJobs_eq positive, RecentWindow.map_kept]
      rw [show ActiveJob.made ⟨blockTemplate, { job with jobId := (nextJobId state.jobId).2 }, []⟩ =
        (blockTemplate, { job with jobId := (nextJobId state.jobId).2 }) from rfl]
      rw [RecentWindow.valid_kept_iff _ _ valid (by omega) isNew_of_none]
      have several : 1 < manager.maxActiveJobs.toNat ↔ 1 < manager.maxActiveJobs := by omega
      simp only [several, Except.ok.injEq, exists_eq', forall_const]

end Steps

theorem step_validJobs_iff (positive : 1 ≤ manager.maxActiveJobs) (state : State Extra)
    (event : Event Extra) (valid : manager.ValidJobs state) :
    manager.ValidJobs (manager.step state event) ↔ manager.KeepsParent state event := by
  cases event with
  | submitShare request =>
      rw [step, ValidJobs, (submitShare_jobs _ request).1, (submitShare_jobs _ request).2]
      exact ⟨fun _ => trivial, fun _ => valid⟩
  | updateJob forceUpdate reply =>
      rw [step]
      cases reply with
      | error =>
          refine ⟨fun _ => ?_, fun _ => valid⟩
          cases forceUpdate <;> trivial
      | unusable =>
          refine ⟨fun _ => ?_, fun _ => valid⟩
          cases forceUpdate <;> trivial
      | template given =>
          rw [updateJob]
          cases given with
          | none =>
              refine ⟨fun _ => ?_, fun _ => ?_⟩
              · cases forceUpdate <;> trivial
              · split_ifs
                · exact valid
                · exact valid
          | some blockTemplate =>
              cases forceUpdate with
              | true =>
                  rw [Bool.or_true, if_pos rfl, installJob_validJobs_iff positive valid]
                  rfl
              | false =>
                  rw [Bool.or_false]
                  split_ifs with new
                  · rw [installJob_validJobs_iff positive valid, new]
                    simp only [KeepsParent, Bool.true_eq_false, false_implies]
                  · exact ⟨fun _ => trivial, fun _ => valid⟩

theorem updateFails_unchanged (positive : 1 ≤ manager.maxActiveJobs) (state : State Extra)
    (forceUpdate : Bool) (reply : GetBlockTemplateReply Extra)
    (fails : manager.updateFails state forceUpdate reply = true) :
    (manager.updateJob state forceUpdate reply).1.validJobs = state.validJobs ∧
      (manager.updateJob state forceUpdate reply).1.currentJob = state.currentJob := by
  cases reply with
  | error => exact ⟨rfl, rfl⟩
  | unusable => exact ⟨rfl, rfl⟩
  | template given =>
      simp only [updateFails, Bool.and_eq_true, Bool.not_eq_true'] at fails
      simp only [updateJob, fails.1, if_true]
      cases given with
      | none => exact ⟨rfl, rfl⟩
      | some blockTemplate =>
          cases initialized : manager.init blockTemplate with
          | error exception =>
              rw [installJob_error initialized]
              exact ⟨rfl, rfl⟩
          | ok job =>
              rw [installJob_ok positive initialized] at fails
              cases fails.2

end Bitcoin.JobManager

/-- After every call the jobs are valid, and a call that fails has changed nothing,
if and only if every forced update beside old jobs builds on the block of the
current job, under an identifier that is not in use. -/
theorem validJobs_iff_keepsParent {Extra : Type} (exchangeCoin : ExchangeCoin.JobManager)
    (bitcoin : Bitcoin.JobManager Extra) (exchangeCoinPositive : 1 ≤ exchangeCoin.maxActiveJobs)
    (bitcoinPositive : 1 ≤ bitcoin.maxActiveJobs)
    (exchangeCoinEvents : List ExchangeCoin.JobManager.Event)
    (bitcoinEvents : List (Bitcoin.JobManager.Event Extra)) :
    ((∀ front, front <+: exchangeCoinEvents →
        let state := exchangeCoin.stateAfter front
        exchangeCoin.ValidJobs state ∧ ∀ forceUpdate reply,
          exchangeCoin.updateFails state forceUpdate reply = true →
          let next := (exchangeCoin.updateJob state forceUpdate reply).1
          next.validJobs = state.validJobs ∧ next.currentJob = state.currentJob) ↔
      Run.Along exchangeCoin.step exchangeCoin.KeepsParent
        ExchangeCoin.JobManager.initial exchangeCoinEvents) ∧
    ((∀ front, front <+: bitcoinEvents →
        let state := bitcoin.stateAfter front
        bitcoin.ValidJobs state ∧ ∀ forceUpdate reply,
          bitcoin.updateFails state forceUpdate reply = true →
          let next := (bitcoin.updateJob state forceUpdate reply).1
          next.validJobs = state.validJobs ∧ next.currentJob = state.currentJob) ↔
      Run.Along bitcoin.step bitcoin.KeepsParent Bitcoin.JobManager.initial bitcoinEvents) := by
  constructor
  · rw [← Run.always_iff_along exchangeCoin.step exchangeCoin.KeepsParent exchangeCoin.ValidJobs
      (exchangeCoin.step_validJobs_iff exchangeCoinPositive) _ exchangeCoin.validJobs_initial]
    constructor
    · intro always front isPrefix
      exact (always front isPrefix).1
    · intro always front isPrefix
      exact ⟨always front isPrefix, exchangeCoin.updateFails_unchanged exchangeCoinPositive _⟩
  · rw [← Run.always_iff_along bitcoin.step bitcoin.KeepsParent bitcoin.ValidJobs
      (bitcoin.step_validJobs_iff bitcoinPositive) _ bitcoin.validJobs_initial]
    constructor
    · intro always front isPrefix
      exact (always front isPrefix).1
    · intro always front isPrefix
      exact ⟨always front isPrefix, bitcoin.updateFails_unchanged bitcoinPositive _⟩

namespace ExchangeCoin.SampleShare

def reorganisation (forceUpdate : Bool) : List JobManager.Event :=
  [.updateJob false (.work blockHeader.write),
    .updateJob forceUpdate
      (.work { blockHeader with prevBlock := List.Vector.replicate 32 7 }.write)]

end ExchangeCoin.SampleShare

namespace Bitcoin.SampleShare

def manager : JobManager Unit where
  environment
  maxActiveJobs := 4
  init _ := .ok job
  init_shareMultiplier _ _ made := by
    cases made
    decide

def blockTemplate : BlockTemplate Unit where
  previousBlockhash := some (text "00000000090957852")
  height := 14
  extra := ()

end Bitcoin.SampleShare

namespace ExchangeCoin.SampleShare

def otherTemplate : List JobManager.Event :=
  [.updateJob false (.work blockHeader.write), .updateJob true (.work fewerVoters.write)]

end ExchangeCoin.SampleShare

namespace Bitcoin.SampleShare

def sameTemplate : List (JobManager.Event Unit) :=
  [.updateJob false (.template (some blockTemplate)),
    .updateJob true (.template (some blockTemplate))]

end Bitcoin.SampleShare

theorem validJobs_forced_updates :
    (ExchangeCoin.SampleShare.manager.stateAfter
        ExchangeCoin.SampleShare.otherTemplate).validJobs.length = 2 ∧
      (∀ front, front <+: ExchangeCoin.SampleShare.otherTemplate →
        ExchangeCoin.SampleShare.manager.ValidJobs
          (ExchangeCoin.SampleShare.manager.stateAfter front)) ∧
      (Bitcoin.SampleShare.manager.stateAfter
        Bitcoin.SampleShare.sameTemplate).validJobs.length = 2 ∧
      ∀ front, front <+: Bitcoin.SampleShare.sameTemplate →
        Bitcoin.SampleShare.manager.ValidJobs (Bitcoin.SampleShare.manager.stateAfter front) := by
  have always := validJobs_iff_keepsParent ExchangeCoin.SampleShare.manager
    Bitcoin.SampleShare.manager (by decide) (by decide) ExchangeCoin.SampleShare.otherTemplate
    Bitcoin.SampleShare.sameTemplate
  refine ⟨by decide +kernel, ?_, by decide +kernel, ?_⟩
  · intro front isPrefix
    refine (always.1.mpr ⟨trivial, ?_, trivial⟩ front isPrefix).1
    intro given parsed _ _ _
    rw [ExchangeCoin.BlockHeader.read_write] at parsed
    cases parsed
    exact ⟨by decide +kernel, by decide +kernel⟩
  · intro front isPrefix
    refine (always.2.mpr ⟨trivial, ?_, trivial⟩ front isPrefix).1
    intro _ _ _
    exact ⟨by decide, by decide⟩

/-- A forced update after a reorganisation leaves a job on the abandoned block in
the list. -/
theorem validJobs_forced_reorganisation :
    ¬ExchangeCoin.SampleShare.manager.ValidJobs (ExchangeCoin.SampleShare.manager.stateAfter
      (ExchangeCoin.SampleShare.reorganisation true)) :=
  fun valid => absurd valid.bases (by decide +kernel)

end Miningcore

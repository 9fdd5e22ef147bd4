import Miningcore.Blockchain.ExchangeCoin.JobManager
import Miningcore.Foundation.Dictionary

/-! `EthereumJobManager.UpdateJob`: the jobs that shares are accepted for.

A job stays valid until the chain is more than `MaxBlockBacklog` blocks ahead of it. The heights
are unsigned, and so is the difference that they are compared with. -/

namespace Miningcore.Ethereum

open StringExtensions
open ExchangeCoin.JobManager (nextJobId)

/-- The fields of `EthereumBlockTemplate` that `UpdateJob` and the job read. -/
structure BlockTemplate where
  height : UInt64
  header : Option Text
  target : Option Text
deriving DecidableEq

/-- `EthereumJob`, as the manager keeps it: the header may be null. -/
structure ActiveJob where
  id : Text
  blockTemplate : BlockTemplate
  blockTarget : Nat
deriving DecidableEq

/-- What the jobs need: the culture of the process, and the number that the constructor of
NBitcoin's `uint256` makes of an array. -/
structure JobEnvironment where
  culture : Culture
  newUInt256 : Bytes → Except Exception Nat

/-- The constructor of `EthereumJob`. -/
def ActiveJob.create (environment : JobEnvironment) (id : Text) (blockTemplate : BlockTemplate) :
    Except Exception ActiveJob := do
  let target ← dereference blockTemplate.target
  let digits :=
    if environment.culture.startsWith target (text "0x") then target.drop 2 else target
  let blockTarget ← environment.newUInt256 (hexToByteArray environment.culture digits).reverse
  return { id, blockTemplate, blockTarget }

namespace JobManager

def maxBlockBacklog : UInt64 := 3

structure State where
  jobId : UInt32
  currentJob : Option ActiveJob
  validJobs : AList fun _ : Text => ActiveJob

def initial : State where
  jobId := 0
  currentJob := none
  validJobs := ∅

def isNew (state : State) (blockTemplate : BlockTemplate) : Bool :=
  state.currentJob.all fun job => job.blockTemplate.header ≠ blockTemplate.header

/-- The jobs that are removed. The difference wraps around below zero. -/
def isObsolete (height : UInt64) (job : ActiveJob) : Bool :=
  job.blockTemplate.height < height - maxBlockBacklog

variable (environment : JobEnvironment)

/-- The part of `UpdateJob` for a new template. An exception is logged, and the identifier is
used up. -/
def installJob (state : State) (blockTemplate : BlockTemplate) : State × Bool :=
  let (counter, jobId) := nextJobId state.jobId
  match ActiveJob.create environment jobId blockTemplate with
  | .error _ => ({ state with jobId := counter }, false)
  | .ok job =>
      ({ jobId := counter
         currentJob := some job
         validJobs := Dictionary.prune (isObsolete blockTemplate.height)
          (state.validJobs.insert jobId job) }, true)

/-- `UpdateJob`. A header that is null is not empty. -/
def updateJob (state : State) : Option BlockTemplate → State × Bool
  | none => (state, false)
  | some blockTemplate =>
      if blockTemplate.header = some [] then (state, false)
      else if isNew state blockTemplate then installJob environment state blockTemplate
      else (state, false)

def step (state : State) (blockTemplate : Option BlockTemplate) : State :=
  (updateJob environment state blockTemplate).1

def stateAfter (blockTemplates : List (Option BlockTemplate)) : State :=
  Run.final (step environment) initial blockTemplates

/-! ## The valid jobs -/

def IsWithinBacklog (current job : ActiveJob) : Prop :=
  (current.blockTemplate.height.toNat : Int) - maxBlockBacklog.toNat ≤
    job.blockTemplate.height.toNat

structure Valid (state : State) : Prop where
  current : ∀ job ∈ state.currentJob, state.validJobs.lookup job.id = some job
  backlog : ∀ current ∈ state.currentJob, ∀ key job, state.validJobs.lookup key = some job →
    IsWithinBacklog current job

def makesJob (state : State) (blockTemplate : BlockTemplate) : Bool :=
  blockTemplate.header ≠ some [] ∧ isNew state blockTemplate ∧
    (ActiveJob.create environment (nextJobId state.jobId).2 blockTemplate).toOption.isSome

/-- What a call has to meet if it makes a job: the chain is as high as the backlog is long, and a
valid job that has the next identifier is too old. -/
def Admissible (state : State) (given : Option BlockTemplate) : Prop :=
  ∀ blockTemplate ∈ given, makesJob environment state blockTemplate = true →
    maxBlockBacklog ≤ blockTemplate.height ∧
      ∀ job ∈ state.validJobs.lookup (nextJobId state.jobId).2,
        job.blockTemplate.height.toNat + maxBlockBacklog.toNat < blockTemplate.height.toNat

instance (state : State) (given : Option BlockTemplate) :
    Decidable (Admissible environment state given) :=
  inferInstanceAs (Decidable (∀ _ ∈ _, _ → _ ∧ ∀ _ ∈ _, _))

variable {environment} {state : State}

theorem create_ok {id : Text} {blockTemplate : BlockTemplate} {job : ActiveJob}
    (created : ActiveJob.create environment id blockTemplate = .ok job) :
    job.id = id ∧ job.blockTemplate = blockTemplate := by
  simp only [ActiveJob.create, bind_eq_ok, pure_eq_ok] at created
  rcases created with ⟨_, _, _, _, rfl⟩
  exact ⟨rfl, rfl⟩

theorem isObsolete_eq_false_iff {current job : ActiveJob}
    (high : maxBlockBacklog ≤ current.blockTemplate.height) :
    isObsolete current.blockTemplate.height job = false ↔ IsWithinBacklog current job := by
  have difference := UInt64.toNat_sub_of_le _ _ high
  have bound := UInt64.le_iff_toNat_le.mp high
  rw [isObsolete, decide_eq_false_iff_not, UInt64.lt_iff_toNat_lt, difference, IsWithinBacklog]
  omega

theorem step_cases (environment : JobEnvironment) (state : State) (given : Option BlockTemplate) :
    ((step environment state given).currentJob = state.currentJob ∧
      (step environment state given).validJobs = state.validJobs) ∨
    ∃ job, given = some job.blockTemplate ∧ makesJob environment state job.blockTemplate = true ∧
      job.id = (nextJobId state.jobId).2 ∧
      (step environment state given).currentJob = some job ∧
      (step environment state given).validJobs =
        Dictionary.prune (isObsolete job.blockTemplate.height)
          (state.validJobs.insert job.id job) := by
  cases given with
  | none => exact .inl ⟨rfl, rfl⟩
  | some blockTemplate =>
      rw [step, updateJob]
      split_ifs with isEmpty new
      · exact .inl ⟨rfl, rfl⟩
      · cases created : ActiveJob.create environment (nextJobId state.jobId).2 blockTemplate with
        | error exception =>
            refine .inl ?_
            simp only [installJob, created, and_self]
        | ok job =>
            simp only [installJob, created]
            rcases create_ok created with ⟨id, rfl⟩
            refine .inr ⟨job, rfl, ?_, id, rfl, by rw [id]⟩
            rw [makesJob, created]
            exact decide_eq_true ⟨isEmpty, new, rfl⟩
      · exact .inl ⟨rfl, rfl⟩

theorem valid_initial : Valid initial where
  current _ impossible := by cases impossible
  backlog _ impossible := by cases impossible

theorem step_valid {given : Option BlockTemplate} (admissible : Admissible environment state given)
    (valid : Valid state) : Valid (step environment state given) := by
  rcases step_cases environment state given with ⟨sameCurrent, sameJobs⟩ |
    ⟨job, rfl, makes, -, isCurrent, jobs⟩
  · constructor
    · rw [sameCurrent, sameJobs]
      exact valid.current
    · rw [sameCurrent, sameJobs]
      exact valid.backlog
  · have high := (admissible job.blockTemplate rfl makes).1
    constructor
    · rw [isCurrent, jobs]
      rintro _ ⟨⟩
      rw [Dictionary.lookup_prune_eq_some, AList.lookup_insert, isObsolete_eq_false_iff high]
      refine ⟨rfl, ?_⟩
      rw [IsWithinBacklog]
      omega
    · rw [isCurrent, jobs]
      rintro _ ⟨⟩ key other isKept
      exact (isObsolete_eq_false_iff high).mp (Dictionary.lookup_prune_eq_some.mp isKept).2

theorem step_keeps {given : Option BlockTemplate} (admissible : Admissible environment state given)
    {key : Text} {job : ActiveJob}
    (within : ∀ current ∈ (step environment state given).currentJob, IsWithinBacklog current job)
    (isKept : state.validJobs.lookup key = some job) :
    (step environment state given).validJobs.lookup key = some job := by
  rcases step_cases environment state given with ⟨-, sameJobs⟩ |
    ⟨current, rfl, makes, id, isCurrent, jobs⟩
  · rw [sameJobs]
    exact isKept
  · rcases admissible current.blockTemplate rfl makes with ⟨high, free⟩
    have isWithin := within current isCurrent
    have different : key ≠ current.id := by
      rintro rfl
      have tooOld := free job (by rw [← id]; exact isKept)
      rw [IsWithinBacklog] at isWithin
      omega
    rw [jobs, Dictionary.lookup_prune_eq_some, AList.lookup_insert_ne different,
      isObsolete_eq_false_iff high]
    exact ⟨isKept, isWithin⟩

/-- Along every run of admissible calls the jobs are valid after each call, and a job that is
within the backlog of every job that is current later on stays valid. -/
theorem validJobs_along (environment : JobEnvironment)
    (blockTemplates : List (Option BlockTemplate))
    (admissible : Run.Along (step environment) (Admissible environment) initial blockTemplates) :
    (∀ front, front <+: blockTemplates → Valid (stateAfter environment front)) ∧
      ∀ front back, front ++ back <+: blockTemplates → ∀ key job,
        (stateAfter environment front).validJobs.lookup key = some job →
        (∀ middle, middle <+: back →
          ∀ current ∈ (stateAfter environment (front ++ middle)).currentJob,
            IsWithinBacklog current job) →
        (stateAfter environment (front ++ back)).validJobs.lookup key = some job := by
  constructor
  · exact Run.always_of_along _ _ _
      (fun _ _ admissible valid => step_valid admissible valid) _ valid_initial blockTemplates
      admissible
  · rintro front back ⟨rest, rfl⟩ key job isKept within
    have alongBoth := ((Run.along_append _).mp admissible).1
    have alongBack := ((Run.along_append _).mp alongBoth).2
    simp only [stateAfter, Run.final_append] at isKept within ⊢
    exact Run.final_kept_along _ _
      (fun state => ∀ current ∈ state.currentJob, IsWithinBacklog current job)
      (fun state => state.validJobs.lookup key = some job)
      (fun _ _ admissible within isKept => step_keeps admissible within isKept) _ isKept back
      alongBack within

/-! ## Sample templates -/

namespace SampleTemplates

/-- An array of 32 bytes is a number, the least significant byte first. -/
def platform : JobEnvironment where
  culture := .ordinal
  newUInt256 bytes := do
    throwIf (bytes.length ≠ 32) .format
    return LittleEndian.decode bytes

def template (height : UInt64) (digits : String) : Option BlockTemplate :=
  some {
    height
    header := some (text "0x" ++ List.replicate 60 48 ++ text digits)
    target := some (text "0x" ++ List.replicate 4 48 ++ List.replicate 60 102) }

/-- The daemon loses its peers, repeats a header and goes back by two blocks. -/
def reorganisation : List (Option BlockTemplate) :=
  [template 100 "000a", none, template 101 "000b", template 101 "000b", template 99 "000c",
    template 104 "000d"]

end SampleTemplates

open SampleTemplates (platform)

theorem validJobs_along_reorganisation :
    (stateAfter platform SampleTemplates.reorganisation).validJobs.keys =
        [text "00000004", text "00000002"] ∧
      (∀ front, front <+: SampleTemplates.reorganisation → Valid (stateAfter platform front)) ∧
      ∀ front back, front ++ back <+: SampleTemplates.reorganisation → ∀ key job,
        (stateAfter platform front).validJobs.lookup key = some job →
        (∀ middle, middle <+: back →
          ∀ current ∈ (stateAfter platform (front ++ middle)).currentJob,
            IsWithinBacklog current job) →
        (stateAfter platform (front ++ back)).validJobs.lookup key = some job :=
  ⟨by decide,
    validJobs_along platform SampleTemplates.reorganisation (by decide)⟩

/-- Below height three the difference wraps around, and the job is removed as soon as it is
made. -/
theorem young_chain_not_valid :
    ¬Valid (stateAfter platform [SampleTemplates.template 2 "000a"]) := by
  intro valid
  have noJob : (stateAfter platform [SampleTemplates.template 2 "000a"]).currentJob.any (fun job =>
      (stateAfter platform [SampleTemplates.template 2 "000a"]).validJobs.lookup job.id = none) =
        true := by
    decide
  rcases (Option.any_eq_true _ _).mp noJob with ⟨job, isCurrent, absent⟩
  rw [valid.current job isCurrent] at absent
  cases of_decide_eq_true absent

end JobManager

end Miningcore.Ethereum

import Mathlib.Data.List.Perm.Subperm
import Miningcore.Foundation.Run

/-! # Interleaved tasks

Requests start tasks, and the tasks work on a shared state one step at a time, in any
order. A task relies on what the steps of the others leave as it is, and every step
guarantees that much to the others.

A task may own a key that no other task owns. It gets the key fresh, and hands it on to
its own next step or to the shared state. -/

namespace Miningcore.Interleaving

/-- What a request and a step of a task do: the shared state afterwards, and the task
that is left to do. -/
structure Behaviour (Shared Task Request : Type) where
  start : Shared → Request → Shared × Option Task
  advance : Shared → Task → Shared × Option Task

structure System (Shared Task : Type) where
  shared : Shared
  tasks : List Task

inductive Event (Request : Type)
  | request (request : Request)
  | resume (index : Nat)

variable {Shared Task Request : Type} (behaviour : Behaviour Shared Task Request)

def step (system : System Shared Task) : Event Request → System Shared Task
  | .request request =>
      let (shared, task) := behaviour.start system.shared request
      { shared, tasks := system.tasks ++ task.toList }
  | .resume index =>
      match system.tasks[index]? with
      | none => system
      | some task =>
          let (shared, next) := behaviour.advance system.shared task
          { shared
            tasks := system.tasks.take index ++ next.toList ++ system.tasks.drop (index + 1) }

theorem step_cases (system : System Shared Task) (event : Event Request) :
    (∃ request, step behaviour system event =
      { shared := (behaviour.start system.shared request).1
        tasks := system.tasks ++ (behaviour.start system.shared request).2.toList }) ∨
    (∃ front task back, system.tasks = front ++ task :: back ∧ step behaviour system event =
      { shared := (behaviour.advance system.shared task).1
        tasks := front ++ (behaviour.advance system.shared task).2.toList ++ back }) ∨
    step behaviour system event = system := by
  cases event with
  | request request => exact .inl ⟨request, rfl⟩
  | resume index =>
      cases found : system.tasks[index]? with
      | none =>
          right
          right
          simp only [step, found]
      | some task =>
          rcases List.getElem?_eq_some_iff.mp found with ⟨bound, isTask⟩
          refine .inr (.inl ⟨system.tasks.take index, task, system.tasks.drop (index + 1), ?_, ?_⟩)
          · rw [← isTask, List.getElem_cons_drop, List.take_append_drop]
          · simp only [step, found]

/-! ## What tasks rely on -/

structure Guarantees (invariant : Shared → Prop) (valid : Shared → Task → Prop)
    (preserves : Shared → Shared → Prop) (before : Shared) (outcome : Shared × Option Task) :
    Prop where
  invariant : invariant outcome.1
  preserves : preserves before outcome.1
  valid : ∀ task ∈ outcome.2, valid outcome.1 task

/-- If what a task relies on survives every step, and the step of a task that can rely on
it guarantees as much, then the invariant holds after every run and every task can rely
on what it needs. -/
theorem run_guarantees (invariant : Shared → Prop) (valid : Shared → Task → Prop)
    (preserves : Shared → Shared → Prop)
    (stable : ∀ before after task, preserves before after → valid before task → valid after task)
    (start : ∀ shared request, invariant shared →
      Guarantees invariant valid preserves shared (behaviour.start shared request))
    (advance : ∀ shared task, invariant shared → valid shared task →
      Guarantees invariant valid preserves shared (behaviour.advance shared task))
    (system : System Shared Task)
    (holds : invariant system.shared ∧ ∀ task ∈ system.tasks, valid system.shared task)
    (events : List (Event Request)) :
    let reached := Run.final (step behaviour) system events
    invariant reached.shared ∧ ∀ task ∈ reached.tasks, valid reached.shared task := by
  apply Run.final_invariant (step behaviour)
    (fun system => invariant system.shared ∧ ∀ task ∈ system.tasks, valid system.shared task)
    _ system holds events
  rintro system event ⟨holds, allValid⟩
  rcases step_cases behaviour system event with ⟨request, next⟩ | ⟨front, task, back, tasks, next⟩ |
    same
  · have guarantees := start system.shared request holds
    rw [next]
    refine ⟨guarantees.invariant, fun other member => ?_⟩
    rcases List.mem_append.mp member with old | new
    · exact stable _ _ other guarantees.preserves (allValid other old)
    · exact guarantees.valid other (Option.mem_toList.mp new)
  · rw [tasks] at allValid
    have guarantees := advance system.shared task holds (allValid task (by simp))
    rw [next]
    refine ⟨guarantees.invariant, fun other member => ?_⟩
    simp only [List.mem_append, Option.mem_toList] at member
    rcases member with (inFront | new) | inBack
    · exact stable _ _ other guarantees.preserves (allValid other (by simp [inFront]))
    · exact guarantees.valid other new
    · exact stable _ _ other guarantees.preserves (allValid other (by simp [inBack]))
  · rw [same]
    exact ⟨holds, allValid⟩

/-! ## What tasks own -/

/-- The keys that tasks own and the keys that the shared state holds, all of them
allocated. -/
structure Keys (Shared Task Key : Type) where
  key : Task → Option Key
  held : Shared → List Key
  allocated : Shared → Key → Prop

namespace Keys

variable {Key : Type} (keys : Keys Shared Task Key)

def all (system : System Shared Task) : List Key :=
  system.tasks.filterMap keys.key ++ keys.held system.shared

def Exclusive (system : System Shared Task) : Prop :=
  (keys.all system).Nodup ∧ ∀ key ∈ keys.all system, keys.allocated system.shared key

theorem all_perm (shared : Shared) (front back : List Task) (task : Option Task) :
    (keys.all { shared, tasks := front ++ task.toList ++ back }).Perm
      ((front ++ back).filterMap keys.key ++
        ((task.bind keys.key).toList ++ keys.held shared)) := by
  have single : task.toList.filterMap keys.key = (task.bind keys.key).toList := by
    cases task with
    | none => rfl
    | some task =>
        rw [Option.toList_some, Option.bind_some]
        cases owned : keys.key task with
        | none => exact List.filterMap_cons_none owned
        | some key => exact List.filterMap_cons_some owned
  rw [all, List.filterMap_append, List.filterMap_append, List.filterMap_append, single,
    ← List.append_assoc _ _ (keys.held shared)]
  apply List.Perm.append_right
  rw [List.append_assoc, List.append_assoc]
  exact List.perm_append_comm.append_left _

structure Passes (before : Shared) (owned : Option Key) (outcome : Shared × Option Task) :
    Prop where
  allocated : ∀ key, keys.allocated before key → keys.allocated outcome.1 key
  keys : ∃ fresh : Option Key, (∀ key ∈ fresh, ¬keys.allocated before key ∧
      keys.allocated outcome.1 key) ∧
    ((outcome.2.bind keys.key).toList ++ keys.held outcome.1).Subperm
      (fresh.toList ++ (owned.toList ++ keys.held before))

theorem passes_of_held_eq {before : Shared} (owned : Option Key)
    {outcome : Shared × Option Task}
    (allocated : ∀ key, keys.allocated before key → keys.allocated outcome.1 key)
    (same : keys.held outcome.1 = keys.held before) (noKey : outcome.2.bind keys.key = none) :
    keys.Passes before owned outcome where
  allocated := allocated
  keys := by
    refine ⟨none, by simp, ?_⟩
    rw [noKey, same]
    exact (List.sublist_append_right _ _).subperm

theorem Passes.exclusive {keys : Keys Shared Task Key} {before : Shared} {task : Option Task}
    {outcome : Shared × Option Task} (passes : keys.Passes before (task.bind keys.key) outcome)
    (front back : List Task)
    (exclusive : keys.Exclusive { shared := before, tasks := front ++ task.toList ++ back }) :
    keys.Exclusive { shared := outcome.1, tasks := front ++ outcome.2.toList ++ back } := by
  rcases passes.keys with ⟨fresh, isFresh, passed⟩
  rcases exclusive with ⟨nodup, allocated⟩
  have whole : (keys.all { shared := outcome.1, tasks := front ++ outcome.2.toList ++ back }).Subperm
      (fresh.toList ++ keys.all { shared := before, tasks := front ++ task.toList ++ back }) := by
    have moved := (List.subperm_append_left ((front ++ back).filterMap keys.key)).mpr passed
    have rest := (List.perm_append_comm_assoc _ _ _).subperm_left.mp moved
    have before := (keys.all_perm before front back task).append_left fresh.toList
    exact (keys.all_perm outcome.1 front back outcome.2).subperm_right.mpr
      (before.subperm_left.mpr rest)
  have freshNodup : (fresh.toList ++
      keys.all { shared := before, tasks := front ++ task.toList ++ back }).Nodup := by
    cases fresh with
    | none => exact nodup
    | some key =>
        rw [Option.toList_some, List.singleton_append, List.nodup_cons]
        exact ⟨fun member => (isFresh key rfl).1 (allocated key member), nodup⟩
  constructor
  · rcases whole with ⟨arranged, perm, sublist⟩
    exact perm.nodup_iff.mp (freshNodup.sublist sublist)
  · intro key member
    rcases List.mem_append.mp (whole.subset member) with new | old
    · exact (isFresh key (Option.mem_toList.mp new)).2
    · exact passes.allocated key (allocated key old)

theorem run_exclusive
    (start : ∀ shared request, keys.Passes shared none (behaviour.start shared request))
    (advance : ∀ shared task, keys.Passes shared (keys.key task) (behaviour.advance shared task))
    (system : System Shared Task) (exclusive : keys.Exclusive system)
    (events : List (Event Request)) :
    keys.Exclusive (Run.final (step behaviour) system events) := by
  apply Run.final_invariant (step behaviour) keys.Exclusive _ system exclusive events
  intro system event exclusive
  rcases step_cases behaviour system event with ⟨request, next⟩ | ⟨front, task, back, tasks, next⟩ |
    same
  · have passes : keys.Passes system.shared ((none : Option Task).bind keys.key)
        (behaviour.start system.shared request) := start system.shared request
    have after := passes.exclusive system.tasks []
    simp only [Option.toList_none, List.append_nil] at after
    rw [next]
    exact after exclusive
  · have passes : keys.Passes system.shared ((some task).bind keys.key)
        (behaviour.advance system.shared task) := advance system.shared task
    rw [next]
    apply passes.exclusive front back
    have old : front ++ (some task).toList ++ back = system.tasks := by
      rw [tasks, List.append_assoc]
      rfl
    rw [old]
    exact exclusive
  · rw [same]
    exact exclusive

end Keys

end Miningcore.Interleaving

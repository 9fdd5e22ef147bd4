import Miningcore.Crypto.EthashTasks

/-! The datasets of the native code in every run: none is lost, deleted twice or generated for an
object that has one, and one task at a time generates. -/

namespace Miningcore.Ethash.EthashFull

/-! ## The semaphore -/

section Semaphore

variable {sha3_256 : Bytes → FixedBytes 32} {sha3_512 : Bytes → FixedBytes 64} {sizes : DataSizes}

def holdsSemaphore (task : GenerateTask) : Bool :=
  match task.stage with
  | .check => false
  | .waiting => false
  | .recheck => true
  | .generating => true
  | .releasing _ => true

def semaphore : Interleaving.Keys EthashFull GenerateTask Unit where
  key task := if holdsSemaphore task then some () else none
  held shared := if shared.semTaken then [] else [()]
  allocated _ _ := True

theorem start_passes (shared : EthashFull) (request : DagRequest) :
    semaphore.Passes shared none (shared.start request) := by
  apply Interleaving.Keys.passes_of_held_eq
  · exact fun _ _ => trivial
  · cases request with
    | getDag block now =>
        change (if (shared.getDag block now).2.semTaken then [] else [()]) = _
        rw [(getDag_frames block now shared).semTaken]
        rfl
    | startQueued id =>
        rw [start]
        split
        · rfl
        · rfl
  · cases request with
    | getDag block now => rfl
    | startQueued id =>
        rw [start]
        split
        · rfl
        · rfl

theorem finish_semTaken (task : GenerateTask) (shared : EthashFull) :
    (shared.finish task).semTaken = shared.semTaken := by
  rw [finish]
  split
  · rfl
  · rfl

theorem passes_of_sublist {before : EthashFull} {task : GenerateTask}
    {outcome : EthashFull × Option GenerateTask}
    (sublist : ((outcome.2.bind semaphore.key).toList ++ semaphore.held outcome.1).Sublist
      ((semaphore.key task).toList ++ semaphore.held before)) :
    semaphore.Passes before (semaphore.key task) outcome where
  allocated _ _ := trivial
  keys := ⟨none, fun _ none => absurd none (Option.not_mem_none _), sublist.subperm⟩

theorem advance_passes (shared : EthashFull) (task : GenerateTask) :
    semaphore.Passes shared (semaphore.key task)
      (shared.advance sha3_256 sha3_512 sizes task) := by
  apply passes_of_sublist
  cases stage : task.stage with
  | check =>
      simp only [advance, stage]
      split
      · simp [semaphore, holdsSemaphore, stage, finish_semTaken]
      · simp [semaphore, holdsSemaphore, stage]
  | waiting =>
      simp only [advance, stage]
      split
      · simp [semaphore, holdsSemaphore, stage]
      · rename_i free
        simp [semaphore, holdsSemaphore, stage, free]
  | recheck =>
      simp only [advance, stage]
      split
      · simp [semaphore, holdsSemaphore, stage]
      · simp [semaphore, holdsSemaphore, stage]
  | generating =>
      simp only [advance, stage]
      split
      · rename_i full _
        have same : (shared.store task.dag full).semTaken = shared.semTaken := rfl
        simp [semaphore, holdsSemaphore, stage, same]
      · simp [semaphore, holdsSemaphore, stage]
  | releasing succeeded =>
      cases succeeded with
      | true => simp [advance, semaphore, holdsSemaphore, stage, finish_semTaken]
      | false => simp [advance, semaphore, holdsSemaphore, stage]

theorem exclusive_holders {system : Interleaving.System EthashFull GenerateTask}
    (exclusive : semaphore.Exclusive system) :
    (system.tasks.filter holdsSemaphore).length ≤ 1 := by
  have distinct := exclusive.1.sublist (List.sublist_append_left _ _)
  have counted : ∀ tasks : List GenerateTask,
      (tasks.filterMap semaphore.key).length = (tasks.filter holdsSemaphore).length := by
    intro tasks
    induction tasks with
    | nil => rfl
    | cons task tasks induction =>
        cases holds : holdsSemaphore task with
        | true =>
            have key : semaphore.key task = some () := if_pos holds
            rw [List.filterMap_cons_some key, List.filter_cons_of_pos holds, List.length_cons,
              List.length_cons, induction]
        | false =>
            have key : semaphore.key task = none := if_neg (by rw [holds]; decide)
            rw [List.filterMap_cons_none key, List.filter_cons_of_neg (by rw [holds]; decide),
              induction]
  rw [← counted]
  exact distinct.length_le_card

theorem exclusive_new (numCaches : Nat) (directory : UInt64 → Option (List Node)) :
    semaphore.Exclusive ⟨new numCaches directory, []⟩ :=
  ⟨List.nodup_singleton (), fun _ _ => trivial⟩

theorem steps_exclusive {system : Interleaving.System EthashFull GenerateTask}
    (exclusive : semaphore.Exclusive system) (events : List (Interleaving.Event DagRequest)) :
    semaphore.Exclusive
      (Run.final (Interleaving.step (behaviour sha3_256 sha3_512 sizes)) system events) :=
  semaphore.run_exclusive (behaviour sha3_256 sha3_512 sizes) start_passes advance_passes system
    exclusive events

/-! ## Nothing is lost -/

def Fresh (shared : EthashFull) : Prop :=
  ∀ id native, (shared.dags id).handle = some native → id < shared.created

/-- Handles are given up only where their dataset is deleted. -/
structure Releases (before after : EthashFull) : Prop where
  created : before.created ≤ after.created
  fulls : after.fulls = before.fulls
  kept : ∀ id native, (after.dags id).handle = some native →
    (before.dags id).handle = some native
  lost : ∀ id native, (before.dags id).handle = some native →
    (after.dags id).handle = some native ∨ native ∈ after.deleted
  deleted : ∀ native ∈ before.deleted, native ∈ after.deleted

theorem Releases.refl (shared : EthashFull) : Releases shared shared where
  created := le_refl _
  fulls := rfl
  kept _ _ has := has
  lost _ _ has := .inl has
  deleted _ isDeleted := isDeleted

theorem Releases.trans {before between after : EthashFull} (first : Releases before between)
    (second : Releases between after) : Releases before after where
  created := first.created.trans second.created
  fulls := second.fulls.trans first.fulls
  kept id native has := first.kept id native (second.kept id native has)
  lost id native has := by
    rcases first.lost id native has with still | isDeleted
    · exact second.lost id native still
    · exact .inr (second.deleted native isDeleted)
  deleted native isDeleted := second.deleted native (first.deleted native isDeleted)

theorem Releases.fresh {before after : EthashFull} (releases : Releases before after)
    (fresh : Fresh before) : Fresh after :=
  fun id native has => (fresh id native (releases.kept id native has)).trans_le releases.created

theorem dispose_releases (id : Nat) (shared : EthashFull) :
    Releases shared (shared.dispose id) := by
  rw [EthashFull.dispose]
  split
  · rename_i native has
    constructor
    · exact le_refl _
    · rfl
    · intro other live isLive
      rw [modifyDag_dags] at isLive
      split at isLive
      · cases isLive
      · exact isLive
    · intro other live wasLive
      rw [modifyDag_dags]
      split
      · rename_i same
        rw [same, has, Option.some.injEq] at wasLive
        rw [← wasLive]
        exact .inr List.mem_cons_self
      · exact .inl wasLive
    · intro dead isDeleted
      exact List.mem_cons_of_mem _ isDeleted
  · exact Releases.refl shared

theorem newDag_releases {shared : EthashFull} (fresh : Fresh shared) (epoch : UInt64) :
    Releases shared (shared.newDag epoch) where
  created := Nat.le_succ _
  fulls := rfl
  kept id native has := by
    by_cases isNew : id = shared.created
    · rw [isNew, newDag_new] at has
      cases has
    · have same : (shared.newDag epoch).dags id = shared.dags id :=
        Function.update_of_ne isNew _ _
      rw [same] at has
      exact has
  lost id native has := by
    left
    rw [newDag_old (fresh id native has)]
    exact has
  deleted _ isDeleted := isDeleted

theorem setLastUsed_releases (id now : Nat) (shared : EthashFull) :
    Releases shared (shared.setLastUsed id now) where
  created := le_refl _
  fulls := rfl
  kept other native has := by
    rw [(setLastUsed_dags _ _ _ _).2] at has
    exact has
  lost other native has := by
    rw [(setLastUsed_dags _ _ _ _).2]
    exact .inl has
  deleted _ isDeleted := isDeleted

theorem evict_releases {shared : EthashFull} (positive : 0 < shared.numCaches)
    (length : shared.caches.length ≤ shared.numCaches) : Releases shared shared.evict := by
  rcases evict_cases positive length with ⟨_, same⟩ | ⟨pair, _, _, evicted⟩
  · rw [same]
    exact Releases.refl shared
  · have disposed := dispose_releases pair.2 shared
    rw [evicted]
    exact ⟨disposed.created, disposed.fulls, disposed.kept, disposed.lost, disposed.deleted⟩

theorem takeDag_releases {shared : EthashFull} (fresh : Fresh shared) (epoch : UInt64) :
    Releases shared (shared.takeDag epoch).2 := by
  rcases takeDag_cases epoch shared with ⟨id, _, _, taken⟩ | taken
  · rw [taken]
    exact ⟨le_refl _, rfl, fun _ _ has => has, fun _ _ has => .inl has, fun _ old => old⟩
  · rw [taken]
    exact newDag_releases fresh epoch

theorem lookup_releases {shared : EthashFull} (positive : 0 < shared.numCaches)
    (length : shared.caches.length ≤ shared.numCaches) (fresh : Fresh shared) (epoch : UInt64) :
    Releases shared (shared.lookup epoch).2 := by
  rw [lookup]
  split
  · have evicts := evict_releases positive length
    have takes := evicts.trans (takeDag_releases (evicts.fresh fresh) epoch)
    exact ⟨takes.created, takes.fulls, takes.kept, takes.lost, takes.deleted⟩
  · split
    · have creates := newDag_releases fresh (epoch + 1)
      exact ⟨creates.created, creates.fulls, creates.kept, creates.lost, creates.deleted⟩
    · exact Releases.refl shared

theorem getDag_releases {shared : EthashFull} (consistent : Consistent shared)
    (fresh : Fresh shared) (block : UInt64) (now : Nat) :
    Releases shared (shared.getDag block now).2 := by
  have found := @lookup_releases shared.withCapacity (capacity_pos shared) consistent.length fresh
    (epochOf block)
  have same : Releases shared (shared.withCapacity.lookup (epochOf block)).2 :=
    ⟨found.created, found.fulls, found.kept, found.lost, found.deleted⟩
  rw [getDag_eq]
  exact same.trans (setLastUsed_releases _ now _)

theorem evict_queued {shared : EthashFull} (positive : 0 < shared.numCaches)
    (length : shared.caches.length ≤ shared.numCaches) :
    shared.evict.queued = shared.queued := by
  rcases evict_cases positive length with ⟨_, same⟩ | ⟨pair, _, _, evicted⟩
  · rw [same]
  · rw [evicted]
    change (shared.dispose pair.2).queued = _
    rw [EthashFull.dispose]
    split
    · rfl
    · rfl

theorem getDag_queued {shared : EthashFull} (consistent : Consistent shared)
    (queued : ∀ id ∈ shared.queued, id < shared.created) (block : UInt64) (now : Nat) :
    ∀ id ∈ (shared.getDag block now).2.queued, id < (shared.getDag block now).2.created := by
  have keeps := (getDag_gets consistent block now).keeps
  have cases_queued : (shared.getDag block now).2.queued = shared.queued ∨
      ((shared.getDag block now).2.queued = shared.queued ++ [shared.created] ∧
        (shared.getDag block now).2.created = shared.created + 1) := by
    rw [getDag_eq]
    change (shared.withCapacity.lookup (epochOf block)).2.queued = _ ∨
      ((shared.withCapacity.lookup (epochOf block)).2.queued = _ ∧
        (shared.withCapacity.lookup (epochOf block)).2.created = _)
    rw [lookup]
    split
    · left
      have evicted : shared.withCapacity.evict.queued = shared.queued :=
        evict_queued (capacity_pos shared) consistent.length
      change (shared.withCapacity.evict.takeDag (epochOf block)).2.queued = _
      rcases takeDag_cases (epochOf block) shared.withCapacity.evict with ⟨id, _, _, taken⟩ | taken
      · rw [taken]
        exact evicted
      · rw [taken]
        exact evicted
    · split
      · exact .inr ⟨rfl, rfl⟩
      · exact .inl rfl
  intro id isQueued
  rcases cases_queued with same | ⟨added, created⟩
  · rw [same] at isQueued
    exact (queued id isQueued).trans_le keeps.created
  · rw [created]
    rw [added] at isQueued
    rcases List.mem_append.mp isQueued with old | isNew
    · exact (queued id old).trans (Nat.lt_succ_self _)
    · rw [List.mem_singleton.mp isNew]
      exact Nat.lt_succ_self _

/-- Every dataset is with an object or deleted, and none is generated for an object that has
one. -/
structure Accounted (system : Interleaving.System EthashFull GenerateTask) : Prop where
  fresh : Fresh system.shared
  queued : ∀ id ∈ system.shared.queued, id < system.shared.created
  tasks : ∀ task ∈ system.tasks, task.dag < system.shared.created
  generating : ∀ task ∈ system.tasks, task.stage = .generating →
    (system.shared.dags task.dag).handle = none
  natives : ∀ native < system.shared.fulls.length, native ∈ system.shared.deleted ∨
    ∃ id, (system.shared.dags id).handle = some native

theorem Releases.natives {before after : EthashFull} (releases : Releases before after)
    (natives : ∀ native < before.fulls.length, native ∈ before.deleted ∨
      ∃ id, (before.dags id).handle = some native) :
    ∀ native < after.fulls.length, native ∈ after.deleted ∨
      ∃ id, (after.dags id).handle = some native := by
  intro native inside
  rw [releases.fulls] at inside
  rcases natives native inside with isDeleted | ⟨id, has⟩
  · exact .inl (releases.deleted native isDeleted)
  · rcases releases.lost id native has with still | isDeleted
    · exact .inr ⟨id, still⟩
    · exact .inl isDeleted

theorem Releases.none {before after : EthashFull} (releases : Releases before after) {id : Nat}
    (without : (before.dags id).handle = none) : (after.dags id).handle = none := by
  cases has : (after.dags id).handle with
  | none => rfl
  | some native =>
      rw [releases.kept id native has] at without
      cases without

theorem Accounted.start {system : Interleaving.System EthashFull GenerateTask}
    (accounted : Accounted system) (consistent : Consistent system.shared)
    (request : DagRequest) :
    Accounted ⟨(system.shared.start request).1,
      system.tasks ++ (system.shared.start request).2.toList⟩ := by
  cases request with
  | getDag block now =>
      have releases := getDag_releases consistent accounted.fresh block now
      have called := getDag_called consistent block now
      constructor
      · exact releases.fresh accounted.fresh
      · exact getDag_queued consistent accounted.queued block now
      · intro task member
        rcases List.mem_append.mp member with old | isNew
        · exact (accounted.tasks task old).trans_le releases.created
        · rw [List.mem_singleton.mp isNew]
          exact called.created
      · intro task member generating
        rcases List.mem_append.mp member with old | isNew
        · exact releases.none (accounted.generating task old generating)
        · rw [List.mem_singleton.mp isNew] at generating
          cases generating
      · exact releases.natives accounted.natives
  | startQueued id =>
      rw [EthashFull.start]
      split
      · rename_i isQueued
        constructor
        · exact accounted.fresh
        · intro other member
          exact accounted.queued other (List.mem_of_mem_erase member)
        · intro task member
          rcases List.mem_append.mp member with old | isNew
          · exact accounted.tasks task old
          · rw [List.mem_singleton.mp isNew]
            exact accounted.queued id isQueued
        · intro task member generating
          rcases List.mem_append.mp member with old | isNew
          · exact accounted.generating task old generating
          · rw [List.mem_singleton.mp isNew] at generating
            cases generating
        · exact accounted.natives
      · rw [Option.toList_none, List.append_nil]
        exact accounted

/-- A step of a task that leaves the objects alone. It generates next only for an object without a
dataset. -/
structure Leaves (shared : EthashFull) (task : GenerateTask)
    (outcome : EthashFull × Option GenerateTask) : Prop where
  dags : outcome.1.dags = shared.dags
  created : outcome.1.created = shared.created
  queued : outcome.1.queued = shared.queued
  fulls : outcome.1.fulls = shared.fulls
  deleted : outcome.1.deleted = shared.deleted
  dag : ∀ next ∈ outcome.2, next.dag = task.dag
  generating : ∀ next ∈ outcome.2, next.stage = .generating →
    (shared.dags task.dag).handle = none

theorem leaves_ended {shared : EthashFull} (task : GenerateTask) (semTaken : Bool) :
    Leaves shared task ({ shared with semTaken }.finish task, none) := by
  have unchanged : ∀ other : EthashFull, (other.finish task).dags = other.dags ∧
      (other.finish task).created = other.created ∧ (other.finish task).queued = other.queued ∧
      (other.finish task).fulls = other.fulls ∧ (other.finish task).deleted = other.deleted := by
    intro other
    rw [finish]
    split
    · exact ⟨rfl, rfl, rfl, rfl, rfl⟩
    · exact ⟨rfl, rfl, rfl, rfl, rfl⟩
  rcases unchanged { shared with semTaken } with ⟨dags, created, queued, fulls, deleted⟩
  exact ⟨dags, created, queued, fulls, deleted, fun _ next => absurd next (Option.not_mem_none _),
    fun _ next => absurd next (Option.not_mem_none _)⟩

theorem leaves_staged {shared : EthashFull} (task : GenerateTask) (semTaken : Bool)
    (stage : Stage) (generating : stage = .generating → (shared.dags task.dag).handle = none) :
    Leaves shared task ({ shared with semTaken }, some { task with stage }) where
  dags := rfl
  created := rfl
  queued := rfl
  fulls := rfl
  deleted := rfl
  dag next isNext := by
    rw [Option.mem_some_iff] at isNext
    rw [← isNext]
  generating next isNext := by
    rw [Option.mem_some_iff] at isNext
    rw [← isNext]
    exact generating

theorem advance_cases (shared : EthashFull) (task : GenerateTask) :
    Leaves shared task (shared.advance sha3_256 sha3_512 sizes task) ∨
    ∃ full, task.stage = .generating ∧ shared.advance sha3_256 sha3_512 sizes task =
      (shared.store task.dag full, some { task with stage := .releasing true }) := by
  rw [advance]
  cases stage : task.stage with
  | check =>
      left
      simp only
      split
      · exact leaves_ended task shared.semTaken
      · exact leaves_staged task shared.semTaken .waiting fun generating => by cases generating
  | waiting =>
      left
      simp only
      split
      · have same := @leaves_staged shared task shared.semTaken .waiting
          fun generating => by cases generating
        rw [← stage] at same
        exact same
      · exact leaves_staged task true .recheck fun generating => by cases generating
  | recheck =>
      left
      simp only
      split
      · exact leaves_staged task shared.semTaken (.releasing true)
          fun generating => by cases generating
      · rename_i without
        rw [Option.not_isSome_iff_eq_none] at without
        exact leaves_staged task shared.semTaken .generating fun _ => without
  | generating =>
      simp only
      split
      · rename_i full _
        exact .inr ⟨full, trivial, rfl⟩
      · exact .inl (leaves_staged task shared.semTaken (.releasing false)
          fun generating => by cases generating)
  | releasing succeeded =>
      left
      cases succeeded with
      | true => exact leaves_ended task false
      | false =>
          exact ⟨rfl, rfl, rfl, rfl, rfl, fun _ next => absurd next (Option.not_mem_none _),
            fun _ next => absurd next (Option.not_mem_none _)⟩

theorem Accounted.leave {shared : EthashFull} {front back : List GenerateTask}
    {task : GenerateTask} (accounted : Accounted ⟨shared, front ++ task :: back⟩)
    {outcome : EthashFull × Option GenerateTask} (leaves : Leaves shared task outcome) :
    Accounted ⟨outcome.1, front ++ outcome.2.toList ++ back⟩ := by
  have sources : ∀ other ∈ front ++ outcome.2.toList ++ back,
      other ∈ front ++ task :: back ∨ other ∈ outcome.2 := by
    intro other member
    rw [List.append_assoc, List.mem_append, List.mem_append, Option.mem_toList] at member
    rcases member with inFront | isNext | inBack
    · exact .inl (List.mem_append_left _ inFront)
    · exact .inr isNext
    · exact .inl (List.mem_append_right _ (List.mem_cons_of_mem _ inBack))
  have isTask : task ∈ front ++ task :: back := List.mem_append_right _ List.mem_cons_self
  constructor
  · intro id native has
    rw [leaves.dags] at has
    rw [leaves.created]
    exact accounted.fresh id native has
  · intro id isQueued
    rw [leaves.queued] at isQueued
    rw [leaves.created]
    exact accounted.queued id isQueued
  · intro other member
    rw [leaves.created]
    rcases sources other member with old | isNext
    · exact accounted.tasks other old
    · rw [leaves.dag other isNext]
      exact accounted.tasks task isTask
  · intro other member generating
    rw [leaves.dags]
    rcases sources other member with old | isNext
    · exact accounted.generating other old generating
    · rw [leaves.dag other isNext]
      exact leaves.generating other isNext generating
  · intro native inside
    rw [leaves.fulls] at inside
    rw [leaves.deleted, leaves.dags]
    exact accounted.natives native inside

theorem other_generates {front back : List GenerateTask} {task other : GenerateTask}
    (exclusive : ((front ++ task :: back).filter holdsSemaphore).length ≤ 1)
    (holds : holdsSemaphore task = true) (member : other ∈ front ++ back) :
    other.stage ≠ .generating := by
  intro generating
  have otherHolds : holdsSemaphore other = true := by
    rw [holdsSemaphore, generating]
  have counted : 0 < ((front ++ back).filter holdsSemaphore).length :=
    List.length_pos_of_mem (List.mem_filter.mpr ⟨member, otherHolds⟩)
  rw [List.filter_append, List.length_append] at counted
  rw [List.filter_append, List.filter_cons_of_pos holds, List.length_append,
    List.length_cons] at exclusive
  omega

theorem Accounted.stores {shared : EthashFull} {front back : List GenerateTask}
    {task : GenerateTask} (accounted : Accounted ⟨shared, front ++ task :: back⟩)
    (exclusive : ((front ++ task :: back).filter holdsSemaphore).length ≤ 1)
    (generating : task.stage = .generating) (full : Full) :
    Accounted ⟨shared.store task.dag full,
      front ++ (some { task with stage := Stage.releasing true }).toList ++ back⟩ := by
  have isTask : task ∈ front ++ task :: back := List.mem_append_right _ List.mem_cons_self
  have without : (shared.dags task.dag).handle = none :=
    accounted.generating task isTask generating
  have holds : holdsSemaphore task = true := by
    rw [holdsSemaphore, generating]
  have sources : ∀ other ∈ front ++ (some { task with stage := Stage.releasing true }).toList ++
      back, other ∈ front ++ back ∨ other = { task with stage := .releasing true } := by
    intro other member
    rw [List.append_assoc, List.mem_append, List.mem_append, Option.toList_some,
      List.mem_singleton] at member
    rcases member with inFront | isNext | inBack
    · exact .inl (List.mem_append_left _ inFront)
    · exact .inr isNext
    · exact .inl (List.mem_append_right _ inBack)
  constructor
  · intro id native has
    rw [store_dags] at has
    split at has
    · rename_i same
      rw [same]
      exact accounted.tasks task isTask
    · exact accounted.fresh id native has
  · exact accounted.queued
  · intro other member
    rcases sources other member with old | isNext
    · apply accounted.tasks other
      rcases List.mem_append.mp old with inFront | inBack
      · exact List.mem_append_left _ inFront
      · exact List.mem_append_right _ (List.mem_cons_of_mem _ inBack)
    · rw [isNext]
      exact accounted.tasks task isTask
  · intro other member otherGenerates
    rcases sources other member with old | isNext
    · exact absurd otherGenerates (other_generates exclusive holds old)
    · rw [isNext] at otherGenerates
      cases otherGenerates
  · intro native inside
    change native < (shared.fulls ++ [full]).length at inside
    rw [List.length_append, List.length_singleton] at inside
    rcases Nat.lt_succ_iff_lt_or_eq.mp inside with old | isNew
    · rcases accounted.natives native old with isDeleted | ⟨id, has⟩
      · exact .inl isDeleted
      · right
        refine ⟨id, ?_⟩
        rw [store_dags, if_neg]
        · exact has
        · intro same
          change (shared.dags id).handle = some native at has
          rw [same, without] at has
          cases has
    · right
      refine ⟨task.dag, ?_⟩
      rw [store_dags, if_pos rfl, isNew]

theorem steps_accounted {system : Interleaving.System EthashFull GenerateTask}
    (holds : Sound sha3_256 sha3_512 sizes system.shared ∧
      ∀ task ∈ system.tasks, TaskValid system.shared task)
    (exclusive : semaphore.Exclusive system) (accounted : Accounted system)
    (events : List (Interleaving.Event DagRequest)) :
    Accounted (Run.final (Interleaving.step (behaviour sha3_256 sha3_512 sizes)) system
      events) := by
  induction events generalizing system with
  | nil => exact accounted
  | cons event events induction =>
      apply induction (step_sound holds [event]) (steps_exclusive exclusive [event])
      rcases Interleaving.step_cases (behaviour sha3_256 sha3_512 sizes) system event with
        ⟨request, next⟩ | ⟨front, task, back, tasks, next⟩ | same
      · change Accounted (Interleaving.step (behaviour sha3_256 sha3_512 sizes) system event)
        rw [next]
        exact accounted.start holds.1.consistent request
      · change Accounted (Interleaving.step (behaviour sha3_256 sha3_512 sizes) system event)
        have holders := exclusive_holders exclusive
        have split : Accounted ⟨system.shared, front ++ task :: back⟩ := by
          rw [← tasks]
          exact accounted
        rw [tasks] at holders
        rw [next]
        change Accounted ⟨(system.shared.advance sha3_256 sha3_512 sizes task).1,
          front ++ (system.shared.advance sha3_256 sha3_512 sizes task).2.toList ++ back⟩
        rcases @advance_cases sha3_256 sha3_512 sizes system.shared task with
          leaves | ⟨full, generating, stores⟩
        · exact split.leave leaves
        · rw [stores]
          exact split.stores holders generating full
      · change Accounted (Interleaving.step (behaviour sha3_256 sha3_512 sizes) system event)
        rw [same]
        exact accounted

theorem accounted_new (numCaches : Nat) (directory : UInt64 → Option (List Node)) :
    Accounted ⟨new numCaches directory, []⟩ where
  fresh _ _ has := absurd has.symm (Option.some_ne_none _)
  queued _ member := absurd member List.not_mem_nil
  tasks _ member := absurd member List.not_mem_nil
  generating _ member := absurd member List.not_mem_nil
  natives _ inside := absurd inside (Nat.not_lt_zero _)

structure Safe (sha3_256 : Bytes → FixedBytes 32) (sha3_512 : Bytes → FixedBytes 64)
    (sizes : DataSizes) (numCaches : Nat) (system : Interleaving.System EthashFull GenerateTask) :
    Prop where
  length : system.shared.caches.length ≤ if numCaches = 0 then 3 else numCaches
  keys : (system.shared.caches.map Prod.fst).Nodup
  epochs : ∀ pair ∈ system.shared.caches, (system.shared.dags pair.2).epoch = pair.1
  returned : ∀ call ∈ system.shared.returned,
    (system.shared.dags call.2).epoch = epochOf call.1
  natives : Natives sha3_256 sha3_512 sizes system.shared.dags system.shared.fulls
    system.shared.deleted
  accounted : ∀ native < system.shared.fulls.length, native ∈ system.shared.deleted ∨
    ∃ id, (system.shared.dags id).handle = some native
  exclusive : (system.tasks.filter holdsSemaphore).length ≤ 1
  generating : ∀ task ∈ system.tasks, task.stage = .generating →
    (system.shared.dags task.dag).handle = none

theorem run_safe (numCaches : Nat) {directory : UInt64 → Option (List Node)}
    (generated : ∀ epoch, IsGenerated sha3_256 sha3_512 sizes (directory epoch) epoch)
    (events : List (Interleaving.Event DagRequest)) :
    Safe sha3_256 sha3_512 sizes numCaches
      (run sha3_256 sha3_512 sizes numCaches directory events) := by
  have start : Sound sha3_256 sha3_512 sizes (new numCaches directory) ∧
      ∀ task ∈ ([] : List GenerateTask), TaskValid (new numCaches directory) task :=
    ⟨sound_new generated, fun _ member => absurd member List.not_mem_nil⟩
  have sound := (@step_sound sha3_256 sha3_512 sizes ⟨new numCaches directory, []⟩ start events).1
  have capacity := @run_capacity sha3_256 sha3_512 sizes ⟨new numCaches directory, []⟩ start
    events
  have alone := exclusive_new numCaches directory
  have accounted := @steps_accounted sha3_256 sha3_512 sizes ⟨new numCaches directory, []⟩ start
    alone (accounted_new numCaches directory) events
  constructor
  · exact sound.consistent.length.trans_eq capacity
  · exact sound.consistent.keys
  · exact sound.consistent.epochs
  · intro call member
    exact (sound.returned call member).1.epoch
  · exact sound.natives
  · exact accounted.natives
  · exact exclusive_holders (steps_exclusive alone events)
  · exact accounted.generating

end Semaphore

def SampleTables.contended : List (Interleaving.Event DagRequest) :=
  [.request (.getDag 5 1), .request (.getDag 7 2), .resume 0, .resume 1, .resume 0, .resume 1,
    .resume 0, .resume 0, .resume 0, .resume 0, .resume 0, .resume 0]

theorem SampleTables.contended_run (sha3_256 : Bytes → FixedBytes 32)
    (sha3_512 : Bytes → FixedBytes 64) (sizes : DataSizes) {full : Full}
    (generates : generate sha3_256 sha3_512 sizes none 0 = .ok (some full)) :
    let reached := run sha3_256 sha3_512 sizes 3 (fun _ => none) contended
    reached.shared.fulls = [full] ∧ reached.shared.returned = [(5, 0), (7, 0)] := by
  have epochs : epochOf 5 = 0 ∧ epochOf 7 = 0 := by decide
  simp [contended, run, Run.final, Interleaving.step, behaviour, start, getDag, new, lookup,
    evict_eq_self, cacheDag, takeDag, newDag, needsFuture, regenerateFuture, modifyDag, advance,
    epochs, generates, store, finish]

theorem run_safe_twice :
    let sha3_256 : Bytes → FixedBytes 32 := fun _ => List.Vector.replicate 32 0
    let sha3_512 : Bytes → FixedBytes 64 := fun _ => List.Vector.replicate 64 0
    let reached := run sha3_256 sha3_512 SampleTables.sizes 3 (fun _ => none)
      SampleTables.contended
    reached.shared.fulls.length = 1 ∧ reached.shared.returned = [(5, 0), (7, 0)] ∧
      Safe sha3_256 sha3_512 SampleTables.sizes 3 reached := by
  intro sha3_256 sha3_512
  rcases SampleTables.generates sha3_256 sha3_512 with ⟨full, generates⟩
  have calls := SampleTables.contended_run sha3_256 sha3_512 SampleTables.sizes generates
  refine ⟨?_, calls.2, run_safe 3 (fun _ _ stored => absurd stored (Option.not_mem_none _)) _⟩
  rw [calls.1, List.length_singleton]

end Miningcore.Ethash.EthashFull

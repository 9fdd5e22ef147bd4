import Mathlib.Logic.Function.Basic
import Miningcore.Crypto.EthashDag
import Miningcore.Foundation.Interleaving
import Miningcore.Foundation.LeastRecentlyUsed

/-! `EthashFull`: the cache of `Dag` objects, and the tasks that generate their datasets.

A call of `GetDagAsync` is one step under the lock of the cache, and then a task that waits for
the dataset. Objects have an identity, and so have the datasets of the native code. -/

namespace Miningcore.Ethash

/-- The fields of a `Dag` object. The handle is the dataset in the native code. -/
structure Dag where
  epoch : UInt64
  lastUsed : Nat
  handle : Option Nat
deriving DecidableEq

/-- `EthashFull` and what it shares with its tasks: the objects that were created, those whose
generation nobody awaits and no thread has begun, the semaphore, the directory, and the
datasets that the native code has created and deleted. -/
structure EthashFull where
  numCaches : Nat
  caches : List (UInt64 × Nat)
  future : Option Nat
  dags : Nat → Dag
  created : Nat
  queued : List Nat
  semTaken : Bool
  directory : UInt64 → Option (List Node)
  fulls : List Full
  deleted : List Nat
  /-- What the calls that are over have returned, with the block. -/
  returned : List (UInt64 × Nat)

namespace EthashFull

def new (numCaches : Nat) (directory : UInt64 → Option (List Node)) : EthashFull where
  numCaches
  caches := []
  future := none
  dags _ := ⟨0, 0, none⟩
  created := 0
  queued := []
  semTaken := false
  directory
  fulls := []
  deleted := []
  returned := []

def modifyDag (id : Nat) (change : Dag → Dag) (shared : EthashFull) : EthashFull :=
  { shared with dags := Function.update shared.dags id (change (shared.dags id)) }

theorem modifyDag_dags (id : Nat) (change : Dag → Dag) (shared : EthashFull) (other : Nat) :
    (shared.modifyDag id change).dags other =
      if other = id then change (shared.dags id) else shared.dags other :=
  Function.update_apply _ _ _ _

def newDag (epoch : UInt64) (shared : EthashFull) : EthashFull :=
  { shared with
    dags := Function.update shared.dags shared.created ⟨epoch, 0, none⟩
    created := shared.created + 1 }

def dispose (id : Nat) (shared : EthashFull) : EthashFull :=
  match (shared.dags id).handle with
  | some native =>
      { shared.modifyDag id fun dag => { dag with handle := none } with
        deleted := native :: shared.deleted }
  | none => shared

@[simp] theorem dispose_numCaches (id : Nat) (shared : EthashFull) :
    (shared.dispose id).numCaches = shared.numCaches := by
  rw [dispose]
  split <;> rfl

/-- One round of the loop that evicts objects, for the first of those that were used last the
longest time ago. -/
def evictOldest (pair : UInt64 × Nat) (shared : EthashFull) : EthashFull :=
  { shared.dispose pair.2 with caches := shared.caches.eraseP fun other => other.1 == pair.1 }

/-- Ties go to the first pair, where the order of the source's dictionary is unspecified. What is
proved about an eviction holds for any of those that were used last the longest time ago. -/
def toEvict (shared : EthashFull) : Option (UInt64 × Nat) :=
  shared.caches.argmin fun pair => (shared.dags pair.2).lastUsed

theorem evictOldest_length {shared : EthashFull} {pair : UInt64 × Nat}
    (found : shared.toEvict = some pair) :
    (shared.evictOldest pair).caches.length < shared.caches.length := by
  have member : pair ∈ shared.caches := List.argmin_mem found
  have removed := List.length_eraseP_of_mem member (p := fun other => other.1 == pair.1) (by simp)
  have some : 0 < shared.caches.length := List.length_pos_of_mem member
  change (shared.caches.eraseP _).length < _
  omega

def evict (shared : EthashFull) : EthashFull :=
  if shared.numCaches ≤ shared.caches.length then
    match _ : shared.toEvict with
    | none => shared
    | some pair => evict (shared.evictOldest pair)
  else shared
termination_by shared.caches.length
decreasing_by exact evictOldest_length ‹_›

def takeDag (epoch : UInt64) (shared : EthashFull) : Nat × EthashFull :=
  match shared.future with
  | some id =>
      if (shared.dags id).epoch = epoch then (id, { shared with future := none })
      else (shared.created, shared.newDag epoch)
  | none => (shared.created, shared.newDag epoch)

/-- A new object for the next epoch, whose `GenerateAsync` is left to the thread pool. -/
def regenerateFuture (epoch : UInt64) (shared : EthashFull) : EthashFull :=
  { shared.newDag (epoch + 1) with
    future := some shared.created
    queued := shared.queued ++ [shared.created] }

def needsFuture (epoch : UInt64) (shared : EthashFull) : Bool :=
  match shared.future with
  | some id => decide ((shared.dags id).epoch ≤ epoch)
  | none => true

def cacheDag (epoch : UInt64) (shared : EthashFull) : Nat × EthashFull :=
  let (result, shared) := shared.takeDag epoch
  (result, { shared with caches := shared.caches ++ [(epoch, result)] })

/-- What `GetDagAsync` does under the lock, but for the time of use. -/
def lookup (epoch : UInt64) (shared : EthashFull) : Nat × EthashFull :=
  match shared.caches.lookup epoch with
  | none => shared.evict.cacheDag epoch
  | some result =>
      (result, if shared.needsFuture epoch then shared.regenerateFuture epoch else shared)

def getDag (block : UInt64) (now : Nat) (shared : EthashFull) : Nat × EthashFull :=
  let (result, shared) :=
    { shared with numCaches := if shared.numCaches = 0 then 3 else shared.numCaches }.lookup
      (epochOf block)
  (result, shared.modifyDag result fun dag => { dag with lastUsed := now })

end EthashFull

/-- Where a task is in `GenerateAsync`. -/
inductive Stage
  | check
  | waiting
  | recheck
  | generating
  | releasing (succeeded : Bool)
deriving DecidableEq

/-- A run of `GenerateAsync`, and the block of the call that awaits it. -/
structure GenerateTask where
  dag : Nat
  call : Option UInt64
  stage : Stage
deriving DecidableEq

inductive DagRequest
  | getDag (block : UInt64) (now : Nat)
  | startQueued (id : Nat)
deriving DecidableEq

namespace EthashFull

def finish (task : GenerateTask) (shared : EthashFull) : EthashFull :=
  match task.call with
  | some block => { shared with returned := shared.returned ++ [(block, task.dag)] }
  | none => shared

def start (shared : EthashFull) : DagRequest → EthashFull × Option GenerateTask
  | .getDag block now =>
      let (result, shared) := shared.getDag block now
      (shared, some ⟨result, some block, .check⟩)
  | .startQueued id =>
      if id ∈ shared.queued then
        ({ shared with queued := shared.queued.erase id }, some ⟨id, none, .waiting⟩)
      else (shared, none)

section Steps

variable (sha3_256 : Bytes → FixedBytes 32) (sha3_512 : Bytes → FixedBytes 64) (sizes : DataSizes)

def store (id : Nat) (full : Full) (shared : EthashFull) : EthashFull :=
  { shared.modifyDag id fun dag => { dag with handle := some shared.fulls.length } with
    fulls := shared.fulls ++ [full]
    directory := Function.update shared.directory (shared.dags id).epoch (some full.data) }

theorem store_dags (id : Nat) (full : Full) (shared : EthashFull) (other : Nat) :
    (shared.store id full).dags other =
      if other = id then { shared.dags id with handle := some shared.fulls.length }
      else shared.dags other :=
  Function.update_apply _ _ _ _

/-- A step of a task. A task without the semaphore may have to wait; a task that fails ends with
an exception, as does the call that awaits it. -/
def advance (shared : EthashFull) (task : GenerateTask) : EthashFull × Option GenerateTask :=
  match task.stage with
  | .check =>
      if (shared.dags task.dag).handle.isSome then (shared.finish task, none)
      else (shared, some { task with stage := .waiting })
  | .waiting =>
      if shared.semTaken then (shared, some task)
      else ({ shared with semTaken := true }, some { task with stage := .recheck })
  | .recheck =>
      if (shared.dags task.dag).handle.isSome then
        (shared, some { task with stage := .releasing true })
      else (shared, some { task with stage := .generating })
  | .generating =>
      let epoch := (shared.dags task.dag).epoch
      match generate sha3_256 sha3_512 sizes (shared.directory epoch) epoch with
      | .ok (some full) => (shared.store task.dag full, some { task with stage := .releasing true })
      | _ => (shared, some { task with stage := .releasing false })
  | .releasing succeeded =>
      let shared := { shared with semTaken := false }
      (if succeeded then shared.finish task else shared, none)

def behaviour : Interleaving.Behaviour EthashFull GenerateTask DagRequest where
  start := start
  advance := advance sha3_256 sha3_512 sizes

def run (numCaches : Nat) (directory : UInt64 → Option (List Node))
    (events : List (Interleaving.Event DagRequest)) :
    Interleaving.System EthashFull GenerateTask :=
  Run.final (Interleaving.step (behaviour sha3_256 sha3_512 sizes)) ⟨new numCaches directory, []⟩
    events

end Steps

/-! ## The cache -/

def cached (shared : EthashFull) : List Nat := shared.caches.map Prod.snd

def capacity (shared : EthashFull) : Nat := if shared.numCaches = 0 then 3 else shared.numCaches

theorem capacity_pos (shared : EthashFull) : 0 < shared.capacity := by
  rw [capacity]
  split
  · decide
  · omega

def withCapacity (shared : EthashFull) : EthashFull :=
  { shared with numCaches := shared.capacity }

@[simp] theorem withCapacity_capacity (shared : EthashFull) :
    shared.withCapacity.capacity = shared.capacity :=
  if_neg (capacity_pos shared).ne'

theorem getDag_eq (block : UInt64) (now : Nat) (shared : EthashFull) :
    shared.getDag block now =
      ((shared.withCapacity.lookup (epochOf block)).1,
        (shared.withCapacity.lookup (epochOf block)).2.modifyDag
          (shared.withCapacity.lookup (epochOf block)).1
          fun dag => { dag with lastUsed := now }) := rfl

/-- Every cached object is the only one for its epoch. The one for the future is another. -/
structure Consistent (shared : EthashFull) : Prop where
  length : shared.caches.length ≤ shared.capacity
  keys : (shared.caches.map Prod.fst).Nodup
  ids : shared.cached.Nodup
  created : ∀ pair ∈ shared.caches, pair.2 < shared.created
  epochs : ∀ pair ∈ shared.caches, (shared.dags pair.2).epoch = pair.1
  future : ∀ id ∈ shared.future, id < shared.created ∧ id ∉ shared.cached

def Refers (shared : EthashFull) (id : Nat) : Prop := id ∈ shared.cached ∨ shared.future = some id

/-- What others rely on when the state changes: objects keep their epoch, those that were given up
do not come back, and the others keep their dataset. -/
structure Keeps (before after : EthashFull) : Prop where
  created : before.created ≤ after.created
  epochs : ∀ id < before.created, (after.dags id).epoch = (before.dags id).epoch
  future : ∀ id ∈ after.future, before.future = some id ∨ before.created ≤ id
  refers : ∀ id, after.Refers id → before.Refers id ∨ before.created ≤ id
  handles : ∀ id < before.created, (before.dags id).handle.isSome → after.Refers id →
    (after.dags id).handle.isSome

theorem Keeps.refl (shared : EthashFull) : Keeps shared shared where
  created := le_refl _
  epochs _ _ := rfl
  future _ isFuture := .inl isFuture
  refers _ refers := .inl refers
  handles _ _ generated _ := generated

theorem Keeps.trans {before between after : EthashFull} (first : Keeps before between)
    (second : Keeps between after) : Keeps before after where
  created := first.created.trans second.created
  epochs id isOld := by
    rw [second.epochs id (isOld.trans_le first.created), first.epochs id isOld]
  future id isFuture := by
    rcases second.future id isFuture with old | new
    · exact first.future id old
    · exact .inr (first.created.trans new)
  refers id refers := by
    rcases second.refers id refers with old | new
    · exact first.refers id old
    · exact .inr (first.created.trans new)
  handles id isOld generated refers := by
    have isBetween := isOld.trans_le first.created
    rcases second.refers id refers with old | new
    · exact second.handles id isBetween (first.handles id isOld generated old) refers
    · omega

theorem mem_cached {shared : EthashFull} {pair : UInt64 × Nat} (member : pair ∈ shared.caches) :
    pair.2 ∈ shared.cached := List.mem_map_of_mem member

theorem dispose_dags (id : Nat) (shared : EthashFull) (other : Nat) :
    ((shared.dispose id).dags other).epoch = (shared.dags other).epoch ∧
      ((shared.dispose id).dags other).lastUsed = (shared.dags other).lastUsed ∧
      (other ≠ id → (shared.dispose id).dags other = shared.dags other) := by
  rw [dispose]
  split
  · by_cases same : other = id
    · rw [same]
      simp [modifyDag]
    · simp [modifyDag, Function.update_of_ne same]
  · exact ⟨rfl, rfl, fun _ => rfl⟩

theorem dispose_created (id : Nat) (shared : EthashFull) :
    (shared.dispose id).created = shared.created := by
  rw [dispose]
  split <;> rfl

theorem dispose_future (id : Nat) (shared : EthashFull) :
    (shared.dispose id).future = shared.future := by
  rw [dispose]
  split <;> rfl

theorem eraseP_key {pairs : List (UInt64 × Nat)} (keys : (pairs.map Prod.fst).Nodup)
    {pair : UInt64 × Nat} (member : pair ∈ pairs) :
    (pairs.eraseP fun other => other.1 == pair.1) = pairs.erase pair := by
  induction pairs with
  | nil => cases member
  | cons head pairs induction =>
      rcases List.nodup_cons.mp keys with ⟨apart, restKeys⟩
      by_cases isHead : head = pair
      · rw [isHead, List.erase_cons_head]
        exact List.eraseP_cons_of_pos (beq_self_eq_true pair.1)
      · have rest : pair ∈ pairs := (List.mem_cons.mp member).resolve_left (Ne.symm isHead)
        have otherKey : ¬(head.1 == pair.1) = true := by
          rw [beq_iff_eq]
          intro same
          rw [same] at apart
          exact apart (List.mem_map_of_mem rest)
        have other : ¬(head == pair) = true := by
          rw [beq_iff_eq]
          exact isHead
        rw [List.erase_cons_tail other, ← induction restKeys rest]
        exact List.eraseP_cons_of_neg otherKey

theorem evictOldest_caches {shared : EthashFull} (keys : (shared.caches.map Prod.fst).Nodup)
    {pair : UInt64 × Nat} (found : shared.toEvict = some pair) :
    (shared.evictOldest pair).caches = shared.caches.erase pair :=
  eraseP_key keys (List.argmin_mem found)

theorem evictOldest_cached {shared : EthashFull} (consistent : Consistent shared)
    {pair : UInt64 × Nat} (found : shared.toEvict = some pair) {id : Nat} :
    id ∈ (shared.evictOldest pair).cached ↔ id ≠ pair.2 ∧ id ∈ shared.cached := by
  have member : pair ∈ shared.caches := List.argmin_mem found
  have nodup : shared.caches.Nodup := List.Nodup.of_map _ consistent.keys
  rw [cached, evictOldest_caches consistent.keys found]
  constructor
  · intro isCached
    rcases List.mem_map.mp isCached with ⟨other, rest, same⟩
    rcases nodup.mem_erase_iff.mp rest with ⟨different, otherMember⟩
    rw [← same]
    refine ⟨fun equal => different ?_, mem_cached otherMember⟩
    exact List.inj_on_of_nodup_map consistent.ids otherMember member equal
  · intro others
    rcases List.mem_map.mp others.2 with ⟨other, otherMember, same⟩
    refine List.mem_map.mpr ⟨other, nodup.mem_erase_iff.mpr ⟨?_, otherMember⟩, same⟩
    intro equal
    rw [equal] at same
    exact others.1 same.symm

theorem evictOldest_consistent {shared : EthashFull} (consistent : Consistent shared)
    {pair : UInt64 × Nat} (found : shared.toEvict = some pair) :
    Consistent (shared.evictOldest pair) := by
  have sublist : (shared.evictOldest pair).caches.Sublist shared.caches := by
    rw [evictOldest_caches consistent.keys found]
    exact List.erase_sublist
  constructor
  · have same : (shared.evictOldest pair).capacity = shared.capacity := by
      rw [capacity, capacity, evictOldest, dispose_numCaches]
    rw [same]
    exact sublist.length_le.trans consistent.length
  · exact consistent.keys.sublist (sublist.map _)
  · exact consistent.ids.sublist (sublist.map _)
  · intro other member
    rw [evictOldest, dispose_created]
    exact consistent.created other (sublist.subset member)
  · intro other member
    rw [evictOldest, (dispose_dags _ _ _).1]
    exact consistent.epochs other (sublist.subset member)
  · intro id isFuture
    rw [evictOldest, dispose_future] at isFuture
    rcases consistent.future id isFuture with ⟨isCreated, notCached⟩
    rw [evictOldest_cached consistent found, evictOldest, dispose_created]
    exact ⟨isCreated, fun inside => notCached inside.2⟩

theorem evictOldest_keeps {shared : EthashFull} (consistent : Consistent shared)
    {pair : UInt64 × Nat} (found : shared.toEvict = some pair) :
    Keeps shared (shared.evictOldest pair) := by
  have refers : ∀ id, (shared.evictOldest pair).Refers id → id ≠ pair.2 ∧ shared.Refers id := by
    intro id isReferred
    rcases isReferred with isCached | isFuture
    · rw [evictOldest_cached consistent found] at isCached
      exact ⟨isCached.1, .inl isCached.2⟩
    · rw [evictOldest, dispose_future] at isFuture
      refine ⟨?_, .inr isFuture⟩
      intro same
      rw [same] at isFuture
      exact (consistent.future _ isFuture).2 (mem_cached (List.argmin_mem found))
  constructor
  · rw [evictOldest, dispose_created]
  · intro id _
    exact (dispose_dags _ _ _).1
  · intro id isFuture
    rw [evictOldest, dispose_future] at isFuture
    exact .inl isFuture
  · intro id isReferred
    exact .inl (refers id isReferred).2
  · intro id _ generated isReferred
    rw [evictOldest, (dispose_dags _ _ _).2.2 (refers id isReferred).1]
    exact generated

theorem evict_cases {shared : EthashFull} (positive : 0 < shared.numCaches)
    (length : shared.caches.length ≤ shared.numCaches) :
    (shared.caches.length < shared.numCaches ∧ shared.evict = shared) ∨
    ∃ pair, shared.caches.length = shared.numCaches ∧ shared.toEvict = some pair ∧
      shared.evict = shared.evictOldest pair := by
  by_cases full : shared.numCaches ≤ shared.caches.length
  · right
    cases found : shared.toEvict with
    | none =>
        rw [toEvict, List.argmin_eq_none] at found
        rw [found] at full
        exact absurd positive (not_lt.mpr full)
    | some pair =>
        have room := evictOldest_length found
        have same : (shared.evictOldest pair).numCaches = shared.numCaches := by
          rw [evictOldest, dispose_numCaches]
        refine ⟨pair, le_antisymm length full, rfl, ?_⟩
        rw [evict, if_pos full]
        split
        · rename_i absent
          rw [found] at absent
          cases absent
        · rename_i evicted isFound
          rw [found, Option.some.injEq] at isFound
          rw [← isFound, evict, if_neg (by omega)]
  · rw [evict, if_neg full]
    exact .inl ⟨not_le.mp full, rfl⟩

theorem takeDag_cases (epoch : UInt64) (shared : EthashFull) :
    (∃ id, shared.future = some id ∧ (shared.dags id).epoch = epoch ∧
      shared.takeDag epoch = (id, { shared with future := none })) ∨
    shared.takeDag epoch = (shared.created, shared.newDag epoch) := by
  rw [takeDag]
  split
  · rename_i id isFuture
    split
    · rename_i isEpoch
      exact .inl ⟨id, isFuture, isEpoch, rfl⟩
    · exact .inr rfl
  · exact .inr rfl

theorem newDag_old {epoch : UInt64} {shared : EthashFull} {id : Nat} (isOld : id < shared.created) :
    (shared.newDag epoch).dags id = shared.dags id :=
  Function.update_of_ne isOld.ne _ _

theorem newDag_new (epoch : UInt64) (shared : EthashFull) :
    (shared.newDag epoch).dags shared.created = ⟨epoch, 0, none⟩ :=
  Function.update_self _ _ _

/-- What `takeDag` does: it gives an object that no cached epoch has. -/
structure Takes (epoch : UInt64) (before : EthashFull) (outcome : Nat × EthashFull) : Prop where
  numCaches : outcome.2.numCaches = before.numCaches
  caches : outcome.2.caches = before.caches
  created : before.created ≤ outcome.2.created
  old : ∀ id < before.created, outcome.2.dags id = before.dags id
  future : ∀ id ∈ outcome.2.future, before.future = some id ∧ id ≠ outcome.1
  isCreated : outcome.1 < outcome.2.created
  isEpoch : (outcome.2.dags outcome.1).epoch = epoch
  notCached : outcome.1 ∉ before.cached
  source : before.future = some outcome.1 ∨ before.created ≤ outcome.1

theorem Consistent.cached_created {shared : EthashFull} (consistent : Consistent shared) {id : Nat}
    (isCached : id ∈ shared.cached) : id < shared.created := by
  rcases List.mem_map.mp isCached with ⟨pair, member, same⟩
  rw [← same]
  exact consistent.created pair member

theorem takeDag_takes {shared : EthashFull} (consistent : Consistent shared) (epoch : UInt64) :
    Takes epoch shared (shared.takeDag epoch) := by
  rcases takeDag_cases epoch shared with ⟨id, isFuture, isEpoch, taken⟩ | taken
  · rcases consistent.future id isFuture with ⟨isCreated, notCached⟩
    rw [taken]
    exact {
      numCaches := rfl
      caches := rfl
      created := le_refl _
      old := fun _ _ => rfl
      future := fun _ isNone => absurd isNone (Option.not_mem_none _)
      isCreated
      isEpoch
      notCached
      source := .inl isFuture }
  · rw [taken]
    exact {
      numCaches := rfl
      caches := rfl
      created := Nat.le_succ _
      old := fun _ isOld => newDag_old isOld
      future := fun id isFuture => ⟨isFuture, (consistent.future id isFuture).1.ne⟩
      isCreated := Nat.lt_succ_self _
      isEpoch := by rw [newDag_new]
      notCached := fun isCached => (consistent.cached_created isCached).false
      source := .inr (le_refl _) }

/-- What `cacheDag` does where there is room for an epoch. -/
structure Caches (epoch : UInt64) (before : EthashFull) (outcome : Nat × EthashFull) : Prop where
  consistent : Consistent outcome.2
  keeps : Keeps before outcome.2
  caches : outcome.2.caches = before.caches ++ [(epoch, outcome.1)]
  others : ∀ id ∈ before.cached, outcome.2.dags id = before.dags id
  future : outcome.2.future ≠ some outcome.1

theorem Takes.consistent {shared taken : EthashFull} (consistent : Consistent shared)
    {epoch : UInt64} {result : Nat} (room : shared.caches.length < shared.capacity)
    (absent : epoch ∉ shared.caches.map Prod.fst) (takes : Takes epoch shared (result, taken)) :
    Consistent { taken with caches := shared.caches ++ [(epoch, result)] } := by
  constructor
  · have same : taken.capacity = shared.capacity := by
      rw [capacity, capacity, takes.numCaches]
    change (shared.caches ++ [(epoch, result)]).length ≤ taken.capacity
    rw [List.length_append, List.length_singleton, same]
    exact room
  · rw [List.map_append, List.map_singleton, ← List.concat_eq_append]
    exact consistent.keys.concat absent
  · rw [cached, List.map_append, List.map_singleton, ← List.concat_eq_append]
    exact consistent.ids.concat takes.notCached
  · intro pair member
    rcases List.mem_append.mp member with isOld | isNew
    · exact (consistent.created pair isOld).trans_le takes.created
    · rw [List.mem_singleton.mp isNew]
      exact takes.isCreated
  · intro pair member
    rcases List.mem_append.mp member with isOld | isNew
    · change (taken.dags pair.2).epoch = _
      rw [takes.old _ (consistent.created pair isOld)]
      exact consistent.epochs pair isOld
    · rw [List.mem_singleton.mp isNew]
      exact takes.isEpoch
  · intro id isFuture
    rcases takes.future id isFuture with ⟨wasFuture, other⟩
    rcases consistent.future id wasFuture with ⟨isCreated, apart⟩
    refine ⟨isCreated.trans_le takes.created, ?_⟩
    rw [cached, List.map_append, List.map_singleton]
    intro isCached
    rcases List.mem_append.mp isCached with isOld | isNew
    · exact apart isOld
    · exact other (List.mem_singleton.mp isNew)

theorem Takes.keeps {shared taken : EthashFull} {epoch : UInt64} {result : Nat}
    (takes : Takes epoch shared (result, taken)) :
    Keeps shared { taken with caches := shared.caches ++ [(epoch, result)] } where
  created := takes.created
  epochs id isOld := by
    change (taken.dags id).epoch = _
    rw [takes.old id isOld]
  future id isFuture := .inl (takes.future id isFuture).1
  refers id isReferred := by
    rcases isReferred with isCached | isFuture
    · rw [cached, List.map_append, List.map_singleton] at isCached
      rcases List.mem_append.mp isCached with isOld | isNew
      · exact .inl (.inl isOld)
      · rw [List.mem_singleton.mp isNew]
        rcases takes.source with wasFuture | isNew
        · exact .inl (.inr wasFuture)
        · exact .inr isNew
    · exact .inl (.inr (takes.future id isFuture).1)
  handles id isOld generated _ := by
    change (taken.dags id).handle.isSome = true
    rw [takes.old id isOld]
    exact generated

theorem cacheDag_caches {shared : EthashFull} (consistent : Consistent shared) {epoch : UInt64}
    (room : shared.caches.length < shared.capacity) (absent : epoch ∉ shared.caches.map Prod.fst) :
    Caches epoch shared (shared.cacheDag epoch) := by
  have takes := takeDag_takes consistent epoch
  have outcome : shared.cacheDag epoch = ((shared.takeDag epoch).1,
      { (shared.takeDag epoch).2 with
        caches := shared.caches ++ [(epoch, (shared.takeDag epoch).1)] }) := by
    rw [← takes.caches]
    rfl
  rw [outcome]
  exact {
    consistent := Takes.consistent consistent room absent takes
    keeps := takes.keeps
    caches := rfl
    others := fun id isCached => takes.old id (consistent.cached_created isCached)
    future := fun isFuture => (takes.future _ isFuture).2 rfl }

theorem regenerateFuture_consistent {shared : EthashFull} (consistent : Consistent shared)
    (epoch : UInt64) : Consistent (shared.regenerateFuture epoch) where
  length := consistent.length
  keys := consistent.keys
  ids := consistent.ids
  created pair member := (consistent.created pair member).trans (Nat.lt_succ_self _)
  epochs pair member := by
    change ((shared.newDag (epoch + 1)).dags pair.2).epoch = _
    rw [newDag_old (consistent.created pair member)]
    exact consistent.epochs pair member
  future id isFuture := by
    change some shared.created = some id at isFuture
    rw [Option.some.injEq] at isFuture
    rw [← isFuture]
    exact ⟨Nat.lt_succ_self _, fun isCached => (consistent.cached_created isCached).false⟩

theorem regenerateFuture_keeps (epoch : UInt64) (shared : EthashFull) :
    Keeps shared (shared.regenerateFuture epoch) where
  created := Nat.le_succ _
  epochs id isOld := by
    change ((shared.newDag (epoch + 1)).dags id).epoch = _
    rw [newDag_old isOld]
  future id isFuture := by
    change some shared.created = some id at isFuture
    rw [Option.some.injEq] at isFuture
    exact .inr isFuture.le
  refers id isReferred := by
    rcases isReferred with isCached | isFuture
    · exact .inl (.inl isCached)
    · change some shared.created = some id at isFuture
      rw [Option.some.injEq] at isFuture
      exact .inr isFuture.le
  handles id isOld generated _ := by
    change ((shared.newDag (epoch + 1)).dags id).handle.isSome = true
    rw [newDag_old isOld]
    exact generated

theorem lookup_eq_none {shared : EthashFull} {epoch : UInt64} :
    shared.caches.lookup epoch = none ↔ epoch ∉ shared.caches.map Prod.fst := by
  rw [List.lookup_eq_none_iff]
  constructor
  · intro none isKey
    rcases List.mem_map.mp isKey with ⟨pair, member, same⟩
    have different := none pair member
    rw [same, bne_self_eq_false] at different
    cases different
  · intro absent pair member
    rw [bne_iff_ne]
    intro same
    rw [same] at absent
    exact absent (List.mem_map_of_mem member)

def setLastUsed (id now : Nat) (shared : EthashFull) : EthashFull :=
  shared.modifyDag id fun dag => { dag with lastUsed := now }

theorem setLastUsed_dags (id now : Nat) (shared : EthashFull) (other : Nat) :
    ((shared.setLastUsed id now).dags other).epoch = (shared.dags other).epoch ∧
      ((shared.setLastUsed id now).dags other).handle = (shared.dags other).handle := by
  rw [setLastUsed, modifyDag_dags]
  split
  · rename_i same
    rw [same]
    exact ⟨rfl, rfl⟩
  · exact ⟨rfl, rfl⟩

theorem setLastUsed_consistent {shared : EthashFull} (consistent : Consistent shared)
    (id now : Nat) : Consistent (shared.setLastUsed id now) where
  length := consistent.length
  keys := consistent.keys
  ids := consistent.ids
  created := consistent.created
  epochs pair member := by
    rw [(setLastUsed_dags _ _ _ _).1]
    exact consistent.epochs pair member
  future := consistent.future

theorem setLastUsed_keeps (shared : EthashFull) (id now : Nat) :
    Keeps shared (shared.setLastUsed id now) where
  created := le_refl _
  epochs other _ := (setLastUsed_dags _ _ _ _).1
  future _ isFuture := .inl isFuture
  refers _ isReferred := .inl isReferred
  handles other _ generated _ := by
    rw [(setLastUsed_dags _ _ _ _).2]
    exact generated

/-! ## The cache as one that evicts what was used least recently -/

open LeastRecentlyUsed (Entry)

def entry (shared : EthashFull) (pair : UInt64 × Nat) : Entry UInt64 Nat Nat :=
  ⟨pair.1, pair.2, (shared.dags pair.2).lastUsed⟩

def entries (shared : EthashFull) : List (Entry UInt64 Nat Nat) := shared.caches.map shared.entry

theorem keys_entries (shared : EthashFull) :
    LeastRecentlyUsed.keys shared.entries = shared.caches.map Prod.fst := by
  rw [LeastRecentlyUsed.keys, entries, List.map_map]
  rfl

theorem entry_injective (shared : EthashFull) : Function.Injective shared.entry := by
  intro left right same
  rw [entry, entry, Entry.mk.injEq] at same
  exact Prod.ext same.1 same.2.1

theorem entries_congr {before after : EthashFull} (caches : after.caches = before.caches)
    (lastUsed : ∀ id ∈ before.cached, (after.dags id).lastUsed = (before.dags id).lastUsed) :
    after.entries = before.entries := by
  rw [entries, entries, caches]
  apply List.map_congr_left
  intro pair member
  rw [entry, entry, lastUsed pair.2 (mem_cached member)]

theorem regenerateFuture_entries {shared : EthashFull} (consistent : Consistent shared)
    (epoch : UInt64) : (shared.regenerateFuture epoch).entries = shared.entries := by
  have lastUsed : ∀ id ∈ shared.cached,
      ((shared.regenerateFuture epoch).dags id).lastUsed = (shared.dags id).lastUsed := by
    intro id isCached
    exact congrArg Dag.lastUsed (newDag_old (consistent.cached_created isCached))
  exact entries_congr rfl lastUsed

theorem evict_entries {shared : EthashFull} (consistent : Consistent shared)
    (positive : 0 < shared.numCaches) (length : shared.caches.length ≤ shared.numCaches) :
    shared.evict.entries = LeastRecentlyUsed.makeRoom shared.numCaches shared.entries := by
  have size : shared.entries.length = shared.caches.length := List.length_map _
  rcases evict_cases positive length with ⟨room, same⟩ | ⟨pair, full, found, evicted⟩
  · rw [same, LeastRecentlyUsed.makeRoom, if_neg (by omega)]
  · have oldest : LeastRecentlyUsed.oldest shared.entries = some (shared.entry pair) := by
      rw [entries, LeastRecentlyUsed.oldest_map]
      exact congrArg (Option.map shared.entry) found
    rw [evicted, LeastRecentlyUsed.makeRoom, if_pos (by omega), oldest]
    simp only [entries]
    rw [← List.map_erase shared.entry_injective, evictOldest_caches consistent.keys found]
    apply List.map_congr_left
    intro other _
    rw [entry, entry, evictOldest, (dispose_dags _ _ _).2.1]

/-- What `GetDagAsync` does under the lock. -/
structure Gets (block : UInt64) (now : Nat) (before : EthashFull) (outcome : Nat × EthashFull) :
    Prop where
  consistent : Consistent outcome.2
  keeps : Keeps before outcome.2
  capacity : outcome.2.capacity = before.capacity
  member : (epochOf block, outcome.1) ∈ outcome.2.caches
  future : outcome.2.future ≠ some outcome.1
  entries : outcome.2.entries =
    LeastRecentlyUsed.use before.capacity (epochOf block) outcome.1 now before.entries

theorem setLastUsed_entries {shared : EthashFull} (consistent : Consistent shared)
    {epoch : UInt64} {id : Nat} (member : (epoch, id) ∈ shared.caches) (now : Nat) :
    (shared.setLastUsed id now).entries = LeastRecentlyUsed.touch epoch now shared.entries := by
  rw [entries, entries, LeastRecentlyUsed.touch, List.map_map]
  apply List.map_congr_left
  intro pair isPair
  have sameId : pair.2 = id ↔ pair.1 = epoch := by
    constructor
    · intro same
      rw [List.inj_on_of_nodup_map consistent.ids isPair member same]
    · intro same
      rw [List.inj_on_of_nodup_map consistent.keys isPair member same]
  rw [Function.comp, entry, entry, setLastUsed, modifyDag_dags]
  by_cases isKey : pair.1 = epoch
  · rw [if_pos (sameId.mpr isKey), if_pos isKey]
  · rw [if_neg (fun same => isKey (sameId.mp same)), if_neg isKey]

theorem withCapacity_consistent {shared : EthashFull} (consistent : Consistent shared) :
    Consistent shared.withCapacity where
  length := by
    rw [withCapacity_capacity]
    exact consistent.length
  keys := consistent.keys
  ids := consistent.ids
  created := consistent.created
  epochs := consistent.epochs
  future := consistent.future

theorem withCapacity_keeps (shared : EthashFull) : Keeps shared shared.withCapacity where
  created := le_refl _
  epochs _ _ := rfl
  future _ isFuture := .inl isFuture
  refers _ isReferred := .inl isReferred
  handles _ _ generated _ := generated

theorem evict_consistent {shared : EthashFull} (consistent : Consistent shared)
    (positive : 0 < shared.numCaches) (length : shared.caches.length ≤ shared.numCaches) :
    Consistent shared.evict ∧ Keeps shared shared.evict ∧
      shared.evict.numCaches = shared.numCaches ∧
      shared.evict.caches.length < shared.numCaches ∧
      shared.evict.caches.Sublist shared.caches := by
  rcases evict_cases positive length with ⟨room, same⟩ | ⟨pair, full, found, evicted⟩
  · rw [same]
    exact ⟨consistent, Keeps.refl shared, rfl, room, List.Sublist.refl _⟩
  · have shorter := evictOldest_length found
    rw [evicted]
    refine ⟨evictOldest_consistent consistent found, evictOldest_keeps consistent found, ?_,
      by omega, ?_⟩
    · rw [evictOldest, dispose_numCaches]
    · rw [evictOldest_caches consistent.keys found]
      exact List.erase_sublist

theorem lookup_misses {shared : EthashFull} (consistent : Consistent shared)
    (positive : 0 < shared.numCaches) (length : shared.caches.length ≤ shared.numCaches)
    {epoch : UInt64} (absent : epoch ∉ shared.caches.map Prod.fst) (now : Nat) :
    let outcome := shared.evict.cacheDag epoch
    Consistent outcome.2 ∧ Keeps shared outcome.2 ∧ outcome.2.numCaches = shared.numCaches ∧
      (epoch, outcome.1) ∈ outcome.2.caches ∧ outcome.2.future ≠ some outcome.1 ∧
      (outcome.2.setLastUsed outcome.1 now).entries =
        LeastRecentlyUsed.use shared.numCaches epoch outcome.1 now shared.entries := by
  intro outcome
  rcases evict_consistent consistent positive length with
    ⟨evictConsistent, evictKeeps, sameCount, room, sublist⟩
  have absentThen : epoch ∉ shared.evict.caches.map Prod.fst := fun isKey =>
    absent ((sublist.map Prod.fst).subset isKey)
  have sameCapacity : shared.evict.capacity = shared.numCaches := by
    rw [capacity, if_neg (by omega), sameCount]
  have made : Caches epoch shared.evict outcome :=
    cacheDag_caches evictConsistent (by omega) absentThen
  have member : (epoch, outcome.1) ∈ outcome.2.caches := by
    rw [made.caches]
    exact List.mem_append_right _ (List.mem_singleton_self _)
  have count : outcome.2.numCaches = shared.numCaches := by
    rw [← sameCount]
    exact (takeDag_takes evictConsistent epoch).numCaches
  refine ⟨made.consistent, evictKeeps.trans made.keeps, count, member, made.future, ?_⟩
  have appended : outcome.2.entries =
      shared.evict.entries ++ [outcome.2.entry (epoch, outcome.1)] := by
    rw [entries, entries, made.caches, List.map_append, List.map_singleton]
    apply congrArg (· ++ _)
    apply List.map_congr_left
    intro pair isPair
    rw [entry, entry, made.others pair.2 (mem_cached isPair)]
  have absentKey : epoch ∉ LeastRecentlyUsed.keys shared.entries := by
    rw [keys_entries]
    exact absent
  have evictedKey : epoch ∉ LeastRecentlyUsed.keys shared.evict.entries := by
    rw [keys_entries]
    exact absentThen
  have isKey : (outcome.2.entry (epoch, outcome.1)).key = epoch := rfl
  rw [setLastUsed_entries made.consistent member, appended, LeastRecentlyUsed.touch,
    List.map_append, List.map_singleton, if_pos isKey, ← LeastRecentlyUsed.touch,
    LeastRecentlyUsed.touch_absent evictedKey, evict_entries consistent positive length,
    LeastRecentlyUsed.use, if_neg absentKey]
  rfl

theorem getDag_gets {shared : EthashFull} (consistent : Consistent shared) (block : UInt64)
    (now : Nat) : Gets block now shared (shared.getDag block now) := by
  have ready := withCapacity_consistent consistent
  have ready_keeps := withCapacity_keeps shared
  have entries_ready : shared.withCapacity.entries = shared.entries := rfl
  cases found : shared.withCapacity.caches.lookup (epochOf block) with
  | none =>
      have misses := lookup_misses ready (capacity_pos shared) consistent.length
        (lookup_eq_none.mp found) now
      have outcome : shared.withCapacity.lookup (epochOf block) =
          shared.withCapacity.evict.cacheDag (epochOf block) := by
        rw [lookup, found]
      rw [getDag_eq, outcome]
      rcases misses with ⟨isConsistent, keeps, count, member, future, used⟩
      exact {
        consistent := setLastUsed_consistent isConsistent _ now
        keeps := (ready_keeps.trans keeps).trans (setLastUsed_keeps _ _ now)
        capacity := by
          change EthashFull.capacity (shared.withCapacity.evict.cacheDag (epochOf block)).2 = _
          rw [capacity, count]
          exact if_neg (capacity_pos shared).ne'
        member := member
        future := future
        entries := used }
  | some result =>
      have outcome : shared.withCapacity.lookup (epochOf block) =
          (result, if shared.withCapacity.needsFuture (epochOf block) then
            shared.withCapacity.regenerateFuture (epochOf block) else shared.withCapacity) := by
        rw [lookup, found]
      have member : (epochOf block, result) ∈ shared.caches := by
        rcases List.lookup_eq_some_iff.mp found with ⟨front, back, split, _⟩
        change shared.caches = _ at split
        rw [split]
        exact List.mem_append_right _ List.mem_cons_self
      have isKey : epochOf block ∈ LeastRecentlyUsed.keys shared.entries := by
        rw [keys_entries]
        exact List.mem_map.mpr ⟨_, member, rfl⟩
      rw [getDag_eq, outcome]
      by_cases needs : shared.withCapacity.needsFuture (epochOf block) = true
      · have regenerated := regenerateFuture_consistent ready (epochOf block)
        rw [if_pos needs]
        exact {
          consistent := setLastUsed_consistent regenerated _ now
          keeps := (ready_keeps.trans (regenerateFuture_keeps _ _)).trans
            (setLastUsed_keeps _ _ now)
          capacity := withCapacity_capacity shared
          member := member
          future := fun isFuture => (regenerated.future _ isFuture).2 (mem_cached member)
          entries := by
            rw [LeastRecentlyUsed.use, if_pos isKey]
            apply (setLastUsed_entries regenerated member now).trans
            rw [regenerateFuture_entries ready, entries_ready] }
      · rw [if_neg needs]
        exact {
          consistent := setLastUsed_consistent ready _ now
          keeps := ready_keeps.trans (setLastUsed_keeps _ _ now)
          capacity := withCapacity_capacity shared
          member := member
          future := fun isFuture => (consistent.future _ isFuture).2 (mem_cached member)
          entries := by
            rw [LeastRecentlyUsed.use, if_pos isKey]
            exact setLastUsed_entries ready member now }

end EthashFull

end Miningcore.Ethash

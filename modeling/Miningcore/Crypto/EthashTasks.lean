import Miningcore.Crypto.EthashFull

/-! What callers of `GetDagAsync` can rely on, however calls and tasks are interleaved. -/

namespace Miningcore.Ethash.EthashFull

/-! ## Objects that callers have -/

structure Called (shared : EthashFull) (block : UInt64) (id : Nat) : Prop where
  created : id < shared.created
  epoch : (shared.dags id).epoch = epochOf block
  future : shared.future ≠ some id

def Ready (shared : EthashFull) (id : Nat) : Prop :=
  id ∈ shared.cached → (shared.dags id).handle.isSome

theorem Called.kept {before after : EthashFull} (keeps : Keeps before after) {block : UInt64}
    {id : Nat} (called : Called before block id) : Called after block id where
  created := called.created.trans_le keeps.created
  epoch := by
    rw [keeps.epochs id called.created]
    exact called.epoch
  future isFuture := by
    rcases keeps.future id isFuture with old | new
    · exact called.future old
    · exact absurd called.created (not_lt.mpr new)

theorem Ready.kept {before after : EthashFull} (keeps : Keeps before after) {block : UInt64}
    {id : Nat} (called : Called before block id) (ready : Ready before id) : Ready after id := by
  intro isCached
  rcases keeps.refers id (.inl isCached) with isReferred | new
  · rcases isReferred with wasCached | wasFuture
    · exact keeps.handles id called.created (ready wasCached) (.inl isCached)
    · exact absurd wasFuture called.future
  · exact absurd called.created (not_lt.mpr new)

/-! ## Datasets -/

section Steps

variable (sha3_256 : Bytes → FixedBytes 32) (sha3_512 : Bytes → FixedBytes 64) (sizes : DataSizes)

def Generated (epoch : UInt64) (full : Full) : Prop :=
  ∃ file, IsGenerated sha3_256 sha3_512 sizes file epoch ∧
    generate sha3_256 sha3_512 sizes file epoch = .ok (some full)

/-- Every handle is a dataset for the epoch of its object, of which no other object has the
handle. No dataset is deleted twice, or while an object has its handle. -/
structure Natives (dags : Nat → Dag) (fulls : List Full) (deleted : List Nat) : Prop where
  datasets : ∀ id native, (dags id).handle = some native →
    ∃ full, fulls[native]? = some full ∧ Generated sha3_256 sha3_512 sizes (dags id).epoch full
  exclusive : ∀ id other native, (dags id).handle = some native →
    (dags other).handle = some native → id = other
  apart : ∀ id native, (dags id).handle = some native → native ∉ deleted
  inside : ∀ native ∈ deleted, native < fulls.length
  nodup : deleted.Nodup

variable {sha3_256 sha3_512 sizes} {dags : Nat → Dag} {fulls : List Full} {deleted : List Nat}

theorem Natives.bound (natives : Natives sha3_256 sha3_512 sizes dags fulls deleted)
    {id native : Nat} (has : (dags id).handle = some native) : native < fulls.length := by
  rcases natives.datasets id native has with ⟨full, found, _⟩
  exact (List.getElem?_eq_some_iff.mp found).1

theorem Natives.lose (natives : Natives sha3_256 sha3_512 sizes dags fulls deleted)
    {after : Nat → Dag} (same : ∀ id native, (after id).handle = some native →
      (dags id).handle = some native ∧ (after id).epoch = (dags id).epoch) :
    Natives sha3_256 sha3_512 sizes after fulls deleted where
  datasets id native has := by
    rw [(same id native has).2]
    exact natives.datasets id native (same id native has).1
  exclusive id other native has otherHas :=
    natives.exclusive id other native (same id native has).1 (same other native otherHas).1
  apart id native has := natives.apart id native (same id native has).1
  inside := natives.inside
  nodup := natives.nodup

theorem Natives.newDag (natives : Natives sha3_256 sha3_512 sizes dags fulls deleted) (id : Nat)
    (epoch : UInt64) :
    Natives sha3_256 sha3_512 sizes (Function.update dags id ⟨epoch, 0, none⟩) fulls deleted := by
  apply natives.lose
  intro other native has
  rw [Function.update_apply] at has ⊢
  split at has
  · cases has
  · rename_i different
    rw [if_neg different]
    exact ⟨has, rfl⟩

theorem Natives.dispose {shared : EthashFull}
    (natives : Natives sha3_256 sha3_512 sizes shared.dags shared.fulls shared.deleted)
    (id : Nat) : Natives sha3_256 sha3_512 sizes (shared.dispose id).dags (shared.dispose id).fulls
      (shared.dispose id).deleted := by
  rw [EthashFull.dispose]
  split
  · rename_i native has
    have others : ∀ other live,
        ((shared.modifyDag id fun dag => { dag with handle := none }).dags other).handle =
          some live → other ≠ id ∧ (shared.dags other).handle = some live ∧
          ((shared.modifyDag id fun dag => { dag with handle := none }).dags other).epoch =
            (shared.dags other).epoch := by
      intro other live isLive
      rw [modifyDag_dags] at isLive ⊢
      split at isLive
      · cases isLive
      · rename_i different
        rw [if_neg different]
        exact ⟨different, isLive, rfl⟩
    have lost := natives.lose fun other live isLive => (others other live isLive).2
    exact {
      datasets := lost.datasets
      exclusive := lost.exclusive
      apart := by
        intro other live isLive isDeleted
        rcases others other live isLive with ⟨different, wasLive, _⟩
        rcases List.mem_cons.mp isDeleted with isNative | old
        · rw [isNative] at wasLive
          exact different (natives.exclusive other id native wasLive has)
        · exact natives.apart other live wasLive old
      inside := by
        intro dead isDeleted
        rcases List.mem_cons.mp isDeleted with isNative | old
        · rw [isNative]
          exact natives.bound has
        · exact natives.inside dead old
      nodup := List.nodup_cons.mpr ⟨natives.apart id native has, natives.nodup⟩ }
  · exact natives

theorem Natives.setLastUsed {shared : EthashFull}
    (natives : Natives sha3_256 sha3_512 sizes shared.dags shared.fulls shared.deleted)
    (id now : Nat) : Natives sha3_256 sha3_512 sizes (shared.setLastUsed id now).dags shared.fulls
      shared.deleted := by
  apply natives.lose
  intro other native has
  rcases setLastUsed_dags id now shared other with ⟨epoch, handle⟩
  rw [handle] at has
  exact ⟨has, epoch⟩

theorem Natives.store {shared : EthashFull}
    (natives : Natives sha3_256 sha3_512 sizes shared.dags shared.fulls shared.deleted) {id : Nat}
    {full : Full} (generated : Generated sha3_256 sha3_512 sizes (shared.dags id).epoch full) :
    Natives sha3_256 sha3_512 sizes (shared.store id full).dags (shared.store id full).fulls
      (shared.store id full).deleted := by
  have dags : ∀ other native, ((shared.store id full).dags other).handle = some native →
      ((shared.store id full).dags other).epoch = (shared.dags other).epoch ∧
      (other = id ∧ native = shared.fulls.length ∨
        (shared.dags other).handle = some native) := by
    intro other native has
    rw [store_dags] at has ⊢
    split at has
    · rename_i same
      rw [if_pos same, same]
      exact ⟨rfl, .inl ⟨rfl, (Option.some.inj has).symm⟩⟩
    · rename_i different
      rw [if_neg different]
      exact ⟨rfl, .inr has⟩
  constructor
  · intro other native has
    change ∃ found, (shared.fulls ++ [full])[native]? = some found ∧ _
    rcases dags other native has with ⟨epoch, new | old⟩
    · rw [epoch, new.1, new.2, List.getElem?_concat_length]
      exact ⟨full, rfl, generated⟩
    · rcases natives.datasets other native old with ⟨found, isFound, isGenerated⟩
      rw [epoch, List.getElem?_append_left (natives.bound old)]
      exact ⟨found, isFound, isGenerated⟩
  · intro left right native leftHas rightHas
    rcases (dags left native leftHas).2 with leftNew | leftOld
    · rcases (dags right native rightHas).2 with rightNew | rightOld
      · rw [leftNew.1, rightNew.1]
      · have bound := natives.bound rightOld
        omega
    · rcases (dags right native rightHas).2 with rightNew | rightOld
      · have bound := natives.bound leftOld
        omega
      · exact natives.exclusive left right native leftOld rightOld
  · intro other native has isDeleted
    rcases (dags other native has).2 with new | old
    · have bound := natives.inside native isDeleted
      omega
    · exact natives.apart other native old isDeleted
  · intro native isDeleted
    change native < (shared.fulls ++ [full]).length
    rw [List.length_append, List.length_singleton]
    exact (natives.inside native isDeleted).trans (Nat.lt_succ_self _)
  · exact natives.nodup

/-! ## The invariant -/

/-- What holds of `EthashFull` in every run. -/
structure Sound (sha3_256 : Bytes → FixedBytes 32) (sha3_512 : Bytes → FixedBytes 64)
    (sizes : DataSizes) (shared : EthashFull) : Prop where
  consistent : Consistent shared
  natives : Natives sha3_256 sha3_512 sizes shared.dags shared.fulls shared.deleted
  directory : ∀ epoch, IsGenerated sha3_256 sha3_512 sizes (shared.directory epoch) epoch
  returned : ∀ call ∈ shared.returned, Called shared call.1 call.2 ∧ Ready shared call.2

/-- What a task relies on: the object of the call that awaits it, with its dataset once the task
has succeeded. -/
def TaskValid (shared : EthashFull) (task : GenerateTask) : Prop :=
  ∀ block ∈ task.call, Called shared block task.dag ∧
    (task.stage = .releasing true → Ready shared task.dag)

theorem TaskValid.kept {before after : EthashFull} (keeps : Keeps before after)
    {task : GenerateTask} (valid : TaskValid before task) : TaskValid after task := by
  intro block awaited
  rcases valid block awaited with ⟨called, ready⟩
  exact ⟨called.kept keeps, fun released => (ready released).kept keeps called⟩

theorem returned_kept {before after : EthashFull} (keeps : Keeps before after)
    (returned : ∀ call ∈ before.returned, Called before call.1 call.2 ∧ Ready before call.2) :
    ∀ call ∈ before.returned, Called after call.1 call.2 ∧ Ready after call.2 := by
  intro call member
  rcases returned call member with ⟨called, ready⟩
  exact ⟨called.kept keeps, ready.kept keeps called⟩

theorem sound_new {numCaches : Nat} {directory : UInt64 → Option (List Node)}
    (generated : ∀ epoch, IsGenerated sha3_256 sha3_512 sizes (directory epoch) epoch) :
    Sound sha3_256 sha3_512 sizes (new numCaches directory) where
  consistent := {
    length := Nat.zero_le _
    keys := List.nodup_nil
    ids := List.nodup_nil
    created := fun _ member => absurd member List.not_mem_nil
    epochs := fun _ member => absurd member List.not_mem_nil
    future := fun _ isNone => absurd isNone (Option.not_mem_none _) }
  natives := {
    datasets := fun _ _ has => absurd has.symm (Option.some_ne_none _)
    exclusive := fun _ _ _ has => absurd has.symm (Option.some_ne_none _)
    apart := fun _ _ has => absurd has.symm (Option.some_ne_none _)
    inside := fun _ member => absurd member List.not_mem_nil
    nodup := List.nodup_nil }
  directory := generated
  returned := fun _ member => absurd member List.not_mem_nil

theorem takeDag_natives {shared : EthashFull} (epoch : UInt64)
    (natives : Natives sha3_256 sha3_512 sizes shared.dags shared.fulls shared.deleted) :
    Natives sha3_256 sha3_512 sizes (shared.takeDag epoch).2.dags (shared.takeDag epoch).2.fulls
      (shared.takeDag epoch).2.deleted := by
  rcases takeDag_cases epoch shared with ⟨id, _, _, taken⟩ | taken
  · rw [taken]
    exact natives
  · rw [taken]
    exact natives.newDag shared.created epoch

theorem evict_natives {shared : EthashFull} (positive : 0 < shared.numCaches)
    (length : shared.caches.length ≤ shared.numCaches)
    (natives : Natives sha3_256 sha3_512 sizes shared.dags shared.fulls shared.deleted) :
    Natives sha3_256 sha3_512 sizes shared.evict.dags shared.evict.fulls shared.evict.deleted := by
  rcases evict_cases positive length with ⟨_, same⟩ | ⟨pair, _, _, evicted⟩
  · rw [same]
    exact natives
  · rw [evicted]
    exact natives.dispose pair.2

theorem getDag_natives {shared : EthashFull} (consistent : Consistent shared) (block : UInt64)
    (now : Nat)
    (natives : Natives sha3_256 sha3_512 sizes shared.dags shared.fulls shared.deleted) :
    Natives sha3_256 sha3_512 sizes (shared.getDag block now).2.dags
      (shared.getDag block now).2.fulls (shared.getDag block now).2.deleted := by
  rw [getDag_eq]
  apply Natives.setLastUsed
  rw [lookup]
  split
  · have evicted : Natives sha3_256 sha3_512 sizes shared.withCapacity.evict.dags
        shared.withCapacity.evict.fulls shared.withCapacity.evict.deleted :=
      evict_natives (capacity_pos shared) consistent.length natives
    exact takeDag_natives (epochOf block) evicted
  · split
    · exact natives.newDag _ _
    · exact natives

structure Frames (before after : EthashFull) : Prop where
  semTaken : after.semTaken = before.semTaken
  directory : after.directory = before.directory
  returned : after.returned = before.returned

theorem dispose_frames (id : Nat) (shared : EthashFull) : Frames shared (shared.dispose id) := by
  rw [EthashFull.dispose]
  split
  · exact ⟨rfl, rfl, rfl⟩
  · exact ⟨rfl, rfl, rfl⟩

theorem evict_frames (shared : EthashFull) : Frames shared shared.evict := by
  induction shared using evict.induct with
  | case1 shared full absent =>
      rw [evict, if_pos full]
      split
      · exact ⟨rfl, rfl, rfl⟩
      · rename_i found
        exact absurd (found.symm.trans absent) (Option.some_ne_none _)
  | case2 shared full pair found induction =>
      rw [evict, if_pos full]
      split
      · rename_i absent
        exact absurd (found.symm.trans absent) (Option.some_ne_none _)
      · rename_i other isFound
        rw [found, Option.some.injEq] at isFound
        rw [← isFound]
        have disposed := dispose_frames pair.2 shared
        exact ⟨induction.semTaken.trans disposed.semTaken,
          induction.directory.trans disposed.directory,
          induction.returned.trans disposed.returned⟩
  | case3 shared room =>
      rw [evict, if_neg room]
      exact ⟨rfl, rfl, rfl⟩

theorem takeDag_frames (epoch : UInt64) (shared : EthashFull) :
    Frames shared (shared.takeDag epoch).2 := by
  rcases takeDag_cases epoch shared with ⟨id, _, _, taken⟩ | taken
  · rw [taken]
    exact ⟨rfl, rfl, rfl⟩
  · rw [taken]
    exact ⟨rfl, rfl, rfl⟩

theorem lookup_frames (epoch : UInt64) (shared : EthashFull) :
    Frames shared (shared.lookup epoch).2 := by
  rw [lookup]
  split
  · have evicts := evict_frames shared
    have takes := takeDag_frames epoch shared.evict
    exact ⟨takes.semTaken.trans evicts.semTaken, takes.directory.trans evicts.directory,
      takes.returned.trans evicts.returned⟩
  · split
    · exact ⟨rfl, rfl, rfl⟩
    · exact ⟨rfl, rfl, rfl⟩

theorem getDag_frames (block : UInt64) (now : Nat) (shared : EthashFull) :
    Frames shared (shared.getDag block now).2 := by
  have frames := lookup_frames (epochOf block) shared.withCapacity
  exact ⟨frames.semTaken, frames.directory, frames.returned⟩

/-! ## Steps keep it -/

theorem store_epoch (id : Nat) (full : Full) (shared : EthashFull) (other : Nat) :
    ((shared.store id full).dags other).epoch = (shared.dags other).epoch ∧
      ((shared.store id full).dags other).lastUsed = (shared.dags other).lastUsed := by
  rw [store_dags]
  split
  · rename_i same
    rw [same]
    exact ⟨rfl, rfl⟩
  · exact ⟨rfl, rfl⟩

theorem store_consistent {shared : EthashFull} (consistent : Consistent shared) (id : Nat)
    (full : Full) : Consistent (shared.store id full) where
  length := consistent.length
  keys := consistent.keys
  ids := consistent.ids
  created := consistent.created
  epochs pair member := by
    rw [(store_epoch _ _ _ _).1]
    exact consistent.epochs pair member
  future := consistent.future

theorem store_keeps (id : Nat) (full : Full) (shared : EthashFull) :
    Keeps shared (shared.store id full) where
  created := le_refl _
  epochs other _ := (store_epoch _ _ _ _).1
  future _ isFuture := .inl isFuture
  refers _ isReferred := .inl isReferred
  handles other _ generated _ := by
    rw [store_dags]
    split
    · rfl
    · exact generated

theorem generate_stored {file : List Node} {epoch : UInt64} {full : Full}
    (generates : generate sha3_256 sha3_512 sizes (some file) epoch = .ok (some full)) :
    full.data = file := by
  simp only [generate, bind, Except.bind] at generates
  split at generates
  · cases generates
  · simp only [fullNew, bind, Except.bind] at generates
    split at generates
    · cases generates
    · simp only [pure, Except.pure, Except.ok.injEq, Option.some.injEq] at generates
      rw [← generates]

theorem store_directory {shared : EthashFull} {id : Nat} {full : Full}
    (directory : ∀ epoch, IsGenerated sha3_256 sha3_512 sizes (shared.directory epoch) epoch)
    (generates : generate sha3_256 sha3_512 sizes
      (shared.directory (shared.dags id).epoch) (shared.dags id).epoch = .ok (some full)) :
    ∀ epoch, IsGenerated sha3_256 sha3_512 sizes ((shared.store id full).directory epoch)
      epoch := by
  intro epoch
  change IsGenerated sha3_256 sha3_512 sizes
    (Function.update shared.directory (shared.dags id).epoch (some full.data) epoch) epoch
  rw [Function.update_apply]
  split
  · rename_i same
    rw [same]
    intro data isData
    rw [Option.mem_some_iff] at isData
    rw [← isData]
    cases stored : shared.directory (shared.dags id).epoch with
    | none =>
        rw [stored] at generates
        exact ⟨full, generates, rfl⟩
    | some file =>
        rcases directory (shared.dags id).epoch file stored with ⟨first, made, sameData⟩
        refine ⟨first, made, ?_⟩
        rw [stored] at generates
        rw [sameData]
        exact (generate_stored generates).symm
  · exact directory epoch

theorem finish_sound {shared : EthashFull} (sound : Sound sha3_256 sha3_512 sizes shared)
    {task : GenerateTask} (valid : ∀ block ∈ task.call, Called shared block task.dag)
    (ready : ∀ block ∈ task.call, Ready shared task.dag) :
    Sound sha3_256 sha3_512 sizes (shared.finish task) ∧ Keeps shared (shared.finish task) := by
  rw [finish]
  split
  · rename_i block awaited
    constructor
    · exact {
        consistent := ⟨sound.consistent.length, sound.consistent.keys, sound.consistent.ids,
          sound.consistent.created, sound.consistent.epochs, sound.consistent.future⟩
        natives := sound.natives
        directory := sound.directory
        returned := by
          intro call member
          rcases List.mem_append.mp member with old | new
          · rcases sound.returned call old with ⟨called, isReady⟩
            exact ⟨⟨called.created, called.epoch, called.future⟩, isReady⟩
          · rw [List.mem_singleton.mp new]
            have called := valid block awaited
            exact ⟨⟨called.created, called.epoch, called.future⟩, ready block awaited⟩ }
    · exact {
        created := le_refl _
        epochs := fun _ _ => rfl
        future := fun _ isFuture => .inl isFuture
        refers := fun _ isReferred => .inl isReferred
        handles := fun _ _ generated _ => generated }
  · exact ⟨sound, Keeps.refl shared⟩

theorem withSemaphore_sound {shared : EthashFull}
    (sound : Sound sha3_256 sha3_512 sizes shared) (semTaken : Bool) (queued : List Nat) :
    Sound sha3_256 sha3_512 sizes { shared with semTaken, queued } ∧
      Keeps shared { shared with semTaken, queued } := by
  have keeps : Keeps shared { shared with semTaken, queued } := {
    created := le_refl _
    epochs := fun _ _ => rfl
    future := fun _ isFuture => .inl isFuture
    refers := fun _ isReferred => .inl isReferred
    handles := fun _ _ generated _ => generated }
  have returned := returned_kept keeps sound.returned
  refine ⟨?_, keeps⟩
  exact {
    consistent := ⟨sound.consistent.length, sound.consistent.keys, sound.consistent.ids,
      sound.consistent.created, sound.consistent.epochs, sound.consistent.future⟩
    natives := sound.natives
    directory := sound.directory
    returned := returned }

open Interleaving (Guarantees)

theorem getDag_sound {shared : EthashFull} (sound : Sound sha3_256 sha3_512 sizes shared)
    (block : UInt64) (now : Nat) :
    Sound sha3_256 sha3_512 sizes (shared.getDag block now).2 := by
  have gets := getDag_gets sound.consistent block now
  have frames := getDag_frames block now shared
  exact {
    consistent := gets.consistent
    natives := getDag_natives sound.consistent block now sound.natives
    directory := by
      rw [frames.directory]
      exact sound.directory
    returned := by
      rw [frames.returned]
      exact returned_kept gets.keeps sound.returned }

theorem getDag_called {shared : EthashFull} (consistent : Consistent shared) (block : UInt64)
    (now : Nat) : Called (shared.getDag block now).2 block (shared.getDag block now).1 := by
  have gets := getDag_gets consistent block now
  exact {
    created := gets.consistent.created _ gets.member
    epoch := gets.consistent.epochs _ gets.member
    future := gets.future }

theorem start_guarantees {shared : EthashFull} (sound : Sound sha3_256 sha3_512 sizes shared)
    (request : DagRequest) :
    Guarantees (Sound sha3_256 sha3_512 sizes) TaskValid Keeps shared
      (shared.start request) := by
  cases request with
  | getDag block now =>
      constructor
      · exact getDag_sound sound block now
      · exact (getDag_gets sound.consistent block now).keeps
      · intro task isTask
        change some _ = some task at isTask
        rw [Option.some.injEq] at isTask
        rw [← isTask]
        intro awaited isBlock
        change some block = some awaited at isBlock
        rw [Option.some.injEq] at isBlock
        rw [← isBlock]
        refine ⟨getDag_called sound.consistent block now, ?_⟩
        intro released
        cases released
  | startQueued id =>
      rw [start]
      split
      · rcases withSemaphore_sound sound shared.semTaken (shared.queued.erase id) with
          ⟨isSound, keeps⟩
        refine ⟨isSound, keeps, ?_⟩
        intro task isTask
        rw [Option.mem_some_iff] at isTask
        rw [← isTask]
        intro block none
        cases none
      · refine ⟨sound, Keeps.refl shared, ?_⟩
        intro task none
        cases none

theorem TaskValid.staged {shared : EthashFull} {task : GenerateTask}
    (valid : TaskValid shared task) (stage : Stage)
    (ready : stage = .releasing true → Ready shared task.dag) :
    ∀ next ∈ some { task with stage }, TaskValid shared next := by
  intro next isNext
  rw [Option.mem_some_iff] at isNext
  rw [← isNext]
  intro block awaited
  exact ⟨(valid block awaited).1, ready⟩

theorem advance_guarantees {shared : EthashFull} (sound : Sound sha3_256 sha3_512 sizes shared)
    {task : GenerateTask} (valid : TaskValid shared task) :
    Guarantees (Sound sha3_256 sha3_512 sizes) TaskValid Keeps shared
      (shared.advance sha3_256 sha3_512 sizes task) := by
  rw [advance]
  cases stage : task.stage with
  | check =>
      simp only
      split
      · rename_i generated
        rcases finish_sound sound (fun block awaited => (valid block awaited).1)
          (fun _ _ _ => generated) with ⟨isSound, keeps⟩
        refine ⟨isSound, keeps, ?_⟩
        intro next none
        cases none
      · refine ⟨sound, Keeps.refl shared, valid.staged .waiting ?_⟩
        intro released
        cases released
  | waiting =>
      simp only
      split
      · refine ⟨sound, Keeps.refl shared, ?_⟩
        intro next isNext
        rw [Option.mem_some_iff] at isNext
        rw [← isNext]
        exact valid
      · rcases withSemaphore_sound sound true shared.queued with ⟨isSound, keeps⟩
        refine ⟨isSound, keeps, (valid.kept keeps).staged .recheck ?_⟩
        intro released
        cases released
  | recheck =>
      simp only
      split
      · rename_i generated
        exact ⟨sound, Keeps.refl shared, valid.staged (.releasing true) fun _ _ => generated⟩
      · refine ⟨sound, Keeps.refl shared, valid.staged .generating ?_⟩
        intro released
        cases released
  | generating =>
      simp only
      split
      · rename_i full generates
        have generated : Generated sha3_256 sha3_512 sizes (shared.dags task.dag).epoch full :=
          ⟨_, sound.directory _, generates⟩
        have keeps := store_keeps task.dag full shared
        have returned := returned_kept keeps sound.returned
        have isSound : Sound sha3_256 sha3_512 sizes (shared.store task.dag full) := {
          consistent := store_consistent sound.consistent task.dag full
          natives := sound.natives.store generated
          directory := store_directory sound.directory generates
          returned := returned }
        refine ⟨isSound, keeps, (valid.kept keeps).staged (.releasing true) ?_⟩
        intro _ _
        rw [store_dags, if_pos rfl]
        rfl
      · refine ⟨sound, Keeps.refl shared, valid.staged (.releasing false) ?_⟩
        intro released
        cases released
  | releasing succeeded =>
      simp only
      rcases withSemaphore_sound sound false shared.queued with ⟨freeSound, freeKeeps⟩
      have free := valid.kept freeKeeps
      cases succeeded with
      | true =>
          rcases finish_sound freeSound (fun block awaited => (free block awaited).1)
            (fun block awaited => (free block awaited).2 stage) with ⟨isSound, keeps⟩
          refine ⟨isSound, freeKeeps.trans keeps, ?_⟩
          intro next none
          cases none
      | false =>
          refine ⟨freeSound, freeKeeps, ?_⟩
          intro next none
          cases none

theorem step_sound {system : Interleaving.System EthashFull GenerateTask}
    (holds : Sound sha3_256 sha3_512 sizes system.shared ∧
      ∀ task ∈ system.tasks, TaskValid system.shared task)
    (events : List (Interleaving.Event DagRequest)) :
    let reached := Run.final (Interleaving.step (behaviour sha3_256 sha3_512 sizes)) system events
    Sound sha3_256 sha3_512 sizes reached.shared ∧
      ∀ task ∈ reached.tasks, TaskValid reached.shared task :=
  Interleaving.run_guarantees (behaviour sha3_256 sha3_512 sizes) (Sound sha3_256 sha3_512 sizes)
    TaskValid Keeps (fun _ _ _ keeps valid => valid.kept keeps)
    (fun _ request sound => start_guarantees sound request)
    (fun _ _ sound valid => advance_guarantees sound valid) system holds events

/-! ## What stays cached -/

def callOf : Interleaving.Event DagRequest → Option (UInt64 × Nat)
  | .request (.getDag block now) => some (epochOf block, now)
  | _ => none

def calls (events : List (Interleaving.Event DagRequest)) : List (UInt64 × Nat) :=
  events.filterMap callOf

def otherEpochs (epoch : UInt64) (events : List (Interleaving.Event DagRequest)) : Finset UInt64 :=
  ((calls events).map Prod.fst).toFinset.erase epoch

def Clocked (events : List (Interleaving.Event DagRequest)) : Prop :=
  (calls events).Pairwise fun earlier later => earlier.2 < later.2

instance (events : List (Interleaving.Event DagRequest)) : Decidable (Clocked events) :=
  inferInstanceAs (Decidable (List.Pairwise _ _))

theorem advance_entries (shared : EthashFull) (task : GenerateTask) :
    (shared.advance sha3_256 sha3_512 sizes task).1.entries = shared.entries ∧
      (shared.advance sha3_256 sha3_512 sizes task).1.capacity = shared.capacity := by
  have finished : ∀ other : EthashFull, (other.finish task).entries = other.entries ∧
      (other.finish task).capacity = other.capacity := by
    intro other
    rw [finish]
    split
    · exact ⟨rfl, rfl⟩
    · exact ⟨rfl, rfl⟩
  rw [advance]
  cases task.stage with
  | check =>
      simp only
      split
      · exact finished shared
      · exact ⟨rfl, rfl⟩
  | waiting =>
      simp only
      split
      · exact ⟨rfl, rfl⟩
      · exact ⟨rfl, rfl⟩
  | recheck =>
      simp only
      split
      · exact ⟨rfl, rfl⟩
      · exact ⟨rfl, rfl⟩
  | generating =>
      simp only
      split
      · exact ⟨entries_congr rfl fun id _ => (store_epoch _ _ _ id).2, rfl⟩
      · exact ⟨rfl, rfl⟩
  | releasing succeeded =>
      cases succeeded with
      | true => exact finished { shared with semTaken := false }
      | false => exact ⟨rfl, rfl⟩

theorem step_entries {system : Interleaving.System EthashFull GenerateTask}
    (consistent : Consistent system.shared) (event : Interleaving.Event DagRequest) :
    let next := (Interleaving.step (behaviour sha3_256 sha3_512 sizes) system event).shared
    next.capacity = system.shared.capacity ∧
      match callOf event with
      | some (epoch, now) => ∃ id, next.entries =
          LeastRecentlyUsed.use system.shared.capacity epoch id now system.shared.entries
      | none => next.entries = system.shared.entries := by
  cases event with
  | request request =>
      cases request with
      | getDag block now =>
          have gets := getDag_gets consistent block now
          exact ⟨gets.capacity, _, gets.entries⟩
      | startQueued id =>
          change EthashFull.capacity (system.shared.start (.startQueued id)).1 = _ ∧
            EthashFull.entries (system.shared.start (.startQueued id)).1 = _
          rw [start]
          split
          · exact ⟨rfl, rfl⟩
          · exact ⟨rfl, rfl⟩
  | resume index =>
      intro next
      cases found : system.tasks[index]? with
      | none =>
          have same : next = system.shared := by
            simp only [next, Interleaving.step, found]
          rw [same]
          exact ⟨rfl, rfl⟩
      | some task =>
          have advanced : next = (system.shared.advance sha3_256 sha3_512 sizes task).1 := by
            simp only [next, Interleaving.step, found]
            rfl
          rw [advanced]
          rcases advance_entries system.shared task with ⟨entries, capacity⟩
          exact ⟨capacity, entries⟩

/-- The cache as one that evicts what was used least recently, with calls still to come. -/
structure InTime (shared : EthashFull) (later : List (Interleaving.Event DagRequest)) : Prop where
  within : LeastRecentlyUsed.Within shared.capacity shared.entries
  earlier : ∀ entry ∈ shared.entries, ∀ call ∈ calls later, entry.stamp < call.2
  clocked : Clocked later

theorem InTime.step {system : Interleaving.System EthashFull GenerateTask}
    (consistent : Consistent system.shared) {event : Interleaving.Event DagRequest}
    {later : List (Interleaving.Event DagRequest)}
    (inTime : InTime system.shared (event :: later)) :
    InTime (Interleaving.step (behaviour sha3_256 sha3_512 sizes) system event).shared later := by
  rcases @step_entries sha3_256 sha3_512 sizes system consistent event with ⟨capacity, entries⟩
  have clocked := inTime.clocked
  have earlier := inTime.earlier
  cases isCall : callOf event with
  | none =>
      rw [isCall] at entries
      rw [Clocked, calls, List.filterMap_cons_none isCall] at clocked
      rw [calls, List.filterMap_cons_none isCall] at earlier
      constructor
      · rw [capacity, entries]
        exact inTime.within
      · rw [entries]
        exact earlier
      · exact clocked
  | some call =>
      rcases call with ⟨epoch, now⟩
      simp only [isCall] at entries
      rcases entries with ⟨id, used⟩
      rw [Clocked, calls, List.filterMap_cons_some isCall, List.pairwise_cons] at clocked
      rw [calls, List.filterMap_cons_some isCall] at earlier
      have before : ∀ entry ∈ system.shared.entries, entry.stamp < now :=
        fun entry member => earlier entry member _ List.mem_cons_self
      constructor
      · rw [capacity, used]
        exact LeastRecentlyUsed.use_within (capacity_pos _) inTime.within before
      · intro entry member next isNext
        rw [used] at member
        exact (LeastRecentlyUsed.use_stamps before entry member).trans_lt
          (clocked.1 next isNext)
      · exact clocked.2

theorem run_capacity {system : Interleaving.System EthashFull GenerateTask}
    (holds : Sound sha3_256 sha3_512 sizes system.shared ∧
      ∀ task ∈ system.tasks, TaskValid system.shared task)
    (events : List (Interleaving.Event DagRequest)) :
    (Run.final (Interleaving.step (behaviour sha3_256 sha3_512 sizes)) system
      events).shared.capacity = system.shared.capacity := by
  induction events generalizing system with
  | nil => rfl
  | cons event events induction =>
      have next := step_sound holds [event]
      exact (induction next).trans (step_entries holds.1.consistent event).1

theorem InTime.run {system : Interleaving.System EthashFull GenerateTask}
    (holds : Sound sha3_256 sha3_512 sizes system.shared ∧
      ∀ task ∈ system.tasks, TaskValid system.shared task)
    {front later : List (Interleaving.Event DagRequest)}
    (inTime : InTime system.shared (front ++ later)) :
    InTime (Run.final (Interleaving.step (behaviour sha3_256 sha3_512 sizes)) system front).shared
      later := by
  induction front generalizing system with
  | nil => exact inTime
  | cons event front induction =>
      have next := step_sound holds [event]
      have stepped : InTime
          (Interleaving.step (behaviour sha3_256 sha3_512 sizes) system event).shared
          (front ++ later) := inTime.step holds.1.consistent
      exact induction next stepped

theorem stays_cached {system : Interleaving.System EthashFull GenerateTask}
    (holds : Sound sha3_256 sha3_512 sizes system.shared ∧
      ∀ task ∈ system.tasks, TaskValid system.shared task)
    {events : List (Interleaving.Event DagRequest)} (inTime : InTime system.shared events)
    {epoch : UInt64} {id : Nat} {others : Finset UInt64}
    (keeps : LeastRecentlyUsed.Keeps epoch id others system.shared.entries)
    (few : ((others ∪ ((calls events).map Prod.fst).toFinset).erase epoch).card <
      system.shared.capacity) :
    (epoch, id) ∈
      (Run.final (Interleaving.step (behaviour sha3_256 sha3_512 sizes)) system
        events).shared.caches := by
  induction events generalizing system others with
  | nil =>
      rcases keeps with ⟨entry, member, isKey, isValue, _⟩
      rcases List.mem_map.mp member with ⟨pair, isPair, same⟩
      rw [← same] at isKey isValue
      have isEntry : pair = (epoch, id) := Prod.ext isKey isValue
      rw [isEntry] at isPair
      exact isPair
  | cons event events induction =>
      have next := step_sound holds [event]
      have stepped : InTime
          (Interleaving.step (behaviour sha3_256 sha3_512 sizes) system event).shared events :=
        inTime.step holds.1.consistent
      rcases @step_entries sha3_256 sha3_512 sizes system holds.1.consistent event with
        ⟨capacity, entries⟩
      have earlier := inTime.earlier
      cases isCall : callOf event with
      | none =>
          rw [isCall] at entries
          rw [calls, List.filterMap_cons_none isCall] at few
          rw [← capacity] at few
          rw [← entries] at keeps
          exact induction next stepped keeps few
      | some call =>
          rcases call with ⟨usedEpoch, now⟩
          simp only [isCall] at entries
          rcases entries with ⟨created, used⟩
          rw [calls, List.filterMap_cons_some isCall] at few earlier
          rw [List.map_cons, List.toFinset_cons, Finset.union_insert, ← Finset.insert_union] at few
          have fewNow : ((insert usedEpoch others).erase epoch).card <
              system.shared.capacity := by
            apply lt_of_le_of_lt (Finset.card_le_card _) few
            exact Finset.erase_subset_erase _ Finset.subset_union_left
          have before : ∀ entry ∈ system.shared.entries, entry.stamp < now :=
            fun entry member => earlier entry member _ List.mem_cons_self
          have kept : LeastRecentlyUsed.Keeps epoch id (insert usedEpoch others)
              (LeastRecentlyUsed.use system.shared.capacity usedEpoch created now
                system.shared.entries) :=
            LeastRecentlyUsed.use_keeps inTime.within keeps before fewNow
          rw [← used] at kept
          rw [← capacity] at few
          exact induction next stepped kept few

theorem generate_inTable {file : Option (List Node)} {block : UInt64} {full : Full}
    (generates : generate sha3_256 sha3_512 sizes file (epochOf block) = .ok (some full)) :
    (epochOf block).toNat < 2048 := by
  by_contra outside
  have fails : getCachesize sizes (epochOf block * epochLength) = .error .outOfBounds := by
    rw [getCachesize, epochOf_start, if_neg outside]
  rw [generate, lightNew, fails] at generates
  cases generates

theorem Generated.computes {block : UInt64} {full : Full}
    (generated : Generated sha3_256 sha3_512 sizes (epochOf block) full) :
    ∃ light, lightNew sha3_256 sha3_512 sizes block = .ok light ∧
      ∀ headerHash nonce, ∃ value,
        fullCompute sha3_256 sha3_512 full headerHash nonce = .ok (some value) ∧
        lightCompute sha3_256 sha3_512 sizes light headerHash nonce = .ok (some value) := by
  rcases generated with ⟨file, isGenerated, generates⟩
  rcases generate_returns sha3_256 sha3_512 sizes (generate_inTable generates) isGenerated with
    ⟨made, light, makes, creates, same⟩
  rw [generates, Except.ok.injEq, Option.some.injEq] at makes
  rw [← makes] at same
  refine ⟨light, creates, ?_⟩
  intro headerHash nonce
  rcases same.computes sha3_256 sha3_512 sizes headerHash nonce with ⟨value, full, light, _⟩
  exact ⟨value, full, light⟩

theorem inTime_new {numCaches : Nat} {directory : UInt64 → Option (List Node)}
    {events : List (Interleaving.Event DagRequest)} (clocked : Clocked events) :
    InTime (new numCaches directory) events where
  within := LeastRecentlyUsed.within_nil _
  earlier _ member := absurd member List.not_mem_nil
  clocked := clocked

theorem getDag_own {shared : EthashFull} (consistent : Consistent shared) {block : UInt64}
    {now : Nat} (before : ∀ entry ∈ shared.entries, entry.stamp < now) :
    LeastRecentlyUsed.Keeps (epochOf block) (shared.getDag block now).1 ∅
      (shared.getDag block now).2.entries := by
  have gets := getDag_gets consistent block now
  have own := @LeastRecentlyUsed.use_keeps_own UInt64 Nat Nat _ _ _ shared.capacity
    (epochOf block) (shared.getDag block now).1 now shared.entries before
  rw [← gets.entries] at own
  rcases own with ⟨kept, keeps, _⟩
  rcases keeps with ⟨entry, member, isKey, isValue, after⟩
  rcases List.mem_map.mp member with ⟨pair, isPair, same⟩
  have isOwn : pair = (epochOf block, (shared.getDag block now).1) := by
    apply List.inj_on_of_nodup_map gets.consistent.keys isPair gets.member
    rw [← same] at isKey
    exact isKey
  refine ⟨entry, member, isKey, ?_, after⟩
  rw [← same, isOwn]
  rfl

theorem run_sound (numCaches : Nat) {directory : UInt64 → Option (List Node)}
    (generated : ∀ epoch, IsGenerated sha3_256 sha3_512 sizes (directory epoch) epoch)
    (events : List (Interleaving.Event DagRequest)) :
    Sound sha3_256 sha3_512 sizes
        (run sha3_256 sha3_512 sizes numCaches directory events).shared ∧
      ∀ task ∈ (run sha3_256 sha3_512 sizes numCaches directory events).tasks,
        TaskValid (run sha3_256 sha3_512 sizes numCaches directory events).shared task :=
  step_sound ⟨sound_new generated, fun _ member => absurd member List.not_mem_nil⟩ events

theorem run_stays_cached (numCaches : Nat) {directory : UInt64 → Option (List Node)}
    (generated : ∀ epoch, IsGenerated sha3_256 sha3_512 sizes (directory epoch) epoch)
    (front back : List (Interleaving.Event DagRequest)) (block : UInt64) (now : Nat)
    (clocked : Clocked (front ++ .request (.getDag block now) :: back))
    (few : (otherEpochs (epochOf block) back).card < (new numCaches directory).capacity) :
    (epochOf block, ((run sha3_256 sha3_512 sizes numCaches directory front).shared.getDag block
        now).1) ∈
      (run sha3_256 sha3_512 sizes numCaches directory
        (front ++ .request (.getDag block now) :: back)).shared.caches := by
  have start : Sound sha3_256 sha3_512 sizes (new numCaches directory) ∧
      ∀ task ∈ ([] : List GenerateTask), TaskValid (new numCaches directory) task :=
    ⟨sound_new generated, fun _ member => absurd member List.not_mem_nil⟩
  have holds := @run_sound sha3_256 sha3_512 sizes numCaches directory generated front
  have inTime : InTime (run sha3_256 sha3_512 sizes numCaches directory front).shared
      (.request (.getDag block now) :: back) :=
    @InTime.run sha3_256 sha3_512 sizes ⟨new numCaches directory, []⟩ start front _
      (inTime_new clocked)
  have room : (run sha3_256 sha3_512 sizes numCaches directory front).shared.capacity =
      (new numCaches directory).capacity :=
    @run_capacity sha3_256 sha3_512 sizes ⟨new numCaches directory, []⟩ start front
  have before : ∀ entry ∈ (run sha3_256 sha3_512 sizes numCaches directory front).shared.entries,
      entry.stamp < now :=
    fun entry member => inTime.earlier entry member (epochOf block, now) List.mem_cons_self
  have next := step_sound holds [.request (.getDag block now)]
  have stepped : InTime (Interleaving.step (behaviour sha3_256 sha3_512 sizes)
      (run sha3_256 sha3_512 sizes numCaches directory front)
      (.request (.getDag block now))).shared back := inTime.step holds.1.consistent
  have own := @getDag_own _ holds.1.consistent block now before
  have final : run sha3_256 sha3_512 sizes numCaches directory
      (front ++ .request (.getDag block now) :: back) =
      Run.final (Interleaving.step (behaviour sha3_256 sha3_512 sizes))
        (Interleaving.step (behaviour sha3_256 sha3_512 sizes)
          (run sha3_256 sha3_512 sizes numCaches directory front)
          (.request (.getDag block now))) back := Run.final_append _ _ _ _
  rw [final]
  apply stays_cached next stepped own
  have gets := getDag_gets holds.1.consistent block now
  rw [Finset.empty_union]
  change (otherEpochs (epochOf block) back).card < EthashFull.capacity
    ((run sha3_256 sha3_512 sizes numCaches directory front).shared.getDag block now).2
  rw [gets.capacity, room]
  exact few

/-- In every run, as long as calls ask for fewer other epochs than there is room for, the object of
a call is cached and, once a call that got it is over, computes what a light client for the block
does. -/
theorem getDag_serves (numCaches : Nat) {directory : UInt64 → Option (List Node)}
    (generated : ∀ epoch, IsGenerated sha3_256 sha3_512 sizes (directory epoch) epoch)
    (front back : List (Interleaving.Event DagRequest)) (block : UInt64) (now : Nat)
    (clocked : Clocked (front ++ .request (.getDag block now) :: back))
    (few : (otherEpochs (epochOf block) back).card < if numCaches = 0 then 3 else numCaches) :
    let id := ((run sha3_256 sha3_512 sizes numCaches directory front).shared.getDag block now).1
    let reached := (run sha3_256 sha3_512 sizes numCaches directory
      (front ++ .request (.getDag block now) :: back)).shared
    (epochOf block, id) ∈ reached.caches ∧
      ∀ caller, (caller, id) ∈ reached.returned → ∃ native full light,
        (reached.dags id).handle = some native ∧ reached.fulls[native]? = some full ∧
        native ∉ reached.deleted ∧ lightNew sha3_256 sha3_512 sizes block = .ok light ∧
        ∀ headerHash nonce, ∃ value,
          fullCompute sha3_256 sha3_512 full headerHash nonce = .ok (some value) ∧
          lightCompute sha3_256 sha3_512 sizes light headerHash nonce = .ok (some value) := by
  intro id reached
  have isCached : (epochOf block, id) ∈ reached.caches :=
    run_stays_cached numCaches generated front back block now clocked few
  have sound : Sound sha3_256 sha3_512 sizes reached := (run_sound numCaches generated _).1
  refine ⟨isCached, ?_⟩
  intro caller returned
  have inCache : id ∈ reached.cached := mem_cached isCached
  have isReady := (sound.returned (caller, id) returned).2 inCache
  rcases Option.isSome_iff_exists.mp isReady with ⟨native, has⟩
  rcases sound.natives.datasets id native has with ⟨full, found, isGenerated⟩
  rw [sound.consistent.epochs _ isCached] at isGenerated
  rcases isGenerated.computes with ⟨light, creates, computes⟩
  exact ⟨native, full, light, has, found, sound.natives.apart id native has, creates, computes⟩

end Steps

theorem SampleTables.generates (sha3_256 : Bytes → FixedBytes 32)
    (sha3_512 : Bytes → FixedBytes 64) : ∃ full,
    generate sha3_256 sha3_512 SampleTables.sizes none 0 = .ok (some full) := by
  have generated : IsGenerated sha3_256 sha3_512 SampleTables.sizes none (epochOf 5) := by
    intro data member
    cases member
  rcases generate_returns sha3_256 sha3_512 SampleTables.sizes (by decide) generated with
    ⟨full, _, generates, _, _⟩
  exact ⟨full, generates⟩

theorem evict_eq_self {shared : EthashFull} (room : shared.caches.length < shared.numCaches) :
    shared.evict = shared := by
  rw [evict, if_neg (not_le.mpr room)]

def SampleTables.firstCall : List (Interleaving.Event DagRequest) :=
  [.request (.getDag 5 1), .resume 0, .resume 0, .resume 0, .resume 0, .resume 0]

def SampleTables.laterCalls : List (Interleaving.Event DagRequest) :=
  [.resume 0, .request (.getDag 30000 3), .request (.getDag 60000 4)]

theorem SampleTables.calls_run (sha3_256 : Bytes → FixedBytes 32)
    (sha3_512 : Bytes → FixedBytes 64) (sizes : DataSizes) {full : Full}
    (generates : generate sha3_256 sha3_512 sizes none 0 = .ok (some full)) :
    let first := run sha3_256 sha3_512 sizes 3 (fun _ => none) firstCall
    let reached := run sha3_256 sha3_512 sizes 3 (fun _ => none)
      (firstCall ++ .request (.getDag 29999 2) :: laterCalls)
    (first.shared.getDag 29999 2).1 = 0 ∧ reached.shared.fulls.length = 1 ∧
      reached.shared.returned = [(5, 0), (29999, 0)] := by
  have epochs : epochOf 5 = 0 ∧ epochOf 29999 = 0 ∧ epochOf 30000 = 1 ∧ epochOf 60000 = 2 := by
    decide
  simp [firstCall, laterCalls, run, Run.final, Interleaving.step, behaviour, start, getDag, new,
    lookup, List.lookup_cons, evict_eq_self, cacheDag, takeDag, newDag, needsFuture, regenerateFuture,
    modifyDag, advance, epochs, generates, store, finish]

theorem getDag_serves_again :
    let sha3_256 : Bytes → FixedBytes 32 := fun _ => List.Vector.replicate 32 0
    let sha3_512 : Bytes → FixedBytes 64 := fun _ => List.Vector.replicate 64 0
    let id := ((run sha3_256 sha3_512 SampleTables.sizes 3 (fun _ => none)
      SampleTables.firstCall).shared.getDag 29999 2).1
    let reached := (run sha3_256 sha3_512 SampleTables.sizes 3 (fun _ => none)
      (SampleTables.firstCall ++ .request (.getDag 29999 2) :: SampleTables.laterCalls)).shared
    reached.returned = [(5, id), (29999, id)] ∧ (epochOf 29999, id) ∈ reached.caches ∧
      ∀ caller, (caller, id) ∈ reached.returned → ∃ native full light,
        (reached.dags id).handle = some native ∧ reached.fulls[native]? = some full ∧
        native ∉ reached.deleted ∧
        lightNew sha3_256 sha3_512 SampleTables.sizes 29999 = .ok light ∧
        ∀ headerHash nonce, ∃ value,
          fullCompute sha3_256 sha3_512 full headerHash nonce = .ok (some value) ∧
          lightCompute sha3_256 sha3_512 SampleTables.sizes light headerHash nonce =
            .ok (some value) := by
  intro sha3_256 sha3_512
  rcases SampleTables.generates sha3_256 sha3_512 with ⟨full, generates⟩
  have calls := SampleTables.calls_run sha3_256 sha3_512 SampleTables.sizes generates
  have serves := @getDag_serves sha3_256 sha3_512 SampleTables.sizes 3 _
    (fun _ _ stored => absurd stored (Option.not_mem_none _))
    SampleTables.firstCall SampleTables.laterCalls 29999 2 (by decide) (by decide)
  refine ⟨?_, serves⟩
  rw [calls.1]
  exact calls.2.2

end Miningcore.Ethash.EthashFull

import Miningcore.Payments.PayoutLedger

/-! A payout round that meets a block whose transaction throws.

The loop of `UpdatePoolBalancesAsync` catches nothing. `ProcessPoolsAsync` catches the
exception for the whole pool, after which neither the other blocks of the round nor the
payout have their turn. -/

namespace Miningcore.Payments

open Miningcore.Configuration Persistence Transaction

/-- `PayoutPoolBalancesAsync` follows when all blocks of a round had their turn. -/
def payoutStarts (state : State) : Event → Option PoolConfig
  | .processBlock _ =>
      match state.round with
      | some (pool, []) => some pool
      | _ => none
  | _ => none

/-- What happens while a round is going on: the transactions of the round, and what
other parts of the program record between them. -/
def Event.InRound : Event → Prop
  | .startRound _ _ => False
  | .abortRound => False
  | _ => True

structure RoundRows (pool : PoolConfig) (done left : List Block) (database : Database) : Prop where
  settled : ∀ block ∈ done, block.status ≠ .pending →
    ∃ stored ∈ database.blocks, stored.id = block.id ∧ stored.status = block.status ∧
      stored.poolId = pool.id
  pending : ∀ block ∈ left,
    ∃ stored ∈ database.blocks, stored.id = block.id ∧ stored.status = .pending

theorem RoundRows.mono {pool : PoolConfig} {done left : List Block} {database next : Database}
    (rows : RoundRows pool done left database) (kept : database.blocks ⊆ next.blocks) :
    RoundRows pool done left next where
  settled block member status := by
    rcases rows.settled block member status with ⟨stored, isStored, facts⟩
    exact ⟨stored, kept isStored, facts⟩
  pending block member := by
    rcases rows.pending block member with ⟨stored, isStored, facts⟩
    exact ⟨stored, kept isStored, facts⟩

theorem persistShares_blocks {records : List ShareRecord} {database next : Database} {result : Unit}
    (leads : Leads (persistShares records) database result next) :
    ∃ added, next.blocks = database.blocks ++ added ∧ ∀ block ∈ added, block.status = .pending := by
  induction records generalizing database with
  | nil =>
      rcases leads_pure leads with ⟨-, rfl⟩
      refine ⟨[], (List.append_nil _).symm, ?_⟩
      intro block member
      cases member
  | cons record records induction =>
      rcases persistShares_cons leads with ⟨middle, rest, isMiddle⟩
      rcases induction rest with ⟨later, blocks, pending⟩
      rcases isMiddle with rfl | ⟨added, inserts⟩
      · exact ⟨later, blocks, pending⟩
      · rcases insertBlock_leads inserts with ⟨reward, rfl⟩
        refine ⟨_ :: later, blocks.trans (List.append_assoc _ _ _), ?_⟩
        intro block member
        rcases List.mem_cons.mp member with rfl | isLater
        · rfl
        · exact pending block isLater

theorem opened_rows {pool : PoolConfig} {queue : List Block} {database : Database}
    (queued : Queued pool queue database.blocks) : RoundRows pool [] queue database where
  settled block member := by cases member
  pending block member := by
    rcases queued.pending block member with ⟨stored, isStored, sameId, pending, -⟩
    exact ⟨stored, isStored, sameId, pending⟩

section Round

variable (pools : List PoolConfig)
variable {pool : PoolConfig} {state : State} {done left : List Block}

theorem step_keeps {event : Event} (inRound : event.InRound)
    (other : ∀ callsLeft, event = .processBlock callsLeft → state.round = none) :
    state.database.blocks ⊆ (step pools state event).database.blocks ∧
      (step pools state event).round = state.round ∧ payoutStarts state event = none := by
  cases event with
  | persistShares records callsLeft =>
      rw [step]
      rcases state.commit_cases (persistShares records) callsLeft
        { state with recorded := state.recorded ++ records.map ShareRecord.share } with
        ⟨result, next, leads, equal⟩ | equal
      · rw [equal]
        rcases persistShares_blocks leads with ⟨added, blocks, -⟩
        exact ⟨blocks ▸ List.subset_append_left _ _, rfl, rfl⟩
      · rw [equal]
        exact ⟨List.Subset.refl _, rfl, rfl⟩
  | persistPayments poolId transactionConfirmation balances callsLeft =>
      rw [step]
      cases findPool pools poolId with
      | none => exact ⟨List.Subset.refl _, rfl, rfl⟩
      | some found =>
          rcases state.commit_cases (persistPayments found transactionConfirmation balances)
            callsLeft state with ⟨result, next, leads, equal⟩ | equal
          · simp only [equal]
            rcases persistPayments_leads leads with ⟨blocks, -⟩
            exact ⟨blocks ▸ List.Subset.refl _, trivial, rfl⟩
          · simp only [equal]
            exact ⟨List.Subset.refl _, trivial, rfl⟩
  | processBlock callsLeft =>
      have isOver := other callsLeft rfl
      simp only [step, payoutStarts, isOver]
      exact ⟨List.Subset.refl _, trivial, trivial⟩
  | startRound poolId verdict => cases inRound
  | abortRound => cases inRound

theorem ended_rows (isOver : state.round = none) (rows : RoundRows pool done left state.database)
    (events : List Event) (inRound : ∀ event ∈ events, event.InRound) :
    let final := Run.final (step pools) state events
    final.round = none ∧ RoundRows pool done left final.database ∧
      Run.emitted (step pools) payoutStarts state events = [] := by
  induction events generalizing state with
  | nil => exact ⟨isOver, rows, rfl⟩
  | cons event events induction =>
      have here := inRound event List.mem_cons_self
      rcases step_keeps pools here (fun _ _ => isOver) with ⟨kept, same, nothing⟩
      rcases induction (same.trans isOver) (rows.mono kept)
        (fun other member => inRound other (List.mem_cons_of_mem event member)) with
        ⟨finalOver, finalRows, none⟩
      refine ⟨finalOver, finalRows, ?_⟩
      rw [Run.emitted, nothing, none]
      rfl

theorem processed_rows {updated block : Block} {credits : List (Text × ℚ)}
    {gained : List Credit} {next : Database}
    (sound : Sound state.credited (some (pool, updated :: left)) state.database)
    (rows : RoundRows pool done (updated :: left) state.database)
    (processed : Processed pool updated block credits gained state.database next)
    (status : block.status = updated.status) : RoundRows pool (done ++ [updated]) left next := by
  rcases stored_pending sound processed with ⟨row, isRow, rowId, isPending, isPool, -⟩
  rcases processed.blocks with ⟨reward, blocks⟩
  refine ⟨?_, ?_⟩
  · intro settled member isSettled
    rcases List.mem_append.mp member with old | new
    · rcases rows.settled settled old isSettled with ⟨stored, isStored, sameId, sameStatus, facts⟩
      -- The row of the transaction is pending, that of a settled block is not.
      have different : stored.id ≠ block.id := by
        intro same
        cases eq_of_id sound.ids isStored isRow (same.trans rowId.symm)
        exact isSettled (sameStatus.symm.trans isPending)
      refine ⟨stored, ?_, sameId, sameStatus, facts⟩
      rw [blocks, ← updatedRow_other different]
      exact List.mem_map_of_mem isStored
    · cases List.mem_singleton.mp new
      refine ⟨updatedRow block reward row, ?_, ?_, ?_⟩
      · rw [blocks]
        exact List.mem_map_of_mem isRow
      · rw [updatedRow_id, rowId, processed.id]
      · rw [updatedRow, if_pos rowId, ← status]
        exact ⟨rfl, isPool⟩
  · intro other member
    rcases (processed_queued sound processed).pending other member with
      ⟨stored, isStored, sameId, pending, -⟩
    exact ⟨stored, isStored, sameId, pending⟩

/-- How a round stands after some events. It goes on, it came to its payout, or the
first block that is left threw when it had its turn. -/
inductive RoundStands (pool : PoolConfig) (start : State) (events : List Event)
    (left : List Block) : Option (PoolConfig × List Block) → List PoolConfig → Prop
  | goesOn : RoundStands pool start events left (some (pool, left)) []
  | paysOut (all : left = []) : RoundStands pool start events left none [pool]
  | threw {block : Block} {rest : List Block} {front back : List Event} {callsLeft : Option Nat}
      (first : left = block :: rest) (turn : events = front ++ .processBlock callsLeft :: back)
      (going : (Run.final (step pools) start front).round = some (pool, left))
      (throws : Throws pool block callsLeft (Run.final (step pools) start front).database) :
      RoundStands pool start events left none []

theorem RoundStands.cons {events : List Event} {event : Event}
    {round : Option (PoolConfig × List Block)} {payouts : List PoolConfig}
    (stands : RoundStands pools pool (step pools state event) events left round payouts) :
    RoundStands pools pool state (event :: events) left round payouts := by
  cases stands with
  | goesOn => exact .goesOn
  | paysOut all => exact .paysOut all
  | threw first turn going throws =>
      rename_i block rest front back callsLeft
      have later : event :: events = (event :: front) ++ .processBlock callsLeft :: back := by
        rw [turn, List.cons_append]
      exact .threw first later going throws

/-- The next turn of a round: the payout begins, a block is settled, or a block throws. -/
inductive Turn (pool : PoolConfig) (state : State) (callsLeft : Option Nat) (done : List Block) :
    List Block → State → Option PoolConfig → Prop
  | payout {next : State} (isOver : next.round = none)
      (rows : RoundRows pool done [] next.database) :
      Turn pool state callsLeft done [] next (some pool)
  | settled {updated : Block} {left : List Block} {next : State}
      (going : next.round = some (pool, left))
      (rows : RoundRows pool (done ++ [updated]) left next.database) :
      Turn pool state callsLeft done (updated :: left) next none
  | threw {updated : Block} {left : List Block} {next : State}
      (throws : Throws pool updated callsLeft state.database) (isOver : next.round = none)
      (rows : RoundRows pool done (updated :: left) next.database) :
      Turn pool state callsLeft done (updated :: left) next none

theorem step_turn (sound : state.Sound) (going : state.round = some (pool, left))
    (rows : RoundRows pool done left state.database) (callsLeft : Option Nat) :
    Turn pool state callsLeft done left (step pools state (.processBlock callsLeft))
      (payoutStarts state (.processBlock callsLeft)) := by
  simp only [step, payoutStarts, going]
  cases left with
  | nil => exact .payout rfl rows
  | cons updated left =>
      rw [State.Sound, going] at sound
      rcases state.processNext_cases pool updated left callsLeft with
        ⟨block, database, leads, equal⟩ | ⟨throws, equal⟩
      · simp only [equal]
        have status : block.status = updated.status := by
          rcases processBlock_leads leads with ⟨effort, reward, rfl, -⟩
          rfl
        rcases processed_of_leads state.recorded leads with ⟨credits, processed⟩
        exact .settled rfl (processed_rows sound rows processed status)
      · simp only [equal]
        exact .threw throws rfl rows

theorem round_rows (events : List Event) (inRound : ∀ event ∈ events, event.InRound)
    (sound : state.Sound) (going : state.round = some (pool, left))
    (rows : RoundRows pool done left state.database) :
    let final := Run.final (step pools) state events
    ∃ settled rest, left = settled ++ rest ∧ RoundRows pool (done ++ settled) rest final.database ∧
      RoundStands pools pool state events rest final.round
        (Run.emitted (step pools) payoutStarts state events) := by
  induction events generalizing state done left with
  | nil =>
      refine ⟨[], left, rfl, (List.append_nil done).symm ▸ rows, ?_⟩
      rw [show (Run.final (step pools) state []).round = some (pool, left) from going]
      exact .goesOn
  | cons event events induction =>
      have later := fun other member => inRound other (List.mem_cons_of_mem event member)
      have nextSound := (step_sound pools state event sound).1
      rw [Run.emitted]
      by_cases isTurn : ∃ callsLeft, event = .processBlock callsLeft
      · rcases isTurn with ⟨callsLeft, rfl⟩
        have turn := step_turn pools sound going rows callsLeft
        cases starts : payoutStarts state (.processBlock callsLeft) with
        | some payout =>
            rw [starts] at turn
            cases turn with
            | payout isOver rows =>
                rcases ended_rows pools isOver rows events later with ⟨finalOver, finalRows, none⟩
                refine ⟨[], [], rfl, (List.append_nil done).symm ▸ finalRows, ?_⟩
                simp only [Run.final, List.foldl_cons] at finalOver ⊢
                rw [none, finalOver]
                exact .paysOut rfl
        | none =>
            rw [starts] at turn
            cases turn with
            | settled nextGoing rows =>
                rcases induction later nextSound nextGoing rows with
                  ⟨settled, rest, isLeft, nextRows, stands⟩
                refine ⟨_ :: settled, rest, congrArg _ isLeft, ?_, stands.cons⟩
                rw [List.append_cons]
                exact nextRows
            | threw throws isOver rows =>
                rcases ended_rows pools isOver rows events later with ⟨finalOver, finalRows, none⟩
                refine ⟨[], _, rfl, (List.append_nil done).symm ▸ finalRows, ?_⟩
                simp only [Run.final, List.foldl_cons] at finalOver ⊢
                rw [none, finalOver]
                have first : (.processBlock callsLeft) :: events =
                    [] ++ .processBlock callsLeft :: events := rfl
                exact .threw rfl first going throws
      · have other : ∀ callsLeft, event = .processBlock callsLeft → state.round = none :=
          fun callsLeft turn => absurd ⟨callsLeft, turn⟩ isTurn
        have kept := step_keeps pools (inRound event List.mem_cons_self) other
        rcases induction later nextSound (kept.2.1.trans going) (rows.mono kept.1) with
          ⟨settled, rest, isLeft, nextRows, stands⟩
        refine ⟨settled, rest, isLeft, nextRows, ?_⟩
        rw [kept.2.2]
        exact stands.cons

end Round

/-! ## A block that throws in every round -/

/-- Every round of the pool has the block among those it goes through, and its
transaction throws. -/
def KeepsThrowing (poolId : Text) (id : Nat) (state : State) : Event → Prop
  | .startRound started verdict => started = poolId →
      ∀ stored ∈ state.database.blocks, stored.id = id → (verdict stored).isSome
  | .processBlock callsLeft => ∀ pool block rest, state.round = some (pool, block :: rest) →
      block.id = id → Throws pool block callsLeft state.database
  | _ => True

section Starvation

variable (pools : List PoolConfig) (start : Database) (blocker : Block)

/-- The block is pending, first in line before all younger blocks of its pool, and none
of these has been confirmed. -/
structure Blocked (state : State) : Prop where
  sound : state.Sound
  pending : ∃ stored ∈ state.database.blocks, stored.id = blocker.id ∧
    stored.status = .pending ∧ stored.poolId = blocker.poolId ∧ stored.created = blocker.created
  inLine : ∀ pool queue, state.round = some (pool, queue) → pool.id = blocker.poolId →
    (∃ waiting ∈ queue, waiting.id = blocker.id) ∧
      queue.Pairwise fun earlier later => earlier.created ≤ later.created
  younger : ∀ stored ∈ state.database.blocks, stored.poolId = blocker.poolId →
    blocker.created < stored.created → stored.status = .confirmed →
    ∃ earlier ∈ start.blocks, earlier.id = stored.id ∧ earlier.status = .confirmed

variable {start blocker} {state : State}

theorem Blocked.turn {pool : PoolConfig} {updated : Block} {queue : List Block}
    (blocked : Blocked start blocker state) (going : state.round = some (pool, updated :: queue))
    (other : updated.id ≠ blocker.id) {row : Block} (isRow : row ∈ state.database.blocks)
    (sameId : row.id = updated.id) :
    ¬(row.poolId = blocker.poolId ∧ blocker.created < row.created) := by
  rintro ⟨isPool, isYounger⟩
  have sound := blocked.sound
  rw [State.Sound, going] at sound
  have queued := sound.queued pool _ rfl
  rcases queued.pending updated List.mem_cons_self with
    ⟨stored, isStored, storedId, -, poolId, created⟩
  cases eq_of_id sound.ids isRow isStored (sameId.trans storedId.symm)
  rcases blocked.inLine pool _ going (poolId.symm.trans isPool) with
    ⟨⟨waiting, isWaiting, waitingId⟩, sorted⟩
  rcases List.mem_cons.mp isWaiting with rfl | later
  · exact other waitingId
  · -- The blocking one comes later in the queue, so that it is not older.
    rcases queued.pending waiting isWaiting with ⟨known, isKnown, knownId, -, -, knownCreated⟩
    rcases blocked.pending with ⟨mine, isMine, mineId, -, -, mineCreated⟩
    cases eq_of_id sound.ids isKnown isMine (knownId.trans (waitingId.trans mineId.symm))
    have ordered := (List.pairwise_cons.mp sorted).1 waiting later
    rw [← created, ← knownCreated, mineCreated] at ordered
    exact absurd isYounger (not_lt.mpr ordered)

theorem started_inLine (pool : PoolConfig) (verdict : Block → Option Verdict)
    (pending : ∃ stored ∈ state.database.blocks, stored.id = blocker.id ∧
      stored.status = .pending ∧ stored.poolId = blocker.poolId ∧ stored.created = blocker.created)
    (isPool : pool.id = blocker.poolId)
    (classified : ∀ stored ∈ state.database.blocks, stored.id = blocker.id →
      (verdict stored).isSome) :
    let queue := updatedBlocks pool verdict state.database
    (∃ waiting ∈ queue, waiting.id = blocker.id) ∧
      queue.Pairwise fun earlier later => earlier.created ≤ later.created := by
  refine ⟨?_, KeyOrder.pairwise_ascending Block.created _⟩
  rcases pending with ⟨stored, isStored, sameId, status, poolId, -⟩
  rcases Option.isSome_iff_exists.mp (classified stored isStored sameId) with ⟨found, isFound⟩
  refine ⟨Block.classified stored found, ?_, sameId⟩
  rw [updatedBlocks, KeyOrder.mem_ascending, classifyBlocks, List.mem_filterMap]
  refine ⟨stored, ?_, by rw [isFound, Option.map_some]⟩
  rw [getPendingBlocksForPool, List.mem_filter, decide_eq_true_eq]
  exact ⟨isStored, poolId.trans isPool.symm, status⟩

theorem Blocked.ended (blocked : Blocked start blocker state) :
    Blocked start blocker { state with round := none } where
  sound := blocked.sound.ended
  pending := blocked.pending
  inLine _ _ isOver := by cases isOver
  younger := blocked.younger

theorem Blocked.grown {next : State} (blocked : Blocked start blocker state) (sound : next.Sound)
    (kept : state.database.blocks ⊆ next.database.blocks)
    (rows : ∀ stored ∈ next.database.blocks,
      stored ∈ state.database.blocks ∨ stored.status = .pending)
    (sameRound : next.round = state.round) : Blocked start blocker next where
  sound := sound
  pending := by
    rcases blocked.pending with ⟨stored, isStored, facts⟩
    exact ⟨stored, kept isStored, facts⟩
  inLine := sameRound ▸ blocked.inLine
  younger := by
    intro stored member isPool isYounger confirmed
    rcases rows stored member with old | pending
    · exact blocked.younger stored old isPool isYounger confirmed
    · rw [pending] at confirmed
      cases confirmed

theorem Blocked.processed {pool : PoolConfig} {updated block : Block} {queue : List Block}
    {credits : List (Text × ℚ)} {gained : List Credit} {next : State}
    (blocked : Blocked start blocker state) (going : state.round = some (pool, updated :: queue))
    (other : updated.id ≠ blocker.id)
    (processed : Processed pool updated block credits gained state.database next.database)
    (sound : next.Sound) (nextGoing : next.round = some (pool, queue)) :
    Blocked start blocker next := by
  rcases processed.blocks with ⟨reward, blocks⟩
  refine ⟨sound, ?_, ?_, ?_⟩
  · rcases blocked.pending with ⟨stored, isStored, sameId, facts⟩
    have different : stored.id ≠ block.id := by
      rw [sameId, processed.id]
      exact other.symm
    refine ⟨stored, ?_, sameId, facts⟩
    rw [blocks, ← updatedRow_other different]
    exact List.mem_map_of_mem isStored
  · intro found rest isNext isPool
    rw [nextGoing] at isNext
    cases isNext
    rcases blocked.inLine pool _ going isPool with ⟨⟨waiting, isWaiting, waitingId⟩, sorted⟩
    refine ⟨?_, (List.pairwise_cons.mp sorted).2⟩
    rcases List.mem_cons.mp isWaiting with rfl | later
    · exact absurd waitingId other
    · exact ⟨waiting, later, waitingId⟩
  · rw [blocks]
    intro row member isPool isYounger confirmed
    rcases List.mem_map.mp member with ⟨stored, isStored, rfl⟩
    by_cases same : stored.id = block.id
    · rw [updatedRow, if_pos same] at isPool isYounger
      exact absurd ⟨isPool, isYounger⟩
        (blocked.turn going other isStored (same.trans processed.id))
    · rw [updatedRow_other same] at isPool isYounger confirmed ⊢
      exact blocked.younger stored isStored isPool isYounger confirmed

theorem State.processNext_throws {pool : PoolConfig} {updated : Block} {queue : List Block}
    {callsLeft : Option Nat} (throws : Throws pool updated callsLeft state.database) :
    state.processNext pool updated queue callsLeft = { state with round := none } := by
  rcases throws with ⟨exception, isThrown⟩
  rcases run_cases .database (processBlock pool updated) callsLeft state.database with
    ⟨block, next, -, equal⟩ | ⟨failure, equal⟩
  · rw [equal] at isThrown
    cases isThrown
  · rw [State.processNext, equal]

theorem Blocked.step (event : Event) (throws : KeepsThrowing blocker.poolId blocker.id state event)
    (blocked : Blocked start blocker state) :
    Blocked start blocker (Payments.step pools state event) := by
  have sound := (step_sound pools state event blocked.sound).1
  cases event with
  | persistShares records callsLeft =>
      rw [Payments.step] at sound ⊢
      rcases state.commit_cases (persistShares records) callsLeft
        { state with recorded := state.recorded ++ records.map ShareRecord.share } with
        ⟨result, next, leads, equal⟩ | equal
      · rw [equal] at sound ⊢
        rcases persistShares_blocks leads with ⟨added, blocks, pending⟩
        refine blocked.grown sound (blocks ▸ List.subset_append_left _ _) ?_ rfl
        intro stored member
        rw [blocks, List.mem_append] at member
        exact member.imp_right (pending stored)
      · rw [equal]
        exact blocked
  | persistPayments poolId transactionConfirmation balances callsLeft =>
      rw [Payments.step] at sound ⊢
      cases found : findPool pools poolId with
      | none => exact blocked
      | some pool =>
          simp only [found] at sound ⊢
          rcases state.commit_cases (persistPayments pool transactionConfirmation balances)
            callsLeft state with ⟨result, next, leads, equal⟩ | equal
          · rw [equal] at sound ⊢
            rcases persistPayments_leads leads with ⟨blocks, -⟩
            refine blocked.grown sound (blocks ▸ List.Subset.refl _) ?_ rfl
            intro stored member
            exact .inl (blocks ▸ member)
          · rw [equal]
            exact blocked
  | startRound poolId verdict =>
      rw [Payments.step] at sound ⊢
      cases going : state.round with
      | some round => exact blocked
      | none =>
          cases found : findPool pools poolId with
          | none => exact blocked
          | some pool =>
              simp only [going, found] at sound ⊢
              refine ⟨sound, blocked.pending, ?_, blocked.younger⟩
              intro other queue isRound isPool
              cases isRound
              have isStarted : poolId = blocker.poolId := by
                rw [← findPool_id pools found, isPool]
              exact started_inLine pool verdict blocked.pending isPool (throws isStarted)
  | processBlock callsLeft =>
      rw [Payments.step] at sound ⊢
      cases going : state.round with
      | none => exact blocked
      | some round =>
          rcases round with ⟨pool, _ | ⟨updated, queue⟩⟩
          · exact blocked.ended
          · simp only [going] at sound ⊢
            by_cases isBlocker : updated.id = blocker.id
            · rw [State.processNext_throws (throws pool updated queue going isBlocker)]
              exact blocked.ended
            · rcases state.processNext_cases pool updated queue callsLeft with
                ⟨block, next, leads, equal⟩ | ⟨-, equal⟩
              · rw [equal] at sound ⊢
                rcases processed_of_leads state.recorded leads with ⟨credits, processed⟩
                exact blocked.processed going isBlocker processed sound rfl
              · rw [equal]
                exact blocked.ended
  | abortRound => exact blocked.ended

end Starvation

/-! ## Rounds from every reachable state -/

variable (pools : List PoolConfig)

/-- In every round the blocks before the first one that throws are settled and stored with their
status, and a confirmed one is credited. The others stay pending without a credit, and the payout
follows exactly if there are none. As long as a block throws in every round, no younger block of
its pool becomes confirmed. -/
theorem round_stops_at_exception (before : List Event) :
    let start := Run.final (step pools) State.initial before
    start.round = none →
    (∀ poolId pool verdict during, findPool pools poolId = some pool →
      (∀ event ∈ during, Event.InRound event) →
      let opened := step pools start (.startRound poolId verdict)
      let state := Run.final (step pools) opened during
      ∃ done left, updatedBlocks pool verdict start.database = done ++ left ∧
        (∀ block ∈ done, block.status ≠ .pending →
          (∃ stored ∈ state.database.blocks, stored.id = block.id ∧
            stored.status = block.status) ∧
          (block.status = .confirmed →
            ∃ credit credits, creditsOf state.credited block.id = [credit] ∧
              credit.pool.id = pool.id ∧
              blockCredits credit.pool credit.block credit.shares = .ok credits ∧
              ledgerOf state.database block.id =
                credits.map (ledgerRow credit.pool credit.block)) ∧
          (block.status = .orphaned → ledgerOf state.database block.id = [])) ∧
        (∀ block ∈ left,
          (∃ stored ∈ state.database.blocks, stored.id = block.id ∧ stored.status = .pending) ∧
          ledgerOf state.database block.id = []) ∧
        RoundStands pools pool opened during left state.round
          (Run.emitted (step pools) payoutStarts opened during)) ∧
    ∀ blocker ∈ start.database.blocks, blocker.status = .pending →
      ∀ events, Run.Along (step pools) (KeepsThrowing blocker.poolId blocker.id) start events →
      let state := Run.final (step pools) start events
      ∀ stored ∈ state.database.blocks, stored.poolId = blocker.poolId →
        blocker.created < stored.created →
        (∀ earlier ∈ start.database.blocks, earlier.id = stored.id →
          earlier.status ≠ .confirmed) →
        stored.status ≠ .confirmed ∧ ledgerOf state.database stored.id = [] := by
  intro start idle
  have sound : start.Sound := State.Sound.initial.final pools before
  constructor
  · intro poolId pool verdict during found inRound opened state
    have isOpened : opened =
        { start with round := some (pool, updatedBlocks pool verdict start.database) } := by
      simp only [opened, step, idle, found]
    have openedSound : opened.Sound := (step_sound pools start _ sound).1
    have rows : RoundRows pool [] (updatedBlocks pool verdict start.database) opened.database := by
      rw [isOpened]
      exact opened_rows (updatedBlocks_queued pool verdict sound.ids)
    have finalSound : state.Sound := openedSound.final pools during
    rcases round_rows pools during inRound openedSound (by rw [isOpened]) rows with
      ⟨done, left, isQueue, finalRows, stands⟩
    refine ⟨done, left, isQueue, ?_, ?_, stands⟩
    · intro block member notPending
      rcases finalRows.settled block member notPending with
        ⟨stored, isStored, sameId, sameStatus, isPool⟩
      refine ⟨⟨stored, isStored, sameId, sameStatus⟩, ?_, ?_⟩
      · intro confirmed
        rcases Sound.confirmed finalSound isStored (sameStatus.trans confirmed) with
          ⟨credit, credits, isCredit, creditPool, -, computed, ledger⟩
        rw [sameId] at isCredit ledger
        exact ⟨credit, credits, isCredit, creditPool.trans isPool, computed, ledger⟩
      · intro orphaned
        have unconfirmed : stored.status ≠ .confirmed := by simp [sameStatus, orphaned]
        rw [← sameId]
        exact (Sound.unconfirmed finalSound isStored unconfirmed).2
    · intro block member
      rcases finalRows.pending block member with ⟨stored, isStored, sameId, pending⟩
      rcases Sound.unconfirmed finalSound isStored (by simp [pending]) with ⟨-, ledger⟩
      exact ⟨⟨stored, isStored, sameId, pending⟩, sameId ▸ ledger⟩
  · intro blocker isBlocker pending events throws state stored isStored isPool isYounger unconfirmed
    have blocked : Blocked start.database blocker start := {
      sound := sound
      pending := ⟨blocker, isBlocker, rfl, pending, rfl, rfl⟩
      inLine := by simp [idle]
      younger := fun stored isStored _ _ confirmed => ⟨stored, isStored, rfl, confirmed⟩ }
    have last := Run.final_invariant_along (step pools) (KeepsThrowing blocker.poolId blocker.id)
      (Blocked start.database blocker) (fun _ event => Blocked.step pools event) start blocked
      events throws
    have waits : stored.status ≠ .confirmed := by
      intro confirmed
      rcases last.younger stored isStored isPool isYounger confirmed with
        ⟨earlier, isEarlier, sameId, wasConfirmed⟩
      exact unconfirmed earlier isEarlier sameId wasConfirmed
    exact ⟨waits, (Sound.unconfirmed last.sound isStored waits).2⟩

namespace SampleFailure

open SampleRounds

def fourBlocks : State := Run.final (step [pool]) State.initial
  [.persistShares [record "alice" 1 false, record "bob" 2 true, record "bob" 3 true,
    { record "bob" 4 true with blockReward := 0 }, record "bob" 5 true] none]

def orphanFirst (block : Block) : Option Verdict :=
  (confirm [1, 2, 3, 4] block).map fun verdict =>
    if block.id = 1 then { verdict with status := .orphaned } else verdict

def turns : List Event := List.replicate 5 (.processBlock none)

theorem turns_inRound : ∀ event ∈ turns, event.InRound := by
  intro event member
  rw [List.eq_of_mem_replicate member]
  trivial

def records : List ShareRecord :=
  [record "alice" 1 false, { record "bob" 2 true with blockReward := 0 }, record "bob" 3 true]

def recorded : State := Run.final (step [pool]) State.initial [.persistShares records none]

def verdict : Block → Option Verdict := confirm [1, 2]

def confirmed (id : Nat) (created : Int) (reward : ℚ) : Block :=
  { (record "bob" created true).block with
    id
    reward
    status := .confirmed
    confirmationProgress := 1 }

def failing : Block := confirmed 1 2 0

def healthy : Block := confirmed 2 3 50

end SampleFailure

open SampleFailure SampleRounds

/-- Two blocks are settled, one of them as orphaned. The third one throws, so that it and the
fourth one stay pending. -/
theorem round_stops_at_exception_third :
    let opened := step [pool] fourBlocks (.startRound poolId orphanFirst)
    let state := Run.final (step [pool]) opened turns
    fourBlocks.round = none ∧
      state.database.blocks.map Block.status = [.orphaned, .confirmed, .pending, .pending] ∧
      ∃ done left, updatedBlocks pool orphanFirst fourBlocks.database = done ++ left ∧
        (∀ block ∈ done, block.status ≠ .pending →
          ∃ stored ∈ state.database.blocks, stored.id = block.id ∧ stored.status = block.status) ∧
        RoundStands [pool] pool opened turns left state.round
          (Run.emitted (step [pool]) payoutStarts opened turns) := by
  have idle : fourBlocks.round = none := by decide +kernel
  rcases (round_stops_at_exception [pool] _ idle).1 poolId pool orphanFirst turns
    (by decide) turns_inRound with ⟨done, left, isQueue, settled, -, stands⟩
  refine ⟨idle, by decide +kernel, done, left, isQueue, ?_, stands⟩
  intro block member notPending
  exact (settled block member notPending).1

/-- The other block would go through, but neither it nor the payout has its turn, in
this round or in the next one. -/
theorem failing_block_ends_round :
    let round : List Event := .startRound poolId verdict :: turns
    let state := Run.final (step [pool]) recorded (round ++ round)
    updatedBlocks pool verdict recorded.database = [failing, healthy] ∧
      Throws pool failing none recorded.database ∧ healthy.status = .confirmed ∧
      ¬Throws pool healthy none recorded.database ∧ ¬Throws pool healthy none state.database ∧
      state.round = none ∧ ledgerOf state.database healthy.id = [] ∧
      (∀ stored ∈ state.database.blocks, stored.status = .pending) ∧
      Run.emitted (step [pool]) payoutStarts recorded (round ++ round) = [] := by
  refine ⟨by decide +kernel, ⟨.overflow, by decide +kernel⟩, rfl, ?_, ?_, ?_⟩
  · rintro ⟨exception, thrown⟩
    have returned : (Transaction.run .database (processBlock pool healthy) none
        recorded.database).2 = .ok healthy := by
      decide +kernel
    rw [returned] at thrown
    cases thrown
  · rintro ⟨exception, thrown⟩
    have returned : (Transaction.run .database (processBlock pool healthy) none
        (Run.final (step [pool]) recorded ((.startRound poolId verdict :: turns) ++
          .startRound poolId verdict :: turns)).database).2 = .ok healthy := by
      decide +kernel
    rw [returned] at thrown
    cases thrown
  · decide +kernel

end Miningcore.Payments

import Miningcore.Payments.PayoutManager

/-! The ledger over runs of payout rounds: a block is credited when it becomes
confirmed, once and in the same transaction. -/

namespace Miningcore.Payments

open Miningcore.Configuration Persistence Transaction

def ledgerOf (database : Database) (id : Nat) : List BalanceChange :=
  database.balanceChanges.filter fun row => row.block = some id

def creditsOf (credited : List Credit) (id : Nat) : List Credit :=
  credited.filter fun credit => credit.block.id = id

/-- The ledger has the credits of a confirmed block once, and none of any other. -/
def Accounted (credited : List Credit) (database : Database) (block : Block) : Prop :=
  if block.status = .confirmed then
    ∃ credit credits, creditsOf credited block.id = [credit] ∧
      credit.pool.id = block.poolId ∧ credit.block.created = block.created ∧
      blockCredits credit.pool credit.block credit.shares = .ok credits ∧
      ledgerOf database block.id = credits.map (ledgerRow credit.pool credit.block)
  else creditsOf credited block.id = [] ∧ ledgerOf database block.id = []

/-- The blocks of a round are still pending in the database, each of them once. -/
structure Queued (pool : PoolConfig) (queue blocks : List Block) : Prop where
  ids : (queue.map Block.id).Nodup
  pending : ∀ block ∈ queue, ∃ stored ∈ blocks, stored.id = block.id ∧
    stored.status = .pending ∧ stored.poolId = pool.id ∧ stored.created = block.created

structure Sound (credited : List Credit) (round : Option (PoolConfig × List Block))
    (database : Database) : Prop where
  ids : (database.blocks.map Block.id).Nodup
  blockIds : ∀ block ∈ database.blocks, block.id < database.nextBlockId
  rowIds : ∀ row ∈ database.balanceChanges, ∀ id ∈ row.block, id < database.nextBlockId
  creditIds : ∀ credit ∈ credited, credit.block.id < database.nextBlockId
  queued : ∀ pool queue, round = some (pool, queue) → Queued pool queue database.blocks
  accounted : ∀ block ∈ database.blocks, Accounted credited database block

section Accounted

variable {credited : List Credit} {round : Option (PoolConfig × List Block)}
variable {database : Database} {block : Block}

theorem Sound.confirmed (sound : Sound credited round database) (member : block ∈ database.blocks)
    (confirmed : block.status = .confirmed) :
    ∃ credit credits, creditsOf credited block.id = [credit] ∧
      credit.pool.id = block.poolId ∧ credit.block.created = block.created ∧
      blockCredits credit.pool credit.block credit.shares = .ok credits ∧
      ledgerOf database block.id = credits.map (ledgerRow credit.pool credit.block) := by
  have accounted := sound.accounted block member
  rwa [Accounted, if_pos confirmed] at accounted

theorem Sound.unconfirmed (sound : Sound credited round database) (member : block ∈ database.blocks)
    (other : block.status ≠ .confirmed) :
    creditsOf credited block.id = [] ∧ ledgerOf database block.id = [] := by
  have accounted := sound.accounted block member
  rwa [Accounted, if_neg other] at accounted

end Accounted

def Advances (database next : Database) : Prop :=
  ∀ block ∈ database.blocks, ∃ later ∈ next.blocks,
    later.id = block.id ∧ (block.status = .pending ∨ later.status = block.status)

theorem Advances.refl (database : Database) : Advances database database :=
  fun block member => ⟨block, member, rfl, .inr rfl⟩

theorem Advances.trans {database middle next : Database} (first : Advances database middle)
    (second : Advances middle next) : Advances database next := by
  intro block member
  rcases first block member with ⟨between, betweenMember, betweenId, betweenStatus⟩
  rcases second between betweenMember with ⟨later, laterMember, laterId, laterStatus⟩
  refine ⟨later, laterMember, laterId.trans betweenId, ?_⟩
  rcases betweenStatus with pending | same
  · exact .inl pending
  · rw [same] at laterStatus
    exact laterStatus

section Recording

variable {credited : List Credit} {round : Option (PoolConfig × List Block)}
variable {database next : Database} {result : Unit}

theorem Queued.append {pool : PoolConfig} {queue blocks : List Block} (more : List Block)
    (queued : Queued pool queue blocks) : Queued pool queue (blocks ++ more) where
  ids := queued.ids
  pending := by
    intro block member
    rcases queued.pending block member with ⟨stored, storedMember, facts⟩
    exact ⟨stored, List.mem_append_left more storedMember, facts⟩

theorem Sound.congr {rows : List BalanceChange} (sound : Sound credited round database)
    (blocks : next.blocks = database.blocks) (nextBlockId : next.nextBlockId = database.nextBlockId)
    (balanceChanges : next.balanceChanges = database.balanceChanges ++ rows)
    (unowned : ∀ row ∈ rows, row.block = none) : Sound credited round next := by
  have ledger (id : Nat) : ledgerOf next id = ledgerOf database id := by
    rw [ledgerOf, balanceChanges, List.filter_append, ledgerOf, List.append_right_eq_self,
      List.filter_eq_nil_iff]
    intro row member
    simp [unowned row member]
  exact {
    ids := blocks ▸ sound.ids
    blockIds := by
      rw [blocks, nextBlockId]
      exact sound.blockIds
    rowIds := by
      rw [balanceChanges, nextBlockId]
      intro row member id isId
      rcases List.mem_append.mp member with old | new
      · exact sound.rowIds row old id isId
      · rw [unowned row new] at isId
        cases isId
    creditIds := by
      rw [nextBlockId]
      exact sound.creditIds
    queued := blocks ▸ sound.queued
    accounted := by
      rw [blocks]
      intro block member
      have accounted := sound.accounted block member
      rwa [Accounted, ← ledger] at accounted }

theorem insertBlock_sound {block : Block} (isPending : block.status = .pending)
    (sound : Sound credited round database)
    (leads : Leads (insertBlock block) database result next) : Sound credited round next := by
  rcases insertBlock_leads leads with ⟨reward, rfl⟩
  have fresh : Accounted credited database { block with id := database.nextBlockId, reward } := by
    rw [Accounted, if_neg (by simp [isPending])]
    constructor
    · rw [creditsOf, List.filter_eq_nil_iff]
      intro credit member
      have := sound.creditIds credit member
      simp only [decide_eq_true_eq]
      omega
    · rw [ledgerOf, List.filter_eq_nil_iff]
      intro row member
      have := sound.rowIds row member
      simp only [decide_eq_true_eq]
      intro same
      exact absurd (this _ same) (lt_irrefl _)
  exact {
    ids := by
      rw [List.map_append, List.map_cons, List.map_nil, ← List.concat_eq_append,
        List.nodup_concat]
      refine ⟨?_, sound.ids⟩
      intro member
      rcases List.mem_map.mp member with ⟨stored, storedMember, same⟩
      exact absurd (sound.blockIds stored storedMember) (by simp [same])
    blockIds := by
      intro stored member
      rcases List.mem_append.mp member with old | new
      · exact (sound.blockIds stored old).trans (Nat.lt_succ_self _)
      · rw [List.mem_singleton.mp new]
        exact Nat.lt_succ_self _
    rowIds := fun row member id isId =>
      (sound.rowIds row member id isId).trans (Nat.lt_succ_self _)
    creditIds := fun credit member => (sound.creditIds credit member).trans (Nat.lt_succ_self _)
    queued := fun pool queue equal => (sound.queued pool queue equal).append _
    accounted := by
      intro stored member
      rcases List.mem_append.mp member with old | new
      · exact sound.accounted stored old
      · rw [List.mem_singleton.mp new]
        exact fresh }

theorem insertBlock_advances {block : Block}
    (leads : Leads (insertBlock block) database result next) : Advances database next := by
  rcases insertBlock_leads leads with ⟨reward, rfl⟩
  exact fun stored member => ⟨stored, List.mem_append_left _ member, rfl, .inr rfl⟩

theorem persistShares_sound {records : List ShareRecord} (sound : Sound credited round database)
    (leads : Leads (persistShares records) database result next) :
    Sound credited round next ∧ Advances database next := by
  induction records generalizing database with
  | nil =>
      rcases leads_pure leads with ⟨-, rfl⟩
      exact ⟨sound, .refl next⟩
  | cons record records induction =>
      have storedSound : Sound credited round
          { database with shares := database.shares ++ [record.share] } :=
        sound.congr rfl rfl (List.append_nil _).symm (by simp)
      rcases persistShares_cons leads with ⟨middle, rest, rfl | ⟨added, inserts⟩⟩
      · rcases induction storedSound rest with ⟨laterSound, advances⟩
        exact ⟨laterSound, advances⟩
      · rcases induction (insertBlock_sound rfl storedSound inserts) rest with
          ⟨laterSound, advances⟩
        exact ⟨laterSound, (insertBlock_advances inserts).trans advances⟩

theorem persistPayments_leads {pool : PoolConfig} {transactionConfirmation : Option Text}
    {balances : List (Text × ℚ)}
    (leads : Leads (persistPayments pool transactionConfirmation balances) database result next) :
    next.blocks = database.blocks ∧ next.nextBlockId = database.nextBlockId ∧
      next.shares = database.shares ∧
      ∃ rows, next.balanceChanges = database.balanceChanges ++ rows ∧
        ∀ row ∈ rows, row.block = none := by
  induction balances generalizing database with
  | nil =>
      rcases leads_pure leads with ⟨-, rfl⟩
      exact ⟨rfl, rfl, rfl, [], by simp, by simp⟩
  | cons balance balances induction =>
      rcases balance with ⟨address, amount⟩
      rcases persistPayments_cons leads with ⟨payments, middle, added, -, adds, further⟩
      rcases addAmount_leads adds with ⟨stored, -, equal⟩
      rcases induction further with ⟨blocks, nextBlockId, shares, rows, changes, unowned⟩
      rw [equal] at blocks nextBlockId shares changes
      refine ⟨blocks, nextBlockId, shares, ?_⟩
      refine ⟨_ :: rows, changes.trans (List.append_assoc _ _ _), ?_⟩
      intro row member
      rcases List.mem_cons.mp member with rfl | old
      · rfl
      · exact unowned row old

end Recording

/-! ## The transaction of a block -/

section Process

variable {block : Block} {reward : ℚ} {blocks : List Block}

theorem updatedRow_id (block : Block) (reward : ℚ) (stored : Block) :
    (updatedRow block reward stored).id = stored.id := by
  rw [updatedRow]
  split_ifs
  · rfl
  · rfl

theorem updatedRow_other {stored : Block} (other : stored.id ≠ block.id) :
    updatedRow block reward stored = stored := if_neg other

theorem map_updatedRow_id : (blocks.map (updatedRow block reward)).map Block.id =
    blocks.map Block.id := by
  rw [List.map_map]
  apply List.map_congr_left
  intro stored _
  exact updatedRow_id block reward stored

theorem eq_of_id {left right : Block} (ids : (blocks.map Block.id).Nodup) (isLeft : left ∈ blocks)
    (isRight : right ∈ blocks) (same : left.id = right.id) : left = right :=
  List.inj_on_of_nodup_map ids isLeft isRight same

theorem creditsOf_append (credited : List Credit) (credit : Credit) (id : Nat) :
    creditsOf (credited ++ [credit]) id =
      creditsOf credited id ++ if credit.block.id = id then [credit] else [] := by
  rw [creditsOf, List.filter_append, creditsOf]
  by_cases same : credit.block.id = id <;> simp [same]

theorem filter_ledgerRows (pool : PoolConfig) (block : Block) (credits : List (Text × ℚ))
    (id : Nat) :
    (credits.map (ledgerRow pool block)).filter (fun row => row.block = some id) =
      if block.id = id then credits.map (ledgerRow pool block) else [] := by
  split_ifs with same
  · rw [List.filter_eq_self]
    intro row member
    rcases List.mem_map.mp member with ⟨credit, -, rfl⟩
    simp [ledgerRow, same]
  · rw [List.filter_eq_nil_iff]
    intro row member
    rcases List.mem_map.mp member with ⟨credit, -, rfl⟩
    simp [ledgerRow, same]

variable {credited gained : List Credit} {pool : PoolConfig} {updated : Block} {queue : List Block}
variable {database next : Database} {credits : List (Text × ℚ)}

/-- A committed transaction of a block: the row of the block is updated, and what
the ledger gains is what the block credits. -/
structure Processed (pool : PoolConfig) (updated block : Block) (credits : List (Text × ℚ))
    (gained : List Credit) (database next : Database) : Prop where
  id : block.id = updated.id
  created : block.created = updated.created
  blocks : ∃ reward, next.blocks = database.blocks.map (updatedRow block reward)
  nextBlockId : next.nextBlockId = database.nextBlockId
  balanceChanges : next.balanceChanges =
    database.balanceChanges ++ credits.map (ledgerRow pool block)
  credits : (block.status ≠ .confirmed ∧ credits = [] ∧ gained = []) ∨
    (block.status = .confirmed ∧ ∃ credit, gained = [credit] ∧ credit.pool = pool ∧
      credit.block = block ∧ blockCredits pool block credit.shares = .ok credits)

theorem processed_of_leads (recorded : List Share)
    (leads : Leads (processBlock pool updated) database block next) :
    ∃ credits, Processed pool updated block credits
      (if block.status = .confirmed then [⟨pool, block, database.shares, recorded⟩] else [])
      database next := by
  rcases processBlock_leads leads with ⟨effort, reward, isBlock, other | confirmed⟩
  · rcases other with ⟨status, equal⟩
    refine ⟨[], ?_⟩
    exact {
      id := by rw [isBlock]
      created := by rw [isBlock]
      blocks := ⟨reward, by rw [equal]⟩
      nextBlockId := by rw [equal]
      balanceChanges := by simp [equal]
      credits := .inl ⟨status, rfl, if_neg status⟩ }
  · rcases confirmed with ⟨status, credits, computed, equal⟩
    refine ⟨credits, ?_⟩
    exact {
      id := by rw [isBlock]
      created := by rw [isBlock]
      blocks := ⟨reward, by rw [equal]⟩
      nextBlockId := by rw [equal]
      balanceChanges := by rw [equal]
      credits := .inr ⟨status, _, if_pos status, rfl, rfl, computed⟩ }

theorem Processed.ledgerOf (processed : Processed pool updated block credits gained database next)
    (id : Nat) : ledgerOf next id = ledgerOf database id ++
      if block.id = id then credits.map (ledgerRow pool block) else [] := by
  rw [Payments.ledgerOf, processed.balanceChanges, List.filter_append, filter_ledgerRows]
  rfl

theorem Processed.creditsOf (processed : Processed pool updated block credits gained database next)
    (credited : List Credit) (id : Nat) : creditsOf (credited ++ gained) id =
      creditsOf credited id ++ if block.id = id then gained else [] := by
  rcases processed.credits with ⟨-, -, rfl⟩ | ⟨-, credit, rfl, -, isBlock, -⟩
  · simp
  · rw [creditsOf_append, isBlock]

section Step

variable (sound : Sound credited (some (pool, updated :: queue)) database)
variable (processed : Processed pool updated block credits gained database next)

include sound processed

theorem stored_pending : ∃ stored ∈ database.blocks, stored.id = block.id ∧
    stored.status = .pending ∧ stored.poolId = pool.id ∧ stored.created = block.created := by
  rw [processed.id, processed.created]
  exact (sound.queued pool _ rfl).pending updated List.mem_cons_self

theorem processed_queued : Queued pool queue next.blocks := by
  have queued := sound.queued pool _ rfl
  have distinct := List.nodup_cons.mp queued.ids
  rcases processed.blocks with ⟨reward, blocks⟩
  refine ⟨distinct.2, ?_⟩
  intro other member
  rcases queued.pending other (List.mem_cons_of_mem updated member) with
    ⟨stored, storedMember, sameId, facts⟩
  have different : stored.id ≠ block.id := by
    intro same
    apply distinct.1
    rw [← processed.id, ← same, sameId]
    exact List.mem_map_of_mem member
  refine ⟨stored, ?_, sameId, facts⟩
  rw [blocks, ← updatedRow_other different]
  exact List.mem_map_of_mem storedMember

theorem processed_advances : Advances database next := by
  rcases stored_pending sound processed with ⟨row, rowMember, rowId, pending, -⟩
  rcases processed.blocks with ⟨reward, blocks⟩
  intro stored member
  refine ⟨updatedRow block reward stored, ?_, updatedRow_id block reward stored, ?_⟩
  · rw [blocks]
    exact List.mem_map_of_mem member
  · by_cases same : stored.id = block.id
    · left
      rw [eq_of_id sound.ids member rowMember (same.trans rowId.symm), pending]
    · right
      rw [updatedRow_other same]

theorem processed_accounted :
    ∀ row ∈ next.blocks, Accounted (credited ++ gained) next row := by
  rcases processed.blocks with ⟨reward, blocks⟩
  rw [blocks]
  intro row member
  rcases List.mem_map.mp member with ⟨stored, storedMember, rfl⟩
  have before := sound.accounted stored storedMember
  by_cases same : stored.id = block.id
  · -- The row of the block was pending, so that nothing had been credited for it.
    rcases stored_pending sound processed with ⟨pendingRow, isRow, rowId, pending, poolId, created⟩
    have isPending := eq_of_id sound.ids storedMember isRow (same.trans rowId.symm)
    rw [Accounted, isPending, if_neg (by simp [pending]), rowId] at before
    rw [updatedRow, if_pos same, isPending, Accounted, Block.update]
    simp only [rowId]
    rw [processed.creditsOf, processed.ledgerOf, before.1, before.2]
    rcases processed.credits with ⟨status, rfl, rfl⟩ | ⟨status, credit, rfl, rfl, rfl, computed⟩
    · simp [status]
    · rw [if_pos status]
      exact ⟨credit, credits, by simp, poolId.symm, created.symm, computed, by simp⟩
  · rw [updatedRow_other same, Accounted, processed.creditsOf, processed.ledgerOf,
      if_neg (Ne.symm same), if_neg (Ne.symm same), List.append_nil, List.append_nil]
    exact before

theorem processed_sound : Sound (credited ++ gained) (some (pool, queue)) next := by
  rcases stored_pending sound processed with ⟨stored, storedMember, storedId, -⟩
  have known : block.id < database.nextBlockId := storedId ▸ sound.blockIds stored storedMember
  rcases processed.blocks with ⟨reward, blocks⟩
  exact {
    ids := by
      rw [blocks, map_updatedRow_id]
      exact sound.ids
    blockIds := by
      rw [blocks, processed.nextBlockId]
      intro row member
      rcases List.mem_map.mp member with ⟨old, oldMember, rfl⟩
      rw [updatedRow_id]
      exact sound.blockIds old oldMember
    rowIds := by
      rw [processed.balanceChanges, processed.nextBlockId]
      intro row member id isId
      rcases List.mem_append.mp member with old | new
      · exact sound.rowIds row old id isId
      · rcases List.mem_map.mp new with ⟨credit, -, rfl⟩
        cases isId
        exact known
    creditIds := by
      rw [processed.nextBlockId]
      intro credit member
      rcases List.mem_append.mp member with old | new
      · exact sound.creditIds credit old
      · rcases processed.credits with ⟨-, -, rfl⟩ | ⟨-, only, rfl, -, isBlock, -⟩
        · cases new
        · rw [List.mem_singleton.mp new, isBlock]
          exact known
    queued := by
      intro other rest equal
      cases equal
      exact processed_queued sound processed
    accounted := processed_accounted sound processed }

end Step

end Process

/-! ## Rounds -/

theorem classifyBlocks_ids (verdict : Block → Option Verdict) (blocks : List Block) :
    ((classifyBlocks verdict blocks).map Block.id).Sublist (blocks.map Block.id) := by
  induction blocks with
  | nil => exact List.Sublist.refl _
  | cons block blocks induction =>
      rw [classifyBlocks, List.filterMap_cons, List.map_cons]
      cases verdict block with
      | none => exact induction.cons block.id
      | some found => exact induction.cons_cons block.id

theorem updatedBlocks_queued (pool : PoolConfig) (verdict : Block → Option Verdict)
    {database : Database} (ids : (database.blocks.map Block.id).Nodup) :
    Queued pool (updatedBlocks pool verdict database) database.blocks where
  ids := by
    rw [updatedBlocks]
    apply ((KeyOrder.perm_ascending Block.created _).map Block.id).nodup_iff.mpr
    apply List.Nodup.sublist (classifyBlocks_ids verdict _)
    exact List.Nodup.sublist (List.filter_sublist.map Block.id) ids
  pending := by
    intro block member
    rw [updatedBlocks, KeyOrder.mem_ascending, classifyBlocks] at member
    rcases List.mem_filterMap.mp member with ⟨stored, storedMember, classified⟩
    rcases Option.map_eq_some_iff.mp classified with ⟨found, -, rfl⟩
    rw [getPendingBlocksForPool, List.mem_filter, decide_eq_true_eq] at storedMember
    exact ⟨stored, storedMember.1, rfl, storedMember.2.2, storedMember.2.1, rfl⟩

def State.Sound (state : State) : Prop :=
  Payments.Sound state.credited state.round state.database

theorem State.Sound.initial : State.initial.Sound where
  ids := List.nodup_nil
  blockIds := by simp [State.initial, Database.empty]
  rowIds := by simp [State.initial, Database.empty]
  creditIds := by simp [State.initial]
  queued := by simp [State.initial]
  accounted := by simp [State.initial, Database.empty]

theorem Sound.ended {credited : List Credit} {round : Option (PoolConfig × List Block)}
    {database : Database} (sound : Sound credited round database) :
    Sound credited none database :=
  { sound with queued := by simp }

variable (pools : List PoolConfig)

theorem step_sound (state : State) (event : Event) (sound : state.Sound) :
    (step pools state event).Sound ∧
      Advances state.database (step pools state event).database := by
  have transition := step_transition pools state event
  generalize step pools state event = next at transition ⊢
  cases transition with
  | stays => exact ⟨sound, .refl _⟩
  | recorded leads => exact persistShares_sound sound leads
  | paid leads =>
      rcases persistPayments_leads leads with ⟨blocks, nextBlockId, -, rows, changes, unowned⟩
      refine ⟨Sound.congr sound blocks nextBlockId changes unowned, ?_⟩
      intro block member
      exact ⟨block, blocks ▸ member, rfl, .inr rfl⟩
  | started pool verdict found =>
      refine ⟨{ sound with queued := ?_ }, .refl _⟩
      intro other queue equal
      cases equal
      exact updatedBlocks_queued pool verdict sound.ids
  | processed going leads =>
      rw [State.Sound, going] at sound
      rcases processed_of_leads state.recorded leads with ⟨credits, processed⟩
      exact ⟨processed_sound sound processed, processed_advances sound processed⟩
  | ended => exact ⟨sound.ended, .refl _⟩

theorem State.Sound.final {state : State} (sound : state.Sound) (events : List Event) :
    (Run.final (step pools) state events).Sound :=
  Run.final_invariant (step pools) State.Sound
    (fun state event sound => (step_sound pools state event sound).1) state sound events

/-- Over every run of payout rounds, a block changes its status only while it is
pending, and the ledger has its credits exactly if it is confirmed, and then once. -/
theorem payout_rounds_credit_once (before after : List Event) :
    let earlier := Run.final (step pools) State.initial before
    let state := Run.final (step pools) State.initial (before ++ after)
    (∀ block ∈ earlier.database.blocks,
      (∃ later ∈ state.database.blocks, later.id = block.id) ∧
      ∀ later ∈ state.database.blocks, later.id = block.id →
        block.status = .pending ∨ later.status = block.status) ∧
    ∀ block ∈ state.database.blocks,
      (block.status = .confirmed → ∃ credit credits,
        creditsOf state.credited block.id = [credit] ∧ credit.pool.id = block.poolId ∧
        credit.block.created = block.created ∧
        blockCredits credit.pool credit.block credit.shares = .ok credits ∧
        ledgerOf state.database block.id = credits.map (ledgerRow credit.pool credit.block)) ∧
      (block.status ≠ .confirmed →
        creditsOf state.credited block.id = [] ∧ ledgerOf state.database block.id = []) := by
  have earlierSound := State.Sound.initial.final pools before
  have advances := Run.final_related (step pools) State.Sound
    (fun state event sound => (step_sound pools state event sound).1)
    (fun first second => Advances first.database second.database) (fun _ => .refl _)
    (fun _ _ _ => .trans) (fun state event sound => (step_sound pools state event sound).2)
    _ earlierSound after
  have sound := earlierSound.final pools after
  simp only [Run.final_append]
  constructor
  · intro block member
    rcases advances block member with ⟨later, laterMember, laterId, status⟩
    refine ⟨⟨later, laterMember, laterId⟩, ?_⟩
    intro other otherMember otherId
    rw [eq_of_id sound.ids otherMember laterMember (otherId.trans laterId.symm)]
    exact status
  · intro block member
    constructor
    · intro confirmed
      exact Payments.Sound.confirmed sound member confirmed
    · intro other
      exact Payments.Sound.unconfirmed sound member other

end Miningcore.Payments

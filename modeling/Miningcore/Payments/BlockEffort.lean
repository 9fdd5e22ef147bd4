import Miningcore.Foundation.Intervals
import Miningcore.Payments.PayoutManager

/-! The shares behind the efforts of the blocks of a pool.

`CalculateBlockEffort` adds up the difficulties of the shares between the block before and the
block itself, both excluded. A block has the time of the share that found it. -/

namespace Miningcore.Payments

open Miningcore.Configuration Persistence Transaction

def poolBlocks (database : Database) (poolId : Text) : List Block :=
  database.blocks.filter (·.poolId = poolId)

/-- The shares whose difficulties `CalculateBlockEffort` has added up for a block. -/
def countedShares (database : Database) (poolId : Text) (block : Block) : List Share :=
  database.shares.filter fun share =>
    share.poolId = poolId ∧
      (∀ time ∈ (getBlockBefore database.blocks poolId [.confirmed, .orphaned, .pending]
        block.created).map Block.created, time < share.created) ∧
      share.created < block.created

theorem accumulated_countedShares (database : Database) (poolId : Text) (block : Block) :
    getAccumulatedShareDifficultyBetweenCreated database.shares poolId
        ((getBlockBefore database.blocks poolId [.confirmed, .orphaned, .pending]
          block.created).map Block.created) block.created =
      match countedShares database poolId block with
      | [] => .ok none
      | share :: shares => some <$> toUInt64 ((share :: shares).map Share.difficulty).sum := rfl

theorem calculateBlockEffort_counts {pool : PoolConfig} {database next : Database}
    {block result : Block} (leads : Leads (calculateBlockEffort pool block) database result next) :
    (countedShares database pool.id block = [] ∧ result = block) ∨
      ∃ accumulated,
        toUInt64 ((countedShares database pool.id block).map Share.difficulty).sum =
          .ok accumulated ∧
        result = { block with effort := some (accumulated / block.networkDifficulty) } := by
  rcases leads_bind leads with ⟨lastBlock, first, readsBlock, rest⟩
  rcases leads_query readsBlock with ⟨found, rfl⟩
  rcases leads_bind rest with ⟨accumulated, second, readsShares, returns⟩
  rcases leads_query readsShares with ⟨sum, rfl⟩
  rcases leads_pure returns with ⟨rfl, rfl⟩
  cases found
  rw [accumulated_countedShares] at sum
  split at sum
  · rename_i counted
    cases sum
    exact .inl ⟨counted, rfl⟩
  · rename_i share shares counted
    rw [counted]
    cases total : toUInt64 ((share :: shares).map Share.difficulty).sum with
    | error exception =>
        rw [total] at sum
        cases sum
    | ok accumulated =>
        rw [total] at sum
        cases sum
        exact .inr ⟨accumulated, rfl, rfl⟩

theorem behind_blockBefore_iff (database : Database) (poolId : Text) (before point : Int) :
    (∀ time ∈ (getBlockBefore database.blocks poolId [.confirmed, .orphaned, .pending]
        before).map Block.created, time < point) ↔
      ∀ other ∈ poolBlocks database poolId, other.created < before → other.created < point := by
  have isRow : ∀ other, other ∈ database.blocks.filter (fun block => block.poolId = poolId ∧
      block.status ∈ [BlockStatus.confirmed, .orphaned, .pending] ∧ block.created < before) ↔
      other ∈ poolBlocks database poolId ∧ other.created < before := by
    intro other
    have anyStatus : other.status ∈ [BlockStatus.confirmed, .orphaned, .pending] := by
      cases other.status <;> decide
    rw [poolBlocks, List.mem_filter, List.mem_filter, decide_eq_true_eq, decide_eq_true_eq,
      and_assoc, and_iff_right anyStatus]
  have sorted := KeyOrder.pairwise_descending Block.created (database.blocks.filter fun block =>
    block.poolId = poolId ∧ block.status ∈ [BlockStatus.confirmed, .orphaned, .pending] ∧
      block.created < before)
  have members := fun other => (KeyOrder.mem_descending Block.created).trans (isRow other)
  rw [getBlockBefore]
  generalize KeyOrder.descending Block.created (database.blocks.filter fun block =>
    block.poolId = poolId ∧ block.status ∈ [BlockStatus.confirmed, .orphaned, .pending] ∧
      block.created < before) = rows at sorted members ⊢
  cases rows with
  | nil =>
      constructor
      · intro _ other member less
        exact absurd ((members other).mpr ⟨member, less⟩) List.not_mem_nil
      · rintro - time ⟨⟩
  | cons last rows =>
      constructor
      · intro behind other member less
        have isBehind := behind last.created rfl
        rcases List.mem_cons.mp ((members other).mpr ⟨member, less⟩) with rfl | later
        · exact isBehind
        · exact (List.rel_of_pairwise_cons sorted later).trans_lt isBehind
      · rintro behind time ⟨⟩
        have isLast := (members last).mp List.mem_cons_self
        exact behind last isLast.1 isLast.2

theorem mem_countedShares_iff {database : Database} {poolId : Text} {block : Block}
    {share : Share} (isRow : share ∈ database.shares) (isPool : share.poolId = poolId) :
    share ∈ countedShares database poolId block ↔
      Intervals.IsIn Block.created (poolBlocks database poolId) block share.created := by
  rw [countedShares, List.mem_filter, decide_eq_true_eq, behind_blockBefore_iff, Intervals.IsIn,
    and_iff_right isRow, and_iff_right isPool, and_comm]

/-! ## Histories -/

/-- The shares and blocks of a pool: no two blocks have the same time, and each has that of a
share. -/
structure PoolHistory where
  database : Database
  poolId : Text
  distinct : ((poolBlocks database poolId).map Block.created).Nodup
  found : ∀ block ∈ poolBlocks database poolId, ∃ share ∈ database.shares,
    share.poolId = poolId ∧ share.created = block.created

namespace PoolHistory

variable (history : PoolHistory)

def blocks : List Block := poolBlocks history.database history.poolId

def IsUpToLast (share : Share) : Prop :=
  share ∈ history.database.shares ∧ share.poolId = history.poolId ∧
    ∃ block ∈ history.blocks, share.created ≤ block.created

def CountsOnce (share : Share) : Prop :=
  ∃! block, block ∈ history.blocks ∧ share ∈ countedShares history.database history.poolId block

/-- Exactly the shares that were not created together with a block are counted once; so all shares
are only if there is no block. -/
theorem countsOnce_iff :
    (∀ share, history.IsUpToLast share →
      (history.CountsOnce share ↔ ∀ block ∈ history.blocks, block.created ≠ share.created)) ∧
    ((∀ share, history.IsUpToLast share → history.CountsOnce share) ↔ history.blocks = []) := by
  have each : ∀ share, history.IsUpToLast share →
      (history.CountsOnce share ↔ ∀ block ∈ history.blocks, block.created ≠ share.created) := by
    rintro share ⟨isRow, isPool, upTo⟩
    have distinct : ∀ left ∈ history.blocks, ∀ right ∈ history.blocks,
        left.created = right.created → left = right := fun _ isLeft _ isRight =>
      List.inj_on_of_nodup_map history.distinct isLeft isRight
    rw [CountsOnce, ← Intervals.existsUnique_isIn_iff distinct upTo]
    simp only [mem_countedShares_iff isRow isPool]
    rfl
  refine ⟨each, ?_, ?_⟩
  · intro all
    by_contra nonempty
    rcases List.exists_mem_of_ne_nil _ nonempty with ⟨block, member⟩
    rcases history.found block member with ⟨share, isRow, isPool, sameTime⟩
    have upToLast : history.IsUpToLast share := ⟨isRow, isPool, block, member, sameTime.le⟩
    exact (each share upToLast).mp (all share upToLast) block member sameTime.symm
  · rintro noBlock share ⟨-, -, block, member, -⟩
    rw [noBlock] at member
    exact absurd member List.not_mem_nil

/-! ## A block found with the second share -/

namespace Sample

def share (created : Int) : Share where
  poolId := text "exchangecoin1"
  miner := text "xqPool"
  payoutInfo := none
  difficulty := 4
  networkDifficulty := 8
  created

def block : Block where
  id := 1
  poolId := text "exchangecoin1"
  blockHeight := 224
  networkDifficulty := 8
  status := .pending
  type := none
  confirmationProgress := 0
  effort := none
  transactionConfirmationData := text "0a"
  reward := 2
  hash := none
  created := 10

def shortHistory : PoolHistory where
  database := { Database.empty with shares := [share 5, share 10], blocks := [block] }
  poolId := text "exchangecoin1"
  distinct := by decide
  found := by decide

end Sample

theorem finding_share_not_counted :
    ¬∀ share, Sample.shortHistory.IsUpToLast share → Sample.shortHistory.CountsOnce share := by
  intro all
  have notCounted : ∀ block ∈ Sample.shortHistory.blocks, Sample.share 10 ∉
      countedShares Sample.shortHistory.database Sample.shortHistory.poolId block := by
    decide
  have upToLast : Sample.shortHistory.IsUpToLast (Sample.share 10) := by
    rw [IsUpToLast]
    decide
  rcases all (Sample.share 10) upToLast with ⟨block, ⟨member, counted⟩, -⟩
  exact notCounted block member counted

end PoolHistory

end Miningcore.Payments

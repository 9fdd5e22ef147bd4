import Miningcore.Foundation.Run
import Miningcore.Payments.EthereumClassification

/-! The rewards of blocks that are classified as orphaned.

A block is recorded with the reward that the share promised, and earlier rounds may have changed
it. Some paths of the handlers for ExchangeCoin and Bitcoin set the status and leave the reward
alone; the other paths and the other handlers clear it. -/

namespace Miningcore.Payments

open Miningcore.Configuration Persistence DaemonInterface Paging

/-- What `ClassifyBlocksAsync` never returns: an orphaned block with a reward. -/
def IsCleared (block : Block) : Prop := block.status = .orphaned → block.reward = 0

theorem isCleared_of_pending {block : Block} (pending : block.status = .pending) :
    IsCleared block := by
  intro orphans
  rw [pending] at orphans
  cases orphans

theorem isCleared_of_confirmed {block : Block} (confirmed : block.status = .confirmed) :
    IsCleared block := by
  intro orphans
  rw [confirmed] at orphans
  cases orphans

theorem isCleared_of_zero {block : Block} (zero : block.reward = 0) : IsCleared block := by
  intro _
  exact zero

/-! ## One block -/

theorem Bitcoin.classifyByCategory_cleared (takesAmount : Bool)
    (minimumConfirmations : Option Int) {block : Block} (confirmations : Int)
    (detail : TransactionDetails) (pending : block.status = .pending) :
    IsCleared
      (classifyByCategory takesAmount minimumConfirmations block confirmations detail) := by
  cases takesAmount with
  | false =>
      simp only [classifyByCategory, Bool.false_eq_true, if_false]
      split_ifs
      · exact isCleared_of_pending pending
      · exact isCleared_of_confirmed rfl
      · exact isCleared_of_zero rfl
  | true =>
      simp only [classifyByCategory, if_true]
      split_ifs
      · exact isCleared_of_pending pending
      · exact isCleared_of_confirmed rfl
      · exact isCleared_of_zero rfl

theorem Bitcoin.orphaned_cleared_iff (block : Block) :
    IsCleared (orphaned block) ↔ block.reward = 0 := by
  constructor
  · intro cleared
    exact cleared rfl
  · intro none _
    exact none

def Bitcoin.LeavesReward (cmdResult : DaemonResponse (Option (Token TransactionInfo))) : Prop :=
  (∃ error, cmdResult.error = some error ∧ error.code = -5) ∨
    cmdResult.error = none ∧ ∃ transactionInfo, toObject cmdResult.response = .ok transactionInfo ∧
      (transactionInfo.bind TransactionInfo.details).getD [] = []

theorem Bitcoin.classifyBlock_cleared {minimumConfirmations : Option Int} {page : List Block}
    {index : Nat} {cmdResult : DaemonResponse (Option (Token TransactionInfo))}
    {result : List Block}
    (classifies : classifyBlock minimumConfirmations page index cmdResult = .ok result)
    (pending : ∀ block ∈ page, block.status = .pending)
    (without : ∀ block, page[index]? = some block → LeavesReward cmdResult → block.reward = 0) :
    ∀ block ∈ result, IsCleared block := by
  simp only [classifyBlock, bind_eq_ok] at classifies
  rcases classifies with ⟨transactionInfo, converts, block, isElement, rest⟩
  rcases elementAt_ok.mp isElement with ⟨elements, isPage, isBlock⟩
  cases isPage
  intro other isOther
  cases given : cmdResult.error with
  | some error =>
      simp only [given, pure_eq_ok, classifyByError] at rest
      split_ifs at rest with lost
      · subst rest
        rw [List.mem_singleton.mp isOther, orphaned_cleared_iff]
        exact without block isBlock (.inl ⟨error, given, lost⟩)
      · subst rest
        cases isOther
  | none =>
      simp only [given] at rest
      rcases classifyByTransaction_cases rest with
        ⟨rfl, missing⟩ | ⟨confirmations, detail, -, rfl⟩
      · rw [List.mem_singleton.mp isOther, orphaned_cleared_iff]
        exact without block isBlock (.inr ⟨given, transactionInfo, converts, missing⟩)
      · rw [List.mem_singleton.mp isOther]
        exact classifyByCategory_cleared false minimumConfirmations confirmations detail
          (pending block (List.mem_of_getElem? isBlock))

theorem ExchangeCoin.classifyBlock_cleared {minimumConfirmations : Option Int} {block : Block}
    {reply : Reply (JsonRpcResponse TransactionInfo)} {result : List Block}
    (classifies : classifyBlock minimumConfirmations block reply = .ok result)
    (pending : block.status = .pending) (without : LeavesReward block reply → block.reward = 0) :
    ∀ block ∈ result, IsCleared block := by
  intro other isOther
  rcases classifyBlock_cases classifies with
    ⟨rfl, -⟩ | ⟨rfl, leaves⟩ | ⟨confirmations, detail, -, rfl⟩
  · cases isOther
  · rw [List.mem_singleton.mp isOther, Bitcoin.orphaned_cleared_iff]
    exact without leaves
  · rw [List.mem_singleton.mp isOther]
    exact Bitcoin.classifyByCategory_cleared true minimumConfirmations confirmations detail pending

theorem Monero.classifyByHeader_cleared (coin : CoinType) {block : Block} (header : BlockHeader)
    (pending : block.status = .pending) : IsCleared (classifyByHeader coin block header) := by
  rw [classifyByHeader]
  split_ifs
  · exact isCleared_of_zero rfl
  · exact isCleared_of_confirmed rfl
  · exact isCleared_of_pending pending

theorem Monero.classifyBlock_cleared {coin : CoinType} {block : Block}
    {reply : Reply (JsonRpcResponse GetBlockHeaderResponse)} {result : List Block}
    (classifies : classifyBlock coin block reply = .ok result)
    (pending : block.status = .pending) : ∀ block ∈ result, IsCleared block := by
  intro other isOther
  simp only [classifyBlock, bind_eq_ok] at classifies
  rcases classifies with ⟨rpcResult, -, rest⟩
  split_ifs at rest
  · cases rest
    cases isOther
  · cases given : rpcResult.response.bind GetBlockHeaderResponse.blockHeader with
    | none =>
        rw [given] at rest
        cases rest
        cases isOther
    | some header =>
        rw [given] at rest
        cases rest
        rw [List.mem_singleton.mp isOther]
        exact classifyByHeader_cleared coin header pending

theorem Ethereum.giveUp_cleared {block : Block} (pending : block.status = .pending) :
    IsCleared (giveUp block) := by
  rw [giveUp]
  split_ifs
  · exact isCleared_of_zero rfl
  · exact isCleared_of_pending pending

theorem Ethereum.isJudged_cleared {settings : Settings} {daemon : Daemon} {blocks : List Block}
    {given : Classification} (judged : IsJudged settings daemon blocks given)
    (pending : given.before.status = .pending) : IsCleared given.after := by
  rcases judged.judged with byBlock | byUncle | byProgress
  · rcases byBlock.result with ⟨-, reward, isAfter⟩ | ⟨-, isAfter⟩
    · rw [isAfter]
      exact isCleared_of_confirmed rfl
    · rw [isAfter]
      exact isCleared_of_pending pending
  · rcases byUncle.result with ⟨uncle, including, height, reward, -, -, -, isAfter⟩
    rw [isAfter]
    exact isCleared_of_confirmed rfl
  · rw [byProgress.result]
    exact giveUp_cleared pending

/-! ## Rounds -/

inductive Round
  | exchangeCoin (minimumConfirmations : Option Int)
      (replies : Nat → Reply (JsonRpcResponse TransactionInfo))
  | bitcoin (minimumConfirmations : Option Int)
      (replies : Nat → Reply (List (Option (JsonRpcResponse TransactionInfo))))
  | monero (coin : CoinType)
      (replies : Nat → Reply (JsonRpcResponse Monero.GetBlockHeaderResponse))
  | ethereum (settings : Ethereum.Settings) (daemon : Ethereum.Daemon)

namespace Round

def classifyBlocks (blocks : List Block) : Round → Except Exception (List Block)
  | exchangeCoin minimumConfirmations replies =>
      ExchangeCoin.classifyBlocks minimumConfirmations replies blocks
  | bitcoin minimumConfirmations replies =>
      Bitcoin.classifyBlocks minimumConfirmations replies blocks
  | monero coin replies => Monero.classifyBlocks coin replies blocks
  | ethereum settings daemon => Ethereum.classifyBlocks settings daemon blocks

def LosesNothing (blocks : List Block) : Round → Prop
  | exchangeCoin _ replies => ∀ position block, blocks[position]? = some block →
      ExchangeCoin.LeavesReward block (replies position) → block.reward = 0
  | bitcoin _ replies => ∀ index page results, (pages pageSize blocks)[index]? = some page →
      executeBatchAny (replies index) = .ok (some results) →
      ∀ (position : Nat) (block : Block) cmdResult, page[position]? = some block →
        results[position]? = some cmdResult → Bitcoin.LeavesReward cmdResult → block.reward = 0
  | monero _ _ => True
  | ethereum _ _ => True

end Round

theorem forEach_pages_cleared {body : Nat → Block → Except Exception (List Block)}
    {blocks result : List Block}
    (returns : forEach (fun index page => forEach body (index * pageSize) page) 0
      (pages pageSize blocks) = .ok result)
    (cleared : ∀ position block own, blocks[position]? = some block →
      body position block = .ok own → ∀ other ∈ own, IsCleared other) :
    ∀ block ∈ result, IsCleared block := by
  intro block isBlock
  rw [forEach_pages pageSize_pos body 0 blocks] at returns
  rcases mem_of_forEach returns isBlock with ⟨position, item, own, isItem, isOwn, isMember⟩
  rw [Nat.zero_mul, Nat.zero_add] at isOwn
  exact cleared position item own isItem isOwn block isMember

theorem Bitcoin.classifyBlocks_cleared {minimumConfirmations : Option Int}
    {replies : Nat → Reply (List (Option (JsonRpcResponse TransactionInfo)))}
    {blocks result : List Block}
    (classifies : classifyBlocks minimumConfirmations replies blocks = .ok result)
    (pending : ∀ block ∈ blocks, block.status = .pending)
    (losesNothing : Round.LosesNothing blocks (.bitcoin minimumConfirmations replies)) :
    ∀ block ∈ result, IsCleared block := by
  intro block isBlock
  rw [classifyBlocks] at classifies
  rcases mem_of_forEach classifies isBlock with ⟨index, page, own, isPage, isOwn, isMember⟩
  rw [Nat.zero_add] at isOwn
  simp only [classifyPage, bind_eq_ok, nonNull_eq_ok] at isOwn
  rcases isOwn with ⟨results, executes, present, rfl, loops⟩
  rcases mem_of_forEach loops isMember with
    ⟨position, cmdResult, single, isResult, isSingle, isLast⟩
  rw [Nat.zero_add] at isSingle
  refine classifyBlock_cleared isSingle ?_ ?_ block isLast
  · intro other isOther
    exact pending other (mem_of_mem_pages (List.mem_of_getElem? isPage) isOther)
  · intro other isOther
    exact losesNothing index page present isPage executes position other cmdResult isOther isResult

theorem Round.classifyBlocks_cleared {blocks result : List Block} {round : Round}
    (classifies : round.classifyBlocks blocks = .ok result)
    (pending : ∀ block ∈ blocks, block.status = .pending)
    (losesNothing : round.LosesNothing blocks) : ∀ block ∈ result, IsCleared block := by
  cases round with
  | exchangeCoin minimumConfirmations replies =>
      apply forEach_pages_cleared classifies
      intro position block own isBlock isOwn
      exact ExchangeCoin.classifyBlock_cleared isOwn (pending block (List.mem_of_getElem? isBlock))
        (losesNothing position block isBlock)
  | bitcoin minimumConfirmations replies =>
      exact Bitcoin.classifyBlocks_cleared classifies pending losesNothing
  | monero coin replies =>
      apply forEach_pages_cleared classifies
      intro position block own isBlock isOwn
      exact Monero.classifyBlock_cleared isOwn (pending block (List.mem_of_getElem? isBlock))
  | ethereum settings daemon =>
      simp only [Round.classifyBlocks, Ethereum.classifyBlocks, bind_eq_ok, pure_eq_ok]
        at classifies
      rcases classifies with ⟨judged, classifies, rfl⟩
      intro block isBlock
      rcases List.mem_map.mp isBlock with ⟨given, isGiven, rfl⟩
      have own := Ethereum.classifications_judged classifies given isGiven
      exact Ethereum.isJudged_cleared own (pending given.before own.block)

/-! ## Runs -/

/-- A block is recorded, or the pending blocks of a pool are classified and what is committed is
written. -/
inductive BlockEvent
  | found (block : Block)
  | classify (poolId : Text) (round : Round) (committed : Nat → Bool)

def returnedBlocks (blocks : List Block) : BlockEvent → Option (List Block)
  | .found _ => none
  | .classify poolId round _ =>
      (round.classifyBlocks (getPendingBlocksForPool blocks poolId)).toOption

def blockStep (blocks : List Block) (event : BlockEvent) : List Block :=
  match event with
  | .found block => blocks ++ [block]
  | .classify _ _ committed =>
      match returnedBlocks blocks event with
      | none => blocks
      | some returned => writeBlocks committed blocks returned

def ClearsRewards (blocks : List Block) : BlockEvent → Prop
  | .found _ => True
  | .classify poolId round _ => round.LosesNothing (getPendingBlocksForPool blocks poolId)

theorem returnedBlocks_cleared (blocks : List Block) (event : BlockEvent) (returned : List Block)
    (clears : ClearsRewards blocks event) (returns : returnedBlocks blocks event = some returned) :
    ∀ block ∈ returned, IsCleared block := by
  cases event with
  | found block => cases returns
  | classify poolId round committed =>
      rw [returnedBlocks] at returns
      cases outcome : round.classifyBlocks (getPendingBlocksForPool blocks poolId) with
      | error exception =>
          rw [outcome] at returns
          cases returns
      | ok result =>
          rw [outcome] at returns
          cases returns
          apply Round.classifyBlocks_cleared outcome _ clears
          intro block isPending
          exact getPendingBlocksForPool_pending isPending

/-- In every run of rounds of any handlers in which the replies that leave a reward alone meet
blocks without one, every orphaned block is returned without a reward. -/
theorem orphaned_without_reward (blocks : List Block) (events : List BlockEvent)
    (clears : Run.Along blockStep ClearsRewards blocks events) :
    ∀ returned ∈ Run.emitted blockStep returnedBlocks blocks events,
      ∀ block ∈ returned, block.status = .orphaned → block.reward = 0 := by
  apply Run.emitted_forall_along blockStep returnedBlocks ClearsRewards (fun _ => True)
    (fun _ _ _ _ => trivial) (fun returned => ∀ block ∈ returned, IsCleared block) _ blocks trivial
    events clears
  intro state event returned now _ returns
  exact returnedBlocks_cleared state event returned now returns

/-! ### A block that the wallet does not know

It was recorded with a reward of 25. -/

namespace SampleOrphans

def block : Block := ExchangeCoin.SampleReplies.block 1 10

def poolId : Text := text "exc1"

def orphan : JsonRpcResponse TransactionInfo where
  result := some (.ok (some {
    confirmations := 0
    blockHash := some (text "ab")
    details := some [some { category := some (text "orphan"), amount := 25 }] }))
  error := none

def unknown : JsonRpcResponse TransactionInfo where
  result := none
  error := some ⟨-5, text "Invalid or non-wallet transaction id"⟩

def exchangeCoin (reply : JsonRpcResponse TransactionInfo) : List BlockEvent :=
  [.found block,
    .classify poolId (.exchangeCoin none fun _ => .received (some reply)) fun _ => true]

def bitcoin (reply : JsonRpcResponse TransactionInfo) : List BlockEvent :=
  [.found block,
    .classify poolId (.bitcoin none fun _ => .received (some [some reply])) fun _ => true]

theorem orphan_clears : ¬ExchangeCoin.LeavesReward block (.received (some orphan)) := by
  rintro ⟨body, isBody, leaves⟩
  cases isBody
  rcases leaves with ⟨error, isError, -⟩ | ⟨-, info, isInfo, different | missing⟩
  · cases isError
  · cases isInfo
    exact different rfl
  · cases isInfo
    cases missing

end SampleOrphans

theorem orphaned_without_reward_category :
    Run.emitted blockStep returnedBlocks [] (SampleOrphans.exchangeCoin SampleOrphans.orphan) =
        [[{ SampleOrphans.block with status := .orphaned, reward := 0 }]] ∧
      ∀ returned ∈ Run.emitted blockStep returnedBlocks []
          (SampleOrphans.exchangeCoin SampleOrphans.orphan),
        ∀ block ∈ returned, block.status = .orphaned → block.reward = 0 := by
  refine ⟨rfl, orphaned_without_reward [] _ ⟨trivial, ?_, trivial⟩⟩
  intro position block isBlock leaves
  have isSample : block = SampleOrphans.block :=
    List.mem_singleton.mp (List.mem_of_mem_filter (List.mem_of_getElem? isBlock))
  rw [isSample] at leaves
  exact absurd leaves SampleOrphans.orphan_clears

theorem orphaned_with_reward :
    Run.emitted blockStep returnedBlocks [] (SampleOrphans.exchangeCoin SampleOrphans.unknown) =
        [[{ SampleOrphans.block with status := .orphaned }]] ∧
      Run.emitted blockStep returnedBlocks [] (SampleOrphans.bitcoin SampleOrphans.unknown) =
        [[{ SampleOrphans.block with status := .orphaned }]] ∧
      SampleOrphans.block.reward = 25 ∧
      ¬∀ returned ∈ Run.emitted blockStep returnedBlocks []
          (SampleOrphans.exchangeCoin SampleOrphans.unknown),
        ∀ block ∈ returned, block.status = .orphaned → block.reward = 0 := by
  refine ⟨rfl, rfl, rfl, ?_⟩
  intro all
  have zero := all _ List.mem_cons_self _ List.mem_cons_self rfl
  exact absurd zero (by decide)

end Miningcore.Payments

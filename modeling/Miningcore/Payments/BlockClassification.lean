import Miningcore.DaemonInterface.DaemonClient
import Miningcore.Foundation.Paging
import Miningcore.Payments.MoneroPayout
import Miningcore.Payments.PayoutManager

/-! `ClassifyBlocksAsync` of the handlers for ExchangeCoin, Bitcoin and Monero.

A handler goes through the pending blocks in pages and asks its daemon or wallet for each of
them. What it returns is written to the database; an exception ends the round. -/

namespace Miningcore.Payments

open Miningcore.Configuration Persistence DaemonInterface Paging

def pageSize : Nat := 100

theorem pageSize_pos : 0 < pageSize := Nat.succ_pos 99

def nonNull {α : Type} : Option α → Except Exception α
  | none => .error .nullReference
  | some value => .ok value

@[simp] theorem nonNull_eq_ok {α : Type} (value : Option α) (result : α) :
    nonNull value = .ok result ↔ value = some result := by
  cases value with
  | none => simp [nonNull]
  | some given => simp [nonNull]

structure TransactionDetails where
  category : Option Text
  amount : ℚ

/-- `DaemonResponses.Transaction`, as far as it is read. -/
structure TransactionInfo where
  confirmations : Int
  blockHash : Option Text
  details : Option (List (Option TransactionDetails))

/-! ## Bitcoin and ExchangeCoin -/

namespace Bitcoin

def coinbaseMinConfimations : Int := 102

def orphaned (block : Block) : Block := { block with status := .orphaned }

/-- What an error of the daemon says about a block. Code -5 is interpreted as orphaned. -/
def classifyByError (block : Block) (error : JsonRpcException) : List Block :=
  if error.code = -5 then [orphaned block] else []

/-- What the first detail of the coinbase transaction says about its block. Only one of the
handlers takes the reward from there. With a minimum of zero the progress is no number; it is
zero here. -/
def classifyByCategory (takesAmount : Bool) (minimumConfirmations : Option Int) (block : Block)
    (confirmations : Int) (detail : TransactionDetails) : Block :=
  let minConfirmations := minimumConfirmations.getD coinbaseMinConfimations
  let rewarded := if takesAmount then { block with reward := detail.amount } else block
  if detail.category = some (text "immature") then
    { rewarded with confirmationProgress := min 1 (confirmations / minConfirmations) }
  else if detail.category = some (text "generate") then
    { rewarded with status := .confirmed, confirmationProgress := 1 }
  else { block with status := .orphaned, reward := 0 }

/-- What the coinbase transaction says about its block. Missing details are interpreted as
orphaned. -/
def classifyByTransaction (takesAmount : Bool) (minimumConfirmations : Option Int) (block : Block)
    (transactionInfo : Option TransactionInfo) : Except Exception (List Block) :=
  match transactionInfo with
  | none => .ok [orphaned block]
  | some info =>
      match info.details with
      | none => .ok [orphaned block]
      | some [] => .ok [orphaned block]
      | some (first :: _) => do
          let detail ← nonNull first
          return [classifyByCategory takesAmount minimumConfirmations block info.confirmations detail]

def classifyBlock (minimumConfirmations : Option Int) (page : List Block) (index : Nat)
    (cmdResult : DaemonResponse (Option (Token TransactionInfo))) :
    Except Exception (List Block) := do
  let transactionInfo ← toObject cmdResult.response
  let block ← elementAt (some page) index
  match cmdResult.error with
  | some error => return classifyByError block error
  | none => classifyByTransaction false minimumConfirmations block transactionInfo

def classifyPage (minimumConfirmations : Option Int)
    (replies : Nat → Reply (List (Option (JsonRpcResponse TransactionInfo)))) (index : Nat)
    (page : List Block) : Except Exception (List Block) := do
  let results ← executeBatchAny (replies index)
  let present ← nonNull results
  forEach (classifyBlock minimumConfirmations page) 0 present

def classifyBlocks (minimumConfirmations : Option Int)
    (replies : Nat → Reply (List (Option (JsonRpcResponse TransactionInfo))))
    (blocks : List Block) : Except Exception (List Block) :=
  forEach (classifyPage minimumConfirmations replies) 0 (pages pageSize blocks)

end Bitcoin

namespace ExchangeCoin

/-- The body of the inner loop. The hash of the block is compared before missing details are
looked for. -/
def classifyBlock (minimumConfirmations : Option Int) (block : Block)
    (reply : Reply (JsonRpcResponse TransactionInfo)) : Except Exception (List Block) := do
  let cmdResult ← executeCmdSingle reply
  match cmdResult.error with
  | some error => return Bitcoin.classifyByError block error
  | none => do
      let transactionInfo ← nonNull cmdResult.response
      let blockHash ← nonNull transactionInfo.blockHash
      if some blockHash ≠ block.hash then return [Bitcoin.orphaned block]
      else Bitcoin.classifyByTransaction true minimumConfirmations block (some transactionInfo)

def classifyBlocks (minimumConfirmations : Option Int)
    (replies : Nat → Reply (JsonRpcResponse TransactionInfo)) (blocks : List Block) :
    Except Exception (List Block) :=
  forEach (fun index page =>
      forEach (fun position block => classifyBlock minimumConfirmations block (replies position))
        (index * pageSize) page)
    0 (pages pageSize blocks)

end ExchangeCoin

/-! ## Monero -/

namespace Monero

structure BlockHeader where
  depth : Int
  hash : Option Text
  isOrphaned : Bool
  reward : Nat

structure GetBlockHeaderResponse where
  blockHeader : Option BlockHeader

def payoutMinBlockConfirmations : Int := 60

def classifyByHeader (coin : CoinType) (block : Block) (header : BlockHeader) : Block :=
  let progressed :=
    { block with confirmationProgress := min 1 (header.depth / payoutMinBlockConfirmations) }
  if header.isOrphaned ∨ header.hash ≠ some block.transactionConfirmationData then
    { progressed with status := .orphaned, reward := 0 }
  else if payoutMinBlockConfirmations ≤ header.depth then
    { progressed with
      status := .confirmed
      confirmationProgress := 1
      reward := header.reward / smallestUnit coin }
  else progressed

def classifyBlock (coin : CoinType) (block : Block)
    (reply : Reply (JsonRpcResponse GetBlockHeaderResponse)) : Except Exception (List Block) := do
  let rpcResult ← executeCmdAny reply
  if rpcResult.error.isSome then return []
  else
    match rpcResult.response.bind GetBlockHeaderResponse.blockHeader with
    | none => return []
    | some header => return [classifyByHeader coin block header]

def classifyBlocks (coin : CoinType)
    (replies : Nat → Reply (JsonRpcResponse GetBlockHeaderResponse)) (blocks : List Block) :
    Except Exception (List Block) :=
  forEach (fun index page =>
      forEach (fun position block => classifyBlock coin block (replies position))
        (index * pageSize) page)
    0 (Paging.pages pageSize blocks)

end Monero

/-! ## What a round writes -/

theorem getPendingBlocksForPool_pending {blocks : List Block} {poolId : Text} {block : Block}
    (isPending : block ∈ getPendingBlocksForPool blocks poolId) : block.status = .pending := by
  have both := (List.mem_filter.mp isPending).2
  rw [decide_eq_true_eq] at both
  exact both.2

def writeBlock (blocks : List Block) (block : Block) : List Block :=
  match numeric block.reward with
  | .error _ => blocks
  | .ok reward => blocks.map fun stored =>
      if stored.id = block.id then block.update stored reward else stored

def writeBlocks (committed : Nat → Bool) (blocks returned : List Block) : List Block :=
  (returned.filter fun block => committed block.id).foldl writeBlock blocks

theorem writeBlocks_keys (committed : Nat → Bool) (blocks returned : List Block) :
    (writeBlocks committed blocks returned).map
        (fun block => (block.id, block.transactionConfirmationData)) =
      blocks.map fun block => (block.id, block.transactionConfirmationData) := by
  rw [writeBlocks]
  induction returned.filter fun block => committed block.id generalizing blocks with
  | nil => rfl
  | cons block returned induction =>
      rw [List.foldl_cons, induction, writeBlock]
      cases numeric block.reward with
      | error exception => rfl
      | ok reward =>
          simp only [List.map_map]
          apply List.map_congr_left
          intro stored _
          rw [Function.comp_apply]
          split_ifs
          · rfl
          · rfl

/-! ## Independence -/

theorem Bitcoin.classifyByTransaction_cases {takesAmount : Bool}
    {minimumConfirmations : Option Int} {block : Block} {transactionInfo : Option TransactionInfo}
    {result : List Block}
    (classifies : classifyByTransaction takesAmount minimumConfirmations block transactionInfo =
      .ok result) :
    (result = [orphaned block] ∧ (transactionInfo.bind TransactionInfo.details).getD [] = []) ∨
      ∃ confirmations detail, (transactionInfo.bind TransactionInfo.details).getD [] ≠ [] ∧
        result =
          [classifyByCategory takesAmount minimumConfirmations block confirmations detail] := by
  cases transactionInfo with
  | none =>
      cases classifies
      exact .inl ⟨rfl, rfl⟩
  | some info =>
      simp only [classifyByTransaction] at classifies
      rw [Option.bind_some]
      match given : info.details with
      | none =>
          rw [given] at classifies
          cases classifies
          exact .inl ⟨rfl, rfl⟩
      | some [] =>
          rw [given] at classifies
          cases classifies
          exact .inl ⟨rfl, rfl⟩
      | some (first :: others) =>
          simp only [given, bind_eq_ok, pure_eq_ok] at classifies
          rcases classifies with ⟨detail, -, rfl⟩
          exact .inr ⟨info.confirmations, detail, List.cons_ne_nil _ _, rfl⟩

theorem Bitcoin.classifyByCategory_classified (takesAmount : Bool)
    (minimumConfirmations : Option Int) (block : Block) (confirmations : Int)
    (detail : TransactionDetails) :
    ∃ verdict, classifyByCategory takesAmount minimumConfirmations block confirmations detail =
      Block.classified block verdict := by
  rw [classifyByCategory]
  cases takesAmount <;> split_ifs <;> exact ⟨⟨_, _, _, _, _⟩, rfl⟩

theorem Bitcoin.orphaned_classified (block : Block) :
    ∃ verdict, orphaned block = Block.classified block verdict :=
  ⟨⟨_, _, _, _, _⟩, rfl⟩

namespace ExchangeCoin

/-- The replies after which a block is to be left alone: there is none, or an error other than
-5. -/
def IsTransient (reply : Reply (JsonRpcResponse TransactionInfo)) : Prop :=
  (∃ exception, reply = .lost exception) ∨
    ∃ body error, reply = .received (some body) ∧ body.error = some error ∧ error.code ≠ -5

def returned (minimumConfirmations : Option Int) (block : Block)
    (reply : Reply (JsonRpcResponse TransactionInfo)) : List Block :=
  match classifyBlock minimumConfirmations block reply with
  | .ok result => result
  | .error _ => []

/-- No exception, each block by its own reply, no block twice, and blocks with transient replies
not at all. -/
structure ClassifiesEach (minimumConfirmations : Option Int)
    (replies : Nat → Reply (JsonRpcResponse TransactionInfo)) (blocks result : List Block) :
    Prop where
  returns : classifyBlocks minimumConfirmations replies blocks = .ok result
  independent : result = blocks.zipIdx.flatMap fun entry =>
    returned minimumConfirmations entry.1 (replies entry.2)
  once : (result.map Block.id).Sublist (blocks.map Block.id)
  skipped : ∀ position block, blocks[position]? = some block → IsTransient (replies position) →
    returned minimumConfirmations block (replies position) = []

/-- A reply that the handler can deal with: an error, or a transaction with the hash of its
block, whose first detail is there if the hash is the right one. -/
def IsHandled (block : Block) (reply : Reply (JsonRpcResponse TransactionInfo)) : Prop :=
  ∃ body response, reply = .received (some body) ∧ toObject body.result = .ok response ∧
    (body.error.isSome = true ∨
      ∃ info blockHash, response = some info ∧ info.blockHash = some blockHash ∧
        (some blockHash = block.hash → ∀ details, info.details = some details →
          details.head? ≠ some none))

theorem classifyByTransaction_ok_iff {takesAmount : Bool} {minimumConfirmations : Option Int}
    {block : Block} {info : TransactionInfo} :
    (∃ result, Bitcoin.classifyByTransaction takesAmount minimumConfirmations block (some info) =
        .ok result) ↔
      ∀ details, info.details = some details → details.head? ≠ some none := by
  rw [Bitcoin.classifyByTransaction]
  match given : info.details with
  | none => simp
  | some [] => simp
  | some (none :: _) => simp [nonNull, bind, Except.bind]
  | some (some detail :: others) =>
      constructor
      · intro _ details isDetails
        cases isDetails
        simp
      · intro _
        exact ⟨_, rfl⟩

theorem classifyBlock_ok_iff {minimumConfirmations : Option Int} {block : Block}
    {reply : Reply (JsonRpcResponse TransactionInfo)} :
    (∃ result, classifyBlock minimumConfirmations block reply = .ok result) ↔
      IsHandled block reply := by
  match reply with
  | .lost exception => simp [classifyBlock, executeCmdSingle, IsHandled]
  | .received none => simp [classifyBlock, executeCmdSingle, IsHandled]
  | .received (some body) =>
      have handled : IsHandled block (.received (some body)) ↔
          ∃ response, toObject body.result = .ok response ∧
            (body.error.isSome = true ∨
              ∃ info blockHash, response = some info ∧ info.blockHash = some blockHash ∧
                (some blockHash = block.hash → ∀ details, info.details = some details →
                  details.head? ≠ some none)) := by
        simp [IsHandled]
      rw [handled]
      simp only [classifyBlock, executeCmdSingle, bind_eq_ok, pure_eq_ok]
      constructor
      · rintro ⟨result, cmdResult, ⟨response, converts, isResult⟩, classifies⟩
        refine ⟨response, converts, ?_⟩
        subst isResult
        cases given : body.error with
        | some error => exact .inl rfl
        | none =>
            right
            simp only [given, bind_eq_ok, nonNull_eq_ok] at classifies
            rcases classifies with ⟨info, isInfo, blockHash, isHash, rest⟩
            refine ⟨info, blockHash, isInfo, isHash, ?_⟩
            intro same
            rw [if_neg (not_not.mpr same)] at rest
            exact classifyByTransaction_ok_iff.mp ⟨result, rest⟩
      · rintro ⟨response, converts, answer⟩
        cases given : body.error with
        | some error => exact ⟨_, _, ⟨response, converts, rfl⟩, rfl⟩
        | none =>
            rcases answer with isSome | ⟨info, blockHash, rfl, isHash, first⟩
            · rw [given] at isSome
              cases isSome
            · by_cases same : some blockHash = block.hash
              · rcases classifyByTransaction_ok_iff.mpr (first same) with ⟨result, classifies⟩
                refine ⟨result, _, ⟨_, converts, rfl⟩, ?_⟩
                simp only [bind_eq_ok, nonNull_eq_ok]
                refine ⟨info, rfl, blockHash, isHash, ?_⟩
                rw [if_neg (not_not.mpr same)]
                exact classifies
              · refine ⟨[Bitcoin.orphaned block], _, ⟨_, converts, rfl⟩, ?_⟩
                simp only [bind_eq_ok, nonNull_eq_ok]
                refine ⟨info, rfl, blockHash, isHash, ?_⟩
                rw [if_pos same]
                rfl

/-- The reply orphans a block and the code leaves its reward alone: error -5, the hash of another
block, or no details. -/
def LeavesReward (block : Block) (reply : Reply (JsonRpcResponse TransactionInfo)) : Prop :=
  ∃ body, reply = .received (some body) ∧
    ((∃ error, body.error = some error ∧ error.code = -5) ∨
      body.error = none ∧ ∃ info, toObject body.result = .ok (some info) ∧
        (info.blockHash ≠ block.hash ∨ info.details.getD [] = []))

theorem classifyBlock_cases {minimumConfirmations : Option Int} {block : Block}
    {reply : Reply (JsonRpcResponse TransactionInfo)} {result : List Block}
    (classifies : classifyBlock minimumConfirmations block reply = .ok result) :
    (result = [] ∧ ¬LeavesReward block reply) ∨
      (result = [Bitcoin.orphaned block] ∧ LeavesReward block reply) ∨
      ∃ confirmations detail, ¬LeavesReward block reply ∧
        result = [Bitcoin.classifyByCategory true minimumConfirmations block confirmations detail] := by
  match reply with
  | .lost exception => cases classifies
  | .received none => cases classifies
  | .received (some body) =>
      have leaves : LeavesReward block (.received (some body)) ↔
          (∃ error, body.error = some error ∧ error.code = -5) ∨
            body.error = none ∧ ∃ info, toObject body.result = .ok (some info) ∧
              (info.blockHash ≠ block.hash ∨ info.details.getD [] = []) := by
        simp [LeavesReward]
      rw [leaves]
      simp only [classifyBlock, executeCmdSingle, bind_eq_ok, pure_eq_ok] at classifies
      rcases classifies with ⟨cmdResult, ⟨response, converts, isResult⟩, rest⟩
      subst isResult
      cases given : body.error with
      | some error =>
          simp only [given, pure_eq_ok, Bitcoin.classifyByError] at rest
          split_ifs at rest with lost
          · right
            left
            exact ⟨rest.symm, .inl ⟨error, rfl, lost⟩⟩
          · left
            refine ⟨rest.symm, ?_⟩
            simp [lost]
      | none =>
          simp only [given, bind_eq_ok, nonNull_eq_ok] at rest
          rcases rest with ⟨info, rfl, blockHash, isHash, rest⟩
          have other : info.blockHash ≠ block.hash ↔ some blockHash ≠ block.hash := by
            rw [isHash]
          have leaves : (∃ error : JsonRpcException, none = some error ∧ error.code = -5) ∨
              none = (none : Option JsonRpcException) ∧
                (∃ given, toObject body.result = .ok (some given) ∧
                  (given.blockHash ≠ block.hash ∨ given.details.getD [] = [])) ↔
              some blockHash ≠ block.hash ∨ info.details.getD [] = [] := by
            simp [converts, other]
          rw [leaves]
          split_ifs at rest with different
          · right
            left
            cases rest
            exact ⟨rfl, .inl different⟩
          · rcases Bitcoin.classifyByTransaction_cases rest with
              ⟨orphans, missing⟩ | ⟨confirmations, detail, present, isCategory⟩
            · exact .inr (.inl ⟨orphans, .inr missing⟩)
            · refine .inr (.inr ⟨confirmations, detail, ?_, isCategory⟩)
              rw [not_or]
              exact ⟨different, present⟩

theorem classifyBlock_classified {minimumConfirmations : Option Int} {block : Block}
    {reply : Reply (JsonRpcResponse TransactionInfo)} {result : List Block}
    (classifies : classifyBlock minimumConfirmations block reply = .ok result) :
    result = [] ∨ ∃ verdict, result = [Block.classified block verdict] := by
  rcases classifyBlock_cases classifies with
    ⟨rfl, -⟩ | ⟨rfl, -⟩ | ⟨confirmations, detail, -, rfl⟩
  · exact .inl rfl
  · rcases Bitcoin.orphaned_classified block with ⟨verdict, same⟩
    exact .inr ⟨verdict, by rw [same]⟩
  · rcases Bitcoin.classifyByCategory_classified true minimumConfirmations block confirmations
      detail with ⟨verdict, same⟩
    exact .inr ⟨verdict, by rw [same]⟩

theorem returned_ids (minimumConfirmations : Option Int) (block : Block)
    (reply : Reply (JsonRpcResponse TransactionInfo)) :
    ((returned minimumConfirmations block reply).map Block.id).Sublist [block.id] := by
  rw [returned]
  cases outcome : classifyBlock minimumConfirmations block reply with
  | error exception => exact List.nil_sublist _
  | ok result =>
      rcases classifyBlock_classified outcome with rfl | ⟨verdict, rfl⟩
      · exact List.nil_sublist _
      · exact List.Sublist.refl _

theorem returned_of_transient {minimumConfirmations : Option Int} {block : Block}
    {reply : Reply (JsonRpcResponse TransactionInfo)} (transient : IsTransient reply) :
    returned minimumConfirmations block reply = [] := by
  rcases transient with ⟨exception, rfl⟩ | ⟨body, error, rfl, isError, other⟩
  · rfl
  · rw [returned, classifyBlock, executeCmdSingle]
    cases toObject body.result with
    | error exception => rfl
    | ok response =>
        simp only [bind, Except.bind, pure, Except.pure, isError, Bitcoin.classifyByError]
        rw [if_neg other]

theorem flatMap_returned_ids (minimumConfirmations : Option Int)
    (replies : Nat → Reply (JsonRpcResponse TransactionInfo)) (start : Nat)
    (blocks : List Block) :
    (((blocks.zipIdx start).flatMap fun entry =>
      returned minimumConfirmations entry.1 (replies entry.2)).map Block.id).Sublist
        (blocks.map Block.id) := by
  induction blocks generalizing start with
  | nil => exact List.Sublist.refl _
  | cons block blocks induction =>
      rw [List.zipIdx_cons, List.flatMap_cons, List.map_append, List.map_cons]
      exact (returned_ids minimumConfirmations block (replies start)).append (induction (start + 1))

/-- For every list of pending blocks and every assignment of replies: the classification is
total, each block is classified by its own reply and returned at most once exactly if every reply
can be dealt with. -/
theorem classifiesEach_iff (minimumConfirmations : Option Int)
    (replies : Nat → Reply (JsonRpcResponse TransactionInfo)) (blocks : List Block) :
    (∃ result, ClassifiesEach minimumConfirmations replies blocks result) ↔
      ∀ position block, blocks[position]? = some block → IsHandled block (replies position) := by
  have loop := forEach_pages pageSize_pos
    (fun position block => classifyBlock minimumConfirmations block (replies position)) 0 blocks
  rw [Nat.zero_mul] at loop
  constructor
  · rintro ⟨result, classifies⟩ position block isBlock
    have returns := classifies.returns
    rw [classifyBlocks, loop] at returns
    rcases forEach_body_ok returns isBlock with ⟨own, ownReturns⟩
    rw [Nat.zero_add] at ownReturns
    exact classifyBlock_ok_iff.mp ⟨own, ownReturns⟩
  · intro handled
    refine ⟨_, ?_, rfl, flatMap_returned_ids minimumConfirmations replies 0 blocks, ?_⟩
    · rw [classifyBlocks, loop]
      apply forEach_of_ok fun position block =>
        returned minimumConfirmations block (replies position)
      intro position block isBlock
      rcases classifyBlock_ok_iff.mpr (handled position block isBlock) with ⟨own, ownReturns⟩
      rw [Nat.zero_add, ownReturns, returned, ownReturns]
    · intro position block isBlock transient
      exact returned_of_transient transient

/-! ### Replies that end the round

The wallet knows the second block as a mature one. -/

namespace SampleReplies

def block (id height : Nat) : Block where
  id := id
  poolId := text "exc1"
  blockHeight := height
  networkDifficulty := 1
  status := .pending
  type := none
  confirmationProgress := 0
  effort := none
  transactionConfirmationData := text "c0"
  reward := 25
  hash := some (text "ab")
  created := height

def blocks : List Block := [block 1 10, block 2 11]

def transaction (blockHash : Option Text) : TransactionInfo where
  confirmations := 200
  blockHash
  details := some [some { category := some (text "generate"), amount := 25 }]

def answer (info : TransactionInfo) : Reply (JsonRpcResponse TransactionInfo) :=
  .received (some { result := some (.ok (some info)), error := none })

def replies (first : Reply (JsonRpcResponse TransactionInfo)) (position : Nat) :
    Reply (JsonRpcResponse TransactionInfo) :=
  if position = 0 then first else answer (transaction (some (text "ab")))

def refused : Reply (JsonRpcResponse TransactionInfo) := .lost (.exception "Connection refused")

def unconfirmed : Reply (JsonRpcResponse TransactionInfo) := answer (transaction none)

end SampleReplies

/-- A transport failure and a transaction that is in no block both keep the other block from
being returned. -/
theorem classification_aborted :
    classifyBlocks none (SampleReplies.replies SampleReplies.refused) SampleReplies.blocks =
        .error (.exception "Connection refused") ∧
      classifyBlocks none (SampleReplies.replies SampleReplies.unconfirmed)
        SampleReplies.blocks = .error .nullReference ∧
      ¬∃ result, ClassifiesEach none (SampleReplies.replies SampleReplies.refused)
        SampleReplies.blocks result := by
  have lost : classifyBlocks none (SampleReplies.replies SampleReplies.refused)
      SampleReplies.blocks = .error (.exception "Connection refused") := rfl
  refine ⟨lost, rfl, ?_⟩
  rintro ⟨result, classifies⟩
  rw [classifies.returns] at lost
  cases lost

end ExchangeCoin

end Miningcore.Payments

import Miningcore.Foundation.Run
import Miningcore.Payments.EthereumMaturity

/-! The blocks of the chain that Ethereum blocks of the pool are confirmed on.

A block is looked for by the address of its miner. The mix hash and the nonce that it was recorded
with are compared at its own height, but nothing depends on the result. -/

namespace Miningcore.Payments.Ethereum

open Persistence DaemonInterface

def sealOf (block : Block) : Text × Text := ((mixHash block).drop 2, (nonce block).drop 2)

def Carries (info : BlockInfo) (block : Block) : Prop := sealMatches info block = .ok true

theorem substring_ok {start : Nat} {given result : Text} (ok : substring start given = .ok result) :
    result = given.drop start := by
  rw [substring] at ok
  split_ifs at ok
  cases ok
  rfl

theorem sealOf_of_carries {info : BlockInfo} {block : Block} (carries : Carries info block) :
    sealField info 0 = .ok (sealOf block).1 ∧ sealField info 1 = .ok (sealOf block).2 := by
  simp only [Carries, sealMatches, bind_eq_ok] at carries
  rcases carries with ⟨first, isFirst, expected, isExpected, rest⟩
  split_ifs at rest with same
  · simp only [bind_eq_ok, pure_eq_ok, decide_eq_true_eq] at rest
    rcases rest with ⟨second, isSecond, expectedNonce, isNonce, sameNonce⟩
    rw [isFirst, isSecond, same, sameNonce, substring_ok isExpected, substring_ok isNonce]
    exact ⟨rfl, rfl⟩
  · cases rest

theorem sealOf_eq_of_carries {info : BlockInfo} {first second : Block}
    (carriesFirst : Carries info first) (carriesSecond : Carries info second) :
    sealOf first = sealOf second := by
  rcases sealOf_of_carries carriesFirst with ⟨firstMix, firstNonce⟩
  rcases sealOf_of_carries carriesSecond with ⟨secondMix, secondNonce⟩
  rw [firstMix] at secondMix
  rw [firstNonce] at secondNonce
  apply Prod.ext
  · exact Except.ok.inj secondMix
  · exact Except.ok.inj secondNonce

/-! ## Rounds -/

/-- The rows of the pool's blocks, and all classifications so far. -/
structure CreditState where
  blocks : List Block
  judged : List Classification

def CreditState.initial : CreditState where
  blocks := []
  judged := []

inductive CreditEvent
  | found (block : Block)
  | round (daemon : Daemon) (committed : Nat → Bool)

section Rounds

variable (settings : Settings) (poolId : Text)

/-- A block is recorded, or the pending blocks are classified and what is committed is written. -/
def creditStep (state : CreditState) : CreditEvent → CreditState
  | .found block => { state with blocks := state.blocks ++ [block] }
  | .round daemon committed =>
      match classifications settings daemon (getPendingBlocksForPool state.blocks poolId) with
      | .error _ => state
      | .ok judged =>
          { blocks := writeBlocks committed state.blocks (judged.map Classification.after)
            judged := state.judged ++ judged }

def Classification.ground (given : Classification) : Option BlockInfo :=
  if given.info.miner = some settings.address then some given.info
  else given.uncle.map Prod.fst

/-- Each confirmed block has a ground that carries its mix hash and nonce, and no two blocks have
the same one. -/
structure CreditsOnce (judged : List Classification) : Prop where
  carried : ∀ given ∈ judged, given.after.status = .confirmed →
    ∃ ground, given.ground settings = some ground ∧ Carries ground given.before
  once : ∀ first ∈ judged, ∀ second ∈ judged, first.after.status = .confirmed →
    second.after.status = .confirmed → ∀ ground, first.ground settings = some ground →
    second.ground settings = some ground → first.before.id = second.before.id

/-- Blocks are found with different mix hashes or nonces, and the chain shows no other block of
the pool's at the height of a pending block or among the uncles around it. -/
def IsIdentified (state : CreditState) : CreditEvent → Prop
  | .found block => ∀ stored ∈ state.blocks, sealOf stored ≠ sealOf block
  | .round daemon _ => ∀ block ∈ getPendingBlocksForPool state.blocks poolId,
      (∀ info, daemon.ShowsBlock info → info.height = some (heightOf block) →
        info.miner = some settings.address → Carries info block) ∧
      ∀ uncle, daemon.ShowsUncle block uncle → uncle.miner = some settings.address →
        Carries uncle block

/-- The rows have different seals, and those of the classified blocks are among them. -/
structure IsCredited (state : CreditState) : Prop where
  distinct : ∀ first ∈ state.blocks, ∀ second ∈ state.blocks,
    sealOf first = sealOf second → first.id = second.id
  stored : ∀ given ∈ state.judged, ∃ row ∈ state.blocks, row.id = given.before.id ∧
    row.transactionConfirmationData = given.before.transactionConfirmationData
  carried : ∀ given ∈ state.judged, given.after.status = .confirmed →
    ∃ ground, given.ground settings = some ground ∧ Carries ground given.before

end Rounds

theorem sealOf_congr {first second : Block}
    (same : first.transactionConfirmationData = second.transactionConfirmationData) :
    sealOf first = sealOf second := by
  rw [sealOf, sealOf, mixHash, nonce, mixHash, nonce, same]

theorem mem_writeBlocks {committed : Nat → Bool} {blocks returned : List Block} {row : Block}
    (isRow : row ∈ blocks) :
    ∃ next ∈ writeBlocks committed blocks returned, next.id = row.id ∧
      next.transactionConfirmationData = row.transactionConfirmationData := by
  have isKey : (row.id, row.transactionConfirmationData) ∈
      blocks.map fun block => (block.id, block.transactionConfirmationData) :=
    List.mem_map_of_mem isRow
  rw [← writeBlocks_keys committed blocks returned] at isKey
  rcases List.mem_map.mp isKey with ⟨next, isNext, same⟩
  rw [Prod.mk.injEq] at same
  exact ⟨next, isNext, same⟩

theorem mem_of_writeBlocks {committed : Nat → Bool} {blocks returned : List Block} {row : Block}
    (isRow : row ∈ writeBlocks committed blocks returned) :
    ∃ old ∈ blocks, old.id = row.id ∧
      old.transactionConfirmationData = row.transactionConfirmationData := by
  have isKey : (row.id, row.transactionConfirmationData) ∈
      (writeBlocks committed blocks returned).map
        fun block => (block.id, block.transactionConfirmationData) :=
    List.mem_map_of_mem isRow
  rw [writeBlocks_keys] at isKey
  rcases List.mem_map.mp isKey with ⟨old, isOld, same⟩
  rw [Prod.mk.injEq] at same
  exact ⟨old, isOld, same⟩

section Rounds

variable {settings : Settings} {poolId : Text}

theorem carried_of_identified {daemon : Daemon} {blocks : List Block} {given : Classification}
    (judged : IsJudged settings daemon blocks given)
    (ownBlock : ∀ info, daemon.ShowsBlock info → info.height = some (heightOf given.before) →
      info.miner = some settings.address → Carries info given.before)
    (ownUncle : ∀ uncle, daemon.ShowsUncle given.before uncle →
      uncle.miner = some settings.address → Carries uncle given.before)
    (pending : given.before.status = .pending) (confirmed : given.after.status = .confirmed) :
    ∃ ground, given.ground settings = some ground ∧ Carries ground given.before := by
  rcases judged.judged with byBlock | byUncle | byProgress
  · refine ⟨given.info, if_pos byBlock.own, ?_⟩
    exact ownBlock given.info judged.shown.block judged.shown.height byBlock.own
  · rcases byUncle.result with ⟨uncle, including, height, reward, isUncle, -⟩
    refine ⟨uncle, ?_, ?_⟩
    · rw [Classification.ground, if_neg byUncle.notOwn, isUncle]
      rfl
    · rcases judged.shown.uncle _ isUncle with ⟨own, shown⟩
      exact ownUncle uncle shown own
  · rw [byProgress.result] at confirmed
    exact absurd confirmed (giveUp_ne_confirmed pending)

theorem found_isCredited {state : CreditState} {block : Block}
    (different : ∀ stored ∈ state.blocks, sealOf stored ≠ sealOf block)
    (credited : IsCredited settings state) :
    IsCredited settings { state with blocks := state.blocks ++ [block] } where
  distinct first isFirst second isSecond same := by
    rcases List.mem_append.mp isFirst with oldFirst | newFirst
    · rcases List.mem_append.mp isSecond with oldSecond | newSecond
      · exact credited.distinct first oldFirst second oldSecond same
      · rw [List.mem_singleton.mp newSecond] at same
        exact absurd same (different first oldFirst)
    · rcases List.mem_append.mp isSecond with oldSecond | newSecond
      · rw [List.mem_singleton.mp newFirst] at same
        exact absurd same.symm (different second oldSecond)
      · rw [List.mem_singleton.mp newFirst, List.mem_singleton.mp newSecond]
  stored given isGiven := by
    rcases credited.stored given isGiven with ⟨row, isRow, same⟩
    exact ⟨row, List.mem_append_left _ isRow, same⟩
  carried := credited.carried

theorem round_isCredited {state : CreditState} {daemon : Daemon} {committed : Nat → Bool}
    {judged : List Classification}
    (classifies : classifications settings daemon (getPendingBlocksForPool state.blocks poolId) =
      .ok judged)
    (identified : IsIdentified settings poolId state (.round daemon committed))
    (credited : IsCredited settings state) :
    IsCredited settings
      { blocks := writeBlocks committed state.blocks (judged.map Classification.after)
        judged := state.judged ++ judged } where
  distinct first isFirst second isSecond same := by
    rcases mem_of_writeBlocks isFirst with ⟨oldFirst, isOldFirst, sameFirst, dataFirst⟩
    rcases mem_of_writeBlocks isSecond with ⟨oldSecond, isOldSecond, sameSecond, dataSecond⟩
    rw [← sameFirst, ← sameSecond]
    apply credited.distinct oldFirst isOldFirst oldSecond isOldSecond
    rw [sealOf_congr dataFirst, same, sealOf_congr dataSecond]
  stored given isGiven := by
    have old : ∃ row ∈ state.blocks, row.id = given.before.id ∧
        row.transactionConfirmationData = given.before.transactionConfirmationData := by
      rcases List.mem_append.mp isGiven with before | now
      · exact credited.stored given before
      · have isPending := (classifications_judged classifies given now).block
        exact ⟨given.before, List.mem_of_mem_filter isPending, rfl, rfl⟩
    rcases old with ⟨row, isRow, sameId, sameData⟩
    rcases mem_writeBlocks isRow with ⟨next, isNext, nextId, nextData⟩
    exact ⟨next, isNext, nextId.trans sameId, nextData.trans sameData⟩
  carried given isGiven := by
    rcases List.mem_append.mp isGiven with before | now
    · exact credited.carried given before
    · have own := classifications_judged classifies given now
      rcases identified given.before own.block with ⟨ownBlock, ownUncle⟩
      exact carried_of_identified own ownBlock ownUncle
        (getPendingBlocksForPool_pending own.block)

theorem creditStep_isCredited (state : CreditState) (event : CreditEvent)
    (identified : IsIdentified settings poolId state event) (credited : IsCredited settings state) :
    IsCredited settings (creditStep settings poolId state event) := by
  cases event with
  | found block => exact found_isCredited identified credited
  | round daemon committed =>
      rw [creditStep]
      cases classifies : classifications settings daemon
          (getPendingBlocksForPool state.blocks poolId) with
      | error exception => exact credited
      | ok judged => exact round_isCredited classifies identified credited

theorem IsCredited.creditsOnce {state : CreditState} (credited : IsCredited settings state) :
    CreditsOnce settings state.judged where
  carried := credited.carried
  once first isFirst second isSecond firstConfirmed secondConfirmed ground firstGround
      secondGround := by
    rcases credited.carried first isFirst firstConfirmed with ⟨own, isOwn, carriesFirst⟩
    rcases credited.carried second isSecond secondConfirmed with ⟨other, isOther, carriesSecond⟩
    rw [firstGround] at isOwn
    rw [secondGround] at isOther
    cases isOwn
    cases isOther
    rcases credited.stored first isFirst with ⟨firstRow, isFirstRow, firstId, firstData⟩
    rcases credited.stored second isSecond with ⟨secondRow, isSecondRow, secondId, secondData⟩
    rw [← firstId, ← secondId]
    apply credited.distinct firstRow isFirstRow secondRow isSecondRow
    rw [sealOf_congr firstData, sealOf_congr secondData]
    exact sealOf_eq_of_carries carriesFirst carriesSecond

end Rounds

theorem initial_isCredited (settings : Settings) : IsCredited settings CreditState.initial where
  distinct first isFirst := by cases isFirst
  stored given isGiven := by cases isGiven
  carried given isGiven := by cases isGiven

/-- In every run whose blocks are identified by the address of the pool, each confirmed block has
a ground of its own that carries its mix hash and nonce. -/
theorem credits_once (settings : Settings) (poolId : Text) (events : List CreditEvent)
    (identified : Run.Along (creditStep settings poolId) (IsIdentified settings poolId)
      CreditState.initial events) :
    CreditsOnce settings
      (Run.final (creditStep settings poolId) CreditState.initial events).judged := by
  apply IsCredited.creditsOnce
  exact Run.final_invariant_along (creditStep settings poolId) (IsIdentified settings poolId)
    (IsCredited settings) creditStep_isCredited CreditState.initial (initial_isCredited settings)
    events identified

/-! ## Two blocks of the pool's -/

namespace SampleCredits

def poolId : Text := text "eth1"

def judged (events : List CreditEvent) : List Classification :=
  (Run.final (creditStep SampleChain.settings poolId) CreditState.initial events).judged

/-- The pool's second block is not on the chain, but an uncle of block 103. -/
def included : Block := SampleChain.block 2 102 (text "0xee:0xff")

def uncleInfo : BlockInfo :=
  { SampleChain.info 102 SampleChain.address with
    sealFields := some [some (text "0xa0ee"), some (text "0x88ff")] }

def chainInfo (height : UInt64) : BlockInfo :=
  if height = 100 then SampleChain.info 100 SampleChain.address
  else SampleChain.otherInfo 102 height

def answers {Key : Type} (shown : Key → BlockInfo) (keys : List Key) : BatchReply BlockInfo :=
  .received (some (keys.map fun key => some (SampleChain.answer (shown key))))

def daemon : Daemon where
  latest _ := [.received (some (SampleChain.answer (chainInfo 120)))]
  pageBlocks _ := answers chainInfo
  nearbyBlocks _ := answers chainInfo
  uncles block _ count :=
    if block.id = 2 then answers (fun _ => uncleInfo) (List.range count) else .received (some [])
  receipts _ _ := .received (some [])

def events : List CreditEvent :=
  [.found SampleChain.pooled, .found included, .round daemon fun _ => true]

theorem mem_answers {Key : Type} {shown : Key → BlockInfo} {keys : List Key} {info : BlockInfo}
    (isShown : info ∈ contents (answers shown keys)) : ∃ key, info = shown key := by
  have executes : executeBatchAny (answers shown keys) =
      .ok (some (keys.map fun key => ⟨none, some (.ok (some (shown key)))⟩)) := by
    apply executeBatchAny_ok.mpr
    right
    use keys.map fun key => SampleChain.answer (shown key)
    rw [List.map_map, List.map_map]
    exact ⟨rfl, rfl⟩
  rw [contents, executes] at isShown
  simp only [successful, List.mem_filterMap, List.mem_map] at isShown
  rcases isShown with ⟨token, ⟨response, ⟨key, -, rfl⟩, isToken⟩, isInfo⟩
  cases isToken
  cases isInfo
  exact ⟨key, rfl⟩

theorem mined {info : BlockInfo} (isShown : daemon.ShowsBlock info)
    (own : info.miner = some SampleChain.address) :
    info = SampleChain.info 100 SampleChain.address := by
  have isOnChain : ∃ height, info = chainInfo height := by
    rcases isShown with ⟨index, heights, isContent⟩ | ⟨block, heights, isContent⟩
    · exact mem_answers isContent
    · exact mem_answers isContent
  rcases isOnChain with ⟨height, rfl⟩
  rw [chainInfo] at own ⊢
  split_ifs at own ⊢
  · rfl
  · exact absurd own (by decide : some (text "0xother") ≠ some SampleChain.address)

end SampleCredits

theorem credits_once_uncle :
    (SampleCredits.judged SampleCredits.events).map (fun given => given.after.status) =
        [.confirmed, .confirmed] ∧
      CreditsOnce SampleChain.settings (SampleCredits.judged SampleCredits.events) := by
  refine ⟨rfl, credits_once SampleChain.settings SampleCredits.poolId SampleCredits.events
    ⟨?_, ?_, ?_, trivial⟩⟩
  · intro stored isStored
    cases isStored
  · intro stored isStored
    rw [List.mem_singleton.mp isStored]
    decide
  · intro block isBlock
    have isFound : block ∈ [SampleChain.pooled, SampleCredits.included] :=
      List.mem_of_mem_filter isBlock
    rw [List.mem_pair] at isFound
    rcases isFound with rfl | rfl
    · refine ⟨?_, ?_⟩
      · intro info isShown _ own
        rw [SampleCredits.mined isShown own]
        rfl
      · rintro uncle ⟨height, count, isContent⟩ _
        cases isContent
    · refine ⟨?_, ?_⟩
      · intro info isShown isHeight own
        rw [SampleCredits.mined isShown own] at isHeight
        exact absurd isHeight (by decide)
      · rintro uncle ⟨height, count, isContent⟩ _
        rcases SampleCredits.mem_answers isContent with ⟨_, rfl⟩
        rfl

namespace SampleCredits

/-- Another block that the pool finds at height 100. The chain has the first one. -/
def rival : Block := SampleChain.block 2 100 (text "0xee:0xff")

def double : List CreditEvent :=
  [.found SampleChain.pooled, .found rival, .round (SampleChain.daemon 120) fun _ => true]

def judgedRival : Classification where
  latest := 120
  before := rival
  info := SampleChain.info 100 SampleChain.address
  nearby := []
  batches := []
  uncle := none
  after := { rival with status := .confirmed, confirmationProgress := 1, reward := 5 }

end SampleCredits

theorem credited_twice :
    SampleCredits.judged SampleCredits.double =
        [SampleChain.judged 120, SampleCredits.judgedRival] ∧
      (SampleChain.judged 120).after.status = .confirmed ∧
      SampleCredits.judgedRival.after.status = .confirmed ∧
      (SampleChain.judged 120).ground SampleChain.settings =
        SampleCredits.judgedRival.ground SampleChain.settings ∧
      ¬CreditsOnce SampleChain.settings (SampleCredits.judged SampleCredits.double) := by
  have both : SampleCredits.judged SampleCredits.double =
      [SampleChain.judged 120, SampleCredits.judgedRival] := rfl
  refine ⟨both, rfl, rfl, rfl, ?_⟩
  intro credits
  rw [both] at credits
  have same := credits.once _ List.mem_cons_self _ (List.mem_cons_of_mem _ List.mem_cons_self)
    rfl rfl _ rfl rfl
  exact absurd same (by decide)

end Miningcore.Payments.Ethereum

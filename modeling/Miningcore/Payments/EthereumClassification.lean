import Mathlib.Data.List.ReduceOption
import Miningcore.Payments.BlockClassification

/-! `ClassifyBlocksAsync` of the handler for Ethereum.

A pending block is looked for on the chain, at its height and among the uncles of the blocks
around it. Heights are unsigned 64-bit numbers and their differences wrap around. Next to the
blocks it returns, the model keeps what each of them was judged by. -/

namespace Miningcore.Payments.Ethereum

open Miningcore.Configuration Persistence DaemonInterface Paging

/-! ## What the daemon replies -/

structure Transaction where
  hash : Option Text
  gasPrice : Nat
deriving DecidableEq

structure BlockInfo where
  height : Option UInt64
  miner : Option Text
  sealFields : Option (List (Option Text))
  transactions : Option (List Transaction)
  uncles : Option (List (Option Text))
deriving DecidableEq

structure TransactionReceipt where
  transactionHash : Option Text
  gasUsed : Nat

abbrev BatchReply (α : Type) := Reply (List (Option (JsonRpcResponse α)))

/-- The replies of a round: of all daemons to the question for the latest block and to the batch
for the blocks of a page, for each page, and while a block is judged to the batches for the blocks
around it, for the uncles of one of these and for receipts. -/
structure Daemon where
  latest : Nat → List (Reply (JsonRpcResponse BlockInfo))
  pageBlocks : Nat → List UInt64 → BatchReply BlockInfo
  nearbyBlocks : Block → List UInt64 → BatchReply BlockInfo
  uncles : Block → UInt64 → Nat → BatchReply BlockInfo
  receipts : Block → List (Option Text) → BatchReply TransactionReceipt

def value {α : Type} : Option α → Except Exception α
  | none => .error .invalidOperation
  | some given => .ok given

@[simp] theorem value_eq_ok {α : Type} (given : Option α) (result : α) :
    value given = .ok result ↔ given = some result := by
  cases given with
  | none => simp [value]
  | some number => simp [value]

def enumerable {α : Type} : Option (List α) → Except Exception (List α)
  | none => .error (.argument "source")
  | some elements => .ok elements

@[simp] theorem enumerable_eq_ok {α : Type} (given : Option (List α)) (result : List α) :
    enumerable given = .ok result ↔ given = some result := by
  cases given with
  | none => simp [enumerable]
  | some elements => simp [enumerable]

def keyNotFound : Exception := .exception "The given key was not present in the dictionary."

def latestBlockHeight (replies : List (Reply (JsonRpcResponse BlockInfo))) :
    Except Exception UInt64 := do
  let responses ← replies.mapM executeCmdAny
  match responses.findSome? fun response =>
      if response.error.isNone then response.response.bind BlockInfo.height else none with
  | none => .error .invalidOperation
  | some height => .ok height

/-- `Dictionary<long, DaemonResponses.Block>`, with the latest entry for a key first. The casts of
heights to `long` lose nothing. -/
abbrev BlockCache := List (UInt64 × BlockInfo)

def successful {α : Type} (responses : List (DaemonResponse (Option (Token α)))) :
    List (Token α) :=
  responses.filterMap fun response => if response.error.isNone then response.response else none

def cacheBlock (cache : BlockCache) (block : BlockInfo) : Except Exception BlockCache := do
  let height ← value block.height
  return (height, block) :: cache

/-- The blocks that are not there yet are asked for, if there are any. -/
def fetchMisses (request : List UInt64 → BatchReply BlockInfo) (cache : BlockCache)
    (cacheMisses : List UInt64) : Except Exception BlockCache :=
  if cacheMisses.isEmpty then .ok cache
  else do
    let results ← executeBatchAny (request cacheMisses)
    let responses ← enumerable results
    let transformed ← (successful responses).mapM id
    transformed.reduceOption.foldlM cacheBlock cache

def lookupBlock (cache : BlockCache) (height : UInt64) : Except Exception BlockInfo :=
  match cache.lookup height with
  | none => .error keyNotFound
  | some block => .ok block

def fetchBlocks (request : List UInt64 → BatchReply BlockInfo) (cache : BlockCache)
    (blockHeights : List UInt64) : Except Exception (List BlockInfo × BlockCache) := do
  let cacheMisses := blockHeights.filter fun height => (cache.lookup height).isNone
  let fetched ← fetchMisses request cache cacheMisses
  let blocks ← blockHeights.mapM (lookupBlock fetched)
  return (blocks, fetched)

/-! ## Rewards

Decimals and floating-point numbers are rational numbers here. -/

inductive ParityChainType
  | foundation | olympic | frontier | homestead | mainnet | morden | ropsten | classic | expanse
  | ellaism | callistoTestnet | callisto | unknown
deriving DecidableEq

def wei : ℚ := 10 ^ 18

def getBaseBlockReward (chainType : ParityChainType) (height : UInt64) : Except Exception ℚ :=
  match chainType with
  | .mainnet => .ok (if 4370000 ≤ height then 3 else 5)
  | .classic => .ok ((4 / 5) ^ ((height.toNat + 1) / 5000000) * 5)
  | .expanse => .ok 8
  | .ellaism => .ok 5
  | .ropsten => .ok 3
  | .callistoTestnet | .callisto => .ok (600 * (1 - 3 / 10))
  | _ => .error (.exception "Unable to determine block reward: Unsupported chain type")

def getUncleReward (chainType : ParityChainType) (uheight height : UInt64) :
    Except Exception ℚ := do
  let reward ← getBaseBlockReward chainType height
  match chainType with
  | .classic => return reward * (3125 / 100000)
  | _ => return reward * (uheight + 8 - height).toNat / 8

/-- `ToDictionary`: a key that is null or there already throws. -/
def toDictionary : List TransactionReceipt → Except Exception (List (Text × Nat))
  | [] => .ok []
  | receipt :: receipts => do
      let rest ← toDictionary receipts
      match receipt.transactionHash with
      | none => .error (.argument "key")
      | some hash =>
          if (rest.lookup hash).isSome then .error (.argument "key")
          else return (hash, receipt.gasUsed) :: rest

def txFee (gasUsed : List (Text × Nat)) (transaction : Transaction) : Except Exception ℚ :=
  match transaction.hash with
  | none => .error (.argument "key")
  | some hash =>
      match gasUsed.lookup hash with
      | none => .error keyNotFound
      | some gas =>
          if 2 ^ 64 ≤ gas then .error .overflow else .ok (gas * (transaction.gasPrice / wei))

def getTxReward (request : List (Option Text) → BatchReply TransactionReceipt)
    (transactions : List Transaction) : Except Exception ℚ := do
  let results ← executeBatchAny (request (transactions.map Transaction.hash))
  let responses ← enumerable results
  if responses.any fun response => response.error.isSome then
    .error (.exception "Error fetching tx receipts")
  else do
    let receipts ← responses.mapM fun response => do
      let token ← nonNull response.response
      let receipt ← token
      nonNull receipt
    let gasUsed ← toDictionary receipts
    let fees ← transactions.mapM (txFee gasUsed)
    return fees.sum

/-! ## The search for a block -/

def minConfimations : UInt64 := 16

def blockSearchOffset : UInt64 := 50

/-- What the handler is configured with. Without extra fields no uncle rewards and no fees are
added. -/
structure Settings where
  chainType : ParityChainType
  address : Text
  extraConfig : Option (Bool × Bool)

def Settings.keepUncles (settings : Settings) : Option Bool := settings.extraConfig.map Prod.fst

def Settings.keepTransactionFees (settings : Settings) : Option Bool :=
  settings.extraConfig.map Prod.snd

def substring (start : Nat) (given : Text) : Except Exception Text :=
  if given.length < start then .error (.argument "startIndex") else .ok (given.drop start)

def mixHash (block : Block) : Text := ((block.transactionConfirmationData.split 58).head?).getD []

def nonce (block : Block) : Text := ((block.transactionConfirmationData.split 58).getLast?).getD []

def sealField (info : BlockInfo) (index : Nat) : Except Exception Text := do
  let sealFields ← nonNull info.sealFields
  let field ← elementAt (some sealFields) index
  let given ← nonNull field
  substring 4 given

def sealMatches (info : BlockInfo) (block : Block) : Except Exception Bool := do
  let firstField ← sealField info 0
  let expected ← substring 2 (mixHash block)
  if firstField = expected then do
    let secondField ← sealField info 1
    let expectedNonce ← substring 2 (nonce block)
    return secondField = expectedNonce
  else return false

def heightOf (block : Block) : UInt64 := UInt64.ofNat block.blockHeight

def searchRange (latest height : UInt64) : List UInt64 :=
  let heightMin := height - blockSearchOffset
  let heightMax := min (height + blockSearchOffset) latest
  (List.range (heightMax.toNat - heightMin.toNat)).map fun offset =>
    heightMin + UInt64.ofNat offset

/-- `FirstOrDefault` over the uncles; those behind the first match are not converted. -/
def firstUncle (address : Text) : List (Token BlockInfo) → Except Exception (Option BlockInfo)
  | [] => .ok none
  | token :: tokens => do
      let converted ← token
      let uncle ← nonNull converted
      if uncle.miner = some address then return some uncle else firstUncle address tokens

/-- The loop over the blocks around a block: the first uncle of the pool's, with the block that
includes it, and the batches that are sent, each for so many uncles of a height. -/
def searchUncles (address : Text) (request : UInt64 → Nat → BatchReply BlockInfo) :
    List BlockInfo → Except Exception (Option (BlockInfo × BlockInfo) × List (UInt64 × Nat))
  | [] => .ok (none, [])
  | including :: others => do
      let uncles ← nonNull including.uncles
      if uncles.isEmpty then searchUncles address request others
      else do
        let height ← value including.height
        let results ← executeBatchAny (request height uncles.length)
        let responses ← enumerable results
        let found ← firstUncle address (successful responses)
        match found with
        | some uncle => return (some (uncle, including), [(height, uncles.length)])
        | none => do
            let (other, batches) ← searchUncles address request others
            return (other, (height, uncles.length) :: batches)

/-! ## Classification -/

/-- What a block was judged by, and what became of it. For the search these are the blocks around
it, the batches that were sent for their uncles and the uncle that was found. -/
structure Classification where
  latest : UInt64
  before : Block
  info : BlockInfo
  nearby : List BlockInfo
  batches : List (UInt64 × Nat)
  uncle : Option (BlockInfo × BlockInfo)
  after : Block

def isMature (latest height : UInt64) : Bool := minConfimations ≤ latest - height

def progressed (latest : UInt64) (block : Block) : Block :=
  { block with
    confirmationProgress := min 1 ((latest - heightOf block).toNat / minConfimations.toNat) }

def blockReward (settings : Settings) (request : List (Option Text) → BatchReply TransactionReceipt)
    (info : BlockInfo) (height : UInt64) : Except Exception ℚ := do
  let base ← getBaseBlockReward settings.chainType height
  let withUncles ← if settings.keepUncles = some false then do
      let uncles ← nonNull info.uncles
      pure (base + uncles.length * (base / 32))
    else pure base
  let transactions := info.transactions.getD []
  if settings.keepTransactionFees = some false ∧ transactions ≠ [] then do
    let fees ← getTxReward request transactions
    return withUncles + fees
  else return withUncles

def classifyOwn (settings : Settings)
    (request : List (Option Text) → BatchReply TransactionReceipt) (latest : UInt64)
    (block : Block) (info : BlockInfo) : Except Exception Block := do
  let _ ← sealMatches info block
  if isMature latest (heightOf block) then do
    let reward ← blockReward settings request info (heightOf block)
    return { progressed latest block with
      status := .confirmed
      confirmationProgress := 1
      reward }
  else return progressed latest block

def classifyUncle (settings : Settings) (latest : UInt64) (block : Block)
    (uncle including : BlockInfo) : Except Exception Block := do
  let uncleHeight ← value uncle.height
  if isMature latest uncleHeight then do
    let includingHeight ← value including.height
    let reward ← getUncleReward settings.chainType uncleHeight includingHeight
    return { progressed latest block with
      status := .confirmed
      confirmationProgress := 1
      reward
      blockHeight := uncleHeight.toNat
      type := some (text "uncle") }
  else return progressed latest block

def classifyFound (settings : Settings) (latest : UInt64) (block : Block) :
    Option (BlockInfo × BlockInfo) → Except Exception Block
  | none => .ok (progressed latest block)
  | some (uncle, including) => classifyUncle settings latest block uncle including

def giveUp (block : Block) : Block :=
  if block.status = .pending ∧ 3 / 4 < block.confirmationProgress then
    { block with status := .orphaned, reward := 0 }
  else block

def classifyBlock (settings : Settings) (daemon : Daemon) (latest : UInt64) (block : Block)
    (info : BlockInfo) (cache : BlockCache) : Except Exception (Classification × BlockCache) :=
  if info.miner = some settings.address then do
    let after ← classifyOwn settings (daemon.receipts block) latest block info
    return (⟨latest, block, info, [], [], none, after⟩, cache)
  else do
    let (nearby, fetched) ← fetchBlocks (daemon.nearbyBlocks block) cache
      (searchRange latest (heightOf block))
    let (found, batches) ← searchUncles settings.address (daemon.uncles block) nearby
    let judged ← classifyFound settings latest block found
    return (⟨latest, block, info, nearby, batches, found, giveUp judged⟩, fetched)

/-- The blocks of a page, one after the other, with the cache handed on. -/
def classifyEntries (settings : Settings) (daemon : Daemon) (latest : UInt64) :
    List (Block × BlockInfo) → BlockCache → Except Exception (List Classification × BlockCache)
  | [], cache => .ok ([], cache)
  | (block, info) :: entries, cache => do
      let (first, fetched) ← classifyBlock settings daemon latest block info cache
      let (rest, last) ← classifyEntries settings daemon latest entries fetched
      return (first :: rest, last)

def classifyPage (settings : Settings) (daemon : Daemon) (index : Nat) (page : List Block)
    (cache : BlockCache) : Except Exception (List Classification × BlockCache) := do
  let latest ← latestBlockHeight (daemon.latest index)
  let (infos, fetched) ← fetchBlocks (daemon.pageBlocks index) cache (page.map heightOf)
  classifyEntries settings daemon latest (page.zip infos) fetched

def classifyPages (settings : Settings) (daemon : Daemon) :
    Nat → List (List Block) → BlockCache → Except Exception (List Classification)
  | _, [], _ => .ok []
  | index, page :: pages, cache => do
      let (first, fetched) ← classifyPage settings daemon index page cache
      let rest ← classifyPages settings daemon (index + 1) pages fetched
      return first ++ rest

/-- `ClassifyBlocksAsync`, with what each block was judged by. -/
def classifications (settings : Settings) (daemon : Daemon) (blocks : List Block) :
    Except Exception (List Classification) :=
  classifyPages settings daemon 0 (pages pageSize blocks) []

def classifyBlocks (settings : Settings) (daemon : Daemon) (blocks : List Block) :
    Except Exception (List Block) := do
  let judged ← classifications settings daemon blocks
  return judged.map Classification.after

/-! ## All that happens to a block -/

section Cases

variable {settings : Settings} {daemon : Daemon}

theorem mapM_forall₂ {α β : Type} {transform : α → Except Exception β} {values : List α}
    {results : List β} (maps : values.mapM transform = .ok results) :
    List.Forall₂ (fun value result => transform value = .ok result) values results := by
  induction values generalizing results with
  | nil =>
      cases maps
      exact .nil
  | cons value values induction =>
      simp only [List.mapM_cons, bind_eq_ok, pure_eq_ok] at maps
      rcases maps with ⟨first, isFirst, rest, isRest, rfl⟩
      exact .cons isFirst (induction isRest)

theorem mapM_mem {α β : Type} {transform : α → Except Exception β} {values : List α}
    {results : List β} (maps : values.mapM transform = .ok results) {result : β}
    (isResult : result ∈ results) : ∃ value ∈ values, transform value = .ok result := by
  induction values generalizing results with
  | nil =>
      cases maps
      cases isResult
  | cons first values induction =>
      simp only [List.mapM_cons, bind_eq_ok, pure_eq_ok] at maps
      rcases maps with ⟨converted, isFirst, rest, isRest, rfl⟩
      rcases List.mem_cons.mp isResult with rfl | later
      · exact ⟨first, List.mem_cons_self, isFirst⟩
      · rcases induction isRest later with ⟨value, isValue, converts⟩
        exact ⟨value, List.mem_cons_of_mem _ isValue, converts⟩

def contents (reply : BatchReply BlockInfo) : List BlockInfo :=
  match executeBatchAny reply with
  | .ok (some responses) => (successful responses).filterMap fun token => token.toOption.join
  | _ => []

def Daemon.ShowsBlock (daemon : Daemon) (info : BlockInfo) : Prop :=
  (∃ index heights, info ∈ contents (daemon.pageBlocks index heights)) ∨
    ∃ block heights, info ∈ contents (daemon.nearbyBlocks block heights)

def Daemon.ShowsUncle (daemon : Daemon) (block : Block) (uncle : BlockInfo) : Prop :=
  ∃ height count, uncle ∈ contents (daemon.uncles block height count)

def IsCached (daemon : Daemon) (cache : BlockCache) : Prop :=
  ∀ entry ∈ cache, entry.2.height = some entry.1 ∧ daemon.ShowsBlock entry.2

theorem isCached_nil (daemon : Daemon) : IsCached daemon [] := by
  intro entry isEntry
  cases isEntry

theorem cacheBlocks_isCached {cache fetched : BlockCache} {blocks : List BlockInfo}
    (cached : IsCached daemon cache) (shown : ∀ block ∈ blocks, daemon.ShowsBlock block)
    (caches : blocks.foldlM cacheBlock cache = .ok fetched) : IsCached daemon fetched := by
  induction blocks generalizing cache with
  | nil =>
      cases caches
      exact cached
  | cons block blocks induction =>
      simp only [List.foldlM_cons, cacheBlock, bind_eq_ok, pure_eq_ok] at caches
      rcases caches with ⟨next, ⟨height, isHeight, rfl⟩, rest⟩
      apply induction _ (fun other isOther => shown other (List.mem_cons_of_mem _ isOther)) rest
      intro entry isEntry
      rcases List.mem_cons.mp isEntry with rfl | old
      · exact ⟨(value_eq_ok _ _).mp isHeight, shown block List.mem_cons_self⟩
      · exact cached entry old

theorem mem_contents {reply : BatchReply BlockInfo}
    {responses : List (DaemonResponse (Option (Token BlockInfo)))}
    (replies : executeBatchAny reply = .ok (some responses)) {token : Token BlockInfo}
    {info : BlockInfo} (isToken : token ∈ successful responses)
    (converts : token = .ok (some info)) :
    info ∈ contents reply := by
  rw [contents, replies]
  refine List.mem_filterMap.mpr ⟨token, isToken, ?_⟩
  rw [converts]
  rfl

theorem fetchMisses_isCached {request : List UInt64 → BatchReply BlockInfo}
    {cache fetched : BlockCache} {misses : List UInt64} (cached : IsCached daemon cache)
    (shown : ∀ heights, ∀ block ∈ contents (request heights), daemon.ShowsBlock block)
    (fetches : fetchMisses request cache misses = .ok fetched) : IsCached daemon fetched := by
  rw [fetchMisses] at fetches
  split_ifs at fetches
  · cases fetches
    exact cached
  · simp only [bind_eq_ok, enumerable_eq_ok] at fetches
    rcases fetches with ⟨results, replies, responses, rfl, transformed, converts, caches⟩
    apply cacheBlocks_isCached cached _ caches
    intro block isBlock
    have isSome : some block ∈ transformed := List.reduceOption_mem_iff.mp isBlock
    rcases mapM_mem converts isSome with ⟨token, isToken, isConverted⟩
    exact shown misses block (mem_contents replies isToken isConverted)

theorem fetchBlocks_isCached {request : List UInt64 → BatchReply BlockInfo}
    {cache fetched : BlockCache} {heights : List UInt64} {blocks : List BlockInfo}
    (cached : IsCached daemon cache)
    (shown : ∀ heights, ∀ block ∈ contents (request heights), daemon.ShowsBlock block)
    (fetches : fetchBlocks request cache heights = .ok (blocks, fetched)) :
    IsCached daemon fetched ∧
      List.Forall₂ (fun height block => block.height = some height ∧ daemon.ShowsBlock block)
        heights blocks := by
  simp only [fetchBlocks, bind_eq_ok, pure_eq_ok] at fetches
  rcases fetches with ⟨_, fetchesMisses, found, looksUp, isResult⟩
  cases isResult
  have stillCached := fetchMisses_isCached cached shown fetchesMisses
  refine ⟨stillCached, (mapM_forall₂ looksUp).imp ?_⟩
  intro height block isFound
  rw [lookupBlock] at isFound
  cases isEntry : fetched.lookup height with
  | none =>
      rw [isEntry] at isFound
      cases isFound
  | some entry =>
      rw [isEntry] at isFound
      cases isFound
      rcases List.lookup_eq_some_iff.mp isEntry with ⟨front, back, rfl, -⟩
      exact stillCached (height, block) (List.mem_append_right _ List.mem_cons_self)

structure JudgedByBlock (address : Text) (given : Classification) : Prop where
  own : given.info.miner = some address
  noUncle : given.uncle = none
  result :
    (isMature given.latest (heightOf given.before) = true ∧
      ∃ reward, given.after = { progressed given.latest given.before with
        status := .confirmed, confirmationProgress := 1, reward }) ∨
    (isMature given.latest (heightOf given.before) = false ∧
      given.after = progressed given.latest given.before)

structure JudgedByUncle (address : Text) (given : Classification) : Prop where
  notOwn : given.info.miner ≠ some address
  result : ∃ uncle including height reward, given.uncle = some (uncle, including) ∧
    uncle.height = some height ∧ isMature given.latest height = true ∧
    given.after = { progressed given.latest given.before with
      status := .confirmed, confirmationProgress := 1, reward, blockHeight := height.toNat,
      type := some (text "uncle") }

/-- No uncle of the pool's is found, or one that is not mature. -/
structure JudgedByProgress (address : Text) (given : Classification) : Prop where
  notOwn : given.info.miner ≠ some address
  immature : ∀ found, given.uncle = some found →
    ∃ height, found.1.height = some height ∧ isMature given.latest height = false
  result : given.after = giveUp (progressed given.latest given.before)

structure IsShown (address : Text) (daemon : Daemon) (given : Classification) : Prop where
  height : given.info.height = some (heightOf given.before)
  block : daemon.ShowsBlock given.info
  uncle : ∀ found, given.uncle = some found →
    found.1.miner = some address ∧ daemon.ShowsUncle given.before found.1

theorem firstUncle_mem {address : Text} {tokens : List (Token BlockInfo)} {uncle : BlockInfo}
    (found : firstUncle address tokens = .ok (some uncle)) :
    uncle.miner = some address ∧ .ok (some uncle) ∈ tokens := by
  induction tokens with
  | nil => cases found
  | cons token tokens induction =>
      simp only [firstUncle, bind_eq_ok, nonNull_eq_ok] at found
      rcases found with ⟨converted, isToken, given, rfl, rest⟩
      split_ifs at rest with own
      · cases rest
        rw [isToken]
        exact ⟨own, List.mem_cons_self⟩
      · exact ⟨(induction rest).1, List.mem_cons_of_mem _ (induction rest).2⟩

theorem searchUncles_shown {address : Text} {request : UInt64 → Nat → BatchReply BlockInfo}
    {nearby : List BlockInfo} {uncle including : BlockInfo} {batches : List (UInt64 × Nat)}
    (found : searchUncles address request nearby = .ok (some (uncle, including), batches)) :
    uncle.miner = some address ∧ ∃ height count, uncle ∈ contents (request height count) := by
  induction nearby generalizing batches with
  | nil => cases found
  | cons first others induction =>
      simp only [searchUncles, bind_eq_ok] at found
      rcases found with ⟨uncles, -, rest⟩
      split_ifs at rest
      · exact induction rest
      · simp only [bind_eq_ok, enumerable_eq_ok] at rest
        rcases rest with ⟨height, -, results, replies, responses, rfl, outcome, isFirst, rest⟩
        cases outcome with
        | none =>
            simp only [bind_eq_ok, pure_eq_ok] at rest
            rcases rest with ⟨⟨other, later⟩, search, isResult⟩
            cases isResult
            exact induction search
        | some given =>
            cases rest
            rcases firstUncle_mem isFirst with ⟨own, isToken⟩
            exact ⟨own, height, uncles.length, mem_contents replies isToken rfl⟩

theorem classifyBlock_cases {latest : UInt64} {block : Block} {info : BlockInfo}
    {cache fetched : BlockCache} {given : Classification}
    (classifies : classifyBlock settings daemon latest block info cache = .ok (given, fetched)) :
    given.latest = latest ∧ given.before = block ∧ given.info = info ∧
      (∀ found, given.uncle = some found →
        found.1.miner = some settings.address ∧ daemon.ShowsUncle block found.1) ∧
      (JudgedByBlock settings.address given ∨ JudgedByUncle settings.address given ∨
        JudgedByProgress settings.address given) := by
  rw [classifyBlock] at classifies
  split_ifs at classifies with own
  · simp only [classifyOwn, bind_eq_ok, pure_eq_ok] at classifies
    rcases classifies with ⟨after, ⟨_, -, rest⟩, isResult⟩
    cases isResult
    refine ⟨rfl, rfl, rfl, ?_, .inl ⟨own, rfl, ?_⟩⟩
    · intro found isFound
      cases isFound
    · split_ifs at rest with mature
      · simp only [bind_eq_ok, pure_eq_ok] at rest
        rcases rest with ⟨reward, -, rfl⟩
        exact .inl ⟨mature, reward, rfl⟩
      · cases rest
        exact .inr ⟨Bool.eq_false_of_not_eq_true mature, rfl⟩
  · simp only [bind_eq_ok, pure_eq_ok] at classifies
    rcases classifies with
      ⟨⟨nearby, cached⟩, -, ⟨found, batches⟩, search, judged, judges, isResult⟩
    cases isResult
    refine ⟨rfl, rfl, rfl, ?_, .inr ?_⟩
    · intro found isFound
      cases isFound
      exact searchUncles_shown search
    · cases found with
      | none =>
          cases judges
          right
          refine ⟨own, ?_, rfl⟩
          intro found isFound
          cases isFound
      | some found =>
          rcases found with ⟨uncle, including⟩
          simp only [classifyFound, classifyUncle, bind_eq_ok, value_eq_ok] at judges
          rcases judges with ⟨height, isHeight, rest⟩
          split_ifs at rest with mature
          · simp only [bind_eq_ok, pure_eq_ok] at rest
            rcases rest with ⟨includingHeight, -, reward, -, rfl⟩
            left
            refine ⟨own, uncle, including, height, reward, rfl, isHeight, mature, ?_⟩
            simp only [giveUp, reduceCtorEq, false_and, if_false]
          · cases rest
            right
            refine ⟨own, ?_, rfl⟩
            intro found isFound
            cases isFound
            exact ⟨height, isHeight, Bool.eq_false_of_not_eq_true mature⟩

theorem classifyBlock_isCached {latest : UInt64} {block : Block} {info : BlockInfo}
    {cache fetched : BlockCache} {given : Classification} (cached : IsCached daemon cache)
    (classifies : classifyBlock settings daemon latest block info cache = .ok (given, fetched)) :
    IsCached daemon fetched := by
  rw [classifyBlock] at classifies
  split_ifs at classifies with own
  · simp only [bind_eq_ok, pure_eq_ok] at classifies
    rcases classifies with ⟨after, -, isResult⟩
    cases isResult
    exact cached
  · simp only [bind_eq_ok, pure_eq_ok] at classifies
    rcases classifies with ⟨⟨nearby, next⟩, fetches, ⟨found, batches⟩, -, judged, -, isResult⟩
    cases isResult
    refine (fetchBlocks_isCached cached ?_ fetches).1
    intro heights info isShown
    exact .inr ⟨block, heights, isShown⟩

/-! ## All that happens in a call -/

structure IsJudged (settings : Settings) (daemon : Daemon) (blocks : List Block)
    (given : Classification) : Prop where
  block : given.before ∈ blocks
  classified : ∃ cache fetched, IsCached daemon cache ∧
    classifyBlock settings daemon given.latest given.before given.info cache = .ok (given, fetched)
  shown : IsShown settings.address daemon given
  judged : JudgedByBlock settings.address given ∨ JudgedByUncle settings.address given ∨
    JudgedByProgress settings.address given

theorem classifyEntries_judged {latest : UInt64} {entries : List (Block × BlockInfo)}
    {cache last : BlockCache} {judged : List Classification} (cached : IsCached daemon cache)
    (shown : ∀ entry ∈ entries,
      entry.2.height = some (heightOf entry.1) ∧ daemon.ShowsBlock entry.2)
    (classifies : classifyEntries settings daemon latest entries cache = .ok (judged, last)) :
    IsCached daemon last ∧
      ∀ given ∈ judged, IsJudged settings daemon (entries.map Prod.fst) given := by
  induction entries generalizing cache judged last with
  | nil =>
      cases classifies
      refine ⟨cached, ?_⟩
      intro given isJudged
      cases isJudged
  | cons entry entries induction =>
      rcases entry with ⟨block, info⟩
      simp only [classifyEntries, bind_eq_ok, pure_eq_ok] at classifies
      rcases classifies with ⟨⟨first, fetched⟩, now, ⟨rest, final⟩, later, isResult⟩
      cases isResult
      rcases classifyBlock_cases now with ⟨isLatest, isBlock, isInfo, uncle, outcome⟩
      rcases induction (classifyBlock_isCached cached now)
        (fun other isOther => shown other (List.mem_cons_of_mem _ isOther)) later with
        ⟨stillCached, others⟩
      refine ⟨stillCached, ?_⟩
      intro given isJudged
      rcases List.mem_cons.mp isJudged with rfl | isLater
      · have own := shown (block, info) List.mem_cons_self
        rw [← isBlock, ← isInfo] at own
        refine ⟨?_, ⟨cache, fetched, cached, ?_⟩, ⟨own.1, own.2, ?_⟩, outcome⟩
        · rw [isBlock]
          exact List.mem_cons_self
        · rw [isLatest, isBlock, isInfo]
          exact now
        · rw [isBlock]
          exact uncle
      · have other := others given isLater
        exact ⟨List.mem_cons_of_mem _ other.block, other.classified, other.shown, other.judged⟩

theorem classifyPage_judged {index : Nat} {page : List Block} {cache last : BlockCache}
    {judged : List Classification} (cached : IsCached daemon cache)
    (classifies : classifyPage settings daemon index page cache = .ok (judged, last)) :
    IsCached daemon last ∧ ∀ given ∈ judged, IsJudged settings daemon page given := by
  simp only [classifyPage, bind_eq_ok] at classifies
  rcases classifies with ⟨latest, -, ⟨infos, fetched⟩, fetches, entries⟩
  rcases fetchBlocks_isCached cached
    (fun heights info isShown => .inl ⟨index, heights, isShown⟩) fetches with
    ⟨nextCached, shown⟩
  rw [List.forall₂_map_left_iff] at shown
  rcases classifyEntries_judged nextCached
    (fun entry isEntry => List.forall₂_zip shown isEntry) entries with ⟨stillCached, all⟩
  refine ⟨stillCached, ?_⟩
  intro given isJudged
  have own := all given isJudged
  refine ⟨?_, own.classified, own.shown, own.judged⟩
  rcases List.mem_map.mp own.block with ⟨entry, isEntry, same⟩
  rw [← same]
  exact (List.of_mem_zip isEntry).1

theorem classifyPages_judged {index : Nat} {pages : List (List Block)} {cache : BlockCache}
    {judged : List Classification} (cached : IsCached daemon cache)
    (classifies : classifyPages settings daemon index pages cache = .ok judged) :
    ∀ given ∈ judged, ∃ page ∈ pages, IsJudged settings daemon page given := by
  induction pages generalizing index cache judged with
  | nil =>
      cases classifies
      intro given isJudged
      cases isJudged
  | cons page pages induction =>
      simp only [classifyPages, bind_eq_ok, pure_eq_ok] at classifies
      rcases classifies with ⟨⟨first, fetched⟩, now, rest, later, rfl⟩
      rcases classifyPage_judged cached now with ⟨stillCached, here⟩
      intro given isJudged
      rcases List.mem_append.mp isJudged with isFirst | isLater
      · exact ⟨page, List.mem_cons_self, here given isFirst⟩
      · rcases induction stillCached later given isLater with ⟨other, isPage, own⟩
        exact ⟨other, List.mem_cons_of_mem _ isPage, own⟩

theorem classifications_judged {blocks : List Block} {judged : List Classification}
    (classifies : classifications settings daemon blocks = .ok judged) :
    ∀ given ∈ judged, IsJudged settings daemon blocks given := by
  intro given isJudged
  rcases classifyPages_judged (isCached_nil daemon) classifies given isJudged with
    ⟨page, isPage, own⟩
  exact ⟨mem_of_mem_pages isPage own.block, own.classified, own.shown, own.judged⟩

end Cases

end Miningcore.Payments.Ethereum

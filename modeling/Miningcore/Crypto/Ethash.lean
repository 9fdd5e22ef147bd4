import Miningcore.Foundation.BitPacking
import Miningcore.Foundation.Loops
import Mathlib.Data.Vector.Basic
import Mathlib.Data.Vector.Zip

/-! Ethash of libmultihash, on a little-endian machine. The Keccak hashes are parameters. -/

namespace Miningcore.Ethash

open ByteLayout

/-! ## Words and nodes -/

abbrev Words (count : Nat) := List.Vector UInt32 count

def Words.at {count : Nat} (words : Words (count + 1)) (index : Nat) : UInt32 :=
  words.get ⟨index % (count + 1), Nat.mod_lt index count.succ_pos⟩

def wordBytes (words : List UInt32) : Bytes :=
  words.flatMap fun word => LittleEndian.encode 4 word.toNat

def wordsOf : (count : Nat) → Bytes → List UInt32
  | 0, _ => []
  | count + 1, bytes =>
      UInt32.ofNat (LittleEndian.decode (bytes.take 4)) :: wordsOf count (bytes.drop 4)

theorem wordsOf_length (count : Nat) (bytes : Bytes) : (wordsOf count bytes).length = count := by
  induction count generalizing bytes with
  | zero => rfl
  | succ count induction => rw [wordsOf, List.length_cons, induction]

theorem wordBytes_length (words : List UInt32) : (wordBytes words).length = 4 * words.length := by
  induction words with
  | nil => rfl
  | cons word words induction =>
      rw [wordBytes, List.flatMap_cons, List.length_append, LittleEndian.encode_length,
        List.length_cons]
      rw [wordBytes] at induction
      omega

theorem wordBytes_wordsOf {count : Nat} {bytes : Bytes} (length : bytes.length = 4 * count) :
    wordBytes (wordsOf count bytes) = bytes := by
  induction count generalizing bytes with
  | zero =>
      rw [Nat.mul_zero, List.length_eq_zero_iff] at length
      rw [length]
      rfl
  | succ count induction =>
      have front : (bytes.take 4).length = 4 := by
        rw [List.length_take]
        omega
      have rest := @induction (bytes.drop 4) (by
        rw [List.length_drop]
        omega)
      have encoded := LittleEndian.encode_decode (bytes.take 4)
      rw [front, ← LittleEndian.encode_mod] at encoded
      rw [wordBytes] at rest
      rw [wordBytes, wordsOf, List.flatMap_cons, UInt32.toNat_ofNat', rest]
      exact (congrArg (· ++ bytes.drop 4) encoded).trans (List.take_append_drop 4 bytes)

abbrev Node := Words 16

def Node.bytes (node : Node) : Bytes := wordBytes node.toList

def Node.ofBytes (bytes : FixedBytes 64) : Node := ⟨wordsOf 16 bytes.toList, wordsOf_length 16 _⟩

@[simp] theorem Node.bytes_ofBytes (bytes : FixedBytes 64) : (ofBytes bytes).bytes = bytes.toList :=
  wordBytes_wordsOf bytes.toList_length

/-! ## The algorithm -/

def fnvPrime : UInt32 := 0x01000193

def fnvHash (x y : UInt32) : UInt32 := x * fnvPrime ^^^ y

def epochLength : UInt64 := 30000

def cacheRounds : Nat := 3

def datasetParents : Nat := 256

def accesses : Nat := 64

def mixWords : Nat := 32

def mixNodes : Nat := 2

inductive Fault
  | outOfBounds
  | divideByZero
deriving DecidableEq

def fetch (nodes : List Node) (index : Nat) : Except Fault Node :=
  match nodes[index]? with
  | some node => .ok node
  | none => .error .outOfBounds

structure ReturnValue where
  result : FixedBytes 32
  mixHash : FixedBytes 32

section Hashes

variable (sha3_256 : Bytes → FixedBytes 32) (sha3_512 : Bytes → FixedBytes 64)

def hashNode (node : Node) : Node := Node.ofBytes (sha3_512 node.bytes)

/-- The nodes of the first loop of `ethash_compute_cache_nodes`, each the hash of the one
before. -/
def chain : (count : Nat) → Node → List Node
  | 0, _ => []
  | count + 1, node => node :: chain count (hashNode sha3_512 node)

def cacheRound (numNodes : UInt32) (nodes : List Node) (i : Nat) : Except Fault (List Node) := do
  let idx := (← fetch nodes i).at 0 % numNodes
  let data ← fetch nodes ((numNodes - 1 + UInt32.ofNat i) % numNodes).toNat
  let other ← fetch nodes idx.toNat
  return nodes.set i (hashNode sha3_512 (List.Vector.zipWith (· ^^^ ·) data other))

/-- `ethash_compute_cache_nodes`; `none` is `false`. -/
def computeCacheNodes (cacheSize : Nat) (seed : FixedBytes 32) :
    Except Fault (Option (List Node)) := do
  if cacheSize % 64 ≠ 0 then return none
  else
    let numNodes := UInt32.ofNat (cacheSize / 64)
    if numNodes = 0 then throw .outOfBounds
    else
      let nodes := chain sha3_512 numNodes.toNat (Node.ofBytes (sha3_512 seed.toList))
      let nodes ← (List.range cacheRounds).foldlM (fun nodes _ =>
        (List.range numNodes.toNat).foldlM (cacheRound sha3_512 numNodes) nodes) nodes
      return some nodes

structure Light where
  cache : List Node
  cacheSize : Nat
  blockNumber : UInt64

def mixParent (light : Light) (nodeIndex : UInt32) (ret : Node) (i : Nat) : Except Fault Node := do
  let numParentNodes := UInt32.ofNat (light.cacheSize / 64)
  let parentIndex := fnvHash (nodeIndex ^^^ UInt32.ofNat i) (ret.at i) % numParentNodes
  let parent ← fetch light.cache parentIndex.toNat
  return List.Vector.zipWith fnvHash ret parent

def calculateDagItem (light : Light) (nodeIndex : UInt32) : Except Fault Node := do
  let numParentNodes := UInt32.ofNat (light.cacheSize / 64)
  if numParentNodes = 0 then throw .divideByZero
  else
    let init ← fetch light.cache (nodeIndex % numParentNodes).toNat
    let ret := hashNode sha3_512 (init.set 0 (init.at 0 ^^^ nodeIndex))
    let ret ← (List.range datasetParents).foldlM (mixParent light nodeIndex) ret
    return hashNode sha3_512 ret

/-- `ethash_compute_full_data` with a callback that returns 0; `none` is `false`. The callback is
called a hundred times. -/
def computeFullData (fullSize : Nat) (light : Light) : Except Fault (Option (List Node)) := do
  if fullSize % (4 * mixWords) ≠ 0 ∨ fullSize % 64 ≠ 0 then return none
  else
    let maxN := UInt32.ofNat (fullSize / 64)
    if maxN ≠ 0 ∧ maxN / 100 = 0 then throw .divideByZero
    else
      let nodes ← (List.range maxN.toNat).mapM fun n =>
        calculateDagItem sha3_512 light (UInt32.ofNat n)
      return some nodes

def mixNode (mix : Words 32) (n : Nat) (dagNode : Node) : Words 32 :=
  List.Vector.ofFn fun word =>
    if word.val / 16 = n then fnvHash (mix.get word) (dagNode.at word.val) else mix.get word

def mixPageNode (dagNode : UInt32 → Except Fault Node) (index : UInt32) (mix : Words 32)
    (n : Nat) : Except Fault (Words 32) := do
  return mixNode mix n (← dagNode (UInt32.ofNat mixNodes * index + UInt32.ofNat n))

def mixPage (dagNode : UInt32 → Except Fault Node) (numFullPages : UInt32) (seed : Node)
    (mix : Words 32) (i : Nat) : Except Fault (Words 32) :=
  let index := fnvHash (seed.at 0 ^^^ UInt32.ofNat i) (mix.at i) % numFullPages
  (List.range mixNodes).foldlM (mixPageNode dagNode index) mix

def compress (mix : Words 32) : Words 32 :=
  (List.range 8).foldl (fun mix quarter =>
    let w := 4 * quarter
    mix.set (Fin.ofNat 32 quarter)
      (fnvHash (fnvHash (fnvHash (mix.at w) (mix.at (w + 1))) (mix.at (w + 2)))
        (mix.at (w + 3)))) mix

def seedNode (headerHash : FixedBytes 32) (nonce : UInt64) : Node :=
  Node.ofBytes (sha3_512 (headerHash.toList ++ LittleEndian.encode 8 nonce.toNat))

def mixBytes (mix : Words 32) : FixedBytes 32 :=
  ⟨wordBytes (mix.toList.take 8), by
    rw [wordBytes_length, List.length_take, mix.toList_length]
    rfl⟩

/-- `ethash_hash`, with the nodes of the dataset from memory or computed; `none` is `false`. The
source reads a computed node from `tmp_node` after the end of its scope, where the value that was
computed is taken here. -/
def ethashHash (dagNode : UInt32 → Except Fault Node) (fullSize : Nat)
    (headerHash : FixedBytes 32) (nonce : UInt64) : Except Fault (Option ReturnValue) := do
  if fullSize % mixWords ≠ 0 then return none
  else
    let seed := seedNode sha3_512 headerHash nonce
    let mix : Words 32 := List.Vector.ofFn fun word => seed.at word.val
    let numFullPages := UInt32.ofNat (fullSize / (4 * mixWords))
    if numFullPages = 0 then throw .divideByZero
    else
      let mix ← (List.range accesses).foldlM (mixPage dagNode numFullPages seed) mix
      let mixHash := mixBytes (compress mix)
      return some { mixHash, result := sha3_256 (seed.bytes ++ mixHash.toList) }

def quickHash (headerHash : FixedBytes 32) (nonce : UInt64) (mixHash : FixedBytes 32) :
    FixedBytes 32 :=
  sha3_256 ((sha3_512 (headerHash.toList ++ LittleEndian.encode 8 nonce.toNat)).toList ++
    mixHash.toList)

def checkDifficulty : (hash boundary : Bytes) → Bool
  | byte :: hash, limit :: boundary =>
      if byte = limit then checkDifficulty hash boundary else byte < limit
  | _, _ => true

def quickCheckDifficulty (headerHash : FixedBytes 32) (nonce : UInt64)
    (mixHash boundary : FixedBytes 32) : Bool :=
  checkDifficulty (quickHash sha3_256 sha3_512 headerHash nonce mixHash).toList boundary.toList

def getSeedhash (blockNumber : UInt64) : FixedBytes 32 :=
  Nat.iterate (fun seed => sha3_256 seed.toList) (blockNumber / epochLength).toNat
    (List.Vector.replicate 32 0)

theorem checkDifficulty_eq {hash boundary : Bytes} (length : hash.length = boundary.length) :
    checkDifficulty hash boundary =
      decide (BigEndian.decode hash ≤ BigEndian.decode boundary) := by
  induction hash generalizing boundary with
  | nil =>
      cases boundary with
      | nil => rfl
      | cons limit boundary => cases length
  | cons byte hash induction =>
      cases boundary with
      | nil => cases length
      | cons limit boundary =>
          have rest : hash.length = boundary.length := Nat.succ.inj length
          rw [checkDifficulty]
          split_ifs with same
          · rw [induction rest, same, BigEndian.decode_cons, BigEndian.decode_cons, rest,
              decide_eq_decide]
            omega
          · have hashBound := BigEndian.decode_lt hash
            have boundaryBound := BigEndian.decode_lt boundary
            rw [rest] at hashBound
            rw [BigEndian.decode_cons, BigEndian.decode_cons, rest, decide_eq_decide,
              UInt8.lt_iff_toNat_lt]
            rcases Nat.lt_or_gt_of_ne (fun equal => same (UInt8.toNat_inj.mp equal)) with
              lower | higher
            · have scaled := Nat.mul_le_mul_left (256 ^ boundary.length) (Nat.succ_le_of_lt lower)
              rw [Nat.mul_succ] at scaled
              omega
            · have scaled := Nat.mul_le_mul_left (256 ^ boundary.length) (Nat.succ_le_of_lt higher)
              rw [Nat.mul_succ] at scaled
              omega

/-! ## Memory accesses -/

theorem fetch_returns {nodes : List Node} {index : Nat} (inside : index < nodes.length) :
    ∃ node, fetch nodes index = .ok node := by
  rw [fetch, List.getElem?_eq_getElem inside]
  exact ⟨_, rfl⟩

theorem remainder_inside {count : Nat} (fits : count < 2 ^ 32) (positive : 0 < count)
    (value : UInt32) : (value % UInt32.ofNat count).toNat < count := by
  rw [UInt32.toNat_mod, UInt32.toNat_ofNat', Nat.mod_eq_of_lt fits]
  exact Nat.mod_lt _ positive

theorem ofNat_ne_zero {count : Nat} (fits : count < 2 ^ 32) (positive : 0 < count) :
    UInt32.ofNat count ≠ 0 := by
  intro zero
  have value := congrArg UInt32.toNat zero
  rw [UInt32.toNat_ofNat', Nat.mod_eq_of_lt fits] at value
  exact positive.ne' value

theorem chain_length (count : Nat) (node : Node) : (chain sha3_512 count node).length = count := by
  induction count generalizing node with
  | zero => rfl
  | succ count induction => rw [chain, List.length_cons, induction]

theorem cacheRound_returns {nodes : List Node} (fits : nodes.length < 2 ^ 32) {i : Nat}
    (inside : i < nodes.length) :
    ∃ next, cacheRound sha3_512 (UInt32.ofNat nodes.length) nodes i = .ok next ∧
      next.length = nodes.length := by
  have positive : 0 < nodes.length := (Nat.zero_le i).trans_lt inside
  rcases fetch_returns inside with ⟨node, reads⟩
  rcases fetch_returns (remainder_inside fits positive
    (UInt32.ofNat nodes.length - 1 + UInt32.ofNat i)) with ⟨data, readsData⟩
  rcases fetch_returns (remainder_inside fits positive (node.at 0)) with ⟨other, readsOther⟩
  simp only [cacheRound, reads, readsData, readsOther, bind, Except.bind, pure, Except.pure]
  exact ⟨_, rfl, List.length_set⟩

theorem computeCacheNodes_returns {cacheSize : Nat} (whole : cacheSize % 64 = 0)
    (positive : 0 < cacheSize / 64) (fits : cacheSize / 64 < 2 ^ 32) (seed : FixedBytes 32) :
    ∃ nodes, computeCacheNodes sha3_512 cacheSize seed = .ok (some nodes) ∧
      nodes.length = cacheSize / 64 := by
  have count : (UInt32.ofNat (cacheSize / 64)).toNat = cacheSize / 64 := by
    rw [UInt32.toNat_ofNat', Nat.mod_eq_of_lt fits]
  have round (nodes : List Node) (length : nodes.length = cacheSize / 64) :
      ∃ next, (List.range (UInt32.ofNat (cacheSize / 64)).toNat).foldlM
        (cacheRound sha3_512 (UInt32.ofNat (cacheSize / 64))) nodes = .ok next ∧
        next.length = cacheSize / 64 := by
    apply Loops.foldlM_returns (fun nodes : List Node => nodes.length = cacheSize / 64) ?_ length
    intro nodes i inRange length
    rw [List.mem_range, count] at inRange
    rw [← length] at fits inRange ⊢
    exact cacheRound_returns sha3_512 fits inRange
  have start := chain_length sha3_512 (cacheSize / 64)
    (Node.ofBytes (sha3_512 seed.toList))
  rcases Loops.foldlM_returns (fun nodes : List Node => nodes.length = cacheSize / 64)
    (fun nodes (_ : Nat) (_ : _ ∈ List.range cacheRounds) length => round nodes length) start with
    ⟨nodes, run, length⟩
  refine ⟨nodes, ?_, length⟩
  rw [computeCacheNodes, if_neg (not_not_intro whole), if_neg (ofNat_ne_zero fits positive), count]
  rw [count] at run
  simp only [run]
  rfl

structure Light.IsFilled (light : Light) : Prop where
  length : light.cache.length = light.cacheSize / 64
  positive : 0 < light.cacheSize / 64
  fits : light.cacheSize / 64 < 2 ^ 32

variable {light : Light}

theorem Light.IsFilled.parent_returns (filled : light.IsFilled) (value : UInt32) :
    ∃ node, fetch light.cache (value % UInt32.ofNat (light.cacheSize / 64)).toNat = .ok node := by
  apply fetch_returns
  rw [filled.length]
  exact remainder_inside filled.fits filled.positive value

theorem calculateDagItem_returns (filled : light.IsFilled) (nodeIndex : UInt32) :
    ∃ node, calculateDagItem sha3_512 light nodeIndex = .ok node := by
  rcases filled.parent_returns nodeIndex with ⟨init, readsInit⟩
  have parents (ret : Node) (i : Nat) (_ : i ∈ List.range datasetParents) (_ : True) :
      ∃ next, mixParent light nodeIndex ret i = .ok next ∧ True := by
    rcases filled.parent_returns (fnvHash (nodeIndex ^^^ UInt32.ofNat i) (ret.at i)) with
      ⟨parent, readsParent⟩
    simp only [mixParent, readsParent]
    exact ⟨_, rfl, trivial⟩
  have mixed (start : Node) : ∃ ret, (List.range datasetParents).foldlM
      (mixParent light nodeIndex) start = .ok ret ∧ True :=
    Loops.foldlM_returns (fun _ => True) parents trivial
  rcases mixed (hashNode sha3_512 (init.set 0 (init.at 0 ^^^ nodeIndex))) with ⟨ret, run, _⟩
  refine ⟨hashNode sha3_512 ret, ?_⟩
  rw [calculateDagItem, if_neg (ofNat_ne_zero filled.fits filled.positive)]
  simp only [readsInit, run, bind, Except.bind]
  rfl

theorem computeFullData_returns (filled : light.IsFilled) {fullSize : Nat}
    (whole : fullSize % 128 = 0) (large : 100 ≤ fullSize / 64) (fits : fullSize / 64 < 2 ^ 32) :
    ∃ nodes, computeFullData sha3_512 fullSize light = .ok (some nodes) ∧
      ∀ index : UInt32, index.toNat < fullSize / 64 →
        fetch nodes index.toNat = calculateDagItem sha3_512 light index := by
  have count : (UInt32.ofNat (fullSize / 64)).toNat = fullSize / 64 := by
    rw [UInt32.toNat_ofNat', Nat.mod_eq_of_lt fits]
  have progress : ¬(UInt32.ofNat (fullSize / 64) ≠ 0 ∧ UInt32.ofNat (fullSize / 64) / 100 = 0) := by
    rintro ⟨_, zero⟩
    have value := congrArg UInt32.toNat zero
    rw [UInt32.toNat_div, count] at value
    change fullSize / 64 / 100 = 0 at value
    omega
  have item (n : Nat) (_ : n ∈ List.range (fullSize / 64)) :=
    calculateDagItem_returns sha3_512 filled (UInt32.ofNat n)
  rcases Loops.mapM_returns item with ⟨nodes, reads, _⟩
  refine ⟨nodes, ?_, ?_⟩
  · rw [computeFullData, if_neg (by rw [mixWords]; omega), if_neg progress, count]
    simp only [reads]
    rfl
  · intro index inside
    rcases Loops.mapM_getElem? reads (List.getElem?_range inside) with ⟨node, computed, stored⟩
    rw [UInt32.ofNat_toNat] at computed
    rw [fetch, stored, computed]

/-! ## Both ways to the dataset -/

theorem page_inside {pages : Nat} (fits : 2 * pages ≤ 2 ^ 32) {index : UInt32}
    (inPages : index.toNat < pages) {n : Nat} (inPage : n < 2) :
    (UInt32.ofNat mixNodes * index + UInt32.ofNat n).toNat = 2 * index.toNat + n := by
  have small : (UInt32.ofNat n).toNat = n := by
    rw [UInt32.toNat_ofNat', Nat.mod_eq_of_lt (by omega)]
  rw [UInt32.toNat_add, UInt32.toNat_mul, small]
  change (2 * index.toNat % 2 ^ 32 + n) % 2 ^ 32 = _
  omega

variable {dagNode other : UInt32 → Except Fault Node} {pages : Nat}

theorem mixPage_congr (positive : 0 < pages) (fits : 2 * pages ≤ 2 ^ 32)
    (agree : ∀ index : UInt32, index.toNat < 2 * pages → dagNode index = other index)
    (seed : Node) (mix : Words 32) (i : Nat) :
    mixPage dagNode (UInt32.ofNat pages) seed mix i =
      mixPage other (UInt32.ofNat pages) seed mix i := by
  have inPages := remainder_inside (by omega) positive
    (fnvHash (seed.at 0 ^^^ UInt32.ofNat i) (mix.at i))
  rw [mixPage, mixPage]
  apply Loops.foldlM_congr
  intro mix n inPage
  rw [List.mem_range, mixNodes] at inPage
  have inside := page_inside fits inPages inPage
  rw [mixPageNode, mixPageNode, agree _ (by omega)]

theorem mixPage_returns (positive : 0 < pages) (fits : 2 * pages ≤ 2 ^ 32)
    (returns : ∀ index : UInt32, index.toNat < 2 * pages → ∃ node, dagNode index = .ok node)
    (seed : Node) (mix : Words 32) (i : Nat) :
    ∃ next, mixPage dagNode (UInt32.ofNat pages) seed mix i = .ok next := by
  have inPages := remainder_inside (by omega) positive
    (fnvHash (seed.at 0 ^^^ UInt32.ofNat i) (mix.at i))
  rw [mixPage]
  generalize fnvHash (seed.at 0 ^^^ UInt32.ofNat i) (mix.at i) % UInt32.ofNat pages = index
    at inPages ⊢
  have step (mix : Words 32) (n : Nat) (inPage : n ∈ List.range mixNodes) (_ : True) :
      ∃ next, mixPageNode dagNode index mix n = .ok next ∧ True := by
    rw [List.mem_range, mixNodes] at inPage
    have inside := page_inside fits inPages inPage
    rcases returns (UInt32.ofNat mixNodes * index + UInt32.ofNat n) (by omega) with ⟨node, reads⟩
    rw [mixPageNode, reads]
    exact ⟨_, rfl, trivial⟩
  rcases Loops.foldlM_returns (fun _ => True) step trivial with ⟨next, run, _⟩
  exact ⟨next, run⟩

variable {fullSize : Nat}

def finish (seed : Node) (mix : Words 32) : ReturnValue :=
  let mixHash := mixBytes (compress mix)
  { mixHash, result := sha3_256 (seed.bytes ++ mixHash.toList) }

theorem ethashHash_eq (whole : fullSize % 128 = 0) (positive : 0 < fullSize)
    (fits : fullSize / 64 < 2 ^ 32) (headerHash : FixedBytes 32) (nonce : UInt64) :
    ethashHash sha3_256 sha3_512 dagNode fullSize headerHash nonce =
      let seed := seedNode sha3_512 headerHash nonce
      ((List.range accesses).foldlM (mixPage dagNode (UInt32.ofNat (fullSize / 128)) seed)
        (List.Vector.ofFn fun word => seed.at word.val)).map
          fun mix => some (finish sha3_256 seed mix) := by
  have words : ¬fullSize % mixWords ≠ 0 := by
    rw [mixWords]
    omega
  have notZero : UInt32.ofNat (fullSize / (4 * mixWords)) ≠ 0 :=
    ofNat_ne_zero (by rw [mixWords]; omega) (by rw [mixWords]; omega)
  have page : 4 * mixWords = 128 := rfl
  rw [page] at notZero
  rw [ethashHash, if_neg words, page]
  simp only [if_neg notZero]
  cases (List.range accesses).foldlM (mixPage dagNode (UInt32.ofNat (fullSize / 128))
      (seedNode sha3_512 headerHash nonce))
      (List.Vector.ofFn fun word => (seedNode sha3_512 headerHash nonce).at word.val) with
  | error fault => rfl
  | ok mix => rfl

theorem ethashHash_congr (whole : fullSize % 128 = 0) (positive : 0 < fullSize)
    (fits : fullSize / 64 < 2 ^ 32)
    (agree : ∀ index : UInt32, index.toNat < fullSize / 64 → dagNode index = other index)
    (headerHash : FixedBytes 32) (nonce : UInt64) :
    ethashHash sha3_256 sha3_512 dagNode fullSize headerHash nonce =
      ethashHash sha3_256 sha3_512 other fullSize headerHash nonce := by
  rw [ethashHash_eq sha3_256 sha3_512 whole positive fits,
    ethashHash_eq sha3_256 sha3_512 whole positive fits]
  simp only
  congr 1
  apply Loops.foldlM_congr
  intro mix i _
  apply mixPage_congr (by omega) (by omega)
  intro index inside
  exact agree index (by omega)

theorem ethashHash_returns (whole : fullSize % 128 = 0) (positive : 0 < fullSize)
    (fits : fullSize / 64 < 2 ^ 32)
    (returns : ∀ index : UInt32, index.toNat < fullSize / 64 → ∃ node, dagNode index = .ok node)
    (headerHash : FixedBytes 32) (nonce : UInt64) :
    ∃ value, ethashHash sha3_256 sha3_512 dagNode fullSize headerHash nonce = .ok (some value) ∧
      quickHash sha3_256 sha3_512 headerHash nonce value.mixHash = value.result := by
  have pages (seed : Node) (mix : Words 32) (i : Nat) (_ : i ∈ List.range accesses) (_ : True) :
      ∃ next, mixPage dagNode (UInt32.ofNat (fullSize / 128)) seed mix i = .ok next ∧ True := by
    rcases mixPage_returns (by omega : 0 < fullSize / 128) (by omega)
      (fun index inside => returns index (by omega)) seed mix i with ⟨next, step⟩
    exact ⟨next, step, trivial⟩
  rw [ethashHash_eq sha3_256 sha3_512 whole positive fits]
  simp only
  rcases Loops.foldlM_returns (fun _ => True) (pages (seedNode sha3_512 headerHash nonce))
    trivial with ⟨mix, run, _⟩
  rw [run]
  refine ⟨_, rfl, ?_⟩
  simp only [finish, quickHash, seedNode, Node.bytes_ofBytes]

end Hashes

end Miningcore.Ethash

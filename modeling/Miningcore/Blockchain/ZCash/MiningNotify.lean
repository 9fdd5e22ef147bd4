import Miningcore.Blockchain.ZCash.Job
import Miningcore.Foundation.ArrayHeap

/-! `mining.notify` of `ZCashJob` and `BitcoinGoldJob`. Six fields of the header are derived
twice: by `Init` for the notification, and by `SerializeHeader` for a share. Arrays are
reversed in place on the way, the one of the merkle root twice and under two names. -/

namespace Miningcore.ZCash

open LittleEndian StringExtensions ArrayHeap

/-! ## Templates -/

structure HashText where
  text : Text
  isHex : text.isHex = true
  length_eq : text.length = 64

structure TemplateTransaction where
  hash : HashText
  txId : HashText

/-- The fields of `ZCashBlockTemplate` that go into a header. -/
structure BlockTemplate where
  version : UInt32
  previousBlockhash : HashText
  finalSaplingRootHash : Option Text
  bits : Text
  curTime : UInt32
  height : UInt32
  transactions : List TemplateTransaction
  bits_isHex : bits.isHex = true
  bits_length : bits.length = 8

/-- The fields of `ZCashChainConfig` that decide about Sapling. -/
structure SaplingConfig where
  activationHeight : Option UInt32
  txVersion : Option UInt32
  txVersionGroupId : Option UInt32

/-- The test of `Init` for the height of a template. -/
def SaplingConfig.isActive (config : SaplingConfig) (height : UInt32) : Bool :=
  config.txVersion.isSome && config.txVersionGroupId.isSome &&
    config.activationHeight.any fun activation => 0 < activation && activation ≤ height

inductive JobClass
  | zcash (config : SaplingConfig)
  | bitcoinGold

/-- `ZCashJob` hashes the field `hash` of a transaction, `BitcoinGoldJob` the field `txId`. -/
def JobClass.transactionHash : JobClass → TemplateTransaction → HashText
  | .zcash _, transaction => transaction.hash
  | .bitcoinGold, transaction => transaction.txId

def JobClass.kind (jobClass : JobClass) (template : BlockTemplate) : Kind :=
  match jobClass with
  | .zcash config => .zcash (config.isActive template.height) template.finalSaplingRootHash
  | .bitcoinGold => .bitcoinGold

/-- What the jobs use of NBitcoin, as documented: the root of a merkle tree, the compact form of
the target that is made of four bytes, and two ways to make a `uint256`. Its constructor takes
an array with the least significant byte first, `Parse` a text with the most significant one
first. -/
structure NBitcoin where
  getRoot : List (FixedBytes 32) → FixedBytes 32
  compactTarget : Bytes → UInt32
  newUInt256 : Bytes → Option (FixedBytes 32)
  parse : HashText → FixedBytes 32
  newUInt256_toList : ∀ hash : FixedBytes 32, newUInt256 hash.toList = some hash
  toList_parse : ∀ hash, (parse hash).toList = (hexPairs hash.text).reverse

/-- The bits of the template are the compact form of their own target. -/
def BlockTemplate.IsCanonical (nbitcoin : NBitcoin) (template : BlockTemplate) : Prop :=
  (nbitcoin.compactTarget (hexPairs template.bits)).toNat =
    decode (hexPairs template.bits).reverse

/-- `HexToByteArray`, then `ReverseArray` on the array it returns, which nobody else has. -/
def reversedHex (culture : Culture) (hex : Text) : Program UInt8 Bytes := do
  let array ← newArray (hexToByteArray culture hex)
  readArray (← reverseArray array)

/-! ## The two derivations -/

/-- The parameters of `mining.notify`, in order. -/
structure JobParams where
  jobId : Text
  version : Text
  previousBlockHash : Text
  merkleRoot : Text
  hashReserved : Text
  curTime : Text
  bits : Text
  isNew : Bool

/-- The header as a miner writes it in hexadecimal: the fields of the notification, with the
time and the nonce that it submits. -/
def JobParams.headerHex (params : JobParams) (nTime nonce : Text) : Text :=
  params.version ++ (params.previousBlockHash ++ (params.merkleRoot ++ (params.hashReserved ++
    (nTime ++ (params.bits ++ nonce)))))

/-- A job after `Init`. `merkleRoot` is an array that the job keeps. -/
structure PreparedJob where
  jobClass : JobClass
  template : BlockTemplate
  merkleRoot : Reference
  jobParams : JobParams

section

variable (culture : Culture) (nbitcoin : NBitcoin)

def hashReservedParam (jobClass : JobClass) (template : BlockTemplate) : Program UInt8 Text :=
  match jobClass.kind template with
  | .zcash true (some (unit :: rest)) => do
      return toHexString (← reversedHex culture (unit :: rest))
  | .zcash _ _ => return toHexString (List.replicate 32 0)
  | .bitcoinGold =>
      return toStringHex8 (reverseByteOrder template.height) ++
        toHexString ((List.replicate 32 0).take 28)

def transactionHashes (jobClass : JobClass) (template : BlockTemplate) :
    Program UInt8 (List (FixedBytes 32)) :=
  template.transactions.mapM fun transaction => do
    liftM (nbitcoin.newUInt256 (← reversedHex culture (jobClass.transactionHash transaction).text))

/-- `Init`, as far as headers go, behind `BuildCoinbase`. -/
def init (jobClass : JobClass) (template : BlockTemplate) (jobId : Text)
    (coinbaseInitialHash : FixedBytes 32) : Program UInt8 PreparedJob := do
  let previousBlockHash ← reversedHex culture template.previousBlockhash.text
  let others ← transactionHashes culture nbitcoin jobClass template
  let root := nbitcoin.getRoot (coinbaseInitialHash :: others)
  let merkleRoot ← reverseArray (← newArray root.toList)
  -- the same array again, which ends up as it was allocated
  let merkleRootReversed ← reverseArray merkleRoot
  let merkleRootReversedHex := toHexString (← readArray merkleRootReversed)
  let hashReserved ← hashReservedParam culture jobClass template
  let bits ← reversedHex culture template.bits
  return {
    jobClass, template, merkleRoot
    jobParams := {
      jobId
      version := toStringHex8 (reverseByteOrder template.version)
      previousBlockHash := toHexString previousBlockHash
      merkleRoot := merkleRootReversedHex
      hashReserved
      curTime := toStringHex8 (reverseByteOrder template.curTime)
      bits := toHexString bits
      isNew := false } }

def headerReserved (jobClass : JobClass) (template : BlockTemplate) : Program UInt8 Bytes :=
  match jobClass.kind template with
  | .zcash true (some (unit :: rest)) => reversedHex culture (unit :: rest)
  | .zcash _ _ => return List.replicate 32 0
  | .bitcoinGold => return encode 4 template.height.toNat ++ List.replicate 28 0

/-- `SerializeHeader`, with `ReadWrite` of the header. -/
def PreparedJob.serializeHeader (prepared : PreparedJob) (nTime : UInt32) (nonce : Text) :
    Program UInt8 Bytes := do
  let merkleRoot ← liftM (nbitcoin.newUInt256 (← readArray prepared.merkleRoot))
  let hashReserved ← headerReserved culture prepared.jobClass prepared.template
  return [encode 4 prepared.template.version.toNat,
    (nbitcoin.parse prepared.template.previousBlockhash).toList, merkleRoot.toList, hashReserved,
    encode 4 nTime.toNat,
    encode 4 (nbitcoin.compactTarget (hexPairs prepared.template.bits)).toNat,
    hexToByteArray culture nonce].flatten

/-- The notification of a job, and the header of a share that comes behind others. -/
def notifiedAndSerialized (jobClass : JobClass) (template : BlockTemplate) (jobId : Text)
    (coinbaseInitialHash : FixedBytes 32) (earlier : List (UInt32 × Text)) (nTime : UInt32)
    (nonce : Text) : Program UInt8 (JobParams × Bytes) := do
  let prepared ← init culture nbitcoin jobClass template jobId coinbaseInitialHash
  forM earlier fun share => discard (prepared.serializeHeader culture nbitcoin share.1 share.2)
  let header ← prepared.serializeHeader culture nbitcoin nTime nonce
  return (prepared.jobParams, header)

end

/-! ## Runs -/

theorem reversedHex_run (culture : Culture) (hex : Text) (heap : ArrayHeap UInt8) :
    reversedHex culture hex heap =
      some ((hexToByteArray culture hex).reverse,
        heap ++ [(hexToByteArray culture hex).reverse]) := by
  have allocated : newArray (hexToByteArray culture hex) heap =
      some (heap.length, heap ++ [hexToByteArray culture hex]) := rfl
  rw [reversedHex, run_bind allocated, run_bind (reverseArray_newest heap _), readArray_newest]

theorem NBitcoin.reverse_hexToByteArray (nbitcoin : NBitcoin) (culture : Culture)
    (hash : HashText) :
    (hexToByteArray culture hash.text).reverse = (nbitcoin.parse hash).toList := by
  rw [hexToByteArray_of_isHex culture hash.isHex, nbitcoin.toList_parse]

def BlockTemplate.merkleRoot (nbitcoin : NBitcoin) (jobClass : JobClass) (template : BlockTemplate)
    (coinbaseInitialHash : FixedBytes 32) : FixedBytes 32 :=
  nbitcoin.getRoot (coinbaseInitialHash ::
    template.transactions.map fun transaction =>
      nbitcoin.parse (jobClass.transactionHash transaction))

def BlockTemplate.toJob (nbitcoin : NBitcoin) (jobClass : JobClass) (template : BlockTemplate)
    (root : FixedBytes 32) (job : Job) : Job :=
  { job with
    kind := jobClass.kind template
    version := template.version
    previousBlockhash := nbitcoin.parse template.previousBlockhash
    merkleRoot := root
    bits := nbitcoin.compactTarget (hexPairs template.bits)
    curTime := template.curTime
    height := template.height }

section

variable (environment : Environment) (nbitcoin : NBitcoin) (jobClass : JobClass)
  (template : BlockTemplate) (root : FixedBytes 32) (job : Job)

theorem hashReserved_run (heap : ArrayHeap UInt8) :
    ∃ added, headerReserved environment.culture jobClass template heap =
        some ((template.toJob nbitcoin jobClass root job).hashReserved environment,
          heap ++ added) ∧
      hashReservedParam environment.culture jobClass template heap =
        some (toHexString ((template.toJob nbitcoin jobClass root job).hashReserved environment),
          heap ++ added) := by
  have height : toStringHex8 (reverseByteOrder template.height) =
      toHexString (encode 4 template.height.toNat) := toStringHex8_reverseByteOrder _
  unfold headerReserved hashReservedParam Job.hashReserved BlockTemplate.toJob
  generalize jobClass.kind template = kind
  match kind with
  | .zcash true (some (unit :: rest)) =>
      exact ⟨_, reversedHex_run environment.culture _ heap,
        run_bind (reversedHex_run environment.culture _ heap) _⟩
  | .zcash true (some []) | .zcash true none | .zcash false _ =>
      use []
      rw [List.append_nil]
      exact ⟨rfl, rfl⟩
  | .bitcoinGold =>
      use []
      simp only [height, List.take_replicate, toHexString_append, List.append_nil]
      exact ⟨rfl, rfl⟩

theorem transactionHashes_run (heap : ArrayHeap UInt8) :
    transactionHashes environment.culture nbitcoin jobClass template heap =
      some (template.transactions.map fun transaction =>
          nbitcoin.parse (jobClass.transactionHash transaction),
        heap ++ template.transactions.map fun transaction =>
          (nbitcoin.parse (jobClass.transactionHash transaction)).toList) := by
  apply mapM_run
  intro transaction _ heap
  rw [run_bind (reversedHex_run _ _ heap), nbitcoin.reverse_hexToByteArray,
    run_lift (nbitcoin.newUInt256_toList _)]

/-- What `Init` leaves behind: the array of the merkle root has been reversed twice, and each
field of the notification spells the bytes of the field of the header. -/
structure IsPrepared (prepared : PreparedJob) (heap : ArrayHeap UInt8) : Prop where
  jobClass_eq : prepared.jobClass = jobClass
  template_eq : prepared.template = template
  held : heap[prepared.merkleRoot]? = some root.toList
  version : prepared.jobParams.version = toHexString (encode 4 template.version.toNat)
  previousBlockHash : prepared.jobParams.previousBlockHash =
    toHexString (nbitcoin.parse template.previousBlockhash).toList
  merkleRoot : prepared.jobParams.merkleRoot = toHexString root.toList
  hashReserved : prepared.jobParams.hashReserved =
    toHexString ((template.toJob nbitcoin jobClass root job).hashReserved environment)
  bits : prepared.jobParams.bits = toHexString (hexPairs template.bits).reverse

theorem init_run (jobId : Text) (coinbaseInitialHash : FixedBytes 32) (heap : ArrayHeap UInt8) :
    ∃ prepared after,
      init environment.culture nbitcoin jobClass template jobId coinbaseInitialHash heap =
        some (prepared, after) ∧
      IsPrepared environment nbitcoin jobClass template
        (template.merkleRoot nbitcoin jobClass coinbaseInitialHash) job prepared after := by
  have previous := reversedHex_run environment.culture template.previousBlockhash.text heap
  rw [nbitcoin.reverse_hexToByteArray] at previous
  have others := transactionHashes_run environment nbitcoin jobClass template
    (heap ++ [(nbitcoin.parse template.previousBlockhash).toList])
  generalize (heap ++ [(nbitcoin.parse template.previousBlockhash).toList] ++
    template.transactions.map fun transaction =>
      (nbitcoin.parse (jobClass.transactionHash transaction)).toList) = before at others
  have allocated : newArray (template.merkleRoot nbitcoin jobClass coinbaseInitialHash).toList
      before = some (before.length, before ++
        [(template.merkleRoot nbitcoin jobClass coinbaseInitialHash).toList]) := rfl
  have again := reverseArray_newest before
    (template.merkleRoot nbitcoin jobClass coinbaseInitialHash).toList.reverse
  rw [List.reverse_reverse] at again
  rcases hashReserved_run environment nbitcoin jobClass template
    (template.merkleRoot nbitcoin jobClass coinbaseInitialHash) job
    (before ++ [(template.merkleRoot nbitcoin jobClass coinbaseInitialHash).toList]) with
    ⟨added, -, reserved⟩
  have bits := reversedHex_run environment.culture template.bits
    (before ++ [(template.merkleRoot nbitcoin jobClass coinbaseInitialHash).toList] ++ added)
  rw [hexToByteArray_of_isHex environment.culture template.bits_isHex] at bits
  refine ⟨?prepared, ?after, ?ran, ?isPrepared⟩
  case ran =>
    rw [init, run_bind previous, run_bind others, ← BlockTemplate.merkleRoot, run_bind allocated,
      run_bind (reverseArray_newest before _), run_bind again,
      run_bind (readArray_newest before _), run_bind reserved, run_bind bits]
    rfl
  case isPrepared =>
    exact {
      jobClass_eq := rfl
      template_eq := rfl
      held := held_append (held_append List.getElem?_concat_length added) _
      version := toStringHex8_reverseByteOrder template.version
      previousBlockHash := rfl
      merkleRoot := rfl
      hashReserved := rfl
      bits := rfl }

theorem serializeHeader_run {prepared : PreparedJob} {heap : ArrayHeap UInt8}
    (isPrepared : IsPrepared environment nbitcoin jobClass template root job prepared heap)
    (nTime : UInt32) (nonce : Text) :
    ∃ after, prepared.serializeHeader environment.culture nbitcoin nTime nonce heap =
        some ((template.toJob nbitcoin jobClass root job).serializeHeader environment nTime nonce,
          after) ∧
      IsPrepared environment nbitcoin jobClass template root job prepared after := by
  rcases hashReserved_run environment nbitcoin jobClass template root job heap with
    ⟨added, reserved, -⟩
  use heap ++ added
  constructor
  · rw [PreparedJob.serializeHeader, isPrepared.jobClass_eq, isPrepared.template_eq,
      run_bind (readArray_eq isPrepared.held), 
      run_bind (run_lift (nbitcoin.newUInt256_toList root) heap), run_bind reserved]
    rfl
  · exact { isPrepared with held := held_append isPrepared.held added }

theorem forM_serializeHeader_run {prepared : PreparedJob} {heap : ArrayHeap UInt8}
    (isPrepared : IsPrepared environment nbitcoin jobClass template root job prepared heap)
    (shares : List (UInt32 × Text)) :
    ∃ after, forM shares (fun share => discard
        (prepared.serializeHeader environment.culture nbitcoin share.1 share.2)) heap =
          some (⟨⟩, after) ∧
      IsPrepared environment nbitcoin jobClass template root job prepared after := by
  apply forM_run _ shares isPrepared
  intro share heap isPrepared
  rcases serializeHeader_run environment nbitcoin jobClass template root job isPrepared share.1
    share.2 with ⟨after, serialized, kept⟩
  exact ⟨after, run_discard serialized, kept⟩

theorem encode_compactTarget (canonical : template.IsCanonical nbitcoin) :
    encode 4 (nbitcoin.compactTarget (hexPairs template.bits)).toNat =
      (hexPairs template.bits).reverse := by
  have bytes := encode_decode (hexPairs template.bits).reverse
  rw [List.length_reverse, hexPairs_length, template.bits_length] at bytes
  rw [canonical]
  exact bytes

theorem toHexString_serializeHeader {prepared : PreparedJob} {heap : ArrayHeap UInt8}
    (isPrepared : IsPrepared environment nbitcoin jobClass template root job prepared heap)
    (canonical : template.IsCanonical nbitcoin) (nTime : UInt32) (nonce : Text) :
    toHexString ((template.toJob nbitcoin jobClass root job).serializeHeader environment nTime
      nonce) = prepared.jobParams.headerHex (toHexString (encode 4 nTime.toNat))
        (toHexString (hexToByteArray environment.culture nonce)) := by
  have bits := encode_compactTarget nbitcoin template canonical
  simp only [JobParams.headerHex, isPrepared.version, isPrepared.previousBlockHash,
    isPrepared.merkleRoot, isPrepared.hashReserved, isPrepared.bits, ← bits,
    ← toHexString_append]
  simp only [Job.serializeHeader, List.flatten_cons, List.flatten_nil, List.append_nil]
  rfl

theorem hexPairs_headerHex {prepared : PreparedJob} {heap : ArrayHeap UInt8}
    (isPrepared : IsPrepared environment nbitcoin jobClass template root job prepared heap)
    {nTime nonce : Text} (nTimeHex : nTime.isHex = true) (nTimeEven : nTime.length % 2 = 0)
    (nonceHex : nonce.isHex = true) :
    hexToByteArray environment.culture (prepared.jobParams.headerHex nTime nonce) =
      hexPairs (prepared.jobParams.headerHex (toHexString (hexPairs nTime))
        (toHexString (hexPairs nonce))) := by
  rw [hexToByteArray_of_isHex]
  · simp only [JobParams.headerHex, isPrepared.version, isPrepared.previousBlockHash,
      isPrepared.merkleRoot, isPrepared.hashReserved, isPrepared.bits, hexPairs_append,
      toHexString_length, Nat.mul_mod_right, nTimeEven, hexPairs_toHexString]
  · simp only [JobParams.headerHex, isPrepared.version, isPrepared.previousBlockHash,
      isPrepared.merkleRoot, isPrepared.hashReserved, isPrepared.bits, Text.isHex_append,
      isHex_toHexString, nTimeHex, nonceHex, Bool.and_self]

end

/-- For every template and every class of job, whatever arrays there are and however many
shares came before: `Init` and `SerializeHeader` return, the fields of the notification with
the time and the nonce that were submitted decode to the header, and they are its text, up to
the letter case of what the miner submitted. -/
theorem headerHex_eq_serializeHeader (environment : Environment) (nbitcoin : NBitcoin)
    (jobClass : JobClass) {template : BlockTemplate} (canonical : template.IsCanonical nbitcoin)
    (job : Job) (jobId : Text) (coinbaseInitialHash : FixedBytes 32)
    (earlier : List (UInt32 × Text)) (heap : ArrayHeap UInt8) {nTime nonce : Text}
    (nTimeHex : nTime.isHex = true) (nTimeLength : nTime.length = 8)
    (nonceHex : nonce.isHex = true) (nonceLength : nonce.length = 64) :
    ∃ nTimeInt params header after,
      parseUInt32 (toHexString (hexToByteArray environment.culture nTime).reverse) =
        .ok nTimeInt ∧
      notifiedAndSerialized environment.culture nbitcoin jobClass template jobId
        coinbaseInitialHash earlier nTimeInt nonce heap = some ((params, header), after) ∧
      header = (template.toJob nbitcoin jobClass (template.merkleRoot nbitcoin jobClass
        coinbaseInitialHash) job).serializeHeader environment nTimeInt nonce ∧
      hexToByteArray environment.culture (params.headerHex nTime nonce) = header ∧
      params.headerHex nTime.asciiLower nonce.asciiLower = toHexString header := by
  rcases parseUInt32_of_isHex (isHex_toHexString (hexPairs nTime).reverse) (by
    rw [toHexString_length, List.length_reverse, hexPairs_length, nTimeLength]) with
    ⟨nTimeInt, parsed, nTimeBytes⟩
  rw [hexPairs_toHexString, List.reverse_reverse] at nTimeBytes
  rw [← hexToByteArray_of_isHex environment.culture nTimeHex] at parsed
  rcases init_run environment nbitcoin jobClass template job jobId coinbaseInitialHash heap with
    ⟨prepared, before, ran, isPrepared⟩
  rcases forM_serializeHeader_run environment nbitcoin jobClass template _ job isPrepared earlier
    with ⟨between, ranEarlier, stillPrepared⟩
  rcases serializeHeader_run environment nbitcoin jobClass template _ job stillPrepared nTimeInt
    nonce with ⟨after, serialized, kept⟩
  have spelled := toHexString_serializeHeader environment nbitcoin jobClass template _ job kept
    canonical nTimeInt nonce
  rw [nTimeBytes, hexToByteArray_of_isHex environment.culture nonceHex] at spelled
  refine ⟨nTimeInt, prepared.jobParams, _, after, parsed, ?_, rfl, ?_, ?_⟩
  · rw [notifiedAndSerialized, run_bind ran, run_bind ranEarlier, run_bind serialized]
    rfl
  · rw [hexPairs_headerHex environment nbitcoin jobClass template _ job kept nTimeHex (by omega)
      nonceHex, ← spelled, hexPairs_toHexString]
  · rw [spelled, toHexString_hexPairs nTimeHex (by omega), toHexString_hexPairs nonceHex (by omega)]

/-! ## A template behind the activation of Sapling -/

namespace SampleNotify

def config : SaplingConfig where
  activationHeight := some 419200
  txVersion := some 4
  txVersionGroupId := some 0x892f2085

def coinbaseHash : FixedBytes 32 := .ofNumber 32 0x7a8b9c

def transactionHash : HashText where
  text := toHexString (BigEndian.encode 32 0x1f2e3d)
  isHex := isHex_toHexString _
  length_eq := by decide

def parse (hash : HashText) : FixedBytes 32 :=
  ⟨(hexPairs hash.text).reverse, by rw [List.length_reverse, hexPairs_length, hash.length_eq]⟩

/-- The root of the two hashes is their double SHA-256. The bits are canonical. -/
def nbitcoin : NBitcoin where
  getRoot hashes :=
    if hashes = [coinbaseHash, parse transactionHash] then
      .ofNumber 32 0x7fb99f6bdef51769e831b2d75d2cd652dae7da90768dbaabf5a41921424ca87b
    else hashes.headD (.ofNumber 32 0)
  compactTarget bytes := .ofNat (decode bytes.reverse)
  newUInt256 bytes := if width : bytes.length = 32 then some ⟨bytes, width⟩ else none
  parse
  newUInt256_toList hash := dif_pos hash.toList_length
  toList_parse _ := rfl

def template : BlockTemplate where
  version := 4
  previousBlockhash := {
    text := toHexString (BigEndian.encode 32 0x1b2c3d)
    isHex := isHex_toHexString _
    length_eq := by decide }
  finalSaplingRootHash := some (toHexString (BigEndian.encode 32 0x4d5e6f))
  bits := text "1c4b2a19"
  curTime := 0x5b000000
  height := 419200
  transactions := [⟨transactionHash, transactionHash⟩]
  bits_isHex := by decide
  bits_length := by decide

end SampleNotify

theorem headerHex_sapling :
    parseUInt32 (toHexString (hexToByteArray .ordinal (text "F200005b")).reverse) =
        .ok 0x5b0000f2 ∧
      ∃ params header after, notifiedAndSerialized .ordinal SampleNotify.nbitcoin
          (.zcash SampleNotify.config) SampleNotify.template (text "1")
          SampleNotify.coinbaseHash [(0x5b0000f1, [])] 0x5b0000f2
          (toHexString (BigEndian.encode 32 1)) [] = some ((params, header), after) ∧
        params.merkleRoot =
          text "7fb99f6bdef51769e831b2d75d2cd652dae7da90768dbaabf5a41921424ca87b" ∧
        params.headerHex (text "f200005b") (toHexString (BigEndian.encode 32 1)) =
          toHexString header := by
  rcases headerHex_eq_serializeHeader SampleShare.environment SampleNotify.nbitcoin
    (.zcash SampleNotify.config) (rfl : SampleNotify.template.IsCanonical SampleNotify.nbitcoin)
    SampleShare.job (text "1") SampleNotify.coinbaseHash [(0x5b0000f1, [])] []
    (by decide : (text "F200005b").isHex = true) (by decide)
    (isHex_toHexString (BigEndian.encode 32 1)) (by decide) with
    ⟨nTimeInt, params, header, after, parsed, ran, -, -, spelled⟩
  have time : parseUInt32 (toHexString (hexToByteArray .ordinal (text "F200005b")).reverse) =
      .ok 0x5b0000f2 := by decide
  have same : nTimeInt = 0x5b0000f2 := Except.ok.inj (parsed.symm.trans time)
  rw [same] at ran
  rw [asciiLower_toHexString] at spelled
  have root : (notifiedAndSerialized .ordinal SampleNotify.nbitcoin (.zcash SampleNotify.config)
      SampleNotify.template (text "1") SampleNotify.coinbaseHash [(0x5b0000f1, [])] 0x5b0000f2
      (toHexString (BigEndian.encode 32 1)) []).map (fun result => result.1.1.merkleRoot) =
        some (text "7fb99f6bdef51769e831b2d75d2cd652dae7da90768dbaabf5a41921424ca87b") := by
    decide
  have isRoot := root.symm.trans (congrArg (Option.map fun result => result.1.1.merkleRoot) ran)
  exact ⟨time, params, header, after, ran, (Option.some.inj isRoot).symm, spelled⟩

end Miningcore.ZCash

import Miningcore.Blockchain.Bitcoin.Job

/-! `BuildCoinbase` of a `BitcoinJob`, and what a decoder makes of the coinbase transaction
and the block that a share is serialized to.

The length of the input script is written when the job is made. It counts eight bytes for
the extra nonces, which come with the shares. -/

namespace Miningcore.Bitcoin

open LittleEndian StringExtensions ByteLayout

/-! ## Scripts -/

/-- `Op.GetPushOp` of an array. -/
def pushData (data : Bytes) : Bytes :=
  match data with
  | [] => [0]
  | [byte] =>
      if 1 ≤ byte ∧ byte ≤ 16 then [0x50 + byte]
      else if byte = 0x81 then [0x4f]
      else [1, byte]
  | _ =>
      if data.length < 0x4c then encode 1 data.length ++ data
      else if data.length ≤ 0xff then 0x4c :: encode 1 data.length ++ data
      else if data.length ≤ 0xffff then 0x4d :: encode 2 data.length ++ data
      else 0x4e :: encode 4 data.length ++ data

def scriptNumber (value : Nat) : Bytes := encode ((Nat.log2 value + 1) / 8 + 1) value

def pushNumber (value : Nat) : Bytes :=
  if value = 0 then [0]
  else if value ≤ 16 then encode 1 (0x50 + value)
  else pushData (scriptNumber value)

/-- `scriptSigFinalBytes`: the text `/MiningCore/`. -/
def scriptSigFinal : Bytes := pushData (BigEndian.encode 12 0x2f4d696e696e67436f72652f)

/-! ## The coinbase transaction of a template -/

structure TransactionOutput where
  value : UInt64
  script : Bytes
deriving DecidableEq

/-- What `BuildCoinbase` and `SerializeBlock` read: of the template, the outputs of
`CreateOutputTransaction`, the fields of the job and the clock. Arrays and texts are shorter
than two to the 31st. -/
structure CoinbaseTemplate where
  txVersion : UInt32
  isPoS : Bool
  curTime : UInt32
  height : UInt32
  flags : Text
  now : UInt64
  outputs : List TransactionOutput
  defaultWitnessCommitment : Text
  transactions : List Text
  flags_length : flags.length < 2 ^ 31
  outputs_length : outputs.length < 2 ^ 31
  scripts_length : ∀ output ∈ outputs, output.script.length < 2 ^ 31
  commitment_length : defaultWitnessCommitment.length < 2 ^ 31
  transactions_length : transactions.length < 2 ^ 31

namespace CoinbaseTemplate

variable (environment : Environment) (template : CoinbaseTemplate)

/-- `GenerateScriptSigInitial`. Flags that are null or empty are left out. -/
def scriptSigInitial : Bytes :=
  pushNumber template.height.toNat ++
    (if template.flags.isEmpty then []
      else pushData (hexToByteArray environment.culture template.flags)) ++
    pushNumber template.now.toNat ++ pushNumber 0

def extranoncePlaceHolderLength : Nat := 8

def sigScriptLength : UInt32 :=
  .ofNat ((template.scriptSigInitial environment).length + extranoncePlaceHolderLength +
    scriptSigFinal.length)

def allOutputs : List TransactionOutput :=
  (if template.defaultWitnessCommitment.isEmpty then []
    else [⟨0, hexToByteArray environment.culture template.defaultWitnessCommitment⟩]) ++
    template.outputs

def writeOutput (output : TransactionOutput) : Bytes :=
  encode 8 output.value.toNat ++ (varInt (.ofNat output.script.length) ++ output.script)

def serializeOutputTransaction : Bytes :=
  varInt (.ofNat (template.allOutputs environment).length) ++
    (template.allOutputs environment).flatMap writeOutput

def coinbaseInitial : Bytes :=
  encode 4 template.txVersion.toNat ++
    (if template.isPoS then encode 4 template.curTime.toNat else []) ++
    varInt 1 ++ List.replicate 32 0 ++ encode 4 (2 ^ 32 - 1) ++
    varInt (template.sigScriptLength environment) ++ template.scriptSigInitial environment

def coinbaseFinal : Bytes :=
  scriptSigFinal ++ encode 4 0 ++ template.serializeOutputTransaction environment ++ encode 4 0

def buildCoinbase (job : Job) : Job :=
  { job with
    isPoS := template.isPoS
    transactions := template.transactions.map (hexToByteArray environment.culture)
    coinbaseInitial := template.coinbaseInitial environment
    coinbaseFinal := template.coinbaseFinal environment }

end CoinbaseTemplate

/-! ## Decoding -/

def readVarInt : Reader Nat := do
  let marker ← readInteger 1
  if marker < 0xfd then return marker
  else if marker = 0xfd then readInteger 2
  else if marker = 0xfe then readInteger 4
  else readInteger 8

structure TransactionInput where
  previousHash : Bytes
  previousIndex : Nat
  script : Bytes
  sequence : Nat
deriving DecidableEq

structure Transaction where
  version : Nat
  timestamp : Option Nat
  inputs : List TransactionInput
  outputs : List TransactionOutput
  lockTime : Nat
deriving DecidableEq

def readInput : Reader TransactionInput := do
  let previousHash ← readBytes 32
  let previousIndex ← readInteger 4
  let scriptLength ← readVarInt
  let script ← readBytes scriptLength
  let sequence ← readInteger 4
  return { previousHash, previousIndex, script, sequence }

def readOutput : Reader TransactionOutput := do
  let value ← readInteger 8
  let scriptLength ← readVarInt
  let script ← readBytes scriptLength
  return { value := .ofNat value, script }

def readTimestamp (isPoS : Bool) : Reader (Option Nat) :=
  if isPoS then some <$> readInteger 4 else pure none

def readTransaction (isPoS : Bool) : Reader Transaction := do
  let version ← readInteger 4
  let timestamp ← readTimestamp isPoS
  let inputCount ← readVarInt
  let inputs ← readMany readInput inputCount
  let outputCount ← readVarInt
  let outputs ← readMany readOutput outputCount
  let lockTime ← readInteger 4
  return { version, timestamp, inputs, outputs, lockTime }

structure Block where
  header : Bytes
  transactionCount : Nat
  coinbase : Transaction
  transactions : List Bytes
deriving DecidableEq

def readBlock (isPoS : Bool) (readOther : Reader Bytes) : Reader Block := do
  let header ← readBytes 80
  let transactionCount ← readVarInt
  let coinbase ← readTransaction isPoS
  let transactions ← readMany readOther (transactionCount - 1)
  return { header, transactionCount, coinbase, transactions }

theorem readVarInt_append (value : UInt32) (rest : Bytes) :
    readVarInt (varInt value ++ rest) = some (value.toNat, rest) := by
  have fits : value.toNat < 256 ^ 4 := value.toNat_lt
  rw [varInt, readVarInt]
  split_ifs with isShort isMedium
  · have short : value.toNat < 0xfd := UInt32.lt_iff_toNat_lt.mp isShort
    rw [readInteger_bind 1 value.toNat (by omega), if_pos short]
    rfl
  · have medium : value.toNat ≤ 0xffff := UInt32.le_iff_toNat_le.mp isMedium
    exact (readInteger_bind 1 0xfd (by decide) _ _).trans
      (readInteger_append 2 value.toNat (by omega) rest)
  · exact (readInteger_bind 1 0xfe (by decide) _ _).trans
      (readInteger_append 4 value.toNat fits rest)

theorem readVarInt_ofNat {count : Nat} (fits : count < 2 ^ 32) (rest : Bytes) :
    readVarInt (varInt (.ofNat count) ++ rest) = some (count, rest) := by
  rw [readVarInt_append, UInt32.toNat_ofNat', Nat.mod_eq_of_lt fits]

theorem readOutput_append {output : TransactionOutput} (fits : output.script.length < 2 ^ 32)
    (rest : Bytes) :
    readOutput (CoinbaseTemplate.writeOutput output ++ rest) = some (output, rest) := by
  rw [readOutput, CoinbaseTemplate.writeOutput, List.append_assoc, List.append_assoc,
    readInteger_bind 8 output.value.toNat output.value.toNat_lt,
    read_bind (readVarInt_ofNat fits _), read_bind (readBytes_append output.script rest),
    UInt64.ofNat_toNat]
  rfl

theorem readInput_append (script rest : Bytes) {scriptLength : UInt32}
    (declared : scriptLength.toNat = script.length) :
    readInput (List.replicate 32 0 ++ (encode 4 (2 ^ 32 - 1) ++
      (varInt scriptLength ++ (script ++ (encode 4 0 ++ rest))))) =
      some (⟨List.replicate 32 0, 2 ^ 32 - 1, script, 0⟩, rest) := by
  have hash := readBytes_append (List.replicate 32 0) (encode 4 (2 ^ 32 - 1) ++
    (varInt scriptLength ++ (script ++ (encode 4 0 ++ rest))))
  rw [List.length_replicate] at hash
  rw [readInput, read_bind hash, readInteger_bind 4 (2 ^ 32 - 1) (by decide),
    read_bind (readVarInt_append scriptLength _), declared,
    read_bind (readBytes_append script _), readInteger_bind 4 0 (by decide)]
  rfl

theorem readTimestamp_append (isPoS : Bool) (curTime : UInt32) (rest : Bytes) :
    readTimestamp isPoS ((if isPoS then encode 4 curTime.toNat else []) ++ rest) =
      some (if isPoS then some curTime.toNat else none, rest) := by
  cases isPoS with
  | false => rfl
  | true =>
      exact readInteger_bind 4 curTime.toNat curTime.toNat_lt rest fun value => pure (some value)

namespace CoinbaseTemplate

variable (environment : Environment) (template : CoinbaseTemplate)

def transaction (script : Bytes) : Transaction where
  version := template.txVersion.toNat
  timestamp := if template.isPoS then some template.curTime.toNat else none
  inputs := [⟨List.replicate 32 0, 2 ^ 32 - 1, script, 0⟩]
  outputs := template.allOutputs environment
  lockTime := 0

def script (extraNonces : Bytes) : Bytes :=
  template.scriptSigInitial environment ++ (extraNonces ++ scriptSigFinal)

theorem allOutputs_length : (template.allOutputs environment).length < 2 ^ 32 := by
  have bound := template.outputs_length
  rw [allOutputs]
  split_ifs
  · rw [List.nil_append]
    omega
  · rw [List.length_append, List.length_singleton]
    omega

theorem allOutputs_scripts :
    ∀ output ∈ template.allOutputs environment, output.script.length < 2 ^ 32 := by
  intro output member
  rw [allOutputs, List.mem_append] at member
  rcases member with isCommitment | isOutput
  · split_ifs at isCommitment
    · cases isCommitment
    · rw [List.mem_singleton.mp isCommitment]
      have bytes := hexToByteArray_length_le environment.culture template.defaultWitnessCommitment
      have bound := template.commitment_length
      simp only
      omega
  · have bound := template.scripts_length output isOutput
    omega

theorem readTransaction_coinbase (extraNonces rest : Bytes)
    (declared : (template.sigScriptLength environment).toNat =
      (template.script environment extraNonces).length) :
    readTransaction template.isPoS (template.coinbaseInitial environment ++
      (extraNonces ++ (template.coinbaseFinal environment ++ rest))) =
      some (template.transaction environment (template.script environment extraNonces), rest) := by
  have regrouped : template.coinbaseInitial environment ++
      (extraNonces ++ (template.coinbaseFinal environment ++ rest)) =
      encode 4 template.txVersion.toNat ++
        ((if template.isPoS then encode 4 template.curTime.toNat else []) ++
        (varInt 1 ++ (List.replicate 32 0 ++ (encode 4 (2 ^ 32 - 1) ++
        (varInt (template.sigScriptLength environment) ++
        (template.script environment extraNonces ++ (encode 4 0 ++
        (varInt (.ofNat (template.allOutputs environment).length) ++
        ((template.allOutputs environment).flatMap writeOutput ++
        (encode 4 0 ++ rest)))))))))) := by
    simp only [coinbaseInitial, coinbaseFinal, serializeOutputTransaction, script,
      List.append_assoc]
  have one : (1 : UInt32).toNat = 1 := rfl
  have outputs : readMany readOutput (template.allOutputs environment).length
      ((template.allOutputs environment).flatMap writeOutput ++ (encode 4 0 ++ rest)) =
      some (template.allOutputs environment, encode 4 0 ++ rest) := by
    apply readMany_append
    intro output member
    exact readOutput_append (template.allOutputs_scripts environment output member)
  rw [regrouped, readTransaction,
    readInteger_bind 4 template.txVersion.toNat template.txVersion.toNat_lt,
    read_bind (readTimestamp_append template.isPoS template.curTime _),
    read_bind (readVarInt_append 1 _), one,
    read_bind (readMany_one (readInput_append _ _ declared)),
    read_bind (readVarInt_ofNat (template.allOutputs_length environment) _),
    read_bind outputs, readInteger_bind 4 0 (by decide)]
  rfl

/-! ## Well-formed work -/

/-- The extra nonces of a share, as `SerializeCoinbase` writes them. -/
def extraNonces (environment : Environment) (extraNonce1 extraNonce2 : Text) : Bytes :=
  hexToByteArray environment.culture extraNonce1 ++ hexToByteArray environment.culture extraNonce2

/-- The declared length of the script is its length, the coinbase is read as the
transaction that is intended, and the block as its header, with that coinbase and the
transactions of the template. -/
structure WellFormed (readOther : Reader Bytes) (extraNonces : Bytes) (work : Job.Work)
    (block : Bytes) : Prop where
  declared : (template.sigScriptLength environment).toNat =
    (template.script environment extraNonces).length
  coinbase : readTransaction template.isPoS work.coinbase =
    some (template.transaction environment (template.script environment extraNonces), [])
  block : readBlock template.isPoS readOther block = some ({
    header := work.header
    transactionCount := template.transactions.length + 1
    coinbase := template.transaction environment (template.script environment extraNonces)
    transactions := template.transactions.map (hexToByteArray environment.culture) },
    if template.isPoS then [0] else [])

theorem pushData_length_le (data : Bytes) : (pushData data).length ≤ data.length + 5 := by
  unfold pushData
  split
  · decide
  · split_ifs
    · simp
    · simp
    · simp
  · split_ifs
    all_goals
      simp only [List.length_append, List.length_cons, encode_length]
      omega

theorem pushNumber_length_le {value : Nat} (fits : value < 2 ^ 64) :
    (pushNumber value).length ≤ 14 := by
  rw [pushNumber]
  split_ifs with isZero
  · decide
  · rw [encode_length]
    decide
  · have log : Nat.log2 value < 64 := (Nat.log2_lt isZero).mpr fits
    have pushed := pushData_length_le (scriptNumber value)
    have number : (scriptNumber value).length = (Nat.log2 value + 1) / 8 + 1 := encode_length _ _
    omega

theorem scriptSigInitial_length_lt :
    (template.scriptSigInitial environment).length < 2 ^ 31 + 64 := by
  have height := pushNumber_length_le (template.height.toNat_lt.trans (by decide))
  have now := pushNumber_length_le template.now.toNat_lt
  have zero : (pushNumber 0).length = 1 := rfl
  have flags := pushData_length_le (hexToByteArray environment.culture template.flags)
  have bytes := hexToByteArray_length_le environment.culture template.flags
  have bound := template.flags_length
  rw [scriptSigInitial, List.length_append, List.length_append, List.length_append]
  split_ifs
  · rw [List.length_nil]
    omega
  · omega

theorem declared_iff (extraNonces : Bytes) :
    (template.sigScriptLength environment).toNat =
        (template.script environment extraNonces).length ↔ extraNonces.length = 8 := by
  have bound := template.scriptSigInitial_length_lt environment
  have final : scriptSigFinal.length = 13 := rfl
  rw [sigScriptLength, extranoncePlaceHolderLength, final, UInt32.toNat_ofNat',
    Nat.mod_eq_of_lt (by omega), script, List.length_append, List.length_append, final]
  omega

theorem processShare_work (job : Job) {submissions : Submissions Text} {submission : Submission}
    {extraNonce2 : Text} {work : Job.Work} {share : Blockchain.Share} {blockHex : Option Text}
    (given : submission.extraNonce2 = some extraNonce2)
    (accepted : ((template.buildCoinbase environment job).processShare environment submissions
      submission).2 = .ok (work, share, blockHex)) :
    work.coinbase = template.coinbaseInitial environment ++
      (extraNonces environment submission.worker.extraNonce1 extraNonce2 ++
        template.coinbaseFinal environment) ∧ work.header.length = 80 := by
  rcases processSubmission_ok _ _ _ _ (Prod.ext rfl accepted :
    (template.buildCoinbase environment job).processShare environment submissions submission =
      (_, .ok (work, share, blockHex))) with ⟨validated, _, valid, _, _, _, computed⟩
  have same : validated.extraNonce2 = extraNonce2 :=
    Option.some.inj ((Job.validate_ok _ valid).1.symm.trans given)
  have decoded := Job.processShareInternal_work _ _ computed
  simp only at decoded
  constructor
  · rw [decoded, ← same]
    simp only [Job.decodeWork, Job.serializeCoinbase, buildCoinbase, extraNonces,
      List.append_assoc]
  · rw [decoded]
    simp [Job.decodeWork, Job.serializeHeader]

theorem toNat_transactionCount :
    (UInt32.ofNat template.transactions.length + 1).toNat = template.transactions.length + 1 := by
  have bound := template.transactions_length
  have one : (1 : UInt32).toNat = 1 := rfl
  rw [UInt32.toNat_add, UInt32.toNat_ofNat', one]
  omega

theorem readMany_transactions {readOther : Reader Bytes}
    (reads : ∀ transaction ∈ template.transactions, ∀ rest,
      readOther (hexToByteArray environment.culture transaction ++ rest) =
        some (hexToByteArray environment.culture transaction, rest)) (rest : Bytes) :
    readMany readOther template.transactions.length
        ((template.transactions.map (hexToByteArray environment.culture)).flatten ++ rest) =
      some (template.transactions.map (hexToByteArray environment.culture), rest) := by
  have each : ∀ bytes ∈ template.transactions.map (hexToByteArray environment.culture), ∀ rest,
      readOther (id bytes ++ rest) = some (bytes, rest) := by
    intro bytes member
    rcases List.mem_map.mp member with ⟨transaction, isTransaction, rfl⟩
    exact reads transaction isTransaction
  have all := readMany_append _ each rest
  rwa [List.length_map, List.flatMap_id] at all

theorem readBlock_serializeBlock (job : Job) {readOther : Reader Bytes}
    (reads : ∀ transaction ∈ template.transactions, ∀ rest,
      readOther (hexToByteArray environment.culture transaction ++ rest) =
        some (hexToByteArray environment.culture transaction, rest))
    (extraNonces : Bytes) {header : Bytes} (headerLength : header.length = 80)
    (declared : (template.sigScriptLength environment).toNat =
      (template.script environment extraNonces).length) :
    readBlock template.isPoS readOther
        ((template.buildCoinbase environment job).serializeBlock header
          (template.coinbaseInitial environment ++
            (extraNonces ++ template.coinbaseFinal environment))) =
      some ({
        header
        transactionCount := template.transactions.length + 1
        coinbase := template.transaction environment (template.script environment extraNonces)
        transactions := template.transactions.map (hexToByteArray environment.culture) },
        if template.isPoS then [0] else []) := by
  have regrouped : (template.buildCoinbase environment job).serializeBlock header
      (template.coinbaseInitial environment ++
        (extraNonces ++ template.coinbaseFinal environment)) =
      header ++ (varInt (UInt32.ofNat template.transactions.length + 1) ++
        (template.coinbaseInitial environment ++ (extraNonces ++
        (template.coinbaseFinal environment ++
        ((template.transactions.map (hexToByteArray environment.culture)).flatten ++
          if template.isPoS then [0] else []))))) := by
    simp only [Job.serializeBlock, buildCoinbase, List.length_map, List.append_assoc]
    rfl
  rw [regrouped, readBlock, ← headerLength, read_bind (readBytes_append header _),
    read_bind (readVarInt_append _ _), toNat_transactionCount,
    read_bind (template.readTransaction_coinbase environment extraNonces _ declared),
    Nat.add_sub_cancel, read_bind (template.readMany_transactions environment reads _)]
  rfl

/-- For every template, every nonce that the provider gives a worker and every submission
that is accepted, where the transactions of the template can be told apart: the coinbase
and the block are well formed exactly if the extra nonce of the miner decodes to four
bytes. -/
theorem wellFormed_iff (job : Job) {readOther : Reader Bytes}
    (reads : ∀ transaction ∈ template.transactions, ∀ rest,
      readOther (hexToByteArray environment.culture transaction ++ rest) =
        some (hexToByteArray environment.culture transaction, rest))
    {counter : UInt32} {submissions : Submissions Text} {submission : Submission}
    {extraNonce2 : Text} {work : Job.Work} {share : Blockchain.Share} {blockHex : Option Text}
    (provided : submission.worker.extraNonce1 = toStringHex8 counter)
    (given : submission.extraNonce2 = some extraNonce2)
    (accepted : ((template.buildCoinbase environment job).processShare environment submissions
      submission).2 = .ok (work, share, blockHex)) :
    template.WellFormed environment readOther
        (extraNonces environment submission.worker.extraNonce1 extraNonce2) work
        ((template.buildCoinbase environment job).serializeBlock work.header work.coinbase) ↔
      (hexToByteArray environment.culture extraNonce2).length = 4 := by
  have nonces : (extraNonces environment submission.worker.extraNonce1 extraNonce2).length =
      4 + (hexToByteArray environment.culture extraNonce2).length := by
    rw [extraNonces, provided, toStringHex8, hexToByteArray_toHexString, List.length_append,
      List.length_reverse, encode_length]
  have declared := template.declared_iff environment
    (extraNonces environment submission.worker.extraNonce1 extraNonce2)
  rcases template.processShare_work environment job given accepted with ⟨coinbase, headerLength⟩
  constructor
  · intro wellFormed
    have eight := declared.mp wellFormed.declared
    omega
  · intro four
    have isDeclared := declared.mpr (by omega)
    constructor
    · exact isDeclared
    · rw [coinbase]
      have read := template.readTransaction_coinbase environment _ [] isDeclared
      rwa [List.append_nil] at read
    · rw [coinbase]
      exact template.readBlock_serializeBlock environment job reads _ headerLength isDeclared

def regtest : CoinbaseTemplate where
  txVersion := 1
  isPoS := false
  curTime := 1508869874
  height := 14
  flags := text "0b2f454231362f414431322f"
  now := 1508869874
  outputs := [{
    value := 5000000000
    script := BigEndian.encode 25 0x76a9142ebb5cccf9a6bb927661d2953655c43c04accc3788ac }]
  defaultWitnessCommitment := []
  transactions := []
  flags_length := by decide
  outputs_length := by decide
  scripts_length := by decide
  commitment_length := by decide
  transactions_length := by decide

example : regtest.coinbaseInitial SampleShare.environment = SampleShare.coinbaseInitial := by
  decide

example : regtest.coinbaseFinal SampleShare.environment = SampleShare.coinbaseFinal := by
  decide

theorem wellFormed_regtest :
    ∃ result, ((regtest.buildCoinbase SampleShare.environment SampleShare.job).processShare
        SampleShare.environment [] SampleShare.submission).2 = .ok result ∧
      regtest.WellFormed SampleShare.environment (readBytes 0)
        (extraNonces SampleShare.environment (text "01000058") (text "01000000")) result.1
        ((regtest.buildCoinbase SampleShare.environment SampleShare.job).serializeBlock
          result.1.header result.1.coinbase) := by
  rcases exists_ok_of_isSome (by decide +kernel :
    ((regtest.buildCoinbase SampleShare.environment SampleShare.job).processShare
      SampleShare.environment [] SampleShare.submission).2.toOption.isSome = true) with
    ⟨⟨work, share, blockHex⟩, accepted⟩
  have provided : SampleShare.submission.worker.extraNonce1 = toStringHex8 0x01000058 := by
    decide
  use (work, share, blockHex), accepted
  apply (regtest.wellFormed_iff SampleShare.environment SampleShare.job _ provided rfl
    accepted).mpr
  · decide
  · intro transaction member
    cases member

def fiveBytes : Submission := { SampleShare.submission with
  extraNonce2 := some (text "0100000000")
  nonce := some (text "8d84ae6b") }

/-- With a fifth byte a share is accepted as well, and its coinbase declares one byte less
than its script has. -/
theorem wellFormed_fails :
    ∃ result, ((regtest.buildCoinbase SampleShare.environment SampleShare.job).processShare
        SampleShare.environment [] fiveBytes).2 = .ok result ∧
      ¬regtest.WellFormed SampleShare.environment (readBytes 0)
        (extraNonces SampleShare.environment (text "01000058") (text "0100000000")) result.1
        ((regtest.buildCoinbase SampleShare.environment SampleShare.job).serializeBlock
          result.1.header result.1.coinbase) := by
  rcases exists_ok_of_isSome (by decide +kernel :
    ((regtest.buildCoinbase SampleShare.environment SampleShare.job).processShare
      SampleShare.environment [] fiveBytes).2.toOption.isSome = true) with ⟨result, accepted⟩
  use result, accepted
  intro wellFormed
  have eight := (regtest.declared_iff SampleShare.environment _).mp wellFormed.declared
  revert eight
  decide

end CoinbaseTemplate

end Miningcore.Bitcoin

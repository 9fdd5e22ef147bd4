import Miningcore.Extensions.StringExtensions
import Miningcore.Stratum.ShareAcceptance

/-! `MoneroJob`: shares whose work is a block template with the worker's extra
nonce and the submitted nonce written into it. -/

namespace Miningcore.Monero

open LittleEndian StringExtensions

/-- The culture of the process, the native functions of `LibCryptonote` and the
length of the array that `ArrayPool.Shared` rents out for a size. -/
structure Environment where
  culture : Culture
  rentedLength : Nat → Nat
  le_rentedLength : ∀ size, size ≤ rentedLength size
  convertBlob : Bytes → Option Bytes
  hashSlow : Bytes → FixedBytes 32
  hashFast : Bytes → FixedBytes 32

/-- `MoneroConstants`. -/
def diff1 : Nat := 2 ^ 256 - 1

def extraNonceSize : Nat := 4

def blobNonceOffset : Nat := 39

/-- `^[0-9a-f]{8}$` without the anchors. -/
def isNonce (value : Text) : Bool :=
  value.length == 8 && value.all fun unit => unit.isDecimalDigit || unit.isLowerHexLetter

/-- `RegexValidNonce.IsMatch`. In .NET the anchor `$` also matches before a final
line feed. -/
def regexValidNonce (value : Text) : Bool :=
  isNonce value || (value.getLast? == some 10 && isNonce value.dropLast)

example : regexValidNonce (text "040100a4\n") = true := by decide

/-- `Buffer.BlockCopy` of a whole array into an array of which the front part is in
use. Only the length of the array is checked; bytes behind the part in use are never
read. -/
def blockCopy (source destination : Bytes) (arrayLength : Nat) (offset : Int32) :
    Except Exception Bytes := do
  throwIf (offset.toInt < 0) (.argument "Non-negative number required")
  throwIf (arrayLength < offset.toInt.toNat + source.length)
    (.argument "Offset and length were out of bounds for the array")
  return ByteLayout.overwrite source offset.toInt.toNat destination

theorem blockCopy_ok {source destination result : Bytes} {arrayLength : Nat} {offset : Int32}
    (copied : blockCopy source destination arrayLength offset = .ok result) :
    ByteLayout.Written source offset.toInt.toNat destination result := by
  simp only [blockCopy, bind_eq_ok, pure_eq_ok] at copied
  rcases copied with ⟨_, _, _, _, rfl⟩
  exact ByteLayout.written_overwrite source _ destination

theorem blockCopy_nonneg {source destination result : Bytes} {arrayLength : Nat} {offset : Int32}
    (copied : blockCopy source destination arrayLength offset = .ok result) :
    0 ≤ offset.toInt := by
  simp only [blockCopy, bind_eq_ok, throwIf_eq_ok] at copied
  rcases copied with ⟨_, nonneg, _⟩
  omega

theorem toInt_toInt32 {offset : UInt32} (nonneg : 0 ≤ offset.toInt32.toInt) :
    offset.toInt32.toInt.toNat = offset.toNat := by
  have value : offset.toInt32.toInt = offset.toBitVec.toInt := rfl
  have bound := offset.toNat_lt
  rw [value, BitVec.toInt_eq_toNat_cond] at nonneg ⊢
  have same : offset.toBitVec.toNat = offset.toNat := rfl
  rw [same] at nonneg ⊢
  split_ifs at nonneg ⊢ <;> omega

/-- `(long) value`, which x64 makes the least number where it does not fit. -/
def truncate (value : ℚ) : Int :=
  let integer := value.num.tdiv value.den
  if -2 ^ 63 ≤ integer ∧ integer < 2 ^ 63 then integer else -2 ^ 63

/-- `BigInteger.ToByteArray`: the two's complement with as few bytes as it takes, the
most significant one first. -/
def toByteArray (value : Int) : Bytes :=
  let magnitude := if 0 ≤ value then value.toNat else (-value - 1).toNat
  let bitLength := if magnitude = 0 then 0 else magnitude.log2 + 1
  let length := bitLength / 8 + 1
  BigEndian.encode length (value % 256 ^ length).toNat

/-- `GetBlockTemplateResponse`. -/
structure BlockTemplate where
  blob : Option Text
  difficulty : Int
  height : UInt32
  reservedOffset : UInt32

/-- What the constructor takes from the block template, the instance already
written into the blob. -/
structure Job where
  blobTemplate : Bytes
  reservedOffset : UInt32
  height : UInt32
  difficulty : ℚ

namespace Job

def prepareBlobTemplate (culture : Culture) (blob : Option Text) (reservedOffset : UInt32)
    (instanceId : FixedBytes 3) : Except Exception Bytes := do
  let blobTemplate := hexToByteArray culture (← dereference blob)
  let destOffset := (reservedOffset + UInt32.ofNat extraNonceSize).toInt32
  blockCopy instanceId.toList blobTemplate blobTemplate.length destOffset

def ofTemplate (culture : Culture) (instanceId : FixedBytes 3) (blockTemplate : BlockTemplate) :
    Except Exception Job := do
  let blobTemplate ← prepareBlobTemplate culture blockTemplate.blob blockTemplate.reservedOffset
    instanceId
  return {
    blobTemplate
    reservedOffset := blockTemplate.reservedOffset
    height := blockTemplate.height
    difficulty := blockTemplate.difficulty }

/-- `EncodeTarget`. A quotient of 32 bytes or more leaves the padding as it is. -/
def encodeTarget (difficulty : ℚ) : Except Exception Text := do
  let diff := truncate (difficulty * 255)
  throwIf (diff = 0) .divideByZero
  let bytes := toByteArray ((diff1 : Int).tdiv diff * 255)
  let padded := if 32 - (bytes.length : Int) > 0 then
    List.replicate (32 - bytes.length) 0 ++ bytes else List.replicate 32 0
  return toHexString (padded.take 4).reverse

example : encodeTarget 1000 = .ok (text "37894100") := by decide +kernel

variable (environment : Environment) (job : Job)

/-- A clone of the template in a rented array, with the extra nonce at the beginning
of the reserved area. -/
def workerBlob (workerExtraNonce : UInt32) : Except Exception Bytes :=
  blockCopy (BigEndian.encode 4 workerExtraNonce.toNat) job.blobTemplate
    (environment.rentedLength job.blobTemplate.length) job.reservedOffset.toInt32

/-- `EncodeBlob`. A blob that cannot be converted has the empty text. -/
def encodeBlob (workerExtraNonce : UInt32) : Except Exception Text := do
  let blob ← job.workerBlob environment workerExtraNonce
  return toHexString ((environment.convertBlob blob).getD [])

def injectNonces (workerExtraNonce : UInt32) (nonceBytes : Bytes) : Except Exception Bytes := do
  let blob ← job.workerBlob environment workerExtraNonce
  blockCopy nonceBytes blob (environment.rentedLength job.blobTemplate.length)
    (Int32.ofNat blobNonceOffset)

/-- `ComputeBlockHash`: the converted blob is hashed behind its length byte. -/
def computeBlockHash (blobConverted : Bytes) : FixedBytes 32 :=
  environment.hashFast (UInt8.ofNat blobConverted.length :: blobConverted)

/-- An accepted share with the nonce bytes it was accepted for, the block and its
hash. -/
structure Result where
  nonceBytes : Bytes
  share : Blockchain.Share
  blobHex : Text
  blobHash : Text

def processShare (nonce : Option Text) (workerExtraNonce : UInt32) (workerHash : Option Text)
    (worker : WorkerDifficulty) : Except Exception Result := do
  let nonce ← requireNonEmpty "nonce" nonce
  let workerHash ← requireNonEmpty "workerHash" workerHash
  throwIf (workerExtraNonce = 0) (.argument "workerExtraNonce must not be empty")
  throwIf (regexValidNonce nonce = false) (.stratum .minusOne "malformed nonce")
  let nonceBytes := hexToByteArray environment.culture nonce
  let blob ← job.injectNonces environment workerExtraNonce nonceBytes
  let some blobConverted := environment.convertBlob blob
    | throw (.stratum .minusOne "malformed blob")
  let hash := (environment.hashSlow blobConverted).toList
  throwIf (toHexString hash ≠ workerHash) (.stratum .minusOne "bad hash")
  let shareDiff ← shareDifficulty diff1 (decode hash)
  let isBlockCandidate := decide (shareDiff ≥ job.difficulty)
  let difficulty ← stratumDifficulty worker shareDiff isBlockCandidate
  let blobHash := toHexString (computeBlockHash environment blobConverted).toList
  return {
    nonceBytes
    share := {
      blockHeight := job.height.toNat
      isBlockCandidate
      blockHash := some blobHash
      difficulty }
    blobHex := toHexString blob
    blobHash }

/-- A share with a nonce and a hash is right for a blob that has been issued: its hash
is that of the blob with the nonce bytes written at the nonce offset. -/
def Validates (nonceBytes : Bytes) (workerHash : Option Text) (issued validated : Bytes) : Prop :=
  ByteLayout.Written nonceBytes blobNonceOffset issued validated ∧
    ∃ blobConverted, environment.convertBlob validated = some blobConverted ∧
      workerHash = some (toHexString (environment.hashSlow blobConverted).toList)

theorem workerBlob_ok {workerExtraNonce : UInt32} {blob : Bytes}
    (cloned : job.workerBlob environment workerExtraNonce = .ok blob) :
    ByteLayout.Written (BigEndian.encode 4 workerExtraNonce.toNat) job.reservedOffset.toNat
      job.blobTemplate blob := by
  rw [← toInt_toInt32 (blockCopy_nonneg cloned)]
  exact blockCopy_ok cloned

theorem injectNonces_ok {workerExtraNonce : UInt32} {nonceBytes validated : Bytes}
    (injected : job.injectNonces environment workerExtraNonce nonceBytes = .ok validated) :
    ∃ issued, job.workerBlob environment workerExtraNonce = .ok issued ∧
      ByteLayout.Written nonceBytes blobNonceOffset issued validated := by
  simp only [injectNonces, bind_eq_ok] at injected
  rcases injected with ⟨issued, isIssued, copied⟩
  exact ⟨issued, isIssued, blockCopy_ok copied⟩

theorem processShare_ok {nonce workerHash : Option Text} {workerExtraNonce : UInt32}
    {worker : WorkerDifficulty} {result : Result}
    (processed : job.processShare environment nonce workerExtraNonce workerHash worker =
      .ok result) :
    (∃ given, nonce = some given ∧ regexValidNonce given = true ∧
      result.nonceBytes = hexToByteArray environment.culture given) ∧
    ∃ issued validated, job.workerBlob environment workerExtraNonce = .ok issued ∧
      Validates environment result.nonceBytes workerHash issued validated ∧
      result.blobHex = toHexString validated := by
  simp only [processShare, bind_eq_ok, throwIf_eq_ok, Bool.not_eq_false] at processed
  rcases processed with ⟨given, required, hash, isHash, _, _, _, matching, validated, injected,
    converted⟩
  rcases job.injectNonces_ok environment injected with ⟨issued, isIssued, written⟩
  split at converted
  · rename_i blobConverted isConverted
    simp only [bind_eq_ok, pure_eq_ok, throwIf_eq_ok, not_not] at converted
    rcases converted with ⟨_, sameHash, _, _, _, _, rfl⟩
    constructor
    · exact ⟨given, requireNonEmpty_ok required, matching, rfl⟩
    · refine ⟨issued, validated, isIssued, ⟨written, blobConverted, isConverted, ?_⟩, rfl⟩
      rw [requireNonEmpty_ok isHash, sameHash]
  · cases converted

end Job

theorem isNonce_of_regexValidNonce {nonce : Text} (matching : regexValidNonce nonce = true)
    (noLineFeed : nonce.getLast? ≠ some 10) : nonce.isHex = true ∧ nonce.length = 8 := by
  have plain : isNonce nonce = true := by
    simpa [regexValidNonce, noLineFeed] using matching
  simp only [isNonce, Bool.and_eq_true, beq_iff_eq, List.all_eq_true, Bool.or_eq_true] at plain
  refine ⟨?_, plain.1⟩
  rw [Text.isHex, List.all_eq_true]
  intro unit member
  rcases plain.2 unit member with decimal | letter
  · simp [CodeUnit.isHexDigit, decimal]
  · simp [CodeUnit.isHexDigit, letter]

end Miningcore.Monero

import Miningcore.Blockchain.ExchangeCoin.Job

/-! The extra data of a header: which part of the search space a worker has.

A worker gets its own extra nonce from the provider. `ProcessShare` looks for it at the
end of a text of 24 digits, but the header has the bytes that the text decodes to, and
decoding skips a marker `0x`. -/

namespace Miningcore.ExchangeCoin

open StringExtensions

/-- What `ExtraNonceProviderBase.Next` returns when its counter has come to a value. -/
def extraNonce1 (counter : UInt32) : Text := toStringHex8 counter

/-- The checks of `ProcessShare` on the extra nonce that a worker submits. -/
def PassesExtraNonceChecks (extraNonce1 extraNonce : Text) : Prop :=
  extraNonce.length = 24 ∧ extraNonce = extraNonce.take (extraNonce.length - 8) ++ extraNonce1

namespace Job

variable (environment : Environment) (job : Job)

theorem validate_extraNonce {submission : Submission} {validated : Validated}
    (valid : job.validate submission = .ok validated) :
    PassesExtraNonceChecks submission.worker.extraNonce1 validated.extraNonce := by
  simp only [validate, bind_eq_ok, throwIf_eq_ok, pure_eq_ok, exists_and_left, exists_const,
    not_not] at valid
  rcases valid with ⟨extraNonce, _, _, _, solution, _, _, _, _, _, isLength, isSuffix, _, rfl⟩
  exact ⟨isLength, isSuffix⟩

/-- The 32 bytes of extra data in the header that `SerializeHeader` writes. -/
def writtenExtraData (nTime : UInt32) (extraNonce : Text) (nonce : UInt32) :
    Except Exception Bytes :=
  (job.serializeHeader nTime (hexToByteArray environment.culture extraNonce) nonce).map
    fun header => (header.drop 144).take 32

end Job

theorem BlockHeader.extraData_in_writeWithoutSolution (header : BlockHeader) :
    (header.writeWithoutSolution.drop 144).take 32 = header.extraData.toList := by
  have split : header.writeWithoutSolution = (header.fieldsWithoutSolution.take 16).flatten ++
      (header.extraData.toList ++ LittleEndian.encode 4 header.stakeVersion.toNat) := by
    simp [writeWithoutSolution, fieldsWithoutSolution]
  have front : (header.fieldsWithoutSolution.take 16).flatten.length = 144 := by
    simp [fieldsWithoutSolution]
  rw [split, List.drop_left' front, List.take_left' header.extraData.toList_length]

theorem Job.writtenExtraData_eq (environment : Environment) (job : Job) (nTime : UInt32)
    (extraNonce : Text) (nonce : UInt32) :
    job.writtenExtraData environment nTime extraNonce nonce =
      .ok (resize (hexToByteArray environment.culture extraNonce)).toList := by
  rw [writtenExtraData, serializeHeader_eq]
  exact congrArg Except.ok (BlockHeader.extraData_in_writeWithoutSolution _)

/-- Whatever two workers submit that passes the checks, for whichever jobs: the headers
have different extra data. -/
def Isolated (environment : Environment) (left right : Text) : Prop :=
  ∀ (leftJob rightJob : Job) (leftTime rightTime leftNonce rightNonce : UInt32)
    (leftExtra rightExtra : Text),
    PassesExtraNonceChecks left leftExtra → PassesExtraNonceChecks right rightExtra →
    leftJob.writtenExtraData environment leftTime leftExtra leftNonce ≠
      rightJob.writtenExtraData environment rightTime rightExtra rightNonce

def RecognizesMarker (culture : Culture) : Prop :=
  ∀ digits : Text, digits.isHex = true →
    culture.startsWith (text "0x" ++ digits) (text "0x") = true

theorem ordinal_recognizesMarker : RecognizesMarker .ordinal := by
  intro digits _
  exact List.isPrefixOf_iff_prefix.mpr (List.prefix_append _ _)

/-! ## Where the bytes of a worker stand -/

theorem hexPairs_extraNonce1 (counter : UInt32) :
    hexPairs (extraNonce1 counter) = BigEndian.encode 4 counter.toNat :=
  hexPairs_toHexString _

theorem extraNonce1_length (counter : UInt32) : (extraNonce1 counter).length = 8 := by
  rw [extraNonce1, toStringHex8, toHexString_length, List.length_reverse,
    LittleEndian.encode_length]

theorem hexToByteArray_of_passes (culture : Culture) {counter : UInt32} {extraNonce : Text}
    (passes : PassesExtraNonceChecks (extraNonce1 counter) extraNonce) :
    ∃ front : Bytes, hexToByteArray culture extraNonce =
        front ++ BigEndian.encode 4 counter.toNat ∧
      front.length = if culture.startsWith extraNonce (text "0x") then 7 else 8 := by
  rcases passes with ⟨isLength, isSuffix⟩
  generalize extraNonce.take (extraNonce.length - 8) = chosen at isSuffix
  have chosenLength : chosen.length = 16 := by
    have total := congrArg List.length isSuffix
    rw [List.length_append, extraNonce1_length] at total
    omega
  rw [hexToByteArray]
  split_ifs with marked
  · refine ⟨hexPairs (chosen.drop 2), ?_, ?_⟩
    · rw [isSuffix, List.drop_append_of_le_length (by omega), hexPairs_append,
        hexPairs_extraNonce1]
      rw [List.length_drop]
      omega
    · rw [hexPairs_length, List.length_drop]
      omega
  · refine ⟨hexPairs chosen, ?_, ?_⟩
    · rw [isSuffix, hexPairs_append, hexPairs_extraNonce1]
      omega
    · rw [hexPairs_length]
      omega

theorem Job.resize_append (front : Bytes) (counter : UInt32) (short : front.length ≤ 8) :
    (resize (front ++ BigEndian.encode 4 counter.toNat)).toList =
      front ++ (BigEndian.encode 4 counter.toNat ++ List.replicate (28 - front.length) 0) := by
  have isLength : (front ++ BigEndian.encode 4 counter.toNat).length = front.length + 4 := by
    simp [BigEndian.encode]
  rw [resize]
  simp only [List.Vector.toList_mk]
  rw [List.take_of_length_le (by omega), isLength, List.append_assoc]
  congr 3
  omega

theorem bigEndian_injective {left right : UInt32}
    (same : BigEndian.encode 4 left.toNat = BigEndian.encode 4 right.toNat) : left = right := by
  apply UInt32.toNat_inj.mp
  apply LittleEndian.encode_injective 4
  · exact left.toNat_lt
  · exact right.toNat_lt
  · exact List.reverse_injective same

theorem bigEndian_shift (counter : UInt32) :
    (BigEndian.encode 4 counter.toNat).tail ++ [(0 : UInt8)] =
      BigEndian.encode 4 (counter <<< 8).toNat := by
  have shifted : (counter <<< 8).toNat = 256 * counter.toNat % 256 ^ 4 := by
    rw [UInt32.toNat_shiftLeft, Nat.shiftLeft_eq, Nat.mul_comm]
    rfl
  rw [BigEndian.tail_encode, shifted, BigEndian.encode, BigEndian.encode, LittleEndian.encode_mod]

theorem eq_of_resize_eq {left right : UInt32} {leftFront rightFront : Bytes}
    (short : leftFront.length ≤ 8) (sameLength : leftFront.length = rightFront.length)
    (same : Job.resize (leftFront ++ BigEndian.encode 4 left.toNat) =
      Job.resize (rightFront ++ BigEndian.encode 4 right.toNat)) : left = right := by
  have lists := congrArg List.Vector.toList same
  rw [Job.resize_append leftFront left short,
    Job.resize_append rightFront right (sameLength ▸ short)] at lists
  have behind := (List.append_inj lists sameLength).2
  have bytes := (List.append_inj behind (by simp [BigEndian.encode])).1
  exact bigEndian_injective bytes

theorem shifted_of_resize_eq {left right : UInt32} {leftFront rightFront : Bytes}
    (leftLength : leftFront.length = 8) (rightLength : rightFront.length = 7)
    (same : Job.resize (leftFront ++ BigEndian.encode 4 left.toNat) =
      Job.resize (rightFront ++ BigEndian.encode 4 right.toNat)) : left = right <<< 8 := by
  have lists := congrArg List.Vector.toList same
  rw [Job.resize_append leftFront left (by omega), Job.resize_append rightFront right (by omega),
    leftLength, rightLength] at lists
  have shifted := bigEndian_shift right
  cases isRight : BigEndian.encode 4 right.toNat with
  | nil =>
      have impossible := congrArg List.length isRight
      simp [BigEndian.encode] at impossible
  | cons first rest =>
      -- The first byte of the one stands before the nonce of the other, and a zero of the
      -- padding behind it.
      rw [isRight] at lists shifted
      have regrouped : leftFront ++ (BigEndian.encode 4 left.toNat ++ List.replicate 20 0) =
          (rightFront ++ [first]) ++ ((rest ++ [0]) ++ List.replicate 20 0) := by
        rw [lists]
        simp [List.replicate_succ]
      have behind := (List.append_inj regrouped (by simp [leftLength, rightLength])).2
      have bytes := (List.append_inj' behind rfl).1
      exact bigEndian_injective (bytes.trans shifted)

theorem Job.resize_append_zero {bytes : Bytes} (short : bytes.length < 32) :
    resize (bytes ++ [0]) = resize bytes := by
  apply Subtype.ext
  have filled : 32 - bytes.length = (32 - (bytes.length + 1)) + 1 := by omega
  simp only [resize, List.length_append, List.length_cons, List.length_nil]
  rw [List.take_of_length_le, List.take_of_length_le, filled, List.replicate_succ,
    List.append_assoc, List.singleton_append]
  · omega
  · rw [List.length_append, List.length_singleton]
    omega

theorem passes_append {chosen : Text} (isLength : chosen.length = 16) (counter : UInt32) :
    PassesExtraNonceChecks (extraNonce1 counter) (chosen ++ extraNonce1 counter) := by
  have total : (chosen ++ extraNonce1 counter).length = 24 := by
    rw [List.length_append, isLength, extraNonce1_length]
  refine ⟨total, ?_⟩
  rw [total, List.take_left' isLength]

theorem hexToByteArray_marked {culture : Culture} (marker : RecognizesMarker culture)
    (bytes : Bytes) : hexToByteArray culture (text "0x" ++ toHexString bytes) = bytes := by
  rw [hexToByteArray, if_pos (marker _ (isHex_toHexString bytes))]
  exact hexPairs_toHexString bytes

theorem resize_eq_of_shifted (culture : Culture) (marker : RecognizesMarker culture)
    (counter : UInt32) :
    ∃ plain marked : Text, PassesExtraNonceChecks (extraNonce1 (counter <<< 8)) plain ∧
      PassesExtraNonceChecks (extraNonce1 counter) marked ∧
      Job.resize (hexToByteArray culture plain) = Job.resize (hexToByteArray culture marked) := by
  have shifted := bigEndian_shift counter
  cases isCounter : BigEndian.encode 4 counter.toNat with
  | nil =>
      have impossible := congrArg List.length isCounter
      simp [BigEndian.encode] at impossible
  | cons first rest =>
      rw [isCounter, List.tail_cons] at shifted
      have restLength := congrArg List.length isCounter
      simp only [BigEndian.encode, List.length_reverse, LittleEndian.encode_length,
        List.length_cons] at restLength
      let zeros : Bytes := List.replicate 7 0
      have markedText : text "0x" ++ toHexString zeros ++ extraNonce1 counter =
          text "0x" ++ toHexString (zeros ++ first :: rest) := by
        rw [← isCounter, toHexString_append, ← List.append_assoc]
        rfl
      have plainText : toHexString (zeros ++ [first]) ++ extraNonce1 (counter <<< 8) =
          toHexString (zeros ++ first :: rest ++ [0]) := by
        have regrouped : zeros ++ first :: rest ++ [0] = (zeros ++ [first]) ++ (rest ++ [0]) := by
          simp
        rw [regrouped, shifted, toHexString_append]
        rfl
      refine ⟨toHexString (zeros ++ [first]) ++ extraNonce1 (counter <<< 8),
        text "0x" ++ toHexString zeros ++ extraNonce1 counter, ?_, ?_, ?_⟩
      · apply passes_append
        rw [toHexString_length]
        rfl
      · apply passes_append
        rw [List.length_append, toHexString_length]
        rfl
      · rw [markedText, plainText, hexToByteArray_toHexString, hexToByteArray_marked marker]
        apply Job.resize_append_zero
        rw [List.length_append, List.length_cons, List.length_replicate]
        omega

/-- Two workers have different extra data in all of their headers exactly if neither of
their nonces is the other one shifted by a byte. -/
theorem isolated_iff (environment : Environment) (marker : RecognizesMarker environment.culture)
    {left right : UInt32} (differ : left ≠ right) :
    Isolated environment (extraNonce1 left) (extraNonce1 right) ↔
      left ≠ right <<< 8 ∧ right ≠ left <<< 8 := by
  simp only [Isolated, Job.writtenExtraData_eq, ne_eq, Except.ok.injEq]
  constructor
  · intro isolated
    constructor
    · rintro rfl
      rcases resize_eq_of_shifted environment.culture marker right with
        ⟨plain, marked, plainPasses, markedPasses, same⟩
      exact isolated SampleShare.job SampleShare.job 0 0 0 0 plain marked plainPasses markedPasses
        (congrArg List.Vector.toList same)
    · rintro rfl
      rcases resize_eq_of_shifted environment.culture marker left with
        ⟨plain, marked, plainPasses, markedPasses, same⟩
      exact isolated SampleShare.job SampleShare.job 0 0 0 0 marked plain markedPasses plainPasses
        (congrArg List.Vector.toList same.symm)
  · intro notShifted _ _ _ _ _ _ leftExtra rightExtra leftPasses rightPasses same
    have sameData := List.Vector.toList_injective same
    rcases hexToByteArray_of_passes environment.culture leftPasses with
      ⟨leftFront, leftBytes, leftLength⟩
    rcases hexToByteArray_of_passes environment.culture rightPasses with
      ⟨rightFront, rightBytes, rightLength⟩
    rw [leftBytes, rightBytes] at sameData
    by_cases leftMarked : environment.culture.startsWith leftExtra (text "0x") = true
    · rw [if_pos leftMarked] at leftLength
      by_cases rightMarked : environment.culture.startsWith rightExtra (text "0x") = true
      · rw [if_pos rightMarked] at rightLength
        exact differ (eq_of_resize_eq (by omega) (leftLength.trans rightLength.symm) sameData)
      · rw [if_neg rightMarked] at rightLength
        exact notShifted.2 (shifted_of_resize_eq rightLength leftLength sameData.symm)
    · rw [if_neg leftMarked] at leftLength
      by_cases rightMarked : environment.culture.startsWith rightExtra (text "0x") = true
      · rw [if_pos rightMarked] at rightLength
        exact notShifted.1 (shifted_of_resize_eq leftLength rightLength sameData)
      · rw [if_neg rightMarked] at rightLength
        exact differ (eq_of_resize_eq (by omega) (leftLength.trans rightLength.symm) sameData)

theorem isolated_neighbours :
    Isolated SampleShare.environment (extraNonce1 0x01000058) (extraNonce1 0x01000059) :=
  (isolated_iff SampleShare.environment ordinal_recognizesMarker (by decide)).mpr (by decide)

/-- The first and the third worker of a provider whose counter starts at 0x020201ff. The
third one submits its nonce behind the marker and seven zero bytes. -/
theorem isolated_shifted :
    ¬ Isolated SampleShare.environment (extraNonce1 0x02020200) (extraNonce1 0x02020202) := by
  intro isolated
  apply isolated SampleShare.job SampleShare.job 0 0 0 0 (text "000000000000000202020200")
    (text "0x0000000000000002020202")
  · exact ⟨by decide, by decide⟩
  · exact ⟨by decide, by decide⟩
  · decide +kernel

end Miningcore.ExchangeCoin

import Mathlib.Data.Nat.Bitwise
import Miningcore.Crypto.EquihashIndices
import Miningcore.Foundation.AlignedBlocks

/-! `Equihash<N,K>::IsValidSolution`: the step rows of a solution, collided pair by pair until one
is left. `none` is a failed assertion or an access behind an array. -/

namespace Miningcore.Equihash

open BitPacking AlignedBlocks

/-- The template arguments, with the explicit instantiations at the end of `equihash.cpp`. -/
structure Parameters where
  n : Nat
  k : Nat
  instantiated : (n, k) ∈ [(96, 3), (200, 9), (96, 5), (48, 5), (144, 5)]

namespace Parameters

variable (parameters : Parameters)

def indicesPerHashOutput : Nat := 512 / parameters.n

def hashOutput : Nat := parameters.indicesPerHashOutput * parameters.n / 8

def collisionBitLength : Nat := parameters.n / (parameters.k + 1)

def collisionByteLength : Nat := (parameters.collisionBitLength + 7) / 8

def hashLength : Nat := (parameters.k + 1) * parameters.collisionByteLength

def finalFullWidth : Nat := 2 * parameters.collisionByteLength + ehIndexSize * (1 <<< parameters.k)

def solutionWidth : Nat := (1 <<< parameters.k) * (parameters.collisionBitLength + 1) / 8

end Parameters

abbrev Uninitialised (width : Nat) := FixedBytes width

section Rows

/-- `memcmp(hash+len, a.hash+len, lenIndices) < 0`. -/
def indicesBefore (row a : Bytes) (len lenIndices : Nat) : Bool :=
  (row.drop len).take lenIndices < (a.drop len).take lenIndices

/-- The loop over the first `l` bytes of both rows. -/
def hasCollision (a b : Bytes) (l : Nat) : Bool := a.take l = b.take l

def distinctIndices (a b : Bytes) (len lenIndices : Nat) : Bool :=
  (List.range (lenIndices / ehIndexSize)).all fun i =>
    (List.range (lenIndices / ehIndexSize)).all fun j =>
      (a.drop (len + ehIndexSize * i)).take ehIndexSize ≠
        (b.drop (len + ehIndexSize * j)).take ehIndexSize

def isZero (row : Bytes) (len : Nat) : Bool := (row.take len).all fun byte => byte = 0

/-- `FullStepRow(hashIn, hInLen, hLen, cBitLen, i)`. -/
def fullStepRow (memory hashIn : Bytes) (hLen cBitLen i : Nat) : Option Bytes :=
  if hLen ≤ memory.length then do
    let hash ← expandArray hashIn memory hLen cBitLen 0
    return ByteLayout.overwrite (ehIndexToArray i) hLen hash
  else none

/-- `FullStepRow(a, b, len, lenIndices, trim)`: a copy of `a` whose front is written anew. -/
def mergedStepRow (a b : Bytes) (len lenIndices trim : Nat) : Option Bytes :=
  if len + lenIndices ≤ a.length ∧ len - trim + 2 * lenIndices ≤ a.length then
    let xored := List.zipWith (· ^^^ ·) ((a.take len).drop trim) ((b.take len).drop trim)
    let indicesOfA := (a.drop len).take lenIndices
    let indicesOfB := (b.drop len).take lenIndices
    let indices := if indicesBefore a b len lenIndices then indicesOfA ++ indicesOfB
      else indicesOfB ++ indicesOfA
    some (ByteLayout.overwrite (xored ++ indices) 0 a)
  else none

end Rows

section Validation

variable (parameters : Parameters)

/-- The `for` loop over neighbouring rows; the inner `none` is its `return false`. -/
def collidePairs (hashLen lenIndices : Nat) : List Bytes → Option (Option (List Bytes))
  | [] => some (some [])
  | [_] => none
  | a :: b :: rest =>
      if !hasCollision a b parameters.collisionByteLength then some none
      else if indicesBefore b a hashLen lenIndices then some none
      else if !distinctIndices a b hashLen lenIndices then some none
      else do
        let row ← mergedStepRow a b hashLen lenIndices parameters.collisionByteLength
        let others ← collidePairs hashLen lenIndices rest
        return others.map (row :: ·)

/-- The `while (X.size() > 1)` loop, entered at most `fuel` times, and the check behind it. -/
def collideRows : (fuel : Nat) → (hashLen lenIndices : Nat) → List Bytes → Option Bool
  | 0, _, _, _ => none
  | _ + 1, _, _, [] => none
  | _ + 1, hashLen, _, [row] => some (isZero row hashLen)
  | fuel + 1, hashLen, lenIndices, rows =>
      match collidePairs parameters hashLen lenIndices rows with
      | none => none
      | some none => some false
      | some (some joined) =>
          collideRows fuel (hashLen - parameters.collisionByteLength) (lenIndices * 2) joined

variable (memory : Nat → Uninitialised parameters.finalFullWidth)
  (generateHash : Nat → FixedBytes parameters.hashOutput)

def hashOfIndex (index : Nat) : Bytes :=
  let tmpHash := (generateHash (index / parameters.indicesPerHashOutput)).toList
  (tmpHash.drop (index % parameters.indicesPerHashOutput * parameters.n / 8)).take
    (parameters.n / 8)

/-- `X.emplace_back(...)` for the index at a position. -/
def rowOfIndex (entry : Nat × Nat) : Option Bytes :=
  fullStepRow (memory entry.2).toList (hashOfIndex parameters generateHash entry.1)
    parameters.hashLength parameters.collisionBitLength entry.1

def isValidSolution (soln : Bytes) : Option Bool :=
  if soln.length ≠ parameters.solutionWidth then some false
  else do
    let indices ← getIndicesFromMinimal soln parameters.collisionBitLength
    let rows ← indices.zipIdx.mapM (rowOfIndex parameters memory generateHash)
    collideRows parameters (rows.length + 1) parameters.hashLength ehIndexSize rows

end Validation

/-! ## Parameters -/

namespace Parameters

structure Dimensions (parameters : Parameters) : Prop where
  digits : parameters.collisionBitLength * (parameters.k + 1) = parameters.n
  wholeBytes : 8 * (parameters.n / 8) = parameters.n
  atLeastByte : 8 ≤ parameters.collisionBitLength
  inRegister : parameters.collisionBitLength + 1 ≤ 25
  outputs : 0 < parameters.indicesPerHashOutput
  hashOutput : 8 * parameters.hashOutput = parameters.indicesPerHashOutput * parameters.n
  solution : 8 * parameters.solutionWidth = (parameters.collisionBitLength + 1) * 2 ^ parameters.k
  rows : ∀ level < parameters.k + 1,
    (parameters.k + 1 - level) * parameters.collisionByteLength + ehIndexSize * 2 ^ level ≤
      parameters.finalFullWidth

theorem dimensions (parameters : Parameters) : Dimensions parameters := by
  rcases parameters with ⟨n, k, instantiated⟩
  simp only [List.mem_cons, Prod.mk.injEq, List.not_mem_nil, or_false] at instantiated
  rcases instantiated with ⟨rfl, rfl⟩ | ⟨rfl, rfl⟩ | ⟨rfl, rfl⟩ | ⟨rfl, rfl⟩ | ⟨rfl, rfl⟩
  all_goals constructor
  all_goals simp only [collisionBitLength, collisionByteLength, hashOutput, indicesPerHashOutput,
    solutionWidth, finalFullWidth]
  all_goals decide

theorem validBitLen_digits (parameters : Parameters) :
    validBitLen parameters.collisionBitLength = true := by
  have atLeastByte := parameters.dimensions.atLeastByte
  have inRegister := parameters.dimensions.inRegister
  simp only [validBitLen, Bool.and_eq_true, decide_eq_true_eq]
  omega

theorem validBitLen_indices (parameters : Parameters) :
    validBitLen (parameters.collisionBitLength + 1) = true := by
  have atLeastByte := parameters.dimensions.atLeastByte
  have inRegister := parameters.dimensions.inRegister
  simp only [validBitLen, Bool.and_eq_true, decide_eq_true_eq]
  omega

end Parameters

/-! ## Rows -/

def xorOf (value : Nat → Nat) : List Nat → Nat
  | [] => 0
  | item :: items => value item ^^^ xorOf value items

theorem xorOf_append (value : Nat → Nat) (left right : List Nat) :
    xorOf value (left ++ right) = xorOf value left ^^^ xorOf value right := by
  induction left with
  | nil => simp [xorOf]
  | cons item left induction => rw [List.cons_append, xorOf, induction, xorOf, Nat.xor_assoc]

theorem ehIndexToArray_injective {index other : Nat} (indexFits : index < 2 ^ 32)
    (otherFits : other < 2 ^ 32) (same : ehIndexToArray index = ehIndexToArray other) :
    index = other := by
  have decoded := congrArg BigEndian.decode same
  rw [ehIndexToArray, ehIndexToArray, BigEndian.decode_encode indexFits,
    BigEndian.decode_encode otherFits] at decoded
  exact decoded

section Representation

variable (parameters : Parameters)

def digitBytes (count value : Nat) : Bytes :=
  (fieldsOf parameters.collisionBitLength count value).flatMap
    (BigEndian.encode parameters.collisionByteLength)

@[simp] theorem digitBytes_length (count value : Nat) :
    (digitBytes parameters count value).length = count * parameters.collisionByteLength := by
  simp [digitBytes, List.length_flatMap]

theorem digitBytes_succ (count value : Nat) :
    digitBytes parameters (count + 1) value =
      BigEndian.encode parameters.collisionByteLength
        (value / 2 ^ (parameters.collisionBitLength * count) % 2 ^ parameters.collisionBitLength) ++
        digitBytes parameters count value := by
  rw [digitBytes, fieldsOf_succ, List.flatMap_cons, digitBytes]

theorem digitBytes_xor (count left right : Nat) :
    digitBytes parameters count (left ^^^ right) =
      List.zipWith (· ^^^ ·) (digitBytes parameters count left)
        (digitBytes parameters count right) := by
  induction count with
  | zero => rfl
  | succ count induction =>
      rw [digitBytes_succ, digitBytes_succ, digitBytes_succ, List.zipWith_append (by simp),
        induction, Nat.xor_div_two_pow, Nat.xor_mod_two_pow, BigEndian.encode_xor]

theorem digit_fits (value : Nat) :
    value % 2 ^ parameters.collisionBitLength < 256 ^ parameters.collisionByteLength := by
  have power : 256 ^ parameters.collisionByteLength =
      2 ^ (8 * parameters.collisionByteLength) := by
    rw [pow_mul]
    norm_num
  rw [power]
  apply (Nat.mod_lt value (by positivity)).trans_le
  apply Nat.pow_le_pow_right (by decide)
  rw [Parameters.collisionByteLength]
  omega

variable (hashNumber : Nat → Nat)

/-- What a row holds for the indices below it: the digits of their hashes, combined, that are
not known to be zero, and the indices themselves. -/
structure Represents (level : Nat) (indices : List Nat) (row : Bytes) : Prop where
  width : row.length = parameters.finalFullWidth
  count : indices.length = 2 ^ level
  fits : ∀ index ∈ indices, index < 2 ^ 32
  collided : xorOf hashNumber indices <
    2 ^ (parameters.collisionBitLength * (parameters.k + 1 - level))
  hash : row.take ((parameters.k + 1 - level) * parameters.collisionByteLength) =
    digitBytes parameters (parameters.k + 1 - level) (xorOf hashNumber indices)
  indices : (row.drop ((parameters.k + 1 - level) * parameters.collisionByteLength)).take
    (ehIndexSize * 2 ^ level) = indices.flatMap ehIndexToArray

def Joinable (level : Nat) (left right : List Nat) : Prop :=
  xorOf hashNumber (left ++ right) <
      2 ^ (parameters.collisionBitLength * (parameters.k - level)) ∧
    left.headD 0 < right.headD 0 ∧ List.Disjoint left right

variable {parameters hashNumber} {level : Nat} {left right : List Nat} {a b : Bytes}

theorem hasCollision_iff (inTree : level < parameters.k)
    (represented : Represents parameters hashNumber level left a)
    (neighbour : Represents parameters hashNumber level right b) :
    hasCollision a b parameters.collisionByteLength = true ↔
      xorOf hashNumber (left ++ right) <
        2 ^ (parameters.collisionBitLength * (parameters.k - level)) := by
  have oneMore : parameters.k + 1 - level = parameters.k - level + 1 := by omega
  have atLeastOne : parameters.collisionByteLength ≤
      (parameters.k - level + 1) * parameters.collisionByteLength := by
    rw [Nat.add_mul, Nat.one_mul]
    exact Nat.le_add_left _ _
  have firstDigit (row : Bytes) (value : Nat)
      (hash : row.take ((parameters.k + 1 - level) * parameters.collisionByteLength) =
        digitBytes parameters (parameters.k + 1 - level) value)
      (below : value < 2 ^ (parameters.collisionBitLength * (parameters.k + 1 - level))) :
      row.take parameters.collisionByteLength =
        BigEndian.encode parameters.collisionByteLength
          (value / 2 ^ (parameters.collisionBitLength * (parameters.k - level))) := by
    rw [oneMore] at hash below
    rw [Nat.mul_add, Nat.mul_one, pow_add] at below
    have front := congrArg (List.take parameters.collisionByteLength) hash
    rw [List.take_take, Nat.min_eq_left atLeastOne, digitBytes_succ,
      List.take_left' (BigEndian.encode_length _ _),
      Nat.mod_eq_of_lt (Nat.div_lt_of_lt_mul below)] at front
    exact front
  have quotientFits (value : Nat)
      (below : value < 2 ^ (parameters.collisionBitLength * (parameters.k + 1 - level))) :
      value / 2 ^ (parameters.collisionBitLength * (parameters.k - level)) <
        256 ^ parameters.collisionByteLength := by
    rw [oneMore, Nat.mul_add, Nat.mul_one, pow_add] at below
    have digit := digit_fits parameters
      (value / 2 ^ (parameters.collisionBitLength * (parameters.k - level)))
    rw [Nat.mod_eq_of_lt (Nat.div_lt_of_lt_mul below)] at digit
    exact digit
  rw [hasCollision, decide_eq_true_iff,
    firstDigit a _ represented.hash represented.collided,
    firstDigit b _ neighbour.hash neighbour.collided, xorOf_append,
    ← Nat.div_eq_zero_iff_lt (by positivity), Nat.xor_div_two_pow, Nat.xor_eq_zero_iff]
  constructor
  · intro same
    have decoded := congrArg BigEndian.decode same
    rw [BigEndian.decode_encode (quotientFits _ represented.collided),
      BigEndian.decode_encode (quotientFits _ neighbour.collided)] at decoded
    exact decoded
  · intro same
    rw [same]

theorem head_mem (represented : Represents parameters hashNumber level left a) :
    left.headD 0 ∈ left := by
  have count := represented.count
  have positive : 0 < 2 ^ level := by positivity
  cases left with
  | nil =>
      rw [List.length_nil] at count
      omega
  | cons first left => exact List.mem_cons_self

theorem indicesBefore_iff (represented : Represents parameters hashNumber level left a)
    (neighbour : Represents parameters hashNumber level right b)
    (disjoint : List.Disjoint left right) :
    indicesBefore b a ((parameters.k + 1 - level) * parameters.collisionByteLength)
      (ehIndexSize * 2 ^ level) = true ↔ right.headD 0 < left.headD 0 := by
  rw [indicesBefore, decide_eq_true_iff, represented.indices, neighbour.indices]
  have positive : 0 < 2 ^ level := by positivity
  cases left with
  | nil =>
      have none : 0 = 2 ^ level := represented.count
      omega
  | cons first left =>
      cases right with
      | nil =>
          have none : 0 = 2 ^ level := neighbour.count
          omega
      | cons second right =>
          have firstFits := represented.fits first List.mem_cons_self
          have secondFits := neighbour.fits second List.mem_cons_self
          have sameLength : (ehIndexToArray second).length = (ehIndexToArray first).length := rfl
          have different : ehIndexToArray second ≠ ehIndexToArray first := by
            intro same
            have equal := ehIndexToArray_injective secondFits firstFits same
            exact disjoint List.mem_cons_self (by rw [← equal]; exact List.mem_cons_self)
          rw [List.flatMap_cons, List.flatMap_cons,
            BigEndian.append_lt_append sameLength different, BigEndian.lt_iff_decode_lt sameLength,
            ehIndexToArray, ehIndexToArray, BigEndian.decode_encode secondFits,
            BigEndian.decode_encode firstFits]
          rfl

theorem indexBytes_eq (represented : Represents parameters hashNumber level left a) {i : Nat}
    (inRange : i < left.length) :
    (a.drop ((parameters.k + 1 - level) * parameters.collisionByteLength + ehIndexSize * i)).take
      ehIndexSize = ehIndexToArray left[i] := by
  have bytes := congrArg (fun bytes => block bytes ehIndexSize i) represented.indices
  have inside : ehIndexSize * i + ehIndexSize ≤ ehIndexSize * 2 ^ level := by
    rw [represented.count] at inRange
    have scaled := Nat.mul_le_mul_left ehIndexSize inRange
    rw [Nat.succ_eq_add_one, Nat.mul_add, Nat.mul_one] at scaled
    exact scaled
  have width : ∀ index, (ehIndexToArray index).length = ehIndexSize :=
    BigEndian.encode_length ehIndexSize
  rw [block_flatMap width left inRange, block,
    List.drop_take, List.take_take, List.drop_drop, Nat.mul_comm i, Nat.min_eq_left (by omega)]
    at bytes
  exact bytes

theorem distinctIndices_iff (represented : Represents parameters hashNumber level left a)
    (neighbour : Represents parameters hashNumber level right b) :
    distinctIndices a b ((parameters.k + 1 - level) * parameters.collisionByteLength)
      (ehIndexSize * 2 ^ level) = true ↔ List.Disjoint left right := by
  have count : ehIndexSize * 2 ^ level / ehIndexSize = 2 ^ level :=
    Nat.mul_div_cancel_left _ (by decide)
  simp only [distinctIndices, count, List.all_eq_true, List.mem_range, decide_eq_true_eq]
  constructor
  · intro different index inLeft inRight
    rcases List.getElem_of_mem inLeft with ⟨i, iInRange, atI⟩
    rcases List.getElem_of_mem inRight with ⟨j, jInRange, atJ⟩
    have unequal := different i (by rw [← represented.count]; exact iInRange) j
      (by rw [← neighbour.count]; exact jInRange)
    rw [indexBytes_eq represented iInRange, indexBytes_eq neighbour jInRange, atI, atJ] at unequal
    exact unequal rfl
  · intro disjoint i iInRange j jInRange same
    rw [← represented.count] at iInRange
    rw [← neighbour.count] at jInRange
    rw [indexBytes_eq represented iInRange, indexBytes_eq neighbour jInRange] at same
    have equal := ehIndexToArray_injective (represented.fits _ (List.getElem_mem iInRange))
      (neighbour.fits _ (List.getElem_mem jInRange)) same
    exact disjoint (List.getElem_mem iInRange) (by rw [equal]; exact List.getElem_mem jInRange)

theorem checks_iff (inTree : level < parameters.k)
    (represented : Represents parameters hashNumber level left a)
    (neighbour : Represents parameters hashNumber level right b) :
    (hasCollision a b parameters.collisionByteLength = true ∧
      indicesBefore b a ((parameters.k + 1 - level) * parameters.collisionByteLength)
        (ehIndexSize * 2 ^ level) = false ∧
      distinctIndices a b ((parameters.k + 1 - level) * parameters.collisionByteLength)
        (ehIndexSize * 2 ^ level) = true) ↔
      Joinable parameters hashNumber level left right := by
  rw [hasCollision_iff inTree represented neighbour, distinctIndices_iff represented neighbour,
    Joinable]
  apply and_congr_right
  intro _
  apply and_congr_left
  intro disjoint
  have ordered := indicesBefore_iff represented neighbour disjoint
  have differ : left.headD 0 ≠ right.headD 0 := by
    intro same
    have leftHead := head_mem represented
    rw [same] at leftHead
    exact disjoint leftHead (head_mem neighbour)
  rw [← Bool.not_eq_true, ordered]
  omega

theorem mergedStepRow_represents (inTree : level < parameters.k)
    (represented : Represents parameters hashNumber level left a)
    (neighbour : Represents parameters hashNumber level right b)
    (joinable : Joinable parameters hashNumber level left right) :
    ∃ row, mergedStepRow a b ((parameters.k + 1 - level) * parameters.collisionByteLength)
        (ehIndexSize * 2 ^ level) parameters.collisionByteLength = some row ∧
      Represents parameters hashNumber (level + 1) (left ++ right) row := by
  have fits := parameters.dimensions.rows level (by omega)
  have nextFits := parameters.dimensions.rows (level + 1) (by omega)
  have oneMore : parameters.k + 1 - level = parameters.k - level + 1 := by omega
  have oneLess : parameters.k + 1 - (level + 1) = parameters.k - level := by omega
  have hashWidth : (parameters.k + 1 - level) * parameters.collisionByteLength =
      parameters.collisionByteLength + (parameters.k - level) * parameters.collisionByteLength := by
    rw [oneMore, Nat.add_mul, Nat.one_mul, Nat.add_comm]
  have twice : 2 * (ehIndexSize * 2 ^ level) = ehIndexSize * 2 ^ (level + 1) := by
    rw [pow_succ]
    ring
  rw [oneLess] at nextFits
  have xored : List.zipWith (· ^^^ ·)
      ((a.take ((parameters.k + 1 - level) * parameters.collisionByteLength)).drop
        parameters.collisionByteLength)
      ((b.take ((parameters.k + 1 - level) * parameters.collisionByteLength)).drop
        parameters.collisionByteLength) =
      digitBytes parameters (parameters.k - level) (xorOf hashNumber (left ++ right)) := by
    rw [represented.hash, neighbour.hash, oneMore, digitBytes_succ, digitBytes_succ,
      List.drop_left' (BigEndian.encode_length _ _), List.drop_left' (BigEndian.encode_length _ _),
      ← digitBytes_xor, xorOf_append]
  have before : indicesBefore a b ((parameters.k + 1 - level) * parameters.collisionByteLength)
      (ehIndexSize * 2 ^ level) = true :=
    (indicesBefore_iff neighbour represented joinable.2.2.symm).mpr joinable.2.1
  have indexBytes : (left.flatMap ehIndexToArray ++ right.flatMap ehIndexToArray).length =
      ehIndexSize * 2 ^ (level + 1) := by
    rw [← represented.indices, ← neighbour.indices, List.length_append, List.length_take,
      List.length_take, List.length_drop, List.length_drop, represented.width, neighbour.width,
      ← twice]
    omega
  have front : (digitBytes parameters (parameters.k - level) (xorOf hashNumber (left ++ right)) ++
      (left.flatMap ehIndexToArray ++ right.flatMap ehIndexToArray)).length ≤ a.length := by
    rw [List.length_append, digitBytes_length, indexBytes, represented.width]
    exact nextFits
  rw [mergedStepRow, if_pos (by
    rw [represented.width, twice]
    omega)]
  simp only [xored, before, if_true, represented.indices, neighbour.indices]
  rw [ByteLayout.overwrite_inside (by rw [Nat.zero_add]; exact front), List.take_zero,
    List.nil_append, List.append_assoc]
  refine ⟨_, rfl, ?_⟩
  exact {
    width := by
      rw [← List.append_assoc, List.length_append, List.length_drop, ← represented.width]
      omega
    count := by
      rw [List.length_append, represented.count, neighbour.count, pow_succ]
      omega
    fits := by
      intro index member
      rcases List.mem_append.mp member with inLeft | inRight
      · exact represented.fits index inLeft
      · exact neighbour.fits index inRight
    collided := by
      rw [oneLess]
      exact joinable.1
    hash := by
      rw [oneLess]
      exact List.take_left' (digitBytes_length _ _ _)
    indices := by
      rw [oneLess, List.drop_left' (digitBytes_length _ _ _), List.take_left' indexBytes,
        List.flatMap_append] }

theorem collidePairs_refused {hashLen lenIndices : Nat} (rest : List Bytes)
    (refused : ¬(hasCollision a b parameters.collisionByteLength = true ∧
      indicesBefore b a hashLen lenIndices = false ∧
      distinctIndices a b hashLen lenIndices = true)) :
    collidePairs parameters hashLen lenIndices (a :: b :: rest) = some none := by
  rw [collidePairs]
  cases collision : hasCollision a b parameters.collisionByteLength with
  | false => rfl
  | true =>
      cases order : indicesBefore b a hashLen lenIndices with
      | true => rfl
      | false =>
          cases distinct : distinctIndices a b hashLen lenIndices with
          | false => rfl
          | true => exact absurd ⟨collision, order, distinct⟩ refused

theorem collidePairs_represents (inTree : level < parameters.k) (blocks : List (List Nat))
    {rows : List Bytes} (even : Even blocks.length)
    (represented : List.Forall₂ (Represents parameters hashNumber level) blocks rows) :
    (EachPair (Joinable parameters hashNumber level) blocks ∧
      ∃ joined, collidePairs parameters ((parameters.k + 1 - level) * parameters.collisionByteLength)
          (ehIndexSize * 2 ^ level) rows = some (some joined) ∧
        List.Forall₂ (Represents parameters hashNumber (level + 1))
          (PairwiseTree.parents (· ++ ·) blocks) joined) ∨
    (¬EachPair (Joinable parameters hashNumber level) blocks ∧
      collidePairs parameters ((parameters.k + 1 - level) * parameters.collisionByteLength)
        (ehIndexSize * 2 ^ level) rows = some none) := by
  induction blocks using PairwiseTree.parents.induct generalizing rows with
  | case1 =>
      cases represented
      exact Or.inl ⟨trivial, [], rfl, List.Forall₂.nil⟩
  | case2 last => simp at even
  | case3 left right blocks induction =>
      cases represented with
      | cons represented others =>
      cases others with
      | cons neighbour others =>
      have restEven : Even blocks.length := by
        rw [List.length_cons, List.length_cons, Nat.even_add_one, Nat.even_add_one, not_not] at even
        exact even
      have checks := checks_iff inTree represented neighbour
      by_cases joinable : Joinable parameters hashNumber level left right
      · rcases checks.mpr joinable with ⟨collision, order, distinct⟩
        rcases mergedStepRow_represents inTree represented neighbour joinable with
          ⟨row, merged, joinedRow⟩
        rw [EachPair, collidePairs]
        simp only [collision, order, distinct, merged, joinable, true_and, Bool.not_true,
          Bool.false_eq_true, if_false, Option.bind_eq_bind, Option.bind_some]
        rcases induction restEven others with ⟨pairs, joined, rest, restRows⟩ | ⟨pairs, rest⟩
        · exact Or.inl ⟨pairs, row :: joined, by rw [rest]; rfl,
            List.Forall₂.cons joinedRow restRows⟩
        · exact Or.inr ⟨pairs, by rw [rest]; rfl⟩
      · exact Or.inr ⟨fun pairs => joinable pairs.1,
          collidePairs_refused _ fun passed => joinable (checks.mp passed)⟩

theorem isZero_iff {indices : List Nat} {row : Bytes}
    (represented : Represents parameters hashNumber parameters.k indices row) :
    isZero row ((parameters.k + 1 - parameters.k) * parameters.collisionByteLength) = true ↔
      xorOf hashNumber indices = 0 := by
  have one : parameters.k + 1 - parameters.k = 1 := by omega
  have hash := represented.hash
  have collided := represented.collided
  rw [one, Nat.mul_one] at collided
  rw [one, digitBytes_succ, Nat.mul_zero, pow_zero, Nat.div_one, Nat.mod_eq_of_lt collided] at hash
  have fits := digit_fits parameters (xorOf hashNumber indices)
  rw [Nat.mod_eq_of_lt collided] at fits
  have noMore : digitBytes parameters 0 (xorOf hashNumber indices) = [] := rfl
  rw [isZero, one, hash, noMore, List.append_nil, BigEndian.all_zero_iff fits]

theorem collideRows_more {fuel hashLen lenIndices : Nat} {rows : List Bytes}
    (more : 1 < rows.length) :
    collideRows parameters (fuel + 1) hashLen lenIndices rows =
      match collidePairs parameters hashLen lenIndices rows with
      | none => none
      | some none => some false
      | some (some joined) => collideRows parameters fuel
          (hashLen - parameters.collisionByteLength) (lenIndices * 2) joined := by
  cases rows with
  | nil => simp at more
  | cons a rows =>
      cases rows with
      | nil => simp at more
      | cons b rows => rfl

theorem collideRows_represents {indices : List Nat} (full : indices.length = 2 ^ parameters.k)
    (remaining : Nat) {fuel : Nat} {rows : List Bytes} (enough : remaining < fuel)
    (height : level + remaining = parameters.k)
    (represented : List.Forall₂ (Represents parameters hashNumber level)
      ((List.range (2 ^ remaining)).map (block indices (2 ^ level))) rows) :
    ∃ accepted, collideRows parameters fuel
        ((parameters.k + 1 - level) * parameters.collisionByteLength) (ehIndexSize * 2 ^ level)
        rows = some accepted ∧
      (accepted = true ↔
        (∀ upper, level ≤ upper → upper < parameters.k →
          ∀ position < 2 ^ (parameters.k - 1 - upper),
            Joinable parameters hashNumber upper (block indices (2 ^ upper) (2 * position))
              (block indices (2 ^ upper) (2 * position + 1))) ∧
        xorOf hashNumber indices = 0) := by
  induction remaining generalizing level fuel rows with
  | zero =>
      rcases Nat.exists_eq_succ_of_ne_zero (by omega : fuel ≠ 0) with ⟨fuel', fuelEq⟩
      have top : level = parameters.k := by omega
      rw [top] at represented ⊢
      rw [pow_zero, List.range_one, List.map_singleton, ← full, block_whole] at represented
      cases represented with
      | cons represented nothing =>
      cases nothing
      refine ⟨_, by rw [fuelEq, collideRows], ?_⟩
      rw [isZero_iff represented]
      constructor
      · intro zero
        exact ⟨fun upper above below => by omega, zero⟩
      · exact And.right
  | succ remaining induction =>
      rcases Nat.exists_eq_succ_of_ne_zero (by omega : fuel ≠ 0) with ⟨fuel', fuelEq⟩
      have inTree : level < parameters.k := by omega
      have sameLevel : parameters.k - 1 - level = remaining := by omega
      have oneMore : parameters.k + 1 - level = parameters.k - level + 1 := by omega
      have nextHash : (parameters.k + 1 - level) * parameters.collisionByteLength -
          parameters.collisionByteLength =
          (parameters.k + 1 - (level + 1)) * parameters.collisionByteLength := by
        rw [oneMore, Nat.add_mul, Nat.one_mul, Nat.add_sub_cancel, Nat.add_sub_add_right]
      have nextIndices : ehIndexSize * 2 ^ level * 2 = ehIndexSize * 2 ^ (level + 1) := by
        rw [pow_succ, Nat.mul_assoc]
      have count : rows.length = 2 * 2 ^ remaining := by
        rw [← represented.length_eq, List.length_map, List.length_range, pow_succ']
      have positive : 0 < 2 ^ remaining := by positivity
      have levelPairs := eachPair_range (Joinable parameters hashNumber level) (2 ^ remaining)
        (block indices (2 ^ level))
      have levelBlocks := parents_range (· ++ ·) (2 ^ remaining) (block indices (2 ^ level))
      simp only [block_append] at levelBlocks
      rw [← pow_succ'] at levelPairs levelBlocks
      rw [fuelEq, collideRows_more (by omega)]
      rcases collidePairs_represents inTree _ (by simp [pow_succ']) represented with
        ⟨pairs, joined, next, joinedRows⟩ | ⟨pairs, refused⟩
      · rw [levelBlocks, ← pow_succ'] at joinedRows
        rcases induction (by omega : remaining < fuel') (by omega) joinedRows with ⟨accepted, run, iff⟩
        refine ⟨accepted, ?_, ?_⟩
        · rw [next]
          simp only [nextHash, nextIndices, run]
        · rw [iff]
          apply and_congr_left
          intro _
          constructor
          · intro above upper atLeast below
            rcases Nat.lt_or_eq_of_le atLeast with higher | same
            · exact above upper higher below
            · rw [← same, sameLevel]
              exact levelPairs.mp pairs
          · intro all upper atLeast below
            exact all upper (by omega) below
      · refine ⟨false, by rw [refused], ?_⟩
        constructor
        · intro impossible
          exact absurd impossible Bool.false_ne_true
        · intro all
          have here := all.1 level le_rfl inTree
          rw [sameLevel] at here
          exact absurd (levelPairs.mpr here) pairs

end Representation

/-! ## Solutions -/

section Solutions

variable (parameters : Parameters) (memory : Nat → Uninitialised parameters.finalFullWidth)
  (generateHash : Nat → FixedBytes parameters.hashOutput)

def hashNumber (index : Nat) : Nat :=
  BigEndian.decode (hashOfIndex parameters generateHash index)

theorem hashOfIndex_length (index : Nat) :
    (hashOfIndex parameters generateHash index).length = parameters.n / 8 := by
  have dimensions := parameters.dimensions
  have offset : index % parameters.indicesPerHashOutput * parameters.n / 8 =
      index % parameters.indicesPerHashOutput * (parameters.n / 8) :=
    Nat.mul_div_assoc _ ⟨_, dimensions.wholeBytes.symm⟩
  have output : parameters.hashOutput = parameters.indicesPerHashOutput * (parameters.n / 8) := by
    rw [Parameters.hashOutput, Nat.mul_div_assoc _ ⟨_, dimensions.wholeBytes.symm⟩]
  have inOutput := Nat.mul_le_mul_right (parameters.n / 8)
    (Nat.mod_lt index dimensions.outputs)
  rw [Nat.succ_eq_add_one, Nat.add_mul, Nat.one_mul] at inOutput
  rw [hashOfIndex, List.length_take, List.length_drop, List.Vector.toList_length, offset, output]
  omega

theorem expandArray_hashOfIndex (index : Nat) (out : Bytes) :
    expandArray (hashOfIndex parameters generateHash index) out parameters.hashLength
        parameters.collisionBitLength 0 =
      some (digitBytes parameters (parameters.k + 1) (hashNumber parameters generateHash index) ++
        out.drop parameters.hashLength) := by
  have dimensions := parameters.dimensions
  have atLeastByte := dimensions.atLeastByte
  have length := hashOfIndex_length parameters generateHash index
  have sized : parameters.hashLength = 8 * ((parameters.collisionBitLength + 7) / 8 + 0) *
      (hashOfIndex parameters generateHash index).length / parameters.collisionBitLength := by
    have bits : 8 * (parameters.collisionByteLength + 0) * (parameters.n / 8) =
        parameters.collisionBitLength *
          ((parameters.k + 1) * parameters.collisionByteLength) := by
      rw [Nat.add_zero, Nat.mul_right_comm, dimensions.wholeBytes, ← dimensions.digits]
      ring
    rw [length, ← Parameters.collisionByteLength, bits,
      Nat.mul_div_cancel_left _ (by omega : 0 < parameters.collisionBitLength),
      Parameters.hashLength]
  rcases expandArray_eq out parameters.validBitLen_digits sized with
    ⟨digits, accBits, accValue, regrouped, unfinished, expanded⟩
  have bits := regrouped.bits
  rw [List.length_map, length, dimensions.wholeBytes, ← dimensions.digits] at bits
  have noRest : accBits = 0 := by
    have residue := congrArg (· % parameters.collisionBitLength) bits
    simp only [Nat.mul_mod_right, Nat.mul_add_mod, Nat.mod_eq_of_lt unfinished] at residue
    exact residue.symm
  rw [noRest, Nat.add_zero] at bits
  have count : parameters.k + 1 = digits.length :=
    Nat.eq_of_mul_eq_mul_left (by omega : 0 < parameters.collisionBitLength) bits
  rw [noRest] at regrouped
  have digitsEq := regrouped.written_eq (by omega)
  rw [packed_bytes, ← hashNumber, ← count] at digitsEq
  rw [expanded, ← count, Nat.add_zero, ← Parameters.collisionByteLength, ← Parameters.hashLength,
    digitsEq, digitBytes]

theorem rowOfIndex_represents {index : Nat} (fits : index < 2 ^ 32) (position : Nat) :
    ∃ row, rowOfIndex parameters memory generateHash (index, position) = some row ∧
      Represents parameters (hashNumber parameters generateHash) 0 [index] row := by
  have dimensions := parameters.dimensions
  have roomForRow := dimensions.rows 0 (Nat.succ_pos _)
  rw [Nat.sub_zero, pow_zero, Nat.mul_one, ← Parameters.hashLength] at roomForRow
  have room : parameters.hashLength ≤ (memory position).toList.length := by
    rw [List.Vector.toList_length]
    omega
  have front : (digitBytes parameters (parameters.k + 1)
      (hashNumber parameters generateHash index)).length = parameters.hashLength :=
    digitBytes_length _ _ _
  have width : (digitBytes parameters (parameters.k + 1)
      (hashNumber parameters generateHash index) ++
        (memory position).toList.drop parameters.hashLength).length =
      parameters.finalFullWidth := by
    rw [List.length_append, front, List.length_drop, List.Vector.toList_length]
    omega
  have indexWidth : (ehIndexToArray index).length = ehIndexSize := BigEndian.encode_length _ _
  have oneHash : xorOf (hashNumber parameters generateHash) [index] =
      hashNumber parameters generateHash index := Nat.xor_zero _
  rw [rowOfIndex, fullStepRow, if_pos room, expandArray_hashOfIndex]
  simp only [Option.bind_eq_bind, Option.bind_some]
  rw [ByteLayout.overwrite_inside (by rw [width, indexWidth]; exact roomForRow),
    List.take_left' front]
  refine ⟨_, rfl, ?_⟩
  exact {
    width := by
      rw [List.length_append, List.length_append, front, List.length_drop, width, indexWidth]
      omega
    count := rfl
    fits := by
      intro other member
      rw [List.mem_singleton.mp member]
      exact fits
    collided := by
      rw [oneHash, Nat.sub_zero, dimensions.digits]
      have below := BigEndian.decode_lt (hashOfIndex parameters generateHash index)
      have power : 256 ^ (parameters.n / 8) = 2 ^ (8 * (parameters.n / 8)) := by
        rw [pow_mul]
        norm_num
      rw [hashOfIndex_length, power, dimensions.wholeBytes] at below
      exact below
    hash := by
      rw [oneHash, Nat.sub_zero, ← Parameters.hashLength, List.append_assoc,
        List.take_left' front]
    indices := by
      rw [Nat.sub_zero, ← Parameters.hashLength, List.append_assoc, List.drop_left' front,
        pow_zero, Nat.mul_one, List.take_left' indexWidth, List.flatMap_singleton] }

theorem rowsOfIndices_represent (indices : List Nat) (fits : ∀ index ∈ indices, index < 2 ^ 32)
    (start : Nat) :
    ∃ rows, (indices.zipIdx start).mapM (rowOfIndex parameters memory generateHash) = some rows ∧
      List.Forall₂ (Represents parameters (hashNumber parameters generateHash) 0)
        (indices.map fun index => [index]) rows := by
  induction indices generalizing start with
  | nil => exact ⟨[], rfl, List.Forall₂.nil⟩
  | cons index indices induction =>
      rcases rowOfIndex_represents parameters memory generateHash
        (fits index List.mem_cons_self) start with ⟨row, created, represented⟩
      rcases induction (fun other member => fits other (List.mem_cons_of_mem _ member))
        (start + 1) with ⟨rows, others, othersRepresented⟩
      refine ⟨row :: rows, ?_, List.Forall₂.cons represented othersRepresented⟩
      rw [List.zipIdx_cons, List.mapM_cons, created, others]
      rfl

/-- An Equihash solution: distinct indices whose hashes cancel each other out. In every aligned
block of `2 ^ (level + 1)` indices, one more digit of the combined hash is zero for each level,
and the two halves are in the order of their first indices. -/
structure Solution (number : Nat → Nat) (indices : List Nat) : Prop where
  count : indices.length = 2 ^ parameters.k
  distinct : indices.Nodup
  ordered : ∀ level < parameters.k, ∀ position < 2 ^ (parameters.k - 1 - level),
    (block indices (2 ^ level) (2 * position)).headD 0 <
      (block indices (2 ^ level) (2 * position + 1)).headD 0
  collide : ∀ level < parameters.k, ∀ position < 2 ^ (parameters.k - 1 - level),
    xorOf number (block indices (2 ^ (level + 1)) position) <
      2 ^ (parameters.n - (level + 1) * parameters.collisionBitLength)
  cancel : xorOf number indices = 0

theorem solution_iff_joinable {number : Nat → Nat} {indices : List Nat}
    (full : indices.length = 2 ^ parameters.k) :
    Solution parameters number indices ↔
      (∀ level, 0 ≤ level → level < parameters.k →
        ∀ position < 2 ^ (parameters.k - 1 - level),
          Joinable parameters number level (block indices (2 ^ level) (2 * position))
            (block indices (2 ^ level) (2 * position + 1))) ∧
      xorOf number indices = 0 := by
  have remainingBits (level : Nat) (inTree : level < parameters.k) :
      parameters.n - (level + 1) * parameters.collisionBitLength =
        parameters.collisionBitLength * (parameters.k - level) := by
    rw [← parameters.dimensions.digits, Nat.mul_comm _ parameters.collisionBitLength,
      ← Nat.mul_sub, Nat.add_sub_add_right]
  constructor
  · intro solution
    refine ⟨?_, solution.cancel⟩
    intro level _ inTree position inRange
    refine ⟨?_, solution.ordered level inTree position inRange, ?_⟩
    · rw [block_append, ← pow_succ', ← remainingBits level inTree]
      exact solution.collide level inTree position inRange
    · exact (nodup_iff_disjoint full).mp solution.distinct level inTree position inRange
  · rintro ⟨joinable, cancel⟩
    exact {
      count := full
      distinct := (nodup_iff_disjoint full).mpr fun level inTree position inRange =>
        (joinable level (Nat.zero_le _) inTree position inRange).2.2
      ordered := fun level inTree position inRange =>
        (joinable level (Nat.zero_le _) inTree position inRange).2.1
      collide := by
        intro level inTree position inRange
        have collided := (joinable level (Nat.zero_le _) inTree position inRange).1
        rw [block_append, ← pow_succ', ← remainingBits level inTree] at collided
        exact collided
      cancel := cancel }

theorem indices_of_width {soln : Bytes} (sized : soln.length = parameters.solutionWidth) :
    ∃ indices, getIndicesFromMinimal soln parameters.collisionBitLength = some indices ∧
      indices.length = 2 ^ parameters.k ∧ ∀ index ∈ indices, index < 2 ^ 32 := by
  have dimensions := parameters.dimensions
  have valid := parameters.validBitLen_indices
  have total : 8 * soln.length = (parameters.collisionBitLength + 1) * 2 ^ parameters.k := by
    rw [sized, dimensions.solution]
  rcases getIndicesFromMinimal_eq valid ⟨_, total⟩ with ⟨indices, _, read, regrouped⟩
  have bits := regrouped.bits
  rw [List.length_map, total, Nat.add_zero] at bits
  exact ⟨indices, read, (Nat.eq_of_mul_eq_mul_left (Nat.succ_pos _) bits).symm,
    lt_register_of_fits valid regrouped.fits⟩

theorem isValidSolution_accepts (soln : Bytes) :
    ∃ accepted, isValidSolution parameters memory generateHash soln = some accepted ∧
      (accepted = true ↔ soln.length = parameters.solutionWidth ∧ ∃ indices,
        getIndicesFromMinimal soln parameters.collisionBitLength = some indices ∧
        Solution parameters (hashNumber parameters generateHash) indices) := by
  by_cases sized : soln.length = parameters.solutionWidth
  · rcases indices_of_width parameters sized with ⟨indices, read, full, fits⟩
    rcases rowsOfIndices_represent parameters memory generateHash indices fits 0 with
      ⟨rows, created, represented⟩
    rw [← block_one, full, ← pow_zero 2] at represented
    have enough : parameters.k < rows.length + 1 := by
      rw [← represented.length_eq, List.length_map, List.length_range]
      exact Nat.lt_two_pow_self.trans (Nat.lt_succ_self _)
    rcases collideRows_represents full parameters.k enough (Nat.zero_add _) represented with
      ⟨accepted, run, iff⟩
    rw [Nat.sub_zero, ← Parameters.hashLength, pow_zero, Nat.mul_one] at run
    refine ⟨accepted, ?_, ?_⟩
    · rw [isValidSolution, if_neg (not_not_intro sized), read]
      simp only [Option.bind_eq_bind, Option.bind_some, created, run]
    · rw [iff, ← solution_iff_joinable parameters full]
      constructor
      · intro solution
        exact ⟨sized, indices, read, solution⟩
      · rintro ⟨_, others, alsoRead, solution⟩
        rw [read] at alsoRead
        rw [Option.some.inj alsoRead]
        exact solution
  · refine ⟨false, if_pos sized, ?_⟩
    constructor
    · intro impossible
      exact absurd impossible Bool.false_ne_true
    · intro solution
      exact absurd solution.1 sized

end Solutions

end Miningcore.Equihash

import Miningcore.Crypto.EquihashSolution
import Miningcore.Foundation.Text

/-! `equihashverify.cc` and its exports. BLAKE2b comes with libsodium and is a parameter: the
hash of a personalization, an output length and everything the state was updated with. -/

namespace Miningcore.Equihash

abbrev Blake2b := Bytes → (outLen : Nat) → Bytes → FixedBytes outLen

/-- The arrays that step rows are built in, as they are found. -/
abbrev Memory := (parameters : Parameters) → Nat → Uninitialised parameters.finalFullWidth

def zcashParameters : Parameters where
  n := 200
  k := 9
  instantiated := by decide

def btgParameters : Parameters where
  n := 144
  k := 5
  instantiated := by decide

/-- `default_personalization`, the letters `ZcashPoW`. -/
def defaultPersonalization : Bytes := [0x5a, 0x63, 0x61, 0x73, 0x68, 0x50, 0x6f, 0x57]

/-- The letters `BgoldPoW`. -/
def bgoldPersonalization : Bytes := [0x42, 0x67, 0x6f, 0x6c, 0x64, 0x50, 0x6f, 0x57]

section Verify

variable (blake2b : Blake2b) (memory : Memory)

/-- `InitialiseState`, an update with the header, and `GenerateHash` for an index. -/
def headerHash (parameters : Parameters) (personalization header : Bytes) (g : Nat) :
    FixedBytes parameters.hashOutput :=
  blake2b (personalization ++ LittleEndian.encode 4 parameters.n ++
      LittleEndian.encode 4 parameters.k)
    parameters.hashOutput (header ++ LittleEndian.encode 4 g)

def verifyEH_200_9 (hdr soln : Bytes) (personalization : Option Bytes) : Option Bool :=
  if soln.length ≠ 1344 then some false
  else
    isValidSolution zcashParameters (memory zcashParameters)
      (headerHash blake2b zcashParameters (personalization.getD defaultPersonalization)
        (hdr.take 140)) soln

def verifyEH_144_5 (hdr : Bytes) (header_length : Nat) (soln : Bytes)
    (personalization : Option Bytes) : Option Bool :=
  if soln.length ≠ 100 then some false
  else
    isValidSolution btgParameters (memory btgParameters)
      (headerHash blake2b btgParameters (personalization.getD defaultPersonalization)
        (hdr.take header_length)) soln

def equihashVerifyExport (header solution : Bytes) : Option Bool :=
  if header.length ≠ 140 then some false
  else verifyEH_200_9 blake2b memory header solution none

def equihashVerifyBtgExport (header solution : Bytes) : Option Bool :=
  if header.length ≠ 140 then some false
  else verifyEH_144_5 blake2b memory header header.length solution (some bgoldPersonalization)

def equihashVerifyExccExport (header solution : Bytes) : Option Bool :=
  if header.length ≠ 180 then some false
  else verifyEH_144_5 blake2b memory header header.length solution none

def Solves (parameters : Parameters) (personalization header solution : Bytes) : Prop :=
  ∃ indices, getMinimalFromIndices indices parameters.collisionBitLength = some solution ∧
    BitPacking.Fits (parameters.collisionBitLength + 1) indices ∧
    Solution parameters
      (hashNumber parameters (headerHash blake2b parameters personalization header)) indices

variable {blake2b memory} {parameters : Parameters} {personalization header solution : Bytes}

theorem solves_iff_read :
    Solves blake2b parameters personalization header solution ↔
      solution.length = parameters.solutionWidth ∧ ∃ indices,
        getIndicesFromMinimal solution parameters.collisionBitLength = some indices ∧
        Solution parameters
          (hashNumber parameters (headerHash blake2b parameters personalization header)) indices := by
  have valid := parameters.validBitLen_indices
  have width := parameters.dimensions.solution
  constructor
  · rintro ⟨indices, written, fits, isSolution⟩
    have count := isSolution.count
    rcases getIndicesFromMinimal_of_written valid fits
      ⟨parameters.solutionWidth, by rw [count, width]⟩ with ⟨minimal, alsoWritten, length, read⟩
    rw [written, Option.some.injEq] at alsoWritten
    rw [← alsoWritten] at length read
    rw [count, ← width] at length
    exact ⟨Nat.eq_of_mul_eq_mul_left (by decide) length, indices, read, isSolution⟩
  · rintro ⟨sized, indices, read, isSolution⟩
    rcases getMinimalFromIndices_of_read valid ⟨_, by rw [sized, width]⟩ with
      ⟨others, alsoRead, _, fits, written⟩
    rw [read, Option.some.injEq] at alsoRead
    rw [← alsoRead] at fits written
    exact ⟨indices, written, fits, isSolution⟩

/-- A verifier comes to a result, which says whether the solution is one. -/
def Decides (verified : Option Bool) (isSolution : Prop) : Prop :=
  ∃ accepted, verified = some accepted ∧ (accepted = true ↔ isSolution)

theorem isValidSolution_decides :
    Decides (isValidSolution parameters (memory parameters)
        (headerHash blake2b parameters personalization header) solution)
      (Solves blake2b parameters personalization header solution) := by
  rcases isValidSolution_accepts parameters (memory parameters)
    (headerHash blake2b parameters personalization header) solution with ⟨accepted, run, iff⟩
  exact ⟨accepted, run, by rw [iff, solves_iff_read]⟩

theorem decides_sized {size width : Nat} {verified : Option Bool} {isSolution : Prop}
    (verifies : header.length = size → Decides verified isSolution)
    (length : isSolution → solution.length = width) :
    Decides (if header.length ≠ size then some false
        else if solution.length ≠ width then some false else verified)
      (header.length = size ∧ isSolution) := by
  have refused (unsolved : ¬(header.length = size ∧ isSolution)) :
      Decides (some false) (header.length = size ∧ isSolution) :=
    ⟨false, rfl, fun impossible => absurd impossible Bool.false_ne_true,
      fun solved => absurd solved unsolved⟩
  by_cases sized : header.length = size
  · rw [if_neg (not_not_intro sized)]
    by_cases fits : solution.length = width
    · rw [if_neg (not_not_intro fits)]
      rcases verifies sized with ⟨accepted, run, iff⟩
      exact ⟨accepted, run, by rw [iff, and_iff_right sized]⟩
    · rw [if_pos fits]
      exact refused fun both => fits (length both.2)
  · rw [if_pos sized]
    exact refused fun both => sized both.1

theorem equihashVerifyExport_decides :
    Decides (equihashVerifyExport blake2b memory header solution)
      (header.length = 140 ∧
        Solves blake2b zcashParameters defaultPersonalization header solution) := by
  apply decides_sized
  · intro sized
    rw [← sized, List.take_length]
    exact isValidSolution_decides
  · exact fun solves => (solves_iff_read.mp solves).1

theorem equihashVerifyBtgExport_decides :
    Decides (equihashVerifyBtgExport blake2b memory header solution)
      (header.length = 140 ∧
        Solves blake2b btgParameters bgoldPersonalization header solution) := by
  apply decides_sized
  · intro _
    rw [List.take_length]
    exact isValidSolution_decides
  · exact fun solves => (solves_iff_read.mp solves).1

theorem equihashVerifyExccExport_decides :
    Decides (equihashVerifyExccExport blake2b memory header solution)
      (header.length = 180 ∧
        Solves blake2b btgParameters defaultPersonalization header solution) := by
  apply decides_sized
  · intro _
    rw [List.take_length]
    exact isValidSolution_decides
  · exact fun solves => (solves_iff_read.mp solves).1

variable (blake2b memory) in
/-- No assertion of the native verifier fails and none of its reads leaves an array, and each of
its exports accepts exactly the solutions for headers of its length. -/
theorem exports_decide (header solution : Bytes) :
    Decides (equihashVerifyExport blake2b memory header solution)
        (header.length = 140 ∧
          Solves blake2b zcashParameters defaultPersonalization header solution) ∧
      Decides (equihashVerifyBtgExport blake2b memory header solution)
        (header.length = 140 ∧
          Solves blake2b btgParameters bgoldPersonalization header solution) ∧
      Decides (equihashVerifyExccExport blake2b memory header solution)
        (header.length = 180 ∧
          Solves blake2b btgParameters defaultPersonalization header solution) :=
  ⟨equihashVerifyExport_decides, equihashVerifyBtgExport_decides,
    equihashVerifyExccExport_decides⟩

end Verify

end Miningcore.Equihash

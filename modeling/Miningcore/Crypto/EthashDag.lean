import Miningcore.Crypto.Ethash

/-! Light and full clients of libethash, and `Dag`. -/

namespace Miningcore.Ethash

/-- `dag_sizes` and `cache_sizes`, tables of 2048 epochs: whole pages and nodes, which 32-bit
integers can count. -/
structure DataSizes where
  dagSizes : Nat → Nat
  cacheSizes : Nat → Nat
  dagPages : ∀ epoch < 2048, dagSizes epoch % 128 = 0
  dagLarge : ∀ epoch < 2048, 100 ≤ dagSizes epoch / 64
  dagFits : ∀ epoch < 2048, dagSizes epoch / 64 < 2 ^ 32
  cacheNodes : ∀ epoch < 2048, cacheSizes epoch % 64 = 0
  cacheLarge : ∀ epoch < 2048, 0 < cacheSizes epoch / 64
  cacheFits : ∀ epoch < 2048, cacheSizes epoch / 64 < 2 ^ 32

def epochOf (blockNumber : UInt64) : UInt64 := blockNumber / epochLength

section Clients

variable (sha3_256 : Bytes → FixedBytes 32) (sha3_512 : Bytes → FixedBytes 64) (sizes : DataSizes)

/-- `ethash_get_datasize`. Behind the table there is other memory. -/
def getDatasize (blockNumber : UInt64) : Except Fault Nat :=
  if (epochOf blockNumber).toNat < 2048 then .ok (sizes.dagSizes (epochOf blockNumber).toNat)
  else .error .outOfBounds

def getCachesize (blockNumber : UInt64) : Except Fault Nat :=
  if (epochOf blockNumber).toNat < 2048 then .ok (sizes.cacheSizes (epochOf blockNumber).toNat)
  else .error .outOfBounds

def lightNew (blockNumber : UInt64) : Except Fault Light := do
  let seedhash := getSeedhash sha3_256 blockNumber
  let cacheSize ← getCachesize sizes blockNumber
  match ← computeCacheNodes sha3_512 cacheSize seedhash with
  | some cache => return { cache, cacheSize, blockNumber }
  | none => throw .outOfBounds

def lightCompute (light : Light) (headerHash : FixedBytes 32) (nonce : UInt64) :
    Except Fault (Option ReturnValue) := do
  let fullSize ← getDatasize sizes light.blockNumber
  ethashHash sha3_256 sha3_512 (calculateDagItem sha3_512 light) fullSize headerHash nonce

structure Full where
  fileSize : Nat
  data : List Node

/-- `ethash_full_new`, with what the directory holds: a finished file for the seed hash and the
size, or none. -/
def fullNew (file : Option (List Node)) (light : Light) : Except Fault (Option Full) := do
  let fileSize ← getDatasize sizes light.blockNumber
  match file with
  | some data => return some { fileSize, data }
  | none =>
      match ← computeFullData sha3_512 fileSize light with
      | some data => return some { fileSize, data }
      | none => return none

def fullCompute (full : Full) (headerHash : FixedBytes 32) (nonce : UInt64) :
    Except Fault (Option ReturnValue) :=
  ethashHash sha3_256 sha3_512 (fun index => fetch full.data index.toNat) full.fileSize headerHash
    nonce

/-- `Dag.GenerateAsync`, for an epoch; `none` is an exception. -/
def generate (file : Option (List Node)) (epoch : UInt64) : Except Fault (Option Full) := do
  let light ← lightNew sha3_256 sha3_512 sizes (epoch * epochLength)
  fullNew sha3_512 sizes file light

def IsGenerated (file : Option (List Node)) (epoch : UInt64) : Prop :=
  ∀ data ∈ file, ∃ full, generate sha3_256 sha3_512 sizes none epoch = .ok (some full) ∧
    full.data = data

/-! ## Light and full clients agree -/

variable {blockNumber : UInt64}

theorem epochOf_start : epochOf (epochOf blockNumber * epochLength) = epochOf blockNumber := by
  have length : epochLength.toNat = 30000 := rfl
  have bound := blockNumber.toNat_lt
  apply UInt64.toNat_inj.mp
  rw [epochOf, epochOf, UInt64.toNat_div, UInt64.toNat_mul, UInt64.toNat_div, length]
  omega

theorem lightNew_returns (inTable : (epochOf blockNumber).toNat < 2048) :
    ∃ light, lightNew sha3_256 sha3_512 sizes blockNumber = .ok light ∧ light.IsFilled ∧
      light.blockNumber = blockNumber ∧
      computeCacheNodes sha3_512 (sizes.cacheSizes (epochOf blockNumber).toNat)
        (getSeedhash sha3_256 blockNumber) = .ok (some light.cache) ∧
      light.cacheSize = sizes.cacheSizes (epochOf blockNumber).toNat := by
  rcases computeCacheNodes_returns sha3_512 (sizes.cacheNodes _ inTable)
    (sizes.cacheLarge _ inTable) (sizes.cacheFits _ inTable)
    (getSeedhash sha3_256 blockNumber) with ⟨cache, computes, length⟩
  refine ⟨⟨cache, _, blockNumber⟩, ?_, ⟨length, sizes.cacheLarge _ inTable,
    sizes.cacheFits _ inTable⟩, rfl, computes, rfl⟩
  rw [lightNew, getCachesize, if_pos inTable]
  simp only [bind, Except.bind, computes]
  rfl

theorem lightNew_items {other : UInt64} {light otherLight : Light}
    (inTable : (epochOf blockNumber).toNat < 2048) (sameEpoch : epochOf other = epochOf blockNumber)
    (creates : lightNew sha3_256 sha3_512 sizes blockNumber = .ok light)
    (otherCreates : lightNew sha3_256 sha3_512 sizes other = .ok otherLight) :
    light.cache = otherLight.cache ∧ light.cacheSize = otherLight.cacheSize := by
  rcases lightNew_returns sha3_256 sha3_512 sizes inTable with ⟨made, makes, _, _, computes, size⟩
  rw [← sameEpoch] at inTable
  rcases lightNew_returns sha3_256 sha3_512 sizes inTable with
    ⟨otherMade, otherMakes, _, _, otherComputes, otherSize⟩
  rw [makes, Except.ok.injEq] at creates
  rw [otherMakes, Except.ok.injEq] at otherCreates
  rw [← creates, ← otherCreates]
  have seeds : getSeedhash sha3_256 other = getSeedhash sha3_256 blockNumber := by
    rw [epochOf, epochOf] at sameEpoch
    rw [getSeedhash, getSeedhash, sameEpoch]
  rw [sameEpoch, seeds, computes] at otherComputes
  rw [Except.ok.injEq, Option.some.injEq] at otherComputes
  exact ⟨otherComputes, by rw [size, otherSize, sameEpoch]⟩

theorem calculateDagItem_congr {light other : Light} (sameCache : light.cache = other.cache)
    (sameSize : light.cacheSize = other.cacheSize) (index : UInt32) :
    calculateDagItem sha3_512 light index = calculateDagItem sha3_512 other index := by
  cases light
  cases other
  simp only at sameCache sameSize
  rw [sameCache, sameSize]
  rfl

structure SameDataset (sha3_512 : Bytes → FixedBytes 64) (sizes : DataSizes) (full : Full)
    (light : Light) : Prop where
  inTable : (epochOf light.blockNumber).toNat < 2048
  filled : light.IsFilled
  fileSize : full.fileSize = sizes.dagSizes (epochOf light.blockNumber).toNat
  items : ∀ index : UInt32, index.toNat < full.fileSize / 64 →
    fetch full.data index.toNat = calculateDagItem sha3_512 light index

theorem generate_returns {file : Option (List Node)}
    (inTable : (epochOf blockNumber).toNat < 2048)
    (generated : IsGenerated sha3_256 sha3_512 sizes file (epochOf blockNumber)) :
    ∃ full light, generate sha3_256 sha3_512 sizes file (epochOf blockNumber) = .ok (some full) ∧
      lightNew sha3_256 sha3_512 sizes blockNumber = .ok light ∧
      SameDataset sha3_512 sizes full light := by
  have sameEpoch := @epochOf_start blockNumber
  have startInTable : (epochOf (epochOf blockNumber * epochLength)).toNat < 2048 := by
    rw [sameEpoch]
    exact inTable
  rcases lightNew_returns sha3_256 sha3_512 sizes inTable with
    ⟨light, creates, lightFilled, lightNumber, _, _⟩
  rcases lightNew_returns sha3_256 sha3_512 sizes startInTable with
    ⟨start, makes, filled, number, _, _⟩
  rcases lightNew_items sha3_256 sha3_512 sizes inTable sameEpoch creates makes with
    ⟨sameCache, sameSize⟩
  rcases computeFullData_returns sha3_512 filled (sizes.dagPages _ inTable)
    (sizes.dagLarge _ inTable) (sizes.dagFits _ inTable) with ⟨data, computes, items⟩
  have size : getDatasize sizes start.blockNumber =
      .ok (sizes.dagSizes (epochOf blockNumber).toNat) := by
    rw [getDatasize, number, sameEpoch, if_pos inTable]
  have computed : generate sha3_256 sha3_512 sizes none (epochOf blockNumber) =
      .ok (some ⟨sizes.dagSizes (epochOf blockNumber).toNat, data⟩) := by
    simp only [generate, makes, fullNew, size, computes, bind, Except.bind, pure, Except.pure]
  have same : SameDataset sha3_512 sizes ⟨sizes.dagSizes (epochOf blockNumber).toNat, data⟩
      light := by
    refine ⟨?_, lightFilled, ?_, ?_⟩
    · rw [lightNumber]
      exact inTable
    · rw [lightNumber]
    · intro index inside
      rw [items index inside]
      exact (calculateDagItem_congr sha3_512 sameCache sameSize index).symm
  refine ⟨_, light, ?_, creates, same⟩
  cases file with
  | none => exact computed
  | some stored =>
      rcases generated stored rfl with ⟨full, generates, sameData⟩
      rw [computed, Except.ok.injEq, Option.some.injEq] at generates
      rw [← generates] at sameData
      simp only at sameData
      simp only [generate, makes, fullNew, size, bind, Except.bind, pure, Except.pure, sameData]

theorem SameDataset.computes {full : Full} {light : Light}
    (same : SameDataset sha3_512 sizes full light) (headerHash : FixedBytes 32) (nonce : UInt64) :
    ∃ value, fullCompute sha3_256 sha3_512 full headerHash nonce = .ok (some value) ∧
      lightCompute sha3_256 sha3_512 sizes light headerHash nonce = .ok (some value) ∧
      quickHash sha3_256 sha3_512 headerHash nonce value.mixHash = value.result := by
  have whole := sizes.dagPages _ same.inTable
  have large := sizes.dagLarge _ same.inTable
  have fits := sizes.dagFits _ same.inTable
  rw [← same.fileSize] at whole large fits
  rcases ethashHash_returns sha3_256 sha3_512 whole (by omega) fits
    (fun index _ => calculateDagItem_returns sha3_512 same.filled index) headerHash
    nonce with ⟨value, computes, quick⟩
  refine ⟨value, ?_, ?_, quick⟩
  · rw [fullCompute, ethashHash_congr sha3_256 sha3_512 whole (by omega) fits same.items]
    exact computes
  · simp only [lightCompute, getDatasize, if_pos same.inTable, ← same.fileSize, bind, Except.bind]
    exact computes

/-- A dataset that was generated gives the hashes that a light client computes, without a fault,
and the results are those of the quick check. -/
theorem generate_computes {file : Option (List Node)}
    (inTable : (epochOf blockNumber).toNat < 2048)
    (generated : IsGenerated sha3_256 sha3_512 sizes file (epochOf blockNumber)) :
    ∃ full light, generate sha3_256 sha3_512 sizes file (epochOf blockNumber) = .ok (some full) ∧
      lightNew sha3_256 sha3_512 sizes blockNumber = .ok light ∧
      ∀ headerHash nonce, ∃ value,
        fullCompute sha3_256 sha3_512 full headerHash nonce = .ok (some value) ∧
        lightCompute sha3_256 sha3_512 sizes light headerHash nonce = .ok (some value) ∧
        quickHash sha3_256 sha3_512 headerHash nonce value.mixHash = value.result := by
  rcases generate_returns sha3_256 sha3_512 sizes inTable generated with
    ⟨full, light, generates, creates, same⟩
  exact ⟨full, light, generates, creates, same.computes sha3_256 sha3_512 sizes⟩

end Clients

def SampleTables.sizes : DataSizes where
  dagSizes _ := 1073739904
  cacheSizes _ := 16776896
  dagPages _ _ := rfl
  dagLarge _ _ := by decide
  dagFits _ _ := by decide
  cacheNodes _ _ := rfl
  cacheLarge _ _ := by decide
  cacheFits _ _ := by decide

theorem generate_computes_first :
    let sha3_256 : Bytes → FixedBytes 32 := fun _ => List.Vector.replicate 32 0
    let sha3_512 : Bytes → FixedBytes 64 := fun _ => List.Vector.replicate 64 0
    ∃ first, generate sha3_256 sha3_512 SampleTables.sizes none (epochOf 29999) =
        .ok (some first) ∧
      ∀ file ∈ [none, some first.data], ∃ full light,
        generate sha3_256 sha3_512 SampleTables.sizes file (epochOf 29999) = .ok (some full) ∧
        lightNew sha3_256 sha3_512 SampleTables.sizes 29999 = .ok light ∧
        ∀ headerHash nonce, ∃ value,
          fullCompute sha3_256 sha3_512 full headerHash nonce = .ok (some value) ∧
          lightCompute sha3_256 sha3_512 SampleTables.sizes light headerHash nonce =
            .ok (some value) ∧
          quickHash sha3_256 sha3_512 headerHash nonce value.mixHash = value.result := by
  intro sha3_256 sha3_512
  have generated : IsGenerated sha3_256 sha3_512 SampleTables.sizes none (epochOf 29999) := by
    intro data member
    cases member
  rcases generate_returns sha3_256 sha3_512 SampleTables.sizes (by decide) generated with
    ⟨first, _, generates, _, _⟩
  refine ⟨first, generates, ?_⟩
  intro file member
  refine generate_computes _ _ _ (by decide) ?_
  intro data isData
  rw [List.mem_cons, List.mem_singleton] at member
  rcases member with rfl | rfl
  · cases isData
  · cases isData
    exact ⟨first, generates, rfl⟩

end Miningcore.Ethash

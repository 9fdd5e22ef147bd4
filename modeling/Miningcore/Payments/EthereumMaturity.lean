import Miningcore.Payments.EthereumClassification

/-! Maturity on Ethereum, with differences of unsigned heights.

A daemon may be behind the pool, and a chain may be young: the differences between heights wrap
around then. The theorem at the end says which heights are judged right. -/

namespace Miningcore.Payments.Ethereum

open Persistence DaemonInterface

def HasMatured (latest height : UInt64) : Prop := height.toNat + 16 ≤ latest.toNat

def Classification.HasMatured (given : Classification) : Prop :=
  Ethereum.HasMatured given.latest (heightOf given.before) ∨
    ∃ found height, given.uncle = some found ∧ found.1.height = some height ∧
      Ethereum.HasMatured given.latest height

/-- The block at the height was fetched and all its uncles were asked for, or an uncle was found in
a lower block. -/
def Classification.Searched (given : Classification) (height : Nat) : Prop :=
  (∃ info ∈ given.nearby, ∃ number hashes, info.height = some number ∧ number.toNat = height ∧
    info.uncles = some hashes ∧ (hashes = [] ∨ (number, hashes.length) ∈ given.batches)) ∨
  ∃ uncle including number, given.uncle = some (uncle, including) ∧
    including.height = some number ∧ number.toNat < height

/-- What maturity is to mean for a block. The search is for blocks that are not of the pool's. -/
structure RespectsMaturity (address : Text) (given : Classification) : Prop where
  confirmed : given.after.status = .confirmed → given.HasMatured
  progress : 0 ≤ given.after.confirmationProgress ∧ given.after.confirmationProgress ≤ 1
  complete : given.after.confirmationProgress = 1 → given.HasMatured
  orphaned : given.after.status = .orphaned → (heightOf given.before).toNat < given.latest.toNat
  searched : given.info.miner ≠ some address → ∀ height : Nat,
    (heightOf given.before).toNat - 50 ≤ height →
    height < min ((heightOf given.before).toNat + 50) given.latest.toNat → given.Searched height

/-- The heights below and above the block do not wrap around, or there is nothing to search. -/
def RangeFits (latest height : UInt64) : Prop :=
  (50 ≤ height.toNat ∧ height.toNat + 50 < 2 ^ 64) ∨
    min (height.toNat + 50) latest.toNat ≤ height.toNat - 50

/-- The latest height is not below a height that its distance, wrapped around, makes more than so
many blocks old. -/
def NotBehind (more : Nat) (latest height : UInt64) : Prop :=
  more < (latest - height).toNat → height.toNat ≤ latest.toNat

section Uncles

variable (address : Text) (request : UInt64 → Nat → BatchReply BlockInfo)

def AreOthers (tokens : List (Token BlockInfo)) : Prop :=
  ∀ token ∈ tokens, ∃ uncle, token = .ok (some uncle) ∧ uncle.miner ≠ some address

def RepliesUncles (including : BlockInfo) (tokens : List (Token BlockInfo)) : Prop :=
  ∃ hashes height responses, including.uncles = some hashes ∧ hashes ≠ [] ∧
    including.height = some height ∧
    executeBatchAny (request height hashes.length) = .ok (some responses) ∧
    tokens = successful responses

def WithoutUncle (including : BlockInfo) : Prop :=
  including.uncles = some [] ∨
    ∃ tokens, RepliesUncles request including tokens ∧ AreOthers address tokens

def WithUncle (including uncle : BlockInfo) : Prop :=
  ∃ front back, RepliesUncles request including (front ++ .ok (some uncle) :: back) ∧
    AreOthers address front ∧ uncle.miner = some address

end Uncles

/-- The first block around a block in which the daemon shows an uncle of the pool's has one at the
height, which is as far from the latest height as that of a mature block. -/
def ShowsOldUncle (address : Text) (daemon : Daemon) (cache : BlockCache) (latest : UInt64)
    (block : Block) (height : UInt64) : Prop :=
  ∃ front including back fetched uncle,
    fetchBlocks (daemon.nearbyBlocks block) cache (searchRange latest (heightOf block)) =
      .ok (front ++ including :: back, fetched) ∧
    (∀ lower ∈ front, WithoutUncle address (daemon.uncles block) lower) ∧
    WithUncle address (daemon.uncles block) including uncle ∧
    uncle.height = some height ∧ 15 < (latest - height).toNat

def HeightsFit (address : Text) (daemon : Daemon) (cache : BlockCache) (latest : UInt64)
    (block : Block) (info : BlockInfo) : Prop :=
  if info.miner = some address then NotBehind 15 latest (heightOf block)
  else
    RangeFits latest (heightOf block) ∧
      (∀ height, ShowsOldUncle address daemon cache latest block height →
        height.toNat ≤ latest.toNat ∨ HasMatured latest (heightOf block)) ∧
      ((∀ height, ¬ShowsOldUncle address daemon cache latest block height) →
        NotBehind 12 latest (heightOf block))

theorem toNat_sub_of_le {latest height : UInt64} (le : height.toNat ≤ latest.toNat) :
    (latest - height).toNat = latest.toNat - height.toNat := by
  rw [UInt64.toNat_sub]
  have bound := latest.toNat_lt
  omega

theorem isMature_iff {latest height : UInt64} :
    isMature latest height = true ↔ 15 < (latest - height).toNat := by
  rw [isMature, decide_eq_true_eq, UInt64.le_iff_toNat_le]
  exact Iff.rfl

theorem toNat_min (left right : UInt64) : (min left right).toNat = min left.toNat right.toNat := by
  have unfolded : min left right = if left ≤ right then left else right := rfl
  rw [unfolded]
  split_ifs with le
  · rw [min_eq_left (UInt64.le_iff_toNat_le.mp le)]
  · rw [UInt64.le_iff_toNat_le, not_le] at le
    rw [min_eq_right le.le]

theorem searchRange_eq_map (latest height : UInt64) :
    searchRange latest height =
      (List.range (min ((height.toNat + 50) % 2 ^ 64) latest.toNat -
        (2 ^ 64 - 50 + height.toNat) % 2 ^ 64)).map fun offset =>
          height - blockSearchOffset + UInt64.ofNat offset := by
  rw [searchRange, toNat_min, UInt64.toNat_add, UInt64.toNat_sub]
  rfl

theorem searchRange_complete {latest height : UInt64} (fits : RangeFits latest height)
    {number : Nat} (atLeast : height.toNat - 50 ≤ number)
    (less : number < min (height.toNat + 50) latest.toNat) :
    ∃ searched ∈ searchRange latest height, searched.toNat = number := by
  have bound := height.toNat_lt
  rw [searchRange_eq_map]
  rcases fits with ⟨above, below⟩ | empty
  · refine ⟨_, List.mem_map.mpr ⟨number - (height.toNat - 50), List.mem_range.mpr ?_, rfl⟩, ?_⟩
    · omega
    · rw [UInt64.toNat_add, UInt64.toNat_sub, UInt64.toNat_ofNat']
      have offset : blockSearchOffset.toNat = 50 := rfl
      rw [offset]
      omega
  · omega

theorem searchRange_nil {latest height : UInt64} (unfit : ¬RangeFits latest height) :
    searchRange latest height = [] := by
  have bound := height.toNat_lt
  rw [RangeFits, not_or, not_le] at unfit
  have nothing : min ((height.toNat + 50) % 2 ^ 64) latest.toNat -
      (2 ^ 64 - 50 + height.toNat) % 2 ^ 64 = 0 := by omega
  rw [searchRange_eq_map, nothing]
  rfl

theorem searchRange_ordered (latest height : UInt64) :
    (searchRange latest height).Pairwise fun lower upper => lower.toNat < upper.toNat := by
  have bound := height.toNat_lt
  have latestBound := latest.toNat_lt
  rw [searchRange_eq_map, List.pairwise_map]
  apply List.Pairwise.imp_of_mem _ List.pairwise_lt_range
  intro lower upper isLower isUpper less
  rw [List.mem_range] at isLower isUpper
  have offset : blockSearchOffset.toNat = 50 := rfl
  rw [UInt64.toNat_add, UInt64.toNat_add, UInt64.toNat_sub, UInt64.toNat_ofNat',
    UInt64.toNat_ofNat', offset]
  omega

/-! ## The search -/

section Search

variable {address : Text} {request : UInt64 → Nat → BatchReply BlockInfo}

theorem firstUncle_none_iff {tokens : List (Token BlockInfo)} :
    firstUncle address tokens = .ok none ↔ AreOthers address tokens := by
  induction tokens with
  | nil => exact iff_of_true rfl fun token isToken => absurd isToken List.not_mem_nil
  | cons token tokens induction =>
      simp only [firstUncle, bind_eq_ok, nonNull_eq_ok, AreOthers, List.forall_mem_cons]
      constructor
      · rintro ⟨converted, isToken, uncle, rfl, rest⟩
        split_ifs at rest with own
        · cases rest
        · exact ⟨⟨uncle, isToken, own⟩, induction.mp rest⟩
      · rintro ⟨⟨uncle, isToken, other⟩, others⟩
        refine ⟨some uncle, isToken, uncle, rfl, ?_⟩
        rw [if_neg other]
        exact induction.mpr others

theorem firstUncle_some_iff {tokens : List (Token BlockInfo)} {uncle : BlockInfo} :
    firstUncle address tokens = .ok (some uncle) ↔ ∃ front back,
      tokens = front ++ .ok (some uncle) :: back ∧ AreOthers address front ∧
        uncle.miner = some address := by
  induction tokens with
  | nil => simp [firstUncle]
  | cons token tokens induction =>
      simp only [firstUncle, bind_eq_ok, nonNull_eq_ok]
      constructor
      · rintro ⟨converted, isToken, given, rfl, rest⟩
        split_ifs at rest with own
        · cases rest
          refine ⟨[], tokens, ?_, fun token isToken => absurd isToken List.not_mem_nil, own⟩
          rw [isToken, List.nil_append]
        · rcases induction.mp rest with ⟨front, back, rfl, others, own⟩
          exact ⟨token :: front, back, rfl,
            List.forall_mem_cons.mpr ⟨⟨given, isToken, by assumption⟩, others⟩, own⟩
      · rintro ⟨front, back, split, others, own⟩
        cases front with
        | nil =>
            cases split
            exact ⟨some uncle, rfl, uncle, rfl, if_pos own⟩
        | cons first front =>
            cases split
            rcases List.forall_mem_cons.mp others with ⟨⟨given, isToken, other⟩, rest⟩
            refine ⟨some given, isToken, given, rfl, ?_⟩
            rw [if_neg other]
            exact induction.mpr ⟨front, back, rfl, rest, own⟩

theorem searchUncles_found {nearby : List BlockInfo} {uncle including : BlockInfo}
    {batches : List (UInt64 × Nat)}
    (found : searchUncles address request nearby = .ok (some (uncle, including), batches)) :
    ∃ front back, nearby = front ++ including :: back ∧
      (∀ lower ∈ front, WithoutUncle address request lower) ∧
      WithUncle address request including uncle := by
  induction nearby generalizing batches with
  | nil => cases found
  | cons first others induction =>
      simp only [searchUncles, bind_eq_ok, nonNull_eq_ok] at found
      rcases found with ⟨hashes, isHashes, rest⟩
      split_ifs at rest with empty
      · rcases induction rest with ⟨front, back, rfl, lower, here⟩
        refine ⟨first :: front, back, rfl, List.forall_mem_cons.mpr ⟨.inl ?_, lower⟩, here⟩
        rw [isHashes, List.isEmpty_iff.mp empty]
      · simp only [bind_eq_ok, value_eq_ok, enumerable_eq_ok] at rest
        rcases rest with ⟨height, isHeight, results, replies, responses, rfl, outcome, isFirst,
          rest⟩
        have shown : RepliesUncles request first (successful responses) :=
          ⟨hashes, height, responses, isHashes, fun nothing => empty (List.isEmpty_iff.mpr nothing),
            isHeight, replies, rfl⟩
        cases outcome with
        | none =>
            simp only [bind_eq_ok, pure_eq_ok] at rest
            rcases rest with ⟨⟨other, later⟩, search, isResult⟩
            cases isResult
            rcases induction search with ⟨front, back, rfl, lower, here⟩
            exact ⟨first :: front, back, rfl, List.forall_mem_cons.mpr
              ⟨.inr ⟨_, shown, firstUncle_none_iff.mp isFirst⟩, lower⟩, here⟩
        | some given =>
            cases rest
            rcases firstUncle_some_iff.mp isFirst with ⟨front, back, split, lower, own⟩
            rw [split] at shown
            exact ⟨[], others, rfl, fun other isOther => absurd isOther List.not_mem_nil,
              front, back, shown, lower, own⟩

theorem searchUncles_of_withUncle {front back : List BlockInfo} {uncle including : BlockInfo}
    (lower : ∀ other ∈ front, WithoutUncle address request other)
    (here : WithUncle address request including uncle) :
    ∃ batches, searchUncles address request (front ++ including :: back) =
      .ok (some (uncle, including), batches) := by
  induction front with
  | nil =>
      rcases here with ⟨tokens, others,
        ⟨hashes, height, responses, isHashes, nonempty, isHeight, replies, split⟩, before, own⟩
      refine ⟨[(height, hashes.length)], ?_⟩
      simp only [List.nil_append, searchUncles, bind_eq_ok, nonNull_eq_ok]
      refine ⟨hashes, isHashes, ?_⟩
      rw [if_neg (fun empty => nonempty (List.isEmpty_iff.mp empty))]
      simp only [bind_eq_ok, value_eq_ok, enumerable_eq_ok]
      exact ⟨height, isHeight, some responses, replies, responses, rfl, some uncle,
        firstUncle_some_iff.mpr ⟨tokens, others, split.symm, before, own⟩, rfl⟩
  | cons first front induction =>
      rcases List.forall_mem_cons.mp lower with ⟨without, rest⟩
      rcases induction rest with ⟨batches, search⟩
      simp only [List.cons_append, searchUncles, bind_eq_ok, nonNull_eq_ok]
      rcases without with empty | ⟨tokens,
        ⟨hashes, height, responses, isHashes, nonempty, isHeight, replies, rfl⟩, others⟩
      · exact ⟨batches, [], empty, search⟩
      · refine ⟨(height, hashes.length) :: batches, hashes, isHashes, ?_⟩
        rw [if_neg (fun empty => nonempty (List.isEmpty_iff.mp empty))]
        simp only [bind_eq_ok, value_eq_ok, enumerable_eq_ok]
        refine ⟨height, isHeight, some responses, replies, responses, rfl, none,
          firstUncle_none_iff.mpr others, ?_⟩
        simp only [bind_eq_ok]
        exact ⟨_, search, rfl⟩

theorem searchUncles_asks {front back : List BlockInfo} {info : BlockInfo}
    {found : Option (BlockInfo × BlockInfo)} {batches : List (UInt64 × Nat)}
    (search : searchUncles address request (front ++ info :: back) = .ok (found, batches)) :
    (∃ hashes, info.uncles = some hashes ∧ (hashes = [] ∨
      ∃ height, info.height = some height ∧ (height, hashes.length) ∈ batches)) ∨
    ∃ uncle including, found = some (uncle, including) ∧ including ∈ front := by
  induction front generalizing batches with
  | nil =>
      left
      simp only [List.nil_append, searchUncles, bind_eq_ok, nonNull_eq_ok] at search
      rcases search with ⟨hashes, isHashes, rest⟩
      refine ⟨hashes, isHashes, ?_⟩
      split_ifs at rest with empty
      · exact .inl (List.isEmpty_iff.mp empty)
      · simp only [bind_eq_ok, value_eq_ok] at rest
        rcases rest with ⟨height, isHeight, _, -, _, -, outcome, -, rest⟩
        right
        refine ⟨height, isHeight, ?_⟩
        cases outcome with
        | none =>
            simp only [bind_eq_ok, pure_eq_ok] at rest
            rcases rest with ⟨_, -, isResult⟩
            cases isResult
            exact List.mem_cons_self
        | some given =>
            cases rest
            exact List.mem_cons_self
  | cons first front induction =>
      simp only [List.cons_append, searchUncles, bind_eq_ok, nonNull_eq_ok] at search
      rcases search with ⟨hashes, -, rest⟩
      split_ifs at rest
      · rcases induction rest with asked | ⟨uncle, including, isFound, isFront⟩
        · exact .inl asked
        · exact .inr ⟨uncle, including, isFound, List.mem_cons_of_mem _ isFront⟩
      · simp only [bind_eq_ok, value_eq_ok] at rest
        rcases rest with ⟨height, -, _, -, _, -, outcome, -, rest⟩
        cases outcome with
        | none =>
            simp only [bind_eq_ok, pure_eq_ok] at rest
            rcases rest with ⟨⟨other, later⟩, search, isResult⟩
            cases isResult
            rcases induction search with ⟨hashes, isHashes, asked⟩ |
              ⟨uncle, including, isFound, isFront⟩
            · refine .inl ⟨hashes, isHashes, asked.imp_right ?_⟩
              rintro ⟨number, isNumber, isBatch⟩
              exact ⟨number, isNumber, List.mem_cons_of_mem _ isBatch⟩
            · exact .inr ⟨uncle, including, isFound, List.mem_cons_of_mem _ isFront⟩
        | some given =>
            cases rest
            exact .inr ⟨given, first, rfl, List.mem_cons_self⟩

end Search

theorem progressed_complete_iff {latest : UInt64} {block : Block} :
    (progressed latest block).confirmationProgress = 1 ↔
      15 < (latest - heightOf block).toNat := by
  have sixteen : (minConfimations.toNat : ℚ) = 16 := rfl
  rw [progressed, sixteen, min_eq_left_iff, le_div_iff₀ (by norm_num), one_mul]
  exact_mod_cast Iff.rfl

theorem progressed_range (latest : UInt64) (block : Block) :
    0 ≤ (progressed latest block).confirmationProgress ∧
      (progressed latest block).confirmationProgress ≤ 1 := by
  refine ⟨le_min zero_le_one (by positivity), min_le_left _ _⟩

theorem giveUp_orphans_iff {latest : UInt64} {block : Block} (pending : block.status = .pending) :
    (giveUp (progressed latest block)).status = .orphaned ↔
      12 < (latest - heightOf block).toNat := by
  have sixteen : (minConfimations.toNat : ℚ) = 16 := rfl
  have passed : 3 / 4 < (progressed latest block).confirmationProgress ↔
      12 < (latest - heightOf block).toNat := by
    rw [progressed, sixteen, lt_min_iff, lt_div_iff₀ (by norm_num)]
    norm_num
  have still : (progressed latest block).status = .pending := pending
  rw [giveUp, ← passed]
  split_ifs with lost
  · exact iff_of_true rfl lost.2
  · rw [still]
    refine iff_of_false BlockStatus.noConfusion ?_
    intro past
    exact lost ⟨still, past⟩

theorem giveUp_progress (block : Block) :
    (giveUp block).confirmationProgress = block.confirmationProgress := by
  rw [giveUp]
  split_ifs
  · rfl
  · rfl

theorem giveUp_ne_confirmed {latest : UInt64} {block : Block} (pending : block.status = .pending) :
    (giveUp (progressed latest block)).status ≠ .confirmed := by
  have still : (progressed latest block).status = .pending := pending
  rw [giveUp]
  split_ifs
  · exact BlockStatus.noConfusion
  · rw [still]
    exact BlockStatus.noConfusion

/-! ## The three ways to judge a block -/

section Judged

variable {address : Text} {given : Classification}

theorem hasMatured_iff {latest height : UInt64} (le : height.toNat ≤ latest.toNat) :
    HasMatured latest height ↔ 15 < (latest - height).toNat := by
  rw [HasMatured, toNat_sub_of_le le]
  omega

theorem HasMatured.le {latest height : UInt64} (matured : HasMatured latest height) :
    height.toNat ≤ latest.toNat := by
  rw [HasMatured] at matured
  omega

theorem JudgedByBlock.respects_iff (judged : JudgedByBlock address given)
    (pending : given.before.status = .pending) :
    RespectsMaturity address given ↔ NotBehind 15 given.latest (heightOf given.before) := by
  have own : given.HasMatured ↔ HasMatured given.latest (heightOf given.before) := by
    simp [Classification.HasMatured, judged.noUncle]
  rw [NotBehind]
  rcases judged.result with ⟨mature, reward, result⟩ | ⟨immature, result⟩
  · rw [isMature_iff] at mature
    constructor
    · intro respects _
      have confirmed := respects.confirmed (by rw [result])
      exact (own.mp confirmed).le
    · intro notBehind
      have matured : given.HasMatured := own.mpr ((hasMatured_iff (notBehind mature)).mpr mature)
      refine ⟨fun _ => matured, ?_, fun _ => matured, ?_, fun other => absurd judged.own other⟩
      · rw [result]
        norm_num
      · rw [result]
        exact BlockStatus.noConfusion
  · have young : ¬15 < (given.latest - heightOf given.before).toNat := by
      rw [← isMature_iff, immature]
      exact Bool.false_ne_true
    refine iff_of_true ⟨?_, ?_, ?_, ?_, fun other => absurd judged.own other⟩ ?_
    · intro confirmed
      rw [result, progressed, pending] at confirmed
      cases confirmed
    · rw [result]
      exact progressed_range given.latest given.before
    · intro complete
      rw [result, progressed_complete_iff] at complete
      exact absurd complete young
    · intro orphaned
      rw [result, progressed, pending] at orphaned
      cases orphaned
    · intro old
      exact absurd old young

def Classification.SearchesRange (given : Classification) : Prop :=
  ∀ height : Nat, (heightOf given.before).toNat - 50 ≤ height →
    height < min ((heightOf given.before).toNat + 50) given.latest.toNat → given.Searched height

theorem JudgedByUncle.respects_iff (judged : JudgedByUncle address given) {height : UInt64}
    (isOld : ∃ found, given.uncle = some found ∧ found.1.height = some height) :
    RespectsMaturity address given ↔ given.SearchesRange ∧
      (height.toNat ≤ given.latest.toNat ∨ HasMatured given.latest (heightOf given.before)) := by
  rcases judged.result with ⟨uncle, including, _, reward, isUncle, isHeight, mature, result⟩
  rcases isOld with ⟨found, isFound, sameHeight⟩
  rw [isUncle, Option.some.injEq] at isFound
  rw [← isFound, isHeight, Option.some.injEq] at sameHeight
  rw [sameHeight, isMature_iff] at mature
  have matured : given.HasMatured ↔
      height.toNat ≤ given.latest.toNat ∨ HasMatured given.latest (heightOf given.before) := by
    rw [Classification.HasMatured, or_comm]
    apply or_congr_left
    constructor
    · rintro ⟨other, otherHeight, isOther, isOtherHeight, hasMatured⟩
      rw [isUncle] at isOther
      cases isOther
      rw [isHeight, sameHeight] at isOtherHeight
      cases isOtherHeight
      exact hasMatured.le
    · intro le
      exact ⟨_, height, isUncle, sameHeight ▸ isHeight, (hasMatured_iff le).mpr mature⟩
  rw [← matured]
  constructor
  · intro respects
    exact ⟨respects.searched judged.notOwn, respects.confirmed (by rw [result])⟩
  · rintro ⟨complete, hasMatured⟩
    refine ⟨fun _ => hasMatured, ?_, fun _ => hasMatured, ?_, fun _ => complete⟩
    · rw [result]
      norm_num
    · rw [result]
      exact BlockStatus.noConfusion

theorem JudgedByProgress.respects_iff (judged : JudgedByProgress address given)
    (pending : given.before.status = .pending) :
    RespectsMaturity address given ↔
      given.SearchesRange ∧ NotBehind 12 given.latest (heightOf given.before) := by
  have own : given.HasMatured ↔ HasMatured given.latest (heightOf given.before) := by
    constructor
    · intro matured
      rcases matured with matured | ⟨found, height, isFound, isHeight, matured⟩
      · exact matured
      · -- an uncle that has matured is mature for the code, too
        rcases judged.immature found isFound with ⟨other, isOther, immature⟩
        rw [isHeight] at isOther
        cases isOther
        rw [hasMatured_iff matured.le, ← isMature_iff, immature] at matured
        cases matured
    · exact .inl
  rw [NotBehind]
  constructor
  · intro respects
    refine ⟨respects.searched judged.notOwn, ?_⟩
    intro old
    apply le_of_lt
    apply respects.orphaned
    rw [judged.result, giveUp_orphans_iff pending]
    exact old
  · rintro ⟨complete, notBehind⟩
    refine ⟨?_, ?_, ?_, ?_, fun _ => complete⟩
    · intro confirmed
      rw [judged.result] at confirmed
      exact absurd confirmed (giveUp_ne_confirmed pending)
    · rw [judged.result, giveUp_progress]
      exact progressed_range given.latest given.before
    · intro isComplete
      rw [judged.result, giveUp_progress, progressed_complete_iff] at isComplete
      rw [own, hasMatured_iff (notBehind (by omega))]
      exact isComplete
    · intro orphaned
      rw [judged.result, giveUp_orphans_iff pending] at orphaned
      have le := notBehind orphaned
      rw [toNat_sub_of_le le] at orphaned
      omega

/-! ## What a block that is not of the pool's is judged by -/

structure IsSearched (address : Text) (daemon : Daemon) (cache : BlockCache)
    (given : Classification) : Prop where
  fetches : ∃ fetched, fetchBlocks (daemon.nearbyBlocks given.before) cache
    (searchRange given.latest (heightOf given.before)) = .ok (given.nearby, fetched)
  search : searchUncles address (daemon.uncles given.before) given.nearby =
    .ok (given.uncle, given.batches)

theorem classifyBlock_isSearched {settings : Settings} {daemon : Daemon} {latest : UInt64}
    {block : Block} {info : BlockInfo} {cache fetched : BlockCache}
    (classifies : classifyBlock settings daemon latest block info cache = .ok (given, fetched))
    (notOwn : info.miner ≠ some settings.address) :
    IsSearched settings.address daemon cache given := by
  rw [classifyBlock, if_neg notOwn] at classifies
  simp only [bind_eq_ok, pure_eq_ok] at classifies
  rcases classifies with ⟨⟨nearby, next⟩, fetches, ⟨found, batches⟩, search, judged, -, isResult⟩
  cases isResult
  exact ⟨⟨_, fetches⟩, search⟩

theorem forall₂_split {α β : Type} {related : α → β → Prop} {front back : List α} {value : α}
    {results : List β} (all : List.Forall₂ related (front ++ value :: back) results) :
    ∃ before result behind, results = before ++ result :: behind ∧
      List.Forall₂ related front before ∧ related value result := by
  induction front generalizing results with
  | nil =>
      rcases List.forall₂_cons_left_iff.mp all with ⟨result, behind, isResult, -, rfl⟩
      exact ⟨[], result, behind, rfl, .nil, isResult⟩
  | cons first front induction =>
      rcases List.forall₂_cons_left_iff.mp all with ⟨other, rest, isOther, others, rfl⟩
      rcases induction others with ⟨before, result, behind, rfl, isBefore, isResult⟩
      exact ⟨other :: before, result, behind, rfl, .cons isOther isBefore, isResult⟩

section Searched

variable {daemon : Daemon} {cache : BlockCache}

theorem IsSearched.heights (searched : IsSearched address daemon cache given)
    (cached : IsCached daemon cache) :
    List.Forall₂ (fun height info => info.height = some height ∧ daemon.ShowsBlock info)
      (searchRange given.latest (heightOf given.before)) given.nearby := by
  rcases searched.fetches with ⟨fetched, fetches⟩
  refine (fetchBlocks_isCached cached ?_ fetches).2
  intro heights info isShown
  exact .inr ⟨given.before, heights, isShown⟩

theorem IsSearched.searchesRange_iff (searched : IsSearched address daemon cache given)
    (cached : IsCached daemon cache) :
    given.SearchesRange ↔ RangeFits given.latest (heightOf given.before) := by
  have heights := searched.heights cached
  constructor
  · intro complete
    by_contra unfit
    rw [searchRange_nil unfit, List.forall₂_nil_left_iff] at heights
    have search := searched.search
    rw [heights, searchUncles, Except.ok.injEq, Prod.mk.injEq] at search
    rw [RangeFits, not_or, not_le] at unfit
    rcases complete _ le_rfl unfit.2 with ⟨info, isNearby, -⟩ | ⟨uncle, including, -, isUncle, -⟩
    · rw [heights] at isNearby
      exact List.not_mem_nil isNearby
    · rw [← search.1] at isUncle
      cases isUncle
  · intro fits height atLeast less
    rcases searchRange_complete fits atLeast less with ⟨number, isNumber, rfl⟩
    have ordered := searchRange_ordered given.latest (heightOf given.before)
    rcases List.append_of_mem isNumber with ⟨front, back, split⟩
    rw [split] at heights ordered
    rcases forall₂_split heights with ⟨lower, info, upper, isNearby, isLower, isInfo, -⟩
    have search := searched.search
    rw [isNearby] at search
    rcases searchUncles_asks search with ⟨hashes, isHashes, asked⟩ |
      ⟨uncle, including, isUncle, isIncluding⟩
    · left
      refine ⟨info, ?_, number, hashes, isInfo, rfl, isHashes, asked.imp_right ?_⟩
      · rw [isNearby]
        exact List.mem_append_right _ List.mem_cons_self
      · rintro ⟨other, isOther, isBatch⟩
        rw [isInfo, Option.some.injEq] at isOther
        rw [isOther]
        exact isBatch
    · right
      rcases List.mem_iff_get.mp isIncluding with ⟨index, isIndex⟩
      have related := List.forall₂_iff_get.mp isLower
      have inFront : index.val < front.length := by
        rw [related.1]
        exact index.isLt
      have atIndex := (related.2 index.val inFront index.isLt).1
      rw [isIndex] at atIndex
      refine ⟨uncle, including, _, isUncle, atIndex, ?_⟩
      exact (List.pairwise_append.mp ordered).2.2 _ (List.get_mem _ _) number List.mem_cons_self

theorem IsSearched.showsOldUncle_iff (searched : IsSearched address daemon cache given)
    (height : UInt64) :
    ShowsOldUncle address daemon cache given.latest given.before height ↔
      ∃ found, given.uncle = some found ∧ found.1.height = some height ∧
        15 < (given.latest - height).toNat := by
  rcases searched.fetches with ⟨fetched, fetches⟩
  have search := searched.search
  constructor
  · rintro ⟨front, including, back, _, uncle, sameFetches, lower, here, isHeight, old⟩
    rw [fetches, Except.ok.injEq, Prod.mk.injEq] at sameFetches
    have finds : ∃ batches, searchUncles address (daemon.uncles given.before)
        (front ++ including :: back) = .ok (some (uncle, including), batches) :=
      searchUncles_of_withUncle lower here
    rcases finds with ⟨batches, found⟩
    rw [← sameFetches.1, search, Except.ok.injEq, Prod.mk.injEq] at found
    exact ⟨(uncle, including), found.1, isHeight, old⟩
  · rintro ⟨⟨uncle, including⟩, isUncle, isHeight, old⟩
    rw [isUncle] at search
    rcases searchUncles_found search with ⟨front, back, split, lower, here⟩
    rw [split] at fetches
    exact ⟨front, including, back, fetched, uncle, fetches, lower, here, isHeight, old⟩

end Searched

end Judged

theorem classifyBlock_respects_iff {settings : Settings} {daemon : Daemon} {latest : UInt64}
    {block : Block} {info : BlockInfo} {cache fetched : BlockCache} {given : Classification}
    (cached : IsCached daemon cache)
    (classifies : classifyBlock settings daemon latest block info cache = .ok (given, fetched))
    (pending : block.status = .pending) :
    RespectsMaturity settings.address given ↔
      HeightsFit settings.address daemon cache latest block info := by
  rcases classifyBlock_cases classifies with ⟨rfl, rfl, rfl, -, judged⟩
  rw [HeightsFit]
  rcases judged with byBlock | byUncle | byProgress
  · rw [if_pos byBlock.own]
    exact byBlock.respects_iff pending
  · have searched := classifyBlock_isSearched classifies byUncle.notOwn
    rcases byUncle.result with ⟨uncle, including, height, -, isUncle, isHeight, mature, -⟩
    rw [isMature_iff] at mature
    have shows : ShowsOldUncle settings.address daemon cache given.latest given.before height :=
      (searched.showsOldUncle_iff height).mpr ⟨_, isUncle, isHeight, mature⟩
    rw [if_neg byUncle.notOwn, byUncle.respects_iff ⟨_, isUncle, isHeight⟩,
      searched.searchesRange_iff cached]
    apply and_congr_right
    intro _
    constructor
    · intro fits
      refine ⟨?_, fun none => absurd shows (none height)⟩
      intro other isOther
      rcases (searched.showsOldUncle_iff other).mp isOther with ⟨found, isFound, isOtherHeight, -⟩
      rw [isUncle, Option.some.injEq] at isFound
      rw [← isFound, isHeight, Option.some.injEq] at isOtherHeight
      rw [← isOtherHeight]
      exact fits
    · intro fits
      exact fits.1 height shows
  · have searched := classifyBlock_isSearched classifies byProgress.notOwn
    have without (height : UInt64) :
        ¬ShowsOldUncle settings.address daemon cache given.latest given.before height := by
      rw [searched.showsOldUncle_iff]
      rintro ⟨found, isFound, isHeight, old⟩
      rcases byProgress.immature found isFound with ⟨other, isOther, immature⟩
      rw [isHeight, Option.some.injEq] at isOther
      rw [← isMature_iff, isOther, immature] at old
      cases old
    rw [if_neg byProgress.notOwn, byProgress.respects_iff pending,
      searched.searchesRange_iff cached]
    apply and_congr_right
    intro _
    constructor
    · intro notBehind
      exact ⟨fun height shows => absurd shows (without height), fun _ => notBehind⟩
    · intro fits
      exact fits.2 without

/-- For every call that returns and every pending block in it, whatever the heights are: maturity
is respected exactly if the heights fit when the block is judged. -/
theorem respectsMaturity_iff (settings : Settings) (daemon : Daemon) (blocks : List Block)
    (judged : List Classification)
    (classifies : classifications settings daemon blocks = .ok judged) (given : Classification)
    (isJudged : given ∈ judged) (pending : given.before.status = .pending) :
    ∃ cache fetched, IsCached daemon cache ∧
      classifyBlock settings daemon given.latest given.before given.info cache =
        .ok (given, fetched) ∧
      (RespectsMaturity settings.address given ↔
        HeightsFit settings.address daemon cache given.latest given.before given.info) := by
  rcases (classifications_judged classifies given isJudged).classified with
    ⟨cache, fetched, cached, classified⟩
  exact ⟨cache, fetched, cached, classified,
    classifyBlock_respects_iff cached classified pending⟩

/-! ## A block of the pool's on the chain

The pool's block at height 100 is on the chain. The daemon that is asked for the latest block
may be behind the one that knows it. -/

namespace SampleChain

def address : Text := text "0xpool"

def settings : Settings where
  chainType := .mainnet
  address
  extraConfig := none

def block (id height : Nat) (transactionConfirmationData : Text) : Block where
  id := id
  poolId := text "eth1"
  blockHeight := height
  networkDifficulty := 1
  status := .pending
  type := none
  confirmationProgress := 0
  effort := none
  transactionConfirmationData
  reward := 0
  hash := none
  created := height

def pooled : Block := block 1 100 (text "0xab:0xcd")

def info (height : UInt64) (miner : Text) : BlockInfo where
  height := some height
  miner := some miner
  sealFields := some [some (text "0xa0ab"), some (text "0x88cd")]
  transactions := some []
  uncles := some []

def answer (given : BlockInfo) : JsonRpcResponse BlockInfo where
  result := some (.ok (some given))
  error := none

def daemon (latest : UInt64) : Daemon where
  latest _ := [.received (some (answer (info latest (text "0xother"))))]
  pageBlocks _ heights := .received (some (heights.map fun height =>
    some (answer (info height address))))
  nearbyBlocks _ heights := .received (some (heights.map fun height =>
    some (answer (info height address))))
  uncles _ _ _ := .received (some [])
  receipts _ _ := .received (some [])

def judged (latest : UInt64) : Classification where
  latest
  before := pooled
  info := info 100 address
  nearby := []
  batches := []
  uncle := none
  after := { pooled with status := .confirmed, confirmationProgress := 1, reward := 5 }

theorem classified (latest : UInt64) (old : latest = 90 ∨ latest = 120) :
    classifications settings (daemon latest) [pooled] = .ok [judged latest] := by
  rcases old with rfl | rfl
  · rfl
  · rfl

/-- The blocks are of others. The one after a height includes the pool's block at the height as an
uncle. -/
def otherInfo (height other : UInt64) : BlockInfo :=
  { info other (text "0xother") with
    uncles := some (if other = height + 1 then [some (text "0xuncle")] else []) }

def otherDaemon (latest height : UInt64) : Daemon where
  latest _ := [.received (some (answer (otherInfo height latest)))]
  pageBlocks _ heights := .received (some (heights.map fun other =>
    some (answer (otherInfo height other))))
  nearbyBlocks _ heights := .received (some (heights.map fun other =>
    some (answer (otherInfo height other))))
  uncles _ _ count := .received (some (List.replicate count
    (some (answer (info height address)))))
  receipts _ _ := .received (some [])

def uncled : Classification where
  latest := 120
  before := pooled
  info := otherInfo 100 100
  nearby := (List.range 70).map fun offset => otherInfo 100 (50 + UInt64.ofNat offset)
  batches := [(101, 1)]
  uncle := some (info 100 address, otherInfo 100 101)
  after := { pooled with
    status := .confirmed, confirmationProgress := 1, reward := 5 * 7 / 8
    type := some (text "uncle") }

theorem classified_uncled :
    classifications settings (otherDaemon 120 100) [pooled] = .ok [uncled] := by
  rfl

def youngBlock : Block := block 2 10 (text "0xab:0xcd")

def orphaned : Classification where
  latest := 40
  before := youngBlock
  info := otherInfo 10 10
  nearby := []
  batches := []
  uncle := none
  after := giveUp (progressed 40 youngBlock)

theorem classified_orphaned :
    classifications settings (otherDaemon 40 10) [youngBlock] = .ok [orphaned] := by
  rfl

end SampleChain

theorem respectsMaturity_iff_matured :
    RespectsMaturity SampleChain.settings.address (SampleChain.judged 120) ∧
      RespectsMaturity SampleChain.settings.address SampleChain.uncled := by
  constructor
  · rcases respectsMaturity_iff SampleChain.settings (SampleChain.daemon 120) [SampleChain.pooled]
      [SampleChain.judged 120] (SampleChain.classified 120 (.inr rfl)) (SampleChain.judged 120)
      List.mem_cons_self rfl with ⟨cache, fetched, -, -, respectsIff⟩
    have own : (SampleChain.judged 120).info.miner = some SampleChain.settings.address := rfl
    rw [respectsIff, HeightsFit, if_pos own]
    intro _
    decide
  · rcases respectsMaturity_iff SampleChain.settings (SampleChain.otherDaemon 120 100)
      [SampleChain.pooled] [SampleChain.uncled] SampleChain.classified_uncled SampleChain.uncled
      List.mem_cons_self rfl with ⟨cache, fetched, -, -, respectsIff⟩
    have matured : HasMatured SampleChain.uncled.latest (heightOf SampleChain.uncled.before) := by
      rw [HasMatured]
      decide
    rw [respectsIff, HeightsFit, if_neg (by decide)]
    exact ⟨.inl (by decide), fun _ _ => .inr matured, fun _ _ => matured.le⟩

/-- The latest block is ten below the pool's, which is confirmed; and a block at height ten is
orphaned and nothing is searched, although the chain has its uncle. -/
theorem maturity_wraps :
    classifications SampleChain.settings (SampleChain.daemon 90) [SampleChain.pooled] =
        .ok [SampleChain.judged 90] ∧
      (SampleChain.judged 90).after.status = .confirmed ∧
      ¬RespectsMaturity SampleChain.address (SampleChain.judged 90) ∧
      classifications SampleChain.settings (SampleChain.otherDaemon 40 10)
        [SampleChain.youngBlock] = .ok [SampleChain.orphaned] ∧
      SampleChain.orphaned.after.status = .orphaned ∧
      ¬RespectsMaturity SampleChain.address SampleChain.orphaned := by
  refine ⟨SampleChain.classified 90 (.inl rfl), rfl, ?_, SampleChain.classified_orphaned, ?_, ?_⟩
  · intro respects
    rcases respects.confirmed rfl with matured | ⟨found, height, isFound, -⟩
    · rw [HasMatured] at matured
      exact absurd matured (by decide)
    · cases isFound
  · exact (giveUp_orphans_iff rfl).mpr (by decide)
  · intro respects
    rcases respects.searched (by decide) 0 (by decide) (by decide) with
      ⟨info, isNearby, -⟩ | ⟨uncle, including, number, isUncle, -⟩
    · cases isNearby
    · cases isUncle

end Miningcore.Payments.Ethereum

import Miningcore.Foundation.ByteLayout
import Miningcore.Foundation.PairwiseTree

/-! `MerkleTree`: the hashes that lead from a coinbase transaction to the merkle root of a
block. The coinbase is not known yet when they are computed; a null reference stands in its
place. -/

namespace Miningcore.MerkleTree

inductive Exception
  | argumentOutOfRange
  | argumentNull
deriving DecidableEq, Repr

/-- `list[index]` of a `List<byte[]>`. -/
def item (list : List (Option Bytes)) (index : Nat) : Except Exception (Option Bytes) :=
  match list[index]? with
  | some reference => .ok reference
  | none => .error .argumentOutOfRange

section Tree

variable (doubleDigest : Bytes → Bytes)

def digestConcat : Option Bytes → Option Bytes → Except Exception Bytes
  | some first, some second => .ok (doubleDigest (first ++ second))
  | _, _ => .error .argumentNull

def merkleJoin (hash1 hash2 : Option Bytes) : Except Exception Bytes :=
  digestConcat doubleDigest hash1 hash2

def startL : Nat := 2

def padLevel (level : List (Option Bytes)) : Except Exception (List (Option Bytes)) :=
  if level.length % 2 = 1 then do
    let last ← item level (level.length - 1)
    return level ++ [last]
  else return level

/-- The inner loop. `Ll` is the length of the level before its last hash was repeated. -/
def joinLevel (Ll : Nat) (level : List (Option Bytes)) : Except Exception (List Bytes) :=
  (List.range' startL ((Ll - startL + 1) / 2) 2).mapM fun i => do
    let hash1 ← item level i
    let hash2 ← item level (i + 1)
    merkleJoin doubleDigest hash1 hash2

def nextLevel (level : List (Option Bytes)) : Except Exception (List (Option Bytes)) := do
  let padded ← padLevel level
  let joined ← joinLevel doubleDigest level.length padded
  return none :: joined.map some

/-- The `while(true)` of `CalculateSteps`, entered at most `fuel` times. -/
def calculateLevels : Nat → List (Option Bytes) → List (Option Bytes) →
    Option (Except Exception (List (Option Bytes)))
  | 0, _, _ => none
  | fuel + 1, steps, level =>
      if level.length = 1 then some (.ok steps)
      else
        match item level 1, nextLevel doubleDigest level with
        | .ok step, .ok next => calculateLevels fuel (steps ++ [step]) next
        | .error exception, _ => some (.error exception)
        | .ok _, .error exception => some (.error exception)

def calculateSteps (fuel : Nat) (hashList : List Bytes) :
    Option (Except Exception (List (Option Bytes))) :=
  let level := none :: hashList.map some
  if level.length > 1 then calculateLevels doubleDigest fuel [] level else some (.ok [])

/-- `WithFirst` over the steps of the tree. -/
def withFirst (steps : List (Option Bytes)) (first : Bytes) : Except Exception Bytes :=
  steps.foldlM (fun first step => digestConcat doubleDigest (some first) step) first

end Tree

def join (doubleDigest : Bytes → Bytes) (left right : Bytes) : Bytes :=
  doubleDigest (left ++ right)

def merkleRoot (doubleDigest : Bytes → Bytes) (hashes : List Bytes) : Option Bytes :=
  PairwiseTree.root (join doubleDigest) hashes

/-! ## One level -/

def repeatLast : List Bytes → List Bytes
  | [] => []
  | [last] => [last, last]
  | left :: right :: rest => left :: right :: repeatLast rest

theorem item_append (before after : List (Option Bytes)) (reference : Option Bytes) :
    item (before ++ reference :: after) before.length = .ok reference := by
  simp [item]

theorem padLevel_append (before : List (Option Bytes)) (hashes : List Bytes)
    (even : before.length % 2 = 0) :
    padLevel (before ++ hashes.map some) = .ok (before ++ (repeatLast hashes).map some) := by
  induction hashes using repeatLast.induct generalizing before with
  | case1 =>
      have notOdd : ¬before.length % 2 = 1 := by omega
      simp [padLevel, repeatLast, notOdd, pure, Except.pure]
  | case2 last =>
      have odd : (before.length + 1) % 2 = 1 := by omega
      have found := item_append before [] (some last)
      simp [padLevel, repeatLast, odd, found, bind, Except.bind, pure, Except.pure]
  | case3 left right rest induction =>
      have shifted := induction (before ++ [some left, some right]) (by simp; omega)
      simpa [repeatLast] using shifted

theorem join_neighbours (doubleDigest : Bytes → Bytes) (before after : List (Option Bytes))
    (left right : Bytes) :
    (do
      let hash1 ← item (before ++ some left :: some right :: after) before.length
      let hash2 ← item (before ++ some left :: some right :: after) (before.length + 1)
      merkleJoin doubleDigest hash1 hash2) = .ok (join doubleDigest left right) := by
  have second := item_append (before ++ [some left]) after (some right)
  simp only [List.append_assoc, List.cons_append, List.nil_append, List.length_append,
    List.length_cons, List.length_nil, Nat.zero_add] at second
  rw [item_append, second]
  rfl

theorem mapM_join (doubleDigest : Bytes → Bytes) (before : List (Option Bytes))
    (hashes : List Bytes) :
    (List.range' before.length ((hashes.length + 1) / 2) 2).mapM (fun i => do
        let hash1 ← item (before ++ (repeatLast hashes).map some) i
        let hash2 ← item (before ++ (repeatLast hashes).map some) (i + 1)
        merkleJoin doubleDigest hash1 hash2) =
      .ok (PairwiseTree.parents (join doubleDigest) hashes) := by
  induction hashes using repeatLast.induct generalizing before with
  | case1 => simp [PairwiseTree.parents, pure, Except.pure]
  | case2 last =>
      have joined := join_neighbours doubleDigest before [] last last
      simp only [repeatLast, List.length_cons, List.length_nil, List.map_cons, List.map_nil,
        Nat.zero_add, Nat.reduceAdd, Nat.reduceDiv, List.range'_one, List.mapM_cons, joined,
        List.mapM_nil, PairwiseTree.parents]
      rfl
  | case3 left right rest induction =>
      have joined := join_neighbours doubleDigest before ((repeatLast rest).map some) left right
      have shifted := induction (before ++ [some left, some right])
      have count : (rest.length + 1 + 1 + 1) / 2 = (rest.length + 1) / 2 + 1 := by omega
      simp only [List.append_assoc, List.cons_append, List.nil_append, List.length_append,
        List.length_cons, List.length_nil, Nat.zero_add, Nat.reduceAdd] at shifted
      simp only [repeatLast, List.length_cons, List.map_cons, count, List.range'_succ,
        List.mapM_cons, joined, shifted, PairwiseTree.parents]
      rfl

theorem nextLevel_eq (doubleDigest : Bytes → Bytes) (sibling : Bytes) (rest : List Bytes) :
    nextLevel doubleDigest (none :: some sibling :: rest.map some) =
      .ok (none :: (PairwiseTree.parents (join doubleDigest) rest).map some) := by
  have padded := padLevel_append [none, some sibling] rest (by simp)
  have joined := mapM_join doubleDigest [none, some sibling] rest
  have count : (none :: some sibling :: rest.map some).length - startL = rest.length := by
    simp [startL]
  simp only [List.cons_append, List.nil_append, List.length_cons, List.length_nil, Nat.zero_add,
    Nat.reduceAdd] at padded joined
  rw [nextLevel, padded]
  change (joinLevel _ _ _ >>= _) = _
  rw [joinLevel, count, startL, joined]
  rfl

/-! ## All levels -/

theorem calculateLevels_eq (doubleDigest : Bytes → Bytes) (fuel : Nat)
    (steps : List (Option Bytes)) (hashes : List Bytes) (enough : hashes.length < fuel) :
    calculateLevels doubleDigest fuel steps (none :: hashes.map some) =
      some (.ok (steps ++ (PairwiseTree.branch (join doubleDigest) hashes).map some)) := by
  induction hashes using PairwiseTree.branch.induct (join doubleDigest)
    generalizing fuel steps with
  | case1 =>
      obtain ⟨fuel, rfl⟩ : ∃ less, fuel = less + 1 := ⟨fuel - 1, by omega⟩
      simp [calculateLevels]
  | case2 sibling rest induction =>
      obtain ⟨fuel, rfl⟩ : ∃ less, fuel = less + 1 := ⟨fuel - 1, by omega⟩
      have fewer : (PairwiseTree.parents (join doubleDigest) rest).length < fuel := by
        rw [PairwiseTree.parents_length]
        simp only [List.length_cons] at enough
        omega
      have following := induction fuel (steps ++ [some sibling]) fewer
      have step : item (none :: some sibling :: rest.map some) 1 = .ok (some sibling) := rfl
      simp [calculateLevels, nextLevel_eq, step, following]

theorem calculateSteps_eq (doubleDigest : Bytes → Bytes) (fuel : Nat) (hashes : List Bytes)
    (enough : hashes.length < fuel) :
    calculateSteps doubleDigest fuel hashes =
      some (.ok ((PairwiseTree.branch (join doubleDigest) hashes).map some)) := by
  cases hashes with
  | nil => simp [calculateSteps]
  | cons sibling rest =>
      have levels := calculateLevels_eq doubleDigest fuel [] (sibling :: rest) enough
      rw [calculateSteps, if_pos (by simp), levels, List.nil_append]

theorem withFirst_eq_foldl (doubleDigest : Bytes → Bytes) (steps : List Bytes) (first : Bytes) :
    withFirst doubleDigest (steps.map some) first =
      .ok (steps.foldl (join doubleDigest) first) := by
  induction steps generalizing first with
  | nil => rfl
  | cons step steps induction => exact induction (join doubleDigest first step)

/-- Whatever the hashes are, `CalculateSteps` ends, throws nothing and returns `⌈log₂ (n + 1)⌉`
steps, along which `WithFirst` leads from any coinbase hash to the merkle root of the block. -/
theorem withFirst_eq_merkleRoot (doubleDigest : Bytes → Bytes) (hashes : List Bytes) :
    ∃ steps : List (Option Bytes),
      (∀ fuel > hashes.length, calculateSteps doubleDigest fuel hashes = some (.ok steps)) ∧
        steps.length = Nat.clog 2 (hashes.length + 1) ∧
          ∀ first : Bytes, ∃ root, withFirst doubleDigest steps first = .ok root ∧
            merkleRoot doubleDigest (first :: hashes) = some root := by
  let branch := PairwiseTree.branch (join doubleDigest) hashes
  refine ⟨branch.map some, ?_, ?_, ?_⟩
  · intro fuel enough
    exact calculateSteps_eq doubleDigest fuel hashes enough
  · rw [List.length_map, PairwiseTree.branch_length]
  · intro first
    refine ⟨branch.foldl (join doubleDigest) first, ?_, ?_⟩
    · exact withFirst_eq_foldl doubleDigest branch first
    · exact PairwiseTree.root_eq_foldl_branch (join doubleDigest) first hashes

example : calculateSteps id 5 [[1], [2], [3], [4]] =
    some (.ok [some [1], some [2, 3], some [4, 4, 4, 4]]) := by decide

end Miningcore.MerkleTree

import Mathlib.Data.List.Nodup
import Mathlib.Tactic.Ring
import Miningcore.Foundation.PairwiseTree

/-! # Aligned blocks

The blocks of a size that lie end to end in a list. Two neighbours of which the first is at an
even position make one block of twice the size, so the levels of a pairwise reduction are the
blocks whose sizes are powers of two. -/

namespace Miningcore.AlignedBlocks

variable {Item Node : Type}

def block (items : List Item) (size position : Nat) : List Item :=
  (items.drop (position * size)).take size

theorem block_append (items : List Item) (size position : Nat) :
    block items size (2 * position) ++ block items size (2 * position + 1) =
      block items (2 * size) position := by
  have left : 2 * position * size = position * (2 * size) := by ring
  have right : (2 * position + 1) * size = position * (2 * size) + size := by ring
  rw [block, block, block, left, right, ← List.drop_drop, ← List.take_add, Nat.two_mul size]

theorem block_one (items : List Item) : (List.range items.length).map (block items 1) =
    items.map fun item => [item] := by
  apply List.ext_getElem
  · simp
  · intro position inRange _
    have inItems : position < items.length := by simpa using inRange
    rw [List.getElem_map, List.getElem_map, List.getElem_range, block, Nat.mul_one,
      List.drop_eq_getElem_cons inItems]
    rfl

theorem block_whole (items : List Item) : block items items.length 0 = items := by
  simp [block]

theorem block_flatMap {Part : Type} {width : Nat} {write : Item → List Part}
    (fixed : ∀ item, (write item).length = width) (items : List Item) {position : Nat}
    (inRange : position < items.length) :
    block (items.flatMap write) width position = write items[position] := by
  induction items generalizing position with
  | nil => simp at inRange
  | cons item items induction =>
      cases position with
      | zero =>
          rw [block, Nat.zero_mul, List.drop_zero, List.flatMap_cons]
          exact List.take_left' (fixed item)
      | succ position =>
          have behind : (position + 1) * width = (write item).length + position * width := by
            rw [fixed, Nat.add_mul, Nat.one_mul, Nat.add_comm]
          rw [block, List.flatMap_cons, behind, List.drop_length_add_append]
          exact induction (by simpa using inRange)

def EachPair (related : Node → Node → Prop) : List Node → Prop
  | [] => True
  | [_] => True
  | left :: right :: rest => related left right ∧ EachPair related rest

theorem range_two_more (count : Nat) (value : Nat → Node) :
    (List.range (2 * (count + 1))).map value =
      value 0 :: value 1 :: (List.range (2 * count)).map fun position => value (position + 2) := by
  have double : 2 * (count + 1) = 2 * count + 1 + 1 := by ring
  rw [double, List.range_succ_eq_map, List.range_succ_eq_map]
  simp

theorem eachPair_range (related : Node → Node → Prop) (count : Nat) (value : Nat → Node) :
    EachPair related ((List.range (2 * count)).map value) ↔
      ∀ position < count, related (value (2 * position)) (value (2 * position + 1)) := by
  induction count generalizing value with
  | zero => simp [EachPair]
  | succ count induction =>
      rw [range_two_more, EachPair, induction]
      constructor
      · intro both position inRange
        cases position with
        | zero => exact both.1
        | succ position => exact both.2 position (by omega)
      · intro every
        exact ⟨every 0 (by omega), fun position inRange => every (position + 1) (by omega)⟩

theorem parents_range (join : Node → Node → Node) (count : Nat) (value : Nat → Node) :
    PairwiseTree.parents join ((List.range (2 * count)).map value) =
      (List.range count).map fun position =>
        join (value (2 * position)) (value (2 * position + 1)) := by
  induction count generalizing value with
  | zero => rfl
  | succ count induction =>
      rw [range_two_more, PairwiseTree.parents, induction, List.range_succ_eq_map, List.map_cons,
        List.map_map]
      rfl

theorem forall_halves (holds : Nat → Prop) (count : Nat) :
    (∀ position < 2 * count, holds position) ↔
      ∀ position < count, holds (2 * position) ∧ holds (2 * position + 1) := by
  constructor
  · intro every position inRange
    exact ⟨every (2 * position) (by omega), every (2 * position + 1) (by omega)⟩
  · intro every position inRange
    rcases Nat.even_or_odd' position with ⟨half, even | odd⟩
    · rw [even]
      exact (every half (by omega)).1
    · rw [odd]
      exact (every half (by omega)).2

theorem nodup_double (items : List Item) (size position : Nat) :
    (block items (2 * size) position).Nodup ↔
      ((block items size (2 * position)).Nodup ∧ (block items size (2 * position + 1)).Nodup) ∧
      List.Disjoint (block items size (2 * position)) (block items size (2 * position + 1)) := by
  rw [← block_append, List.nodup_append', and_assoc]

theorem nodup_blocks {levels height : Nat} (items : List Item) (inTree : height ≤ levels) :
    (∀ position < 2 ^ (levels - height), (block items (2 ^ height) position).Nodup) ↔
      ∀ level < height, ∀ position < 2 ^ (levels - 1 - level),
        List.Disjoint (block items (2 ^ level) (2 * position))
          (block items (2 ^ level) (2 * position + 1)) := by
  induction height with
  | zero =>
      constructor
      · intro _ level impossible
        omega
      · intro _ position _
        rw [block, pow_zero, List.take_one]
        exact Option.toList_nodup _
  | succ height induction =>
      have halves : 2 ^ (levels - height) = 2 * 2 ^ (levels - (height + 1)) := by
        rw [← pow_succ']
        congr 1
        omega
      have sameLevel : levels - 1 - height = levels - (height + 1) := by omega
      have below := induction (by omega)
      rw [halves, forall_halves] at below
      simp only [pow_succ' 2 height, nodup_double]
      rw [Nat.forall_lt_succ_right, ← below, sameLevel]
      constructor
      · intro both
        exact ⟨fun position inRange => (both position inRange).1,
          fun position inRange => (both position inRange).2⟩
      · intro both position inRange
        exact ⟨both.1 position inRange, both.2 position inRange⟩

theorem nodup_iff_disjoint {levels : Nat} {items : List Item}
    (full : items.length = 2 ^ levels) :
    items.Nodup ↔ ∀ level < levels, ∀ position < 2 ^ (levels - 1 - level),
      List.Disjoint (block items (2 ^ level) (2 * position))
        (block items (2 ^ level) (2 * position + 1)) := by
  rw [← nodup_blocks items le_rfl, Nat.sub_self, pow_zero, ← full]
  constructor
  · intro nodup position inRange
    rw [Nat.lt_one_iff.mp inRange, block_whole]
    exact nodup
  · intro nodup
    have first := nodup 0 (by decide)
    rw [block_whole] at first
    exact first

end Miningcore.AlignedBlocks

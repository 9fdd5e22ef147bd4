import Mathlib.Data.List.Sort

/-! # Stable orderings by a key

Rows ordered by a key, rows with equal keys in their original order. Filtering
commutes with ordering, so a query may be read as either. -/

namespace Miningcore.KeyOrder

variable {Row Key : Type} [LinearOrder Key] (key : Row → Key)

def ascending (rows : List Row) : List Row :=
  rows.insertionSort fun left right => key left ≤ key right

def descending (rows : List Row) : List Row :=
  rows.insertionSort fun left right => key right ≤ key left

theorem mem_ascending {rows : List Row} {row : Row} : row ∈ ascending key rows ↔ row ∈ rows :=
  List.mem_insertionSort _

theorem perm_ascending (rows : List Row) : (ascending key rows).Perm rows :=
  List.perm_insertionSort _ rows

theorem mem_descending {rows : List Row} {row : Row} : row ∈ descending key rows ↔ row ∈ rows :=
  List.mem_insertionSort _

theorem pairwise_ascending (rows : List Row) :
    (ascending key rows).Pairwise fun earlier later => key earlier ≤ key later := by
  have total : Std.Total fun left right : Row => key left ≤ key right :=
    ⟨fun left right => le_total (key left) (key right)⟩
  have trans : IsTrans Row fun left right => key left ≤ key right :=
    ⟨fun _ _ _ first second => first.trans second⟩
  exact List.pairwise_insertionSort _ rows

theorem pairwise_descending (rows : List Row) :
    (descending key rows).Pairwise fun earlier later => key later ≤ key earlier := by
  have total : Std.Total fun left right : Row => key right ≤ key left :=
    ⟨fun left right => le_total (key right) (key left)⟩
  have trans : IsTrans Row fun left right => key right ≤ key left :=
    ⟨fun _ _ _ first second => second.trans first⟩
  exact List.pairwise_insertionSort _ rows

theorem descending_of_pairwise {rows : List Row}
    (sorted : rows.Pairwise fun earlier later => key later ≤ key earlier) :
    descending key rows = rows :=
  sorted.insertionSort_eq

theorem perm_descending (rows : List Row) : (descending key rows).Perm rows :=
  List.perm_insertionSort _ rows

theorem filter_append_filter_not {property : Row → Bool}
    (upward : ∀ row other, key row ≤ key other → property row = true → property other = true)
    {rows : List Row} (sorted : rows.Pairwise fun earlier later => key later ≤ key earlier) :
    rows.filter property ++ rows.filter (fun row => !property row) = rows := by
  induction rows with
  | nil => rfl
  | cons first rows induction =>
      rw [List.pairwise_cons] at sorted
      by_cases holds : property first = true
      · rw [List.filter_cons_of_pos holds, List.filter_cons_of_neg (by simp [holds]),
          List.cons_append, induction sorted.2]
      · have none : ∀ row ∈ rows, ¬property row = true := by
          intro row member rowHolds
          exact holds (upward row first (sorted.1 row member) rowHolds)
        rw [List.filter_cons_of_neg holds, List.filter_eq_nil_iff.mpr none, List.nil_append,
          List.filter_eq_self]
        intro row member
        rcases List.mem_cons.mp member with rfl | later
        · simpa using holds
        · simpa using none row later

private theorem filter_orderedInsert (property : Row → Bool) (row : Row) (rows : List Row)
    (sorted : rows.Pairwise fun earlier later => key later ≤ key earlier) :
    (rows.orderedInsert (fun left right => key right ≤ key left) row).filter property =
      if property row then (rows.filter property).orderedInsert
        (fun left right => key right ≤ key left) row
      else rows.filter property := by
  induction rows with
  | nil => by_cases holds : property row <;> simp [holds]
  | cons first rows induction =>
      rw [List.pairwise_cons] at sorted
      by_cases before : key first ≤ key row
      · rw [List.orderedInsert_cons, if_pos before]
        by_cases holds : property row
        · rw [List.filter_cons_of_pos holds, if_pos holds]
          -- Every kept row has a key at most that of the first one, so the
          -- inserted row stays in front.
          have small : ∀ kept ∈ (first :: rows).filter property, key kept ≤ key row := by
            intro kept member
            rcases List.mem_cons.mp (List.mem_of_mem_filter member) with rfl | later
            · exact before
            · exact (sorted.1 kept later).trans before
          cases filtered : (first :: rows).filter property with
          | nil => rfl
          | cons kept rest =>
              rw [List.orderedInsert_cons, if_pos (small kept (by simp [filtered]))]
        · rw [List.filter_cons_of_neg holds, if_neg holds]
      · rw [List.orderedInsert_cons, if_neg before]
        by_cases firstHolds : property first
        · rw [List.filter_cons_of_pos firstHolds, List.filter_cons_of_pos firstHolds,
            induction sorted.2]
          by_cases holds : property row
          · rw [if_pos holds, if_pos holds, List.orderedInsert_cons, if_neg before]
          · rw [if_neg holds, if_neg holds]
        · rw [List.filter_cons_of_neg firstHolds, List.filter_cons_of_neg firstHolds,
            induction sorted.2]

theorem filter_descending (property : Row → Bool) (rows : List Row) :
    (descending key rows).filter property = descending key (rows.filter property) := by
  induction rows with
  | nil => rfl
  | cons row rows induction =>
      have sorted := pairwise_descending key rows
      unfold descending at sorted induction ⊢
      rw [List.insertionSort_cons, filter_orderedInsert key property row _ sorted, induction]
      by_cases holds : property row
      · rw [if_pos holds, List.filter_cons_of_pos holds, List.insertionSort_cons]
      · rw [if_neg holds, List.filter_cons_of_neg holds]

end Miningcore.KeyOrder

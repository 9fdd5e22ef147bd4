import Mathlib.Data.List.Rotate

/-! # Lists in rings

An array is read from some cell on and goes on with the first cell behind the last one: its cells
in this order are the array, rotated. -/

namespace Miningcore.RingLayout

variable {α : Type}

def cell (capacity start offset : Nat) : Nat :=
  if start + offset < capacity then start + offset else start + offset - capacity

theorem cell_lt {capacity start offset : Nat} (inside : start < capacity)
    (inRing : offset ≤ capacity) : cell capacity start offset < capacity := by
  rw [cell]
  split_ifs <;> omega

theorem cell_inj (start : Nat) {capacity offset other : Nat} (inRing : offset < capacity)
    (otherInRing : other < capacity) :
    cell capacity start offset = cell capacity start other ↔ offset = other := by
  rw [cell, cell]
  split_ifs <;> omega

theorem cell_cell {capacity start offset further : Nat} (inside : start < capacity)
    (together : offset + further ≤ capacity) :
    cell capacity (cell capacity start offset) further =
      cell capacity start (offset + further) := by
  rw [cell, cell, cell]
  split_ifs <;> omega

theorem cell_around {capacity start offset further : Nat} (inside : start < capacity)
    (inRing : offset ≤ capacity) (furtherInRing : further ≤ capacity)
    (around : capacity ≤ offset + further) :
    cell capacity (cell capacity start offset) further =
      cell capacity start (offset + further - capacity) := by
  rw [cell, cell, cell]
  split_ifs <;> omega

@[simp] theorem cell_zero {capacity start : Nat} (inside : start < capacity) :
    cell capacity start 0 = start := if_pos inside

@[simp] theorem cell_full (capacity start : Nat) : cell capacity start capacity = start := by
  rw [cell, if_neg (by omega), Nat.add_sub_cancel]

theorem cell_eq_mod {capacity start offset : Nat} (inside : start < capacity)
    (inRing : offset ≤ capacity) : cell capacity start offset = (start + offset) % capacity := by
  rw [cell]
  split_ifs with before
  · exact (Nat.mod_eq_of_lt before).symm
  · rw [Nat.mod_eq_sub_mod (Nat.le_of_not_lt before), Nat.mod_eq_of_lt (by omega)]

variable {cells : List α} {start : Nat}

theorem getElem?_cell (inside : start < cells.length) {offset : Nat}
    (inRing : offset < cells.length) :
    cells[cell cells.length start offset]? = (cells.rotate start)[offset]? := by
  rw [List.getElem?_rotate inRing, cell_eq_mod inside inRing.le, Nat.add_comm]

theorem rotate_cell (inside : start < cells.length) {offset : Nat}
    (inRing : offset ≤ cells.length) :
    cells.rotate (cell cells.length start offset) = (cells.rotate start).rotate offset := by
  rw [cell_eq_mod inside inRing, List.rotate_mod, List.rotate_rotate]

theorem rotate_set (inside : start < cells.length) {place : Nat} (inRing : place < cells.length)
    (item : α) :
    (cells.set (cell cells.length start place) item).rotate start =
      (cells.rotate start).set place item := by
  have inCells := cell_lt inside inRing.le
  have stored : (cells.set (cell cells.length start place) item).length = cells.length :=
    List.length_set
  apply List.ext_getElem?
  intro offset
  by_cases offsetInRing : offset < cells.length
  · have read := getElem?_cell (stored.symm ▸ inside) (stored.symm ▸ offsetInRing)
    rw [stored] at read
    rw [← read]
    by_cases same : offset = place
    · rw [same, List.getElem?_set_self inCells,
        List.getElem?_set_self (by rw [List.length_rotate]; exact inRing)]
    · have apart : cell cells.length start place ≠ cell cells.length start offset := by
        rw [Ne, cell_inj start inRing offsetInRing]
        exact fun equal => same equal.symm
      rw [List.getElem?_set_ne apart, List.getElem?_set_ne (Ne.symm same),
        getElem?_cell inside offsetInRing]
  · have outside := Nat.le_of_not_lt offsetInRing
    rw [List.getElem?_eq_none_iff.mpr (by rw [List.length_rotate, stored]; exact outside),
      List.getElem?_eq_none_iff.mpr (by rw [List.length_set, List.length_rotate]; exact outside)]

theorem rotate_next (inside : start < cells.length) {first : α} {rest : List α}
    (rotated : cells.rotate start = first :: rest) :
    cells.rotate (cell cells.length start 1) = rest ++ [first] := by
  rw [rotate_cell inside (Nat.one_le_of_lt inside), rotated, List.rotate_cons_succ,
    List.rotate_zero]

theorem rotate_before (inside : start < cells.length) {front : List α} {last : α}
    (rotated : cells.rotate start = front ++ [last]) :
    cells.rotate (cell cells.length start (cells.length - 1)) = last :: front := by
  have length : front.length = cells.length - 1 := by
    rw [← List.length_rotate cells start, rotated, List.length_append, List.length_singleton,
      Nat.add_sub_cancel]
  rw [rotate_cell inside (Nat.sub_le _ _), rotated, ← length, List.rotate_append_length_eq,
    List.singleton_append]

def segments (cells : List α) (start stop : Nat) : List α :=
  if start < stop then (cells.drop start).take (stop - start)
  else cells.drop start ++ cells.take stop

theorem segments_eq (inside : start < cells.length) {count : Nat}
    (fits : count ≤ cells.length) :
    segments cells start (cell cells.length start count) =
      if count = 0 then cells.rotate start else (cells.rotate start).take count := by
  rw [List.rotate_eq_drop_append_take inside.le, segments]
  by_cases nothing : count = 0
  · rw [nothing, cell_zero inside, if_neg (Nat.lt_irrefl start), if_pos rfl]
  · rw [if_neg nothing]
    by_cases before : start + count < cells.length
    · have ends : cell cells.length start count = start + count := if_pos before
      rw [ends, if_pos (by omega), Nat.add_sub_cancel_left,
        List.take_append_of_le_length (by rw [List.length_drop]; omega)]
    · have ends : cell cells.length start count = start + count - cells.length := if_neg before
      have around : start + count - cells.length = min (count - (cells.length - start)) start := by
        omega
      rw [ends, if_neg (by omega), List.take_append, List.length_drop, List.take_take, ← around,
        List.take_of_length_le (by rw [List.length_drop]; omega : (cells.drop start).length ≤ count)]

end Miningcore.RingLayout

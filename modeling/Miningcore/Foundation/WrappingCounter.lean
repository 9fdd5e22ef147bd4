import Mathlib.Data.List.Basic
import Mathlib.Data.Nat.ModEq

/-! # Counters that start again at zero

A counter takes all values up to a largest one in turn, from wherever it starts. Not before it has
taken all of them does one come back. -/

namespace Miningcore.WrappingCounter

variable {largest counter : Nat}

def next (largest counter : Nat) : Nat := if largest < counter + 1 then 0 else counter + 1

theorem next_eq (fits : counter ≤ largest) :
    next largest counter = (counter + 1) % (largest + 1) := by
  rw [next]
  split_ifs with wraps
  · rw [show counter + 1 = largest + 1 by omega, Nat.mod_self]
  · rw [Nat.mod_eq_of_lt (by omega)]

theorem next_le (fits : counter ≤ largest) : next largest counter ≤ largest := by
  rw [next_eq fits]
  exact Nat.le_of_lt_succ (Nat.mod_lt _ largest.succ_pos)

def values (largest counter : Nat) : Nat → List Nat
  | 0 => []
  | count + 1 => next largest counter :: values largest (next largest counter) count

theorem values_eq (fits : counter ≤ largest) (count : Nat) :
    values largest counter count =
      (List.range' 1 count).map fun index => (counter + index) % (largest + 1) := by
  induction count generalizing counter with
  | zero => rfl
  | succ count induction =>
      rw [values, induction (next_le fits), List.range'_succ, List.map_cons, next_eq fits]
      congr 1
      rw [List.range'_eq_map_range, List.range'_eq_map_range, List.map_map, List.map_map]
      apply List.map_congr_left
      intro index _
      simp only [Function.comp_apply, Nat.mod_add_mod]
      congr 1
      omega

theorem values_le (fits : counter ≤ largest) (count : Nat) :
    ∀ value ∈ values largest counter count, value ≤ largest := by
  rw [values_eq fits]
  intro value member
  rcases List.mem_map.mp member with ⟨index, -, rfl⟩
  exact Nat.le_of_lt_succ (Nat.mod_lt _ largest.succ_pos)

theorem value_of_getElem? (fits : counter ≤ largest) {count index value : Nat}
    (found : (values largest counter count)[index]? = some value) :
    value = (counter + (1 + index)) % (largest + 1) := by
  rw [values_eq fits, List.getElem?_map, Option.map_eq_some_iff] at found
  rcases found with ⟨place, isPlace, rfl⟩
  rcases List.getElem?_eq_some_iff.mp isPlace with ⟨_, rfl⟩
  rw [List.getElem_range', Nat.one_mul]

theorem nodup_of_infix (fits : counter ≤ largest) {count : Nat} {row : List Nat}
    (isRow : row <:+: values largest counter count) (short : row.length ≤ largest + 1) :
    row.Nodup := by
  rcases List.infix_iff_getElem?.mp isRow with ⟨start, -, entries⟩
  rw [List.Nodup, List.pairwise_iff_getElem]
  intro first second isFirst isSecond before equal
  have firstValue := value_of_getElem? fits (entries first isFirst)
  have secondValue := value_of_getElem? fits (entries second isSecond)
  rw [equal, secondValue] at firstValue
  have places := Nat.ModEq.add_left_cancel' counter firstValue
  have same := places.eq_of_abs_lt (abs_lt.mpr (by constructor <;> omega))
  omega

end Miningcore.WrappingCounter

import Mathlib.Data.Nat.Digits.Lemmas
import Mathlib.Tactic.Ring

/-! # Positional numerals

Digits of a base, the highest first, and the number they stand for. With a fixed number of digits
the two determine each other. -/

namespace Miningcore.Positional

def numeral (base : Nat) (digits : List Nat) : Nat := Nat.ofDigits base digits.reverse

def Proper (base : Nat) (digits : List Nat) : Prop := ∀ digit ∈ digits, digit < base

def digitsOf (base : Nat) : (count : Nat) → (value : Nat) → List Nat
  | 0, _ => []
  | count + 1, value => value / base ^ count % base :: digitsOf base count value

variable {base : Nat}

theorem proper_concat {digits : List Nat} {last : Nat} (proper : Proper base digits)
    (lastProper : last < base) : Proper base (digits ++ [last]) := by
  intro digit member
  rcases List.mem_append.mp member with among | isLast
  · exact proper digit among
  · rw [List.mem_singleton.mp isLast]
    exact lastProper

@[simp] theorem numeral_nil (base : Nat) : numeral base [] = 0 := rfl

theorem numeral_concat (base : Nat) (digits : List Nat) (last : Nat) :
    numeral base (digits ++ [last]) = numeral base digits * base + last := by
  rw [numeral, numeral, List.reverse_append, List.reverse_singleton, List.singleton_append,
    Nat.ofDigits_cons, Nat.mul_comm, Nat.add_comm]

theorem numeral_cons (base first : Nat) (digits : List Nat) :
    numeral base (first :: digits) = first * base ^ digits.length + numeral base digits := by
  rw [numeral, numeral, List.reverse_cons, Nat.ofDigits_append, List.length_reverse,
    Nat.ofDigits_singleton]
  ring

theorem numeral_lt (large : 1 < base) {digits : List Nat} (proper : Proper base digits) :
    numeral base digits < base ^ digits.length := by
  have bound := Nat.ofDigits_lt_base_pow_length large
    (fun digit member => proper digit (List.mem_reverse.mp member))
  rw [List.length_reverse] at bound
  exact bound

theorem numeral_injective (large : 1 < base) {left right : List Nat}
    (sameLength : left.length = right.length) (leftProper : Proper base left)
    (rightProper : Proper base right) (equal : numeral base left = numeral base right) :
    left = right := by
  apply List.reverse_injective
  apply Nat.ofDigits_inj_of_len_eq large _ _ _ equal
  · rw [List.length_reverse, List.length_reverse, sameLength]
  · exact fun digit member => leftProper digit (List.mem_reverse.mp member)
  · exact fun digit member => rightProper digit (List.mem_reverse.mp member)

@[simp] theorem digitsOf_length (base count value : Nat) :
    (digitsOf base count value).length = count := by
  induction count with
  | zero => rfl
  | succ count induction => rw [digitsOf, List.length_cons, induction]

theorem proper_digitsOf (positive : 0 < base) (count value : Nat) :
    Proper base (digitsOf base count value) := by
  induction count with
  | zero => exact List.forall_mem_nil _
  | succ count induction =>
      intro digit member
      rcases List.mem_cons.mp member with first | other
      · rw [first]
        exact Nat.mod_lt _ positive
      · exact induction digit other

theorem numeral_digitsOf (base count value : Nat) :
    numeral base (digitsOf base count value) = value % base ^ count := by
  induction count with
  | zero => rw [pow_zero, Nat.mod_one]; rfl
  | succ count induction =>
      rw [digitsOf, numeral_cons, digitsOf_length, induction, pow_succ, Nat.mod_mul]
      ring

theorem digitsOf_numeral (large : 1 < base) {digits : List Nat} (proper : Proper base digits) :
    digitsOf base digits.length (numeral base digits) = digits := by
  apply numeral_injective large (digitsOf_length _ _ _) (proper_digitsOf (by omega) _ _) proper
  rw [numeral_digitsOf, Nat.mod_eq_of_lt (numeral_lt large proper)]

theorem digitsOf_succ_concat (base count value : Nat) :
    digitsOf base (count + 1) value = digitsOf base count (value / base) ++ [value % base] := by
  induction count generalizing value with
  | zero => simp [digitsOf]
  | succ count induction =>
      have quotient : value / base ^ (count + 1) = value / base / base ^ count := by
        rw [Nat.div_div_eq_div_mul, pow_succ']
      rw [digitsOf, induction, digitsOf, quotient]
      rfl

theorem digitsOf_zero (base count : Nat) : digitsOf base count 0 = List.replicate count 0 := by
  induction count with
  | zero => rfl
  | succ count induction =>
      rw [digitsOf, Nat.zero_div, Nat.zero_mod, induction, List.replicate_succ]

end Miningcore.Positional

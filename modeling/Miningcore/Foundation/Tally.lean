import Mathlib.Algebra.BigOperators.Group.List.Basic

/-! # Tallies

A tally accumulates amounts under keys, in the order in which the keys first
occurred, as a dictionary does that is only ever added to. -/

namespace Miningcore

abbrev Tally (Key Amount : Type) := List (Key × Amount)

namespace Tally

variable {Key Amount : Type} [DecidableEq Key] [AddCommMonoid Amount]

def add (key : Key) (amount : Amount) : Tally Key Amount → Tally Key Amount
  | [] => [(key, amount)]
  | (known, sum) :: entries =>
      if known = key then (known, sum + amount) :: entries
      else (known, sum) :: add key amount entries

omit [AddCommMonoid Amount] in
def find (key : Key) : Tally Key Amount → Option Amount
  | [] => none
  | (known, sum) :: entries => if known = key then some sum else find key entries

omit [AddCommMonoid Amount] in
/-- The entry of a key, as a dictionary sets it. -/
def set (key : Key) (amount : Amount) : Tally Key Amount → Tally Key Amount
  | [] => [(key, amount)]
  | (known, sum) :: entries =>
      if known = key then (known, amount) :: entries
      else (known, sum) :: set key amount entries

def amountOf (key : Key) (tally : Tally Key Amount) : Amount :=
  ((tally.filter fun entry => entry.1 = key).map Prod.snd).sum

def total (tally : Tally Key Amount) : Amount := (tally.map Prod.snd).sum

@[simp] theorem amountOf_nil (key : Key) : amountOf key ([] : Tally Key Amount) = 0 := rfl

omit [DecidableEq Key] in
@[simp] theorem total_nil : total ([] : Tally Key Amount) = 0 := rfl

theorem add_eq_set (key : Key) (amount : Amount) (tally : Tally Key Amount) :
    add key amount tally = tally.set key (match tally.find key with
      | none => amount
      | some sum => sum + amount) := by
  induction tally with
  | nil => rfl
  | cons entry entries induction =>
      rcases entry with ⟨known, sum⟩
      rw [add, set, find]
      by_cases same : known = key
      · rw [if_pos same, if_pos same, if_pos same]
      · rw [if_neg same, if_neg same, if_neg same, induction]

omit [AddCommMonoid Amount] in
theorem set_keys (key : Key) (amount : Amount) (tally : Tally Key Amount) :
    (tally.set key amount).map Prod.fst =
      if key ∈ tally.map Prod.fst then tally.map Prod.fst else tally.map Prod.fst ++ [key] := by
  induction tally with
  | nil => rfl
  | cons entry entries induction =>
      rcases entry with ⟨known, sum⟩
      rw [set]
      by_cases same : known = key
      · simp [same]
      · simp only [if_neg same, List.map_cons, induction, List.mem_cons, Ne.symm same, false_or]
        split_ifs
        · rfl
        · rfl

omit [AddCommMonoid Amount] in
theorem nodup_set {tally : Tally Key Amount} (unique : (tally.map Prod.fst).Nodup) (key : Key)
    (amount : Amount) : ((tally.set key amount).map Prod.fst).Nodup := by
  rw [set_keys]
  split_ifs with known
  · exact unique
  · rw [List.nodup_append]
    refine ⟨unique, List.pairwise_singleton _ _, ?_⟩
    rintro other isOther _ isKey rfl
    rw [List.mem_singleton.mp isKey] at isOther
    exact known isOther

theorem amountOf_cons (key known : Key) (sum : Amount) (entries : Tally Key Amount) :
    amountOf key ((known, sum) :: entries) =
      (if known = key then sum else 0) + amountOf key entries := by
  by_cases same : known = key <;> simp [amountOf, same]

theorem amountOf_append (key : Key) (left right : Tally Key Amount) :
    amountOf key (left ++ right) = amountOf key left + amountOf key right := by
  simp [amountOf]

theorem amountOf_of_notMem {key : Key} {tally : Tally Key Amount}
    (absent : key ∉ tally.map Prod.fst) : amountOf key tally = 0 := by
  induction tally with
  | nil => rfl
  | cons entry entries induction =>
      rw [List.map_cons, List.mem_cons, not_or] at absent
      rw [amountOf_cons, if_neg (Ne.symm absent.1), induction absent.2, add_zero]

theorem amountOf_map {Item : Type} (key : Key) (items : List Item) (keyOf : Item → Key)
    (amount : Item → Amount) :
    amountOf key (items.map fun item => (keyOf item, amount item)) =
      ((items.filter fun item => keyOf item = key).map amount).sum := by
  rw [amountOf, List.filter_map, List.map_map]
  rfl

theorem amountOf_map_of_nodup {Item : Type} {items : List Item} {keyOf : Item → Key}
    (distinct : (items.map keyOf).Nodup) {item : Item} (member : item ∈ items)
    (amount : Item → Amount) :
    amountOf (keyOf item) (items.map fun other => (keyOf other, amount other)) = amount item := by
  induction items with
  | nil => cases member
  | cons first items induction =>
      rw [List.map_cons, List.nodup_cons] at distinct
      rw [List.map_cons, amountOf_cons]
      rcases List.mem_cons.mp member with rfl | later
      · rw [if_pos rfl, amountOf_of_notMem, add_zero]
        rw [List.map_map]
        exact distinct.1
      · have different : keyOf first ≠ keyOf item := by
          intro same
          exact distinct.1 (same ▸ List.mem_map_of_mem later)
        rw [if_neg different, zero_add, induction distinct.2 later]

theorem amountOf_add (key other : Key) (amount : Amount) (tally : Tally Key Amount) :
    amountOf other (add key amount tally) =
      amountOf other tally + if key = other then amount else 0 := by
  induction tally with
  | nil => simp [add, amountOf_cons]
  | cons entry entries induction =>
      rcases entry with ⟨known, sum⟩
      by_cases same : known = key
      · subst same
        rw [add, if_pos rfl, amountOf_cons, amountOf_cons]
        by_cases hit : known = other
        · simp only [hit, if_true, add_assoc, add_comm amount]
        · simp only [hit, if_false, add_zero]
      · rw [add, if_neg same, amountOf_cons, amountOf_cons, induction, add_assoc]

theorem total_add (key : Key) (amount : Amount) (tally : Tally Key Amount) :
    total (add key amount tally) = total tally + amount := by
  induction tally with
  | nil => simp [add, total]
  | cons entry entries induction =>
      rcases entry with ⟨known, sum⟩
      by_cases same : known = key
      · simp only [add, same, if_true, total, List.map_cons, List.sum_cons, add_assoc,
          add_comm amount]
      · simp only [total] at induction
        simp only [add, same, if_false, total, List.map_cons, List.sum_cons, induction, add_assoc]

theorem forall_add {property : Amount → Prop} {key : Key} {amount : Amount}
    (created : property amount) (added : ∀ sum, property sum → property (sum + amount))
    {tally : Tally Key Amount} (holds : ∀ entry ∈ tally, property entry.2) :
    ∀ entry ∈ add key amount tally, property entry.2 := by
  induction tally with
  | nil =>
      intro entry member
      rw [List.mem_singleton.mp member]
      exact created
  | cons first entries induction =>
      rcases first with ⟨known, sum⟩
      have rest := induction fun entry member => holds entry (List.mem_cons_of_mem _ member)
      have head := holds (known, sum) List.mem_cons_self
      intro entry member
      rw [add] at member
      split_ifs at member
      · rcases List.mem_cons.mp member with rfl | later
        · exact added sum head
        · exact holds entry (List.mem_cons_of_mem _ later)
      · rcases List.mem_cons.mp member with rfl | later
        · exact head
        · exact rest entry later

end Tally

end Miningcore

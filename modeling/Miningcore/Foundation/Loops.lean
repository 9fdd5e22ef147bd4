import Mathlib.Data.List.Basic

/-! # Loops that may fail

A loop runs its body for the items of a list, from a state to the next one, until the body
fails. -/

namespace Miningcore.Loops

variable {State Item Value Failure : Type}

theorem foldlM_returns {body : State → Item → Except Failure State} {items : List Item}
    (invariant : State → Prop)
    (returns : ∀ state item, item ∈ items → invariant state →
      ∃ next, body state item = .ok next ∧ invariant next)
    {state : State} (holds : invariant state) :
    ∃ final, items.foldlM body state = .ok final ∧ invariant final := by
  induction items generalizing state with
  | nil => exact ⟨state, rfl, holds⟩
  | cons item items induction =>
      rcases returns state item List.mem_cons_self holds with ⟨next, step, nextHolds⟩
      rcases induction (fun state other inside => returns state other
        (List.mem_cons_of_mem _ inside)) nextHolds with ⟨final, run, finalHolds⟩
      refine ⟨final, ?_, finalHolds⟩
      rw [List.foldlM_cons, step]
      exact run

theorem foldlM_congr {body other : State → Item → Except Failure State} {items : List Item}
    (agree : ∀ state item, item ∈ items → body state item = other state item) (state : State) :
    items.foldlM body state = items.foldlM other state := by
  induction items generalizing state with
  | nil => rfl
  | cons item items induction =>
      rw [List.foldlM_cons, List.foldlM_cons, agree state item List.mem_cons_self]
      congr 1
      funext next
      exact induction (fun state other inside => agree state other
        (List.mem_cons_of_mem _ inside)) next

theorem mapM_returns {read : Item → Except Failure Value} {items : List Item}
    (returns : ∀ item ∈ items, ∃ value, read item = .ok value) :
    ∃ values, items.mapM read = .ok values ∧ values.length = items.length := by
  induction items with
  | nil => exact ⟨[], rfl, rfl⟩
  | cons item items induction =>
      rcases returns item List.mem_cons_self with ⟨value, reads⟩
      rcases induction (fun other inside => returns other (List.mem_cons_of_mem _ inside)) with
        ⟨values, readsOthers, length⟩
      refine ⟨value :: values, ?_, ?_⟩
      · rw [List.mapM_cons, reads, readsOthers]
        rfl
      · rw [List.length_cons, List.length_cons, length]

theorem mapM_getElem? {read : Item → Except Failure Value} {items : List Item}
    {values : List Value} (reads : items.mapM read = .ok values) {index : Nat} {item : Item}
    (isItem : items[index]? = some item) :
    ∃ value, read item = .ok value ∧ values[index]? = some value := by
  induction items generalizing values index with
  | nil => cases isItem
  | cons first items induction =>
      rw [List.mapM_cons] at reads
      cases readsFirst : read first with
      | error failure =>
          rw [readsFirst] at reads
          cases reads
      | ok value =>
          cases readsOthers : items.mapM read with
          | error failure =>
              rw [readsFirst, readsOthers] at reads
              cases reads
          | ok others =>
              rw [readsFirst, readsOthers] at reads
              cases reads
              cases index with
              | zero =>
                  rw [List.getElem?_cons_zero, Option.some.injEq] at isItem
                  rw [← isItem]
                  exact ⟨value, readsFirst, rfl⟩
              | succ index =>
                  rw [List.getElem?_cons_succ] at isItem ⊢
                  exact induction readsOthers isItem

end Miningcore.Loops

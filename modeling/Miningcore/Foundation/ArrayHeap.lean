import Mathlib.Data.List.Basic

/-! Arrays on a heap. What is done to an array in place is seen through every reference to
it. -/

namespace Miningcore

abbrev ArrayHeap (α : Type) := List (List α)

namespace ArrayHeap

variable {α β γ : Type}

abbrev Reference := Nat

abbrev Program (α : Type) := StateT (ArrayHeap α) Option

def newArray (contents : List α) : Program α Reference := fun heap =>
  some (heap.length, heap ++ [contents])

def readArray (reference : Reference) : Program α (List α) := fun heap =>
  heap[reference]?.map fun contents => (contents, heap)

def reverseArray (reference : Reference) : Program α Reference := fun heap =>
  if reference < heap.length then some (reference, heap.modify reference List.reverse) else none

theorem run_bind {program : Program α β} {heap after : ArrayHeap α} {value : β}
    (runs : program heap = some (value, after)) (next : β → Program α γ) :
    (program >>= next) heap = next value after := by
  simp only [bind, StateT.bind, runs, Option.bind_some]

theorem run_discard {program : Program α β} {heap after : ArrayHeap α} {value : β}
    (runs : program heap = some (value, after)) :
    discard program heap = some (⟨⟩, after) := by
  simp only [discard, Functor.discard, Functor.mapConst, Function.comp, StateT.map, runs]
  rfl

theorem run_lift {result : Option β} {value : β} (returns : result = some value)
    (heap : ArrayHeap α) : (liftM result : Program α β) heap = some (value, heap) := by
  rw [returns]
  rfl

theorem readArray_eq {heap : ArrayHeap α} {reference : Reference} {contents : List α}
    (held : heap[reference]? = some contents) :
    readArray reference heap = some (contents, heap) := by
  rw [readArray, held]
  rfl

theorem readArray_newest (heap : ArrayHeap α) (contents : List α) :
    readArray heap.length (heap ++ [contents]) = some (contents, heap ++ [contents]) :=
  readArray_eq List.getElem?_concat_length

theorem reverseArray_newest (heap : ArrayHeap α) (contents : List α) :
    reverseArray heap.length (heap ++ [contents]) =
      some (heap.length, heap ++ [contents.reverse]) := by
  rw [reverseArray, if_pos (by simp), List.modify_eq_take_cons_drop (by simp)]
  simp

theorem held_append {heap : ArrayHeap α} {reference : Reference} {contents : List α}
    (held : heap[reference]? = some contents) (added : ArrayHeap α) :
    (heap ++ added)[reference]? = some contents := by
  have inside := (List.getElem?_eq_some_iff.mp held).1
  rw [List.getElem?_append_left inside, held]

theorem mapM_run {compute : β → Program α γ} {value : β → γ} {contents : β → List α}
    (items : List β)
    (computes : ∀ item ∈ items, ∀ heap,
      compute item heap = some (value item, heap ++ [contents item])) (heap : ArrayHeap α) :
    items.mapM compute heap = some (items.map value, heap ++ items.map contents) := by
  induction items generalizing heap with
  | nil =>
      rw [List.map_nil, List.map_nil, List.append_nil]
      rfl
  | cons item items induction =>
      have others := induction fun other member => computes other (List.mem_cons_of_mem _ member)
      rw [List.mapM_cons, run_bind (computes item List.mem_cons_self heap), run_bind (others _),
        List.append_assoc]
      rfl

theorem forM_run {step : β → Program α PUnit} {Holds : ArrayHeap α → Prop}
    (keeps : ∀ item heap, Holds heap → ∃ after, step item heap = some (⟨⟩, after) ∧ Holds after)
    (items : List β) {heap : ArrayHeap α} (holds : Holds heap) :
    ∃ after, forM items step heap = some (⟨⟩, after) ∧ Holds after := by
  induction items generalizing heap with
  | nil => exact ⟨heap, rfl, holds⟩
  | cons item items induction =>
      rcases keeps item heap holds with ⟨between, runs, held⟩
      rcases induction held with ⟨after, rest, atEnd⟩
      use after
      rw [List.forM_cons, run_bind runs]
      exact ⟨rest, atEnd⟩

end ArrayHeap

end Miningcore

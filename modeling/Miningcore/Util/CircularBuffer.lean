import Mathlib.Data.List.GetD
import Miningcore.Foundation.Refinement
import Miningcore.Foundation.RingLayout
import Miningcore.Stratum.ShareAcceptance

/-! `CircularBuffer`: a bounded deque in an array. -/

namespace Miningcore.Util

open RingLayout

/-- The array, the index of the first element, the index after the last one and the number of
elements. -/
structure CircularBuffer (α : Type) where
  buffer : List α
  start : Nat
  «end» : Nat
  size : Nat
deriving DecidableEq

namespace CircularBuffer

variable {α : Type} [Inhabited α]

def new (capacity : Int) (items : List α) : Except Exception (CircularBuffer α) := do
  throwIf (capacity < 1) (.argument "Circular buffer cannot have negative or zero capacity.")
  throwIf (capacity < items.length) (.argument "Too many items to fit circular buffer")
  return {
    buffer := items ++ List.replicate (capacity.toNat - items.length) default
    start := 0
    «end» := if items.length = capacity then 0 else items.length
    size := items.length }

def capacity (ring : CircularBuffer α) : Nat := ring.buffer.length

def isFull (ring : CircularBuffer α) : Bool := ring.size = ring.capacity

def isEmpty (ring : CircularBuffer α) : Bool := ring.size = 0

def increment (ring : CircularBuffer α) (index : Nat) : Nat :=
  if index + 1 = ring.capacity then 0 else index + 1

def decrement (ring : CircularBuffer α) (index : Nat) : Nat :=
  (if index = 0 then ring.capacity else index) - 1

def internalIndex (ring : CircularBuffer α) (index : Int) : Int :=
  ring.start + (if index < ring.capacity - ring.start then index else index - ring.capacity)

/-- `buffer[index]`. -/
def read (ring : CircularBuffer α) (index : Int) : Except Exception α :=
  if index < 0 then .error .indexOutOfRange
  else match ring.buffer[index.toNat]? with
    | some item => .ok item
    | none => .error .indexOutOfRange

/-- `buffer[index] = value`. -/
def write (ring : CircularBuffer α) (index : Int) (value : α) :
    Except Exception (CircularBuffer α) :=
  if index < 0 ∨ ring.capacity ≤ index then .error .indexOutOfRange
  else .ok { ring with buffer := ring.buffer.set index.toNat value }

def item (ring : CircularBuffer α) (index : Int) : Except Exception α := do
  throwIf ring.isEmpty .indexOutOfRange
  throwIf (ring.size ≤ index) .indexOutOfRange
  ring.read (ring.internalIndex index)

def setItem (ring : CircularBuffer α) (index : Int) (value : α) :
    Except Exception (CircularBuffer α) := do
  throwIf ring.isEmpty .indexOutOfRange
  throwIf (ring.size ≤ index) .indexOutOfRange
  ring.write (ring.internalIndex index) value

def front (ring : CircularBuffer α) : Except Exception α := do
  throwIf ring.isEmpty .invalidOperation
  ring.read ring.start

def back (ring : CircularBuffer α) : Except Exception α := do
  throwIf ring.isEmpty .invalidOperation
  ring.read ((if ring.«end» ≠ 0 then ring.«end» else ring.size) - 1)

def pushBack (ring : CircularBuffer α) (value : α) : Except Exception (CircularBuffer α) := do
  let written ← ring.write ring.«end» value
  let «end» := ring.increment ring.«end»
  return if ring.isFull then { written with «end», start := «end» }
    else { written with «end», size := ring.size + 1 }

def pushFront (ring : CircularBuffer α) (value : α) : Except Exception (CircularBuffer α) := do
  let start := ring.decrement ring.start
  let written ← ring.write start value
  return if ring.isFull then { written with start, «end» := start }
    else { written with start, size := ring.size + 1 }

def popBack (ring : CircularBuffer α) : Except Exception (CircularBuffer α) := do
  throwIf ring.isEmpty .invalidOperation
  let «end» := ring.decrement ring.«end»
  let written ← ring.write «end» default
  return { written with «end», size := ring.size - 1 }

def popFront (ring : CircularBuffer α) : Except Exception (CircularBuffer α) := do
  throwIf ring.isEmpty .invalidOperation
  let written ← ring.write ring.start default
  return { written with start := ring.increment ring.start, size := ring.size - 1 }

/-- `ArrayOne`: offset and count of a segment. -/
def arrayOne (ring : CircularBuffer α) : Nat × Nat :=
  if ring.start < ring.«end» then (ring.start, ring.«end» - ring.start)
  else (ring.start, ring.buffer.length - ring.start)

def arrayTwo (ring : CircularBuffer α) : Nat × Nat :=
  if ring.start < ring.«end» then (ring.«end», 0) else (0, ring.«end»)

def segment (ring : CircularBuffer α) (bounds : Nat × Nat) : List α :=
  (ring.buffer.drop bounds.1).take bounds.2

/-- `GetEnumerator`. -/
def enumerate (ring : CircularBuffer α) : List α :=
  ring.segment ring.arrayOne ++ ring.segment ring.arrayTwo

/-- `ToArray`. What does not fit into an array of `Size` elements is not copied. -/
def toArray (ring : CircularBuffer α) : Except Exception (List α) := do
  throwIf (ring.size < ring.arrayOne.2)
    (.argument "Destination array was not long enough.")
  throwIf (ring.size < ring.arrayOne.2 + ring.arrayTwo.2)
    (.argument "Destination array was not long enough.")
  return ring.enumerate

example : (do
    let ring ← new 3 [1, 2]
    let ring ← ring.pushBack 3
    let ring ← ring.pushBack 4
    let ring ← ring.popFront
    ring.toArray) = Except.ok [3, 4] := by
  decide

/-! ## As a deque -/

/-- The items in order and, behind them, the free cells in the order of the ring. They are clear
until a negative index reaches them: it counts back from the first cell of the array, so that
`start` of them are not refused. -/
structure Deque (α : Type) where
  items : List α
  free : List α
  start : Nat
deriving DecidableEq

namespace Deque

def capacity (deque : Deque α) : Nat := deque.items.length + deque.free.length

def pushBack (deque : Deque α) (value : α) : Deque α :=
  match deque.free with
  | [] => {
      items := deque.items.tail ++ [value]
      free := []
      start := cell deque.capacity deque.start 1 }
  | _ :: free => { deque with items := deque.items ++ [value], free }

def pushFront (deque : Deque α) (value : α) : Deque α where
  items := value :: if deque.free = [] then deque.items.dropLast else deque.items
  free := deque.free.dropLast
  start := cell deque.capacity deque.start (deque.capacity - 1)

def popBack (deque : Deque α) : Except Exception (Deque α) :=
  if deque.items = [] then .error .invalidOperation
  else .ok { deque with items := deque.items.dropLast, free := default :: deque.free }

def popFront (deque : Deque α) : Except Exception (Deque α) :=
  if deque.items = [] then .error .invalidOperation
  else .ok {
    items := deque.items.tail
    free := deque.free ++ [default]
    start := cell deque.capacity deque.start 1 }

def place (deque : Deque α) (index : Int) : Except Exception Nat :=
  if deque.items = [] ∨ deque.items.length ≤ index then .error .indexOutOfRange
  else if 0 ≤ index then .ok index.toNat
  else if deque.start + index < 0 then .error .indexOutOfRange
  else .ok (deque.capacity + index).toNat

def item (deque : Deque α) (index : Int) : Except Exception α := do
  return (deque.items ++ deque.free).getD (← deque.place index) default

def setItem (deque : Deque α) (index : Int) (value : α) : Except Exception (Deque α) := do
  let place ← deque.place index
  return if place < deque.items.length then { deque with items := deque.items.set place value }
    else { deque with free := deque.free.set (place - deque.items.length) value }

variable {deque : Deque α}

omit [Inhabited α] in
theorem place_lt {index : Int} {place : Nat} (isPlace : deque.place index = .ok place) :
    place < deque.capacity := by
  have fits : deque.items.length ≤ deque.capacity := Nat.le_add_right _ _
  rw [Deque.place] at isPlace
  split_ifs at isPlace with outside <;> simp only [Except.ok.injEq] at isPlace
  · omega
  · have positive := List.length_pos_iff.mpr (not_or.mp outside).1
    omega

theorem item_natCast (index : Nat) : deque.item index =
    match deque.items[index]? with
      | some value => .ok value
      | none => .error .indexOutOfRange := by
  rw [item, place]
  cases isItem : deque.items[index]? with
  | none =>
      rw [List.getElem?_eq_none_iff] at isItem
      rw [if_pos (.inr (Int.ofNat_le.mpr isItem))]
      rfl
  | some value =>
      have inItems := (List.getElem?_eq_some_iff.mp isItem).1
      have nonempty : deque.items ≠ [] := List.length_pos_iff.mp (Nat.zero_lt_of_lt inItems)
      rw [if_neg (by rintro (empty | outside); exacts [nonempty empty, by omega]),
        if_pos (Int.natCast_nonneg _)]
      simp only [Int.toNat_natCast, bind, Except.bind, pure, Except.pure]
      rw [List.getD_append _ _ _ _ inItems, List.getD_eq_getElem?_getD, isItem, Option.getD_some]

end Deque

structure Holds (ring : CircularBuffer α) (deque : Deque α) : Prop where
  inside : ring.start < ring.capacity
  cells : ring.buffer.rotate ring.start = deque.items ++ deque.free
  starts : ring.start = deque.start
  atEnd : ring.«end» = cell ring.capacity ring.start deque.items.length
  counts : ring.size = deque.items.length

variable {ring : CircularBuffer α} {deque : Deque α}

omit [Inhabited α] in
theorem increment_eq {index : Nat} (inside : index < ring.capacity) :
    ring.increment index = cell ring.capacity index 1 := by
  rw [increment, cell]
  split_ifs <;> omega

omit [Inhabited α] in
theorem decrement_eq {index : Nat} (inside : index < ring.capacity) :
    ring.decrement index = cell ring.capacity index (ring.capacity - 1) := by
  rw [decrement, cell]
  split_ifs <;> omega

omit [Inhabited α] in
theorem write_eq {index : Nat} (inside : index < ring.capacity) (value : α) :
    ring.write index value = .ok { ring with buffer := ring.buffer.set index value } := by
  rw [write, if_neg (by omega), Int.toNat_natCast]

omit [Inhabited α] in
theorem read_eq {index : Nat} {value : α} (isValue : ring.buffer[index]? = some value) :
    ring.read index = .ok value := by
  rw [read, if_neg (by omega), Int.toNat_natCast, isValue]

namespace Holds

omit [Inhabited α] in
theorem capacity_eq (holds : Holds ring deque) : deque.capacity = ring.capacity := by
  rw [Deque.capacity, ← List.length_append, ← holds.cells, List.length_rotate]
  rfl

omit [Inhabited α] in
theorem fits (holds : Holds ring deque) : deque.items.length ≤ ring.capacity := by
  rw [← holds.capacity_eq]
  exact Nat.le_add_right _ _

omit [Inhabited α] in
theorem end_lt (holds : Holds ring deque) : ring.«end» < ring.capacity := by
  rw [holds.atEnd]
  exact cell_lt holds.inside holds.fits

omit [Inhabited α] in
theorem isEmpty_iff (holds : Holds ring deque) : ring.isEmpty = true ↔ deque.items = [] := by
  rw [isEmpty, holds.counts, decide_eq_true_iff, List.length_eq_zero_iff]

omit [Inhabited α] in
theorem isFull_iff (holds : Holds ring deque) : ring.isFull = true ↔ deque.free = [] := by
  rw [isFull, holds.counts, decide_eq_true_iff, ← holds.capacity_eq, Deque.capacity,
    ← List.length_eq_zero_iff]
  omega

omit [Inhabited α] in
theorem nonempty_eq (holds : Holds ring deque) (nonempty : deque.items ≠ [])
    (exception : Exception) {β : Type} (next : Except Exception β) :
    (do throwIf ring.isEmpty exception; next) = next := by
  rw [throwIf, if_neg (fun empty => nonempty (holds.isEmpty_iff.mp empty))]
  rfl

omit [Inhabited α] in
theorem empty_eq (holds : Holds ring deque) (empty : deque.items = [])
    (exception : Exception) {β : Type} (next : Except Exception β) :
    (do throwIf ring.isEmpty exception; next) = .error exception := by
  rw [throwIf, if_pos (holds.isEmpty_iff.mpr empty)]
  rfl

omit [Inhabited α] in
theorem checks_eq (holds : Holds ring deque) (index : Int) {β : Type}
    {next : Int → Except Exception β}
    (refuses : ∀ outside < 0, next outside = .error .indexOutOfRange) :
    (do
      throwIf ring.isEmpty .indexOutOfRange
      throwIf (ring.size ≤ index) .indexOutOfRange
      next (ring.internalIndex index)) = (do
      let place ← deque.place index
      next (cell ring.capacity ring.start place)) := by
  have inside := holds.inside
  have fits := holds.fits
  have counts := holds.counts
  have starts := holds.starts
  by_cases empty : deque.items = []
  · rw [holds.empty_eq empty, Deque.place, if_pos (.inl empty)]
    rfl
  · rw [holds.nonempty_eq empty, throwIf, Deque.place, holds.capacity_eq]
    by_cases outside : (deque.items.length : Int) ≤ index
    · rw [if_pos (by omega), if_pos (.inr outside)]
      rfl
    · rw [if_neg (by omega), if_neg (not_or.mpr ⟨empty, outside⟩)]
      by_cases positive : 0 ≤ index
      · have isCell : ring.internalIndex index = cell ring.capacity ring.start index.toNat := by
          rw [internalIndex, cell]
          split_ifs <;> omega
        rw [if_pos positive, isCell]
        rfl
      · have reached : ring.internalIndex index = ring.start + index := by
          rw [internalIndex, if_pos (by omega)]
        rw [if_neg positive]
        by_cases refused : deque.start + index < 0
        · rw [if_pos refused, reached]
          exact refuses _ (by omega)
        · have isCell : ring.start + index =
              cell ring.capacity ring.start (ring.capacity + index).toNat := by
            rw [cell]
            split_ifs <;> omega
          rw [if_neg refused, reached, isCell]
          rfl

omit [Inhabited α] in
theorem found (holds : Holds ring deque) {place : Nat} (inRing : place < ring.capacity) :
    ring.buffer[cell ring.capacity ring.start place]? = (deque.items ++ deque.free)[place]? := by
  rw [← holds.cells]
  exact getElem?_cell holds.inside inRing

theorem read_cell (holds : Holds ring deque) {place : Nat} (inRing : place < ring.capacity) :
    ring.read (cell ring.capacity ring.start place) =
      .ok ((deque.items ++ deque.free).getD place default) := by
  have inCells : place < (deque.items ++ deque.free).length := by
    rw [← holds.cells, List.length_rotate]
    exact inRing
  apply read_eq
  rw [holds.found inRing, List.getElem?_eq_getElem inCells, List.getD_eq_getElem _ _ inCells]

/-! ### Reading -/

theorem item_eq (holds : Holds ring deque) (index : Int) : ring.item index = deque.item index := by
  have refuses : ∀ outside < 0, ring.read outside = .error .indexOutOfRange :=
    fun _ negative => if_pos negative
  rw [item, holds.checks_eq index refuses, Deque.item]
  cases isPlace : deque.place index with
  | error exception => rfl
  | ok place => exact holds.read_cell (holds.capacity_eq ▸ Deque.place_lt isPlace)

theorem front_eq (holds : Holds ring deque) :
    ring.front = match deque.items.head? with
      | some value => .ok value
      | none => .error .invalidOperation := by
  rw [front]
  cases hasItems : deque.items with
  | nil => exact holds.empty_eq hasItems _ _
  | cons first rest =>
      have isFirst := holds.read_cell (Nat.zero_lt_of_lt holds.inside)
      rw [cell_zero holds.inside, hasItems] at isFirst
      rw [holds.nonempty_eq (by rw [hasItems]; exact List.cons_ne_nil _ _)]
      exact isFirst

theorem back_eq (holds : Holds ring deque) :
    ring.back = if deque.items = [] then .error .invalidOperation
      else if ring.«end» ≠ 0 then .ok (deque.items.getD (deque.items.length - 1) default)
      else if ring.start < deque.items.length then
        .ok (deque.items.getD (deque.items.length - 1 - ring.start) default)
      else .ok (deque.free.getD (deque.items.length - 1) default) := by
  have inside := holds.inside
  have fits := holds.fits
  have counts := holds.counts
  have atEnd := holds.atEnd
  rw [back]
  by_cases empty : deque.items = []
  · rw [if_pos empty]
    exact holds.empty_eq empty _ _
  · have positive := List.length_pos_iff.mpr empty
    have reads {place : Nat} (inRing : place < ring.capacity) {position : Int}
        (isCell : position = cell ring.capacity ring.start place) :
        ring.read position = .ok ((deque.items ++ deque.free).getD place default) := by
      rw [isCell]
      exact holds.read_cell inRing
    have readsItem {place : Nat} (isItem : place < deque.items.length) {position : Int}
        (isCell : position = cell ring.capacity ring.start place) :
        ring.read position = .ok (deque.items.getD place default) := by
      rw [reads (by omega) isCell, List.getD_append _ _ _ _ isItem]
    rw [if_neg empty, holds.nonempty_eq empty]
    by_cases notFirst : ring.«end» ≠ 0
    · rw [if_pos notFirst, if_pos notFirst]
      apply readsItem (by omega)
      rw [cell] at atEnd ⊢
      split_ifs at atEnd ⊢ <;> omega
    · have lastCell : ring.start + deque.items.length = ring.capacity := by
        rw [cell] at atEnd
        split_ifs at atEnd <;> omega
      rw [if_neg notFirst, if_neg notFirst]
      by_cases ahead : ring.start < deque.items.length
      · rw [if_pos ahead]
        apply readsItem (by omega)
        rw [cell, if_pos (by omega)]
        omega
      · have isFree : (deque.items ++ deque.free).getD
            (deque.items.length - 1 + deque.items.length) default =
              deque.free.getD (deque.items.length - 1) default := by
          rw [List.getD_append_right _ _ _ _ (Nat.le_add_left _ _), Nat.add_sub_cancel]
        rw [if_neg ahead, ← isFree]
        apply reads (by omega)
        rw [cell, if_neg (by omega)]
        omega

omit [Inhabited α] in
theorem enumerate_eq (holds : Holds ring deque) :
    ring.enumerate = if deque.items = [] then deque.free else deque.items := by
  have same : ring.enumerate = segments ring.buffer ring.start ring.«end» := by
    rw [enumerate, segment, segment, arrayOne, arrayTwo, segments]
    split_ifs with ordered
    · rw [List.take_zero, List.append_nil]
    · rw [List.drop_zero, List.take_of_length_le (by rw [List.length_drop])]
  have ends : ring.enumerate = if deque.items.length = 0 then deque.items ++ deque.free
      else (deque.items ++ deque.free).take deque.items.length := by
    rw [same, holds.atEnd, ← holds.cells]
    exact segments_eq holds.inside holds.fits
  rw [ends, List.take_left]
  by_cases empty : deque.items = []
  · rw [if_pos empty, empty, if_pos List.length_nil, List.nil_append]
  · rw [if_neg empty, if_neg (fun none => empty (List.length_eq_zero_iff.mp none))]

omit [Inhabited α] in
theorem toArray_eq (holds : Holds ring deque) :
    ring.toArray =
      if deque.items = [] then .error (.argument "Destination array was not long enough.")
      else .ok deque.items := by
  have inside := holds.inside
  have fits := holds.fits
  have atEnd := holds.atEnd
  have length : ring.buffer.length = ring.capacity := rfl
  rw [cell] at atEnd
  rw [toArray, holds.counts, holds.enumerate_eq, arrayOne, arrayTwo, length]
  by_cases empty : deque.items = []
  · rw [empty, List.length_nil] at atEnd
    rw [if_neg (by split_ifs at atEnd <;> omega : ¬ring.start < ring.«end»), if_pos empty, empty,
      throwIf, if_pos (by simp only [List.length_nil]; omega)]
    rfl
  · have positive := List.length_pos_iff.mpr empty
    rw [if_neg empty, if_neg empty, throwIf, throwIf, if_neg, if_neg]
    · rfl
    · split_ifs at atEnd ⊢ <;> simp only <;> omega
    · split_ifs at atEnd ⊢ <;> simp only <;> omega

/-! ### Writing -/

omit [Inhabited α] in
theorem set_eq (holds : Holds ring deque) {place : Nat} (inRing : place < ring.capacity)
    (value : α) :
    (ring.buffer.set (cell ring.capacity ring.start place) value).rotate ring.start =
      (deque.items ++ deque.free).set place value := by
  rw [← holds.cells]
  exact rotate_set holds.inside inRing value

omit [Inhabited α] in
theorem pushBack_eq (holds : Holds ring deque) (value : α) :
    ∃ pushed, ring.pushBack value = .ok pushed ∧ Holds pushed (deque.pushBack value) := by
  have inside := holds.inside
  have fits := holds.fits
  have whole := holds.capacity_eq
  have stored : (ring.buffer.set ring.«end» value).length = ring.capacity := List.length_set
  have next := increment_eq holds.end_lt
  rw [pushBack, write_eq holds.end_lt, Deque.pushBack]
  cases isFree : deque.free with
  | nil =>
      have full : deque.items.length = ring.capacity := by
        rw [← whole, Deque.capacity, isFree, List.length_nil, Nat.add_zero]
      have atStart : ring.«end» = ring.start := by rw [holds.atEnd, full, cell_full]
      have written := holds.set_eq (Nat.zero_lt_of_lt inside) value
      rw [cell_zero inside, isFree, List.append_nil] at written
      cases hasItems : deque.items with
      | nil =>
          rw [hasItems, List.length_nil] at full
          omega
      | cons first rest =>
          rw [hasItems, List.set_cons_zero] at written
          have rotated := rotate_next (by rw [List.length_set]; exact inside) written
          rw [List.length_set, ← capacity, ← atStart, ← next] at rotated
          rw [hasItems, List.length_cons] at full
          have length : (rest ++ [value]).length = ring.capacity := by
            rw [List.length_append, List.length_singleton, full]
          simp only [if_pos (holds.isFull_iff.mpr isFree)]
          refine ⟨_, rfl, ?_, ?_, ?_, ?_, ?_⟩
          · rw [capacity, stored, next]
            exact cell_lt holds.end_lt (Nat.one_le_of_lt inside)
          · rw [rotated, List.tail_cons, List.append_nil]
          · rw [next, atStart, holds.starts, whole]
          · rw [capacity, stored, List.tail_cons, length, cell_full]
          · rw [List.tail_cons, length, holds.counts, hasItems, List.length_cons, full]
  | cons taken free =>
      have room : deque.items.length < ring.capacity := by
        rw [← whole, Deque.capacity, isFree, List.length_cons]
        omega
      have notFull : ¬ring.isFull = true := by
        rw [holds.isFull_iff, isFree]
        exact List.cons_ne_nil _ _
      have written := holds.set_eq room value
      rw [← holds.atEnd, isFree, List.set_append_right _ _ le_rfl, Nat.sub_self,
        List.set_cons_zero] at written
      simp only [if_neg notFull]
      refine ⟨_, rfl, ?_, ?_, holds.starts, ?_, ?_⟩
      · rw [capacity, stored]
        exact inside
      · rw [written, List.append_assoc, List.singleton_append]
      · rw [capacity, stored, List.length_append, List.length_singleton, ← cell_cell inside room,
          ← holds.atEnd]
        exact next
      · rw [List.length_append, holds.counts, List.length_singleton]

omit [Inhabited α] in
theorem pushFront_eq (holds : Holds ring deque) (value : α) :
    ∃ pushed, ring.pushFront value = .ok pushed ∧ Holds pushed (deque.pushFront value) := by
  have inside := holds.inside
  have fits := holds.fits
  have whole := holds.capacity_eq
  have before := decrement_eq inside
  have beforeInside : ring.decrement ring.start < ring.capacity := by
    rw [before]
    exact cell_lt inside (Nat.sub_le _ _)
  have stored : (ring.buffer.set (ring.decrement ring.start) value).length = ring.capacity :=
    List.length_set
  -- The last place in the order of the ring becomes the first one.
  have moved {front : List α} {last : α}
      (split : deque.items ++ deque.free = front ++ [last]) :
      (ring.buffer.set (ring.decrement ring.start) value).rotate (ring.decrement ring.start) =
        value :: front := by
    have length : front.length = ring.capacity - 1 := by
      rw [← whole, Deque.capacity, ← List.length_append, split, List.length_append,
        List.length_singleton, Nat.add_sub_cancel]
    have written := holds.set_eq (by omega : ring.capacity - 1 < ring.capacity) value
    rw [← before, split, ← length, List.set_append_right _ _ le_rfl, Nat.sub_self,
      List.set_cons_zero] at written
    have rotated := rotate_before (by rw [List.length_set]; exact inside) written
    rw [List.length_set, ← capacity, ← before] at rotated
    exact rotated
  rw [pushFront, write_eq beforeInside, Deque.pushFront]
  rcases List.eq_nil_or_concat deque.free with isFree | ⟨free, taken, isFree⟩
  · have full : deque.items.length = ring.capacity := by
      rw [← whole, Deque.capacity, isFree, List.length_nil, Nat.add_zero]
    have nonempty : deque.items ≠ [] := by
      intro empty
      rw [empty, List.length_nil] at full
      omega
    have length : (value :: deque.items.dropLast).length = ring.capacity := by
      rw [List.length_cons, List.length_dropLast]
      omega
    have rotated := @moved deque.items.dropLast (deque.items.getLast nonempty)
      (by rw [isFree, List.append_nil, List.dropLast_append_getLast])
    simp only [if_pos (holds.isFull_iff.mpr isFree), if_pos isFree]
    refine ⟨_, rfl, ?_, ?_, ?_, ?_, ?_⟩
    · rw [capacity, stored]
      exact beforeInside
    · rw [rotated, isFree, List.dropLast_nil, List.append_nil]
    · rw [before, holds.starts, whole]
    · rw [capacity, stored, length, cell_full]
    · rw [length, holds.counts, full]
  · have isNonempty : deque.free ≠ [] := by
      rw [isFree, List.concat_eq_append]
      exact List.concat_ne_nil _ _
    have room : deque.items.length < ring.capacity := by
      rw [← whole, Deque.capacity, isFree, List.length_concat]
      omega
    have notFull : ¬ring.isFull = true := fun full => isNonempty (holds.isFull_iff.mp full)
    have rotated := @moved (deque.items ++ free) taken
      (by rw [isFree, List.concat_eq_append, List.append_assoc])
    simp only [if_neg notFull, if_neg isNonempty]
    refine ⟨_, rfl, ?_, ?_, ?_, ?_, ?_⟩
    · rw [capacity, stored]
      exact beforeInside
    · rw [rotated, isFree, List.concat_eq_append, List.dropLast_concat, List.cons_append]
    · rw [before, holds.starts, whole]
    · have around : ring.capacity - 1 + (deque.items.length + 1) - ring.capacity =
          deque.items.length := by
        omega
      rw [capacity, stored, List.length_cons, before,
        cell_around inside (Nat.sub_le _ _) room (by omega), around]
      exact holds.atEnd
    · rw [List.length_cons, holds.counts]

theorem popBack_eq (holds : Holds ring deque) (nonempty : deque.items ≠ []) :
    ∃ popped, ring.popBack = .ok popped ∧
      Holds popped
        { deque with items := deque.items.dropLast, free := default :: deque.free } := by
  have inside := holds.inside
  have fits := holds.fits
  have positive := List.length_pos_iff.mpr nonempty
  have inRing : deque.items.length - 1 < ring.capacity := by omega
  have last : ring.decrement ring.«end» =
      cell ring.capacity ring.start (deque.items.length - 1) := by
    have around : deque.items.length + (ring.capacity - 1) - ring.capacity =
        deque.items.length - 1 := by
      omega
    rw [decrement_eq holds.end_lt, holds.atEnd,
      cell_around inside fits (Nat.sub_le _ _) (by omega), around]
  have lastInside : ring.decrement ring.«end» < ring.capacity := by
    rw [last]
    exact cell_lt inside inRing.le
  have stored : (ring.buffer.set (ring.decrement ring.«end») default).length = ring.capacity :=
    List.length_set
  have cleared : (deque.items ++ deque.free).set (deque.items.length - 1) default =
      deque.items.dropLast ++ default :: deque.free := by
    have split : deque.items ++ deque.free =
        deque.items.dropLast ++ deque.items.getLast nonempty :: deque.free := by
      rw [← List.singleton_append, ← List.append_assoc, List.dropLast_append_getLast]
    rw [split, ← List.length_dropLast, List.set_append_right _ _ le_rfl, Nat.sub_self,
      List.set_cons_zero]
  have written := holds.set_eq inRing default
  rw [← last, cleared] at written
  rw [popBack, holds.nonempty_eq nonempty]
  simp only [write_eq lastInside]
  refine ⟨_, rfl, ?_, written, holds.starts, ?_, ?_⟩
  · rw [capacity, stored]
    exact inside
  · rw [capacity, stored, List.length_dropLast]
    exact last
  · rw [List.length_dropLast, holds.counts]

theorem popFront_eq (holds : Holds ring deque) (nonempty : deque.items ≠ []) :
    ∃ popped, ring.popFront = .ok popped ∧
      Holds popped {
        items := deque.items.tail
        free := deque.free ++ [default]
        start := cell deque.capacity deque.start 1 } := by
  have inside := holds.inside
  have fits := holds.fits
  have stored : (ring.buffer.set ring.start default).length = ring.capacity := List.length_set
  have next := increment_eq inside
  have written := holds.set_eq (Nat.zero_lt_of_lt inside) default
  rw [popFront, holds.nonempty_eq nonempty, write_eq inside]
  cases hasItems : deque.items with
  | nil => exact absurd hasItems nonempty
  | cons first rest =>
      rw [cell_zero inside, hasItems, List.cons_append, List.set_cons_zero] at written
      have rotated := rotate_next (by rw [List.length_set]; exact inside) written
      rw [List.length_set, ← capacity, ← next] at rotated
      rw [hasItems, List.length_cons] at fits
      refine ⟨_, rfl, ?_, ?_, ?_, ?_, ?_⟩
      · rw [capacity, stored, next]
        exact cell_lt inside (Nat.one_le_of_lt inside)
      · rw [rotated, List.tail_cons, List.append_assoc]
      · rw [next, holds.starts, holds.capacity_eq]
      · have atEnd : cell ring.capacity (cell ring.capacity ring.start 1) rest.length =
            ring.«end» := by
          rw [cell_cell inside (by omega), holds.atEnd, hasItems, List.length_cons, Nat.add_comm]
        rw [capacity, stored, next]
        exact atEnd.symm
      · rw [holds.counts, hasItems]
        rfl

omit [Inhabited α] in
theorem setItem_eq (holds : Holds ring deque) (index : Int) (value : α) :
    (∃ written others, ring.setItem index value = .ok written ∧
      deque.setItem index value = .ok others ∧ Holds written others) ∨
    ∃ exception, ring.setItem index value = .error exception ∧
      deque.setItem index value = .error exception := by
  have refuses : ∀ outside < 0, ring.write outside value = .error .indexOutOfRange :=
    fun _ negative => if_pos (.inl negative)
  rw [setItem, holds.checks_eq index refuses, Deque.setItem]
  cases isPlace : deque.place index with
  | error exception => exact .inr ⟨exception, rfl, rfl⟩
  | ok place =>
      have inRing : place < ring.capacity := holds.capacity_eq ▸ Deque.place_lt isPlace
      have inCells : cell ring.capacity ring.start place < ring.capacity :=
        cell_lt holds.inside inRing.le
      have rotated := holds.set_eq inRing value
      have written : CircularBuffer.capacity
          { ring with buffer := ring.buffer.set (cell ring.capacity ring.start place) value } =
            ring.capacity := List.length_set
      refine .inl ⟨_, _, write_eq inCells value, rfl, ?_⟩
      split_ifs with isItem
      · rw [List.set_append_left _ _ isItem] at rotated
        refine ⟨holds.inside.trans_eq written.symm, rotated, holds.starts, ?_, ?_⟩
        · rw [written, List.length_set]
          exact holds.atEnd
        · rw [List.length_set, holds.counts]
      · rw [List.set_append_right _ _ (Nat.le_of_not_lt isItem)] at rotated
        refine ⟨holds.inside.trans_eq written.symm, rotated, holds.starts, ?_, holds.counts⟩
        rw [written]
        exact holds.atEnd

end Holds

def created (capacity : Int) (items : List α) : Deque α where
  items := items
  free := List.replicate (capacity.toNat - items.length) default
  start := 0

theorem new_holds {capacity : Int} {items : List α} {ring : CircularBuffer α}
    (creates : new capacity items = .ok ring) :
    ring.capacity = capacity.toNat ∧ Holds ring (created capacity items) := by
  simp only [new, bind_eq_ok, throwIf_eq_ok, pure, Except.pure, Except.ok.injEq] at creates
  rcases creates with ⟨_, positive, _, fits, same⟩
  have length : (items ++ List.replicate (capacity.toNat - items.length) default).length =
      capacity.toNat := by
    rw [List.length_append, List.length_replicate]
    omega
  rw [← same]
  refine ⟨length, ?_, List.rotate_zero _, rfl, ?_, rfl⟩
  · rw [CircularBuffer.capacity, length]
    exact Int.pos_iff_toNat_pos.mp (Int.lt_of_not_ge fun negative => positive (by omega))
  · rw [CircularBuffer.capacity, length, created, cell]
    simp only
    split_ifs <;> omega

/-! ### Without writes behind the items -/

def Represents (ring : CircularBuffer α) (items : List α) : Prop :=
  ∃ start, Holds ring
    ⟨items, List.replicate (ring.capacity - items.length) default, start⟩

theorem new_represents {capacity : Int} {items : List α} {ring : CircularBuffer α}
    (creates : new capacity items = .ok ring) :
    ring.capacity = capacity.toNat ∧ ring.Represents items := by
  rcases new_holds creates with ⟨same, holds⟩
  rw [created, ← same] at holds
  exact ⟨same, 0, holds⟩

namespace Represents

variable {items : List α}

theorem counts (represents : ring.Represents items) : ring.size = items.length := by
  rcases represents with ⟨start, holds⟩
  exact holds.counts

theorem enumerate_eq (represents : ring.Represents items) :
    ring.enumerate =
      if items = [] then List.replicate ring.capacity default else items := by
  rcases represents with ⟨start, holds⟩
  have enumerates := holds.enumerate_eq
  by_cases empty : items = []
  · rw [if_pos empty, empty, List.length_nil, Nat.sub_zero] at enumerates
    rw [if_pos empty]
    exact enumerates
  · rw [if_neg empty] at enumerates ⊢
    exact enumerates

theorem pushBack_eq (represents : ring.Represents items) (value : α) :
    ∃ pushed, ring.pushBack value = .ok pushed ∧ pushed.capacity = ring.capacity ∧
      pushed.Represents
        ((if items.length < ring.capacity then items else items.tail) ++ [value]) := by
  rcases represents with ⟨start, holds⟩
  rcases holds.pushBack_eq value with ⟨pushed, pushes, kept⟩
  have whole := holds.capacity_eq
  have pushedWhole := kept.capacity_eq
  have fits := holds.fits
  simp only [Deque.capacity, List.length_replicate] at whole fits
  cases room : ring.capacity - items.length with
  | zero =>
      rw [Deque.pushBack, room, List.replicate_zero] at kept pushedWhole
      simp only [Deque.capacity, List.length_append, List.length_tail, List.length_singleton,
        List.length_nil] at pushedWhole
      have positive := Nat.zero_lt_of_lt holds.inside
      have same : pushed.capacity = ring.capacity := by omega
      refine ⟨pushed, pushes, same, ?_⟩
      rw [if_neg (by omega), Represents, List.length_append, List.length_tail,
        List.length_singleton, same, (by omega : ring.capacity - (items.length - 1 + 1) = 0)]
      exact ⟨_, kept⟩
  | succ others =>
      rw [Deque.pushBack, room, List.replicate_succ] at kept pushedWhole
      simp only [Deque.capacity, List.length_append, List.length_singleton,
        List.length_replicate] at pushedWhole
      have same : pushed.capacity = ring.capacity := by omega
      refine ⟨pushed, pushes, same, ?_⟩
      rw [if_pos (by omega), Represents, List.length_append, List.length_singleton, same,
        (by omega : ring.capacity - (items.length + 1) = others)]
      exact ⟨_, kept⟩

end Represents

/-! ## Runs -/

inductive Operation (α : Type)
  | pushBack (value : α)
  | pushFront (value : α)
  | popBack
  | popFront
  | setItem (index : Int) (value : α)

def apply (ring : CircularBuffer α) : Operation α → Except Exception (CircularBuffer α)
  | .pushBack value => ring.pushBack value
  | .pushFront value => ring.pushFront value
  | .popBack => ring.popBack
  | .popFront => ring.popFront
  | .setItem index value => ring.setItem index value

def Deque.apply (deque : Deque α) : Operation α → Except Exception (Deque α)
  | .pushBack value => .ok (deque.pushBack value)
  | .pushFront value => .ok (deque.pushFront value)
  | .popBack => deque.popBack
  | .popFront => deque.popFront
  | .setItem index value => deque.setItem index value

section Runs

variable {State : Type} (apply : State → Operation α → Except Exception State)

/-- An operation that throws leaves the buffer as it is. -/
def step (state : State) (operation : Operation α) : State :=
  match apply state operation with
  | .ok next => next
  | .error _ => state

def raised (state : State) (operation : Operation α) : Option Exception :=
  match apply state operation with
  | .ok _ => none
  | .error exception => some exception

end Runs

theorem apply_refines (holds : Holds ring deque) (operation : Operation α) :
    (∃ next others, ring.apply operation = .ok next ∧ deque.apply operation = .ok others ∧
      Holds next others) ∨
    ∃ exception, ring.apply operation = .error exception ∧
      deque.apply operation = .error exception := by
  cases operation with
  | pushBack value =>
      rcases holds.pushBack_eq value with ⟨next, pushes, kept⟩
      exact .inl ⟨next, _, pushes, rfl, kept⟩
  | pushFront value =>
      rcases holds.pushFront_eq value with ⟨next, pushes, kept⟩
      exact .inl ⟨next, _, pushes, rfl, kept⟩
  | popBack =>
      by_cases empty : deque.items = []
      · exact .inr ⟨_, holds.empty_eq empty _ _, if_pos empty⟩
      · rcases holds.popBack_eq empty with ⟨next, pops, kept⟩
        exact .inl ⟨next, _, pops, if_neg empty, kept⟩
  | popFront =>
      by_cases empty : deque.items = []
      · exact .inr ⟨_, holds.empty_eq empty _ _, if_pos empty⟩
      · rcases holds.popFront_eq empty with ⟨next, pops, kept⟩
        exact .inl ⟨next, _, pops, if_neg empty, kept⟩
  | setItem index value => exact holds.setItem_eq index value

theorem simulates :
    Refinement.Simulates (step (apply (α := α))) (raised apply) (step Deque.apply)
      (raised Deque.apply) Holds where
  steps := by
    intro ring deque operation holds
    rcases apply_refines holds operation with
      ⟨next, others, applied, deque, kept⟩ | ⟨exception, applied, deque⟩
    · simp only [step, applied, deque]
      exact kept
    · simp only [step, applied, deque]
      exact holds
  alike := by
    intro ring deque operation holds
    rcases apply_refines holds operation with
      ⟨next, others, applied, deque, _⟩ | ⟨exception, applied, deque⟩
    · simp only [raised, applied, deque]
    · simp only [raised, applied, deque]

/-- What can be read of a buffer. The enumeration of an empty buffer is that of all its cells, and
`Back` is too early where the items end in the last cell and do not begin in the first one. -/
structure Shows (ring : CircularBuffer α) (deque : Deque α) : Prop where
  size : ring.size = deque.items.length
  capacity : ring.capacity = deque.capacity
  item : ∀ index, ring.item index = deque.item index
  front : ring.front =
    match deque.items.head? with
    | some value => .ok value
    | none => .error .invalidOperation
  enumerate : ring.enumerate = if deque.items = [] then deque.free else deque.items
  toArray : ring.toArray =
    if deque.items = [] then .error (.argument "Destination array was not long enough.")
    else .ok deque.items
  back : (ring.«end» ≠ 0 ∨ ring.start = 0) → ring.back =
    match deque.items.getLast? with
    | some value => .ok value
    | none => .error .invalidOperation
  backEarly : ring.«end» = 0 → ring.start ≠ 0 → ring.back =
    .ok (if ring.start < deque.items.length then
      deque.items.getD (deque.items.length - 1 - ring.start) default
    else deque.free.getD (deque.items.length - 1) default)

theorem Holds.shows (holds : Holds ring deque) : Shows ring deque where
  size := holds.counts
  capacity := holds.capacity_eq.symm
  item := holds.item_eq
  front := holds.front_eq
  enumerate := holds.enumerate_eq
  toArray := holds.toArray_eq
  back := by
    intro regular
    rw [holds.back_eq]
    rcases List.eq_nil_or_concat deque.items with empty | ⟨front, last, split⟩
    · rw [if_pos empty, empty]
      rfl
    · have isLast : deque.items.getLast? = some last := by
        rw [split, List.concat_eq_append, List.getLast?_concat]
      have positive : 0 < deque.items.length := by
        rw [split, List.length_concat]
        exact Nat.zero_lt_succ _
      have found : deque.items.getD (deque.items.length - 1) default = last := by
        rw [List.getD_eq_getElem?_getD, ← List.getLast?_eq_getElem?, isLast, Option.getD_some]
      rw [if_neg (List.length_pos_iff.mp positive), isLast]
      by_cases atZero : ring.«end» ≠ 0
      · rw [if_pos atZero, found]
      · have first := regular.resolve_left atZero
        rw [if_neg atZero, first, if_pos positive, Nat.sub_zero, found]
  backEarly := by
    intro atZero started
    have inside := holds.inside
    have atEnd := holds.atEnd
    have nonempty : deque.items ≠ [] := by
      intro empty
      rw [empty, List.length_nil, atZero, cell_zero inside] at atEnd
      exact started atEnd.symm
    rw [holds.back_eq, if_neg nonempty, if_neg (not_not_intro atZero)]
    split_ifs <;> rfl

/-- A buffer is a bounded deque, in every run of its operations. -/
theorem refines_deque {capacity : Int} {items : List α} {ring : CircularBuffer α}
    (creates : new capacity items = .ok ring) (operations : List (Operation α)) :
    Refinement.answers (step apply) (raised apply) ring operations =
      Refinement.answers (step Deque.apply) (raised Deque.apply) (created capacity items)
        operations ∧
    Shows (Run.final (step apply) ring operations)
      (Run.final (step Deque.apply) (created capacity items) operations) := by
  have start := (new_holds creates).2
  exact ⟨simulates.answers_eq start operations, (simulates.final start operations).shows⟩

theorem refines_deque_popFront :
    Shows (Run.final (step apply) ⟨[1, 2, 3], 0, 0, 3⟩
        [.popFront, .setItem (-1) 7, .pushBack 4, .setItem (-1) 9, .setItem (-2) 8])
      ⟨[2, 3, 9], [], 1⟩ :=
  (refines_deque (by decide : new 3 [1, 2, 3] = .ok ⟨[1, 2, 3], 0, 0, 3⟩)
    [.popFront, .setItem (-1) 7, .pushBack 4, .setItem (-1) 9, .setItem (-2) 8]).2

example : (do
    let ring ← new 3 [1, 2, 3]
    let ring ← ring.popFront
    return (← ring.back, ← ring.toArray)) = Except.ok (2, [2, 3]) := by
  decide

end CircularBuffer

end Miningcore.Util

import Mathlib.Data.List.Basic
import Mathlib.Data.Nat.Init

/-! # Pages

A list is gone through page by page, and each page element by element. A loop that gives
every element its position in the list does not notice the pages. -/

namespace Miningcore.Paging

variable {Item Result : Type}

def pageCount (size length : Nat) : Nat := (length + size - 1) / size

def page (size : Nat) (items : List Item) (index : Nat) : List Item :=
  (items.drop (index * size)).take size

def pages (size : Nat) (items : List Item) : List (List Item) :=
  (List.range (pageCount size items.length)).map (page size items)

@[simp] theorem pages_nil {size : Nat} (positive : 0 < size) :
    pages size ([] : List Item) = [] := by
  have none : pageCount size 0 = 0 := Nat.div_eq_of_lt (by omega)
  rw [pages, List.length_nil, none]
  rfl

theorem pageCount_drop {size length : Nat} (positive : 0 < size) (nonempty : 0 < length) :
    pageCount size length = pageCount size (length - size) + 1 := by
  rw [pageCount, pageCount]
  rcases Nat.le_total size length with full | short
  · have split : length + size - 1 = (length - size + size - 1) + size := by omega
    rw [split, Nat.add_div_right _ positive]
  · have last : length - size = 0 := by omega
    have one : length + size - 1 = (length - 1) + size := by omega
    rw [last, one, Nat.add_div_right _ positive, Nat.div_eq_of_lt (by omega),
      Nat.div_eq_of_lt (by omega)]

theorem pages_of_ne_nil {size : Nat} (positive : 0 < size) {items : List Item}
    (nonempty : items ≠ []) :
    pages size items = items.take size :: pages size (items.drop size) := by
  have later : page size items ∘ Nat.succ = page size (items.drop size) := by
    funext index
    rw [Function.comp_apply, page, page, List.drop_drop]
    congr 2
    rw [Nat.succ_mul]
    omega
  rw [pages, pageCount_drop positive (List.length_pos_iff.mpr nonempty), List.range_succ_eq_map,
    List.map_cons, List.map_map, later, pages, List.length_drop]
  congr 1
  rw [page, Nat.zero_mul, List.drop_zero]

theorem pages_of_le {size : Nat} {items : List Item} (nonempty : items ≠ [])
    (atMost : items.length ≤ size) : pages size items = [items] := by
  have positive : 0 < size := Nat.lt_of_lt_of_le (List.length_pos_iff.mpr nonempty) atMost
  rw [pages_of_ne_nil positive nonempty, List.take_of_length_le atMost,
    List.drop_of_length_le atMost, pages_nil positive]

theorem page_induction {size : Nat} (positive : 0 < size) {motive : List Item → Prop}
    (nil : motive [])
    (behind : ∀ items, items ≠ [] → motive (items.drop size) → motive items)
    (items : List Item) : motive items := by
  induction length : items.length using Nat.strong_induction_on generalizing items with
  | _ count induction =>
      by_cases nonempty : items = []
      · rw [nonempty]
        exact nil
      · apply behind items nonempty
        have shorter : (items.drop size).length < count := by
          have counted := List.length_pos_iff.mpr nonempty
          rw [List.length_drop]
          omega
        exact induction _ shorter _ rfl

theorem ne_nil_of_mem_pages {size : Nat} (positive : 0 < size) {items member : List Item}
    (isPage : member ∈ pages size items) : member ≠ [] := by
  induction items using page_induction positive with
  | nil =>
      rw [pages_nil positive] at isPage
      cases isPage
  | behind items nonempty induction =>
      rw [pages_of_ne_nil positive nonempty] at isPage
      rcases List.mem_cons.mp isPage with rfl | later
      · intro nothing
        rcases List.take_eq_nil_iff.mp nothing with zero | isNil
        · omega
        · exact nonempty isNil
      · exact induction later

theorem mem_of_mem_pages {size : Nat} {items member : List Item}
    (isPage : member ∈ pages size items) {item : Item} (isItem : item ∈ member) : item ∈ items := by
  rcases List.mem_map.mp isPage with ⟨index, -, rfl⟩
  exact List.mem_of_mem_drop (List.mem_of_mem_take isItem)

/-! ## Loops -/

section Loops

variable {m : Type → Type} [Monad m]

def forEach (body : Nat → Item → m (List Result)) : Nat → List Item → m (List Result)
  | _, [] => pure []
  | position, item :: items => do
      let first ← body position item
      let rest ← forEach body (position + 1) items
      return first ++ rest

variable [LawfulMonad m]

theorem forEach_append (body : Nat → Item → m (List Result)) (position : Nat)
    (front back : List Item) :
    forEach body position (front ++ back) = (do
      let first ← forEach body position front
      let rest ← forEach body (position + front.length) back
      return first ++ rest) := by
  induction front generalizing position with
  | nil => simp [forEach]
  | cons item front induction =>
      have next : position + (item :: front).length = position + 1 + front.length := by
        rw [List.length_cons]
        omega
      rw [List.cons_append, forEach, forEach, induction, next]
      simp only [bind_assoc, pure_bind, List.append_assoc]

theorem forEach_pages {size : Nat} (positive : 0 < size)
    (body : Nat → Item → m (List Result)) (index : Nat) (items : List Item) :
    forEach (fun index page => forEach body (index * size) page) index (pages size items) =
      forEach body (index * size) items := by
  induction items using page_induction positive generalizing index with
  | nil => rw [pages_nil positive, forEach, forEach]
  | behind items nonempty induction =>
      rw [pages_of_ne_nil positive nonempty, forEach, induction (index + 1)]
      rcases Nat.lt_or_ge items.length size with short | full
      · have atMost := Nat.le_of_lt short
        rw [List.take_of_length_le atMost, List.drop_of_length_le atMost, forEach]
        simp
      · have next : (index + 1) * size = index * size + (items.take size).length := by
          rw [List.length_take, Nat.min_eq_left full, Nat.succ_mul]
        rw [next, ← forEach_append, List.take_append_drop]

end Loops

/-! ## Loops that may throw -/

section Exceptions

variable {Failure : Type} {body : Nat → Item → Except Failure (List Result)}

theorem forEach_of_ok (returned : Nat → Item → List Result) (start : Nat) (items : List Item)
    (returns : ∀ position item, items[position]? = some item →
      body (start + position) item = .ok (returned (start + position) item)) :
    forEach body start items =
      .ok ((items.zipIdx start).flatMap fun entry => returned entry.2 entry.1) := by
  induction items generalizing start with
  | nil => rfl
  | cons item items induction =>
      have first := returns 0 item rfl
      have rest := induction (start + 1) (by
        intro position other isOther
        have next := returns (position + 1) other isOther
        rwa [Nat.add_comm position 1, ← Nat.add_assoc] at next)
      rw [Nat.add_zero] at first
      rw [forEach, first, rest, List.zipIdx_cons, List.flatMap_cons]
      rfl

theorem forEach_cons_ok {start : Nat} {first : Item} {items : List Item} {results : List Result}
    (returns : forEach body start (first :: items) = .ok results) :
    ∃ own others, body start first = .ok own ∧ forEach body (start + 1) items = .ok others ∧
      results = own ++ others := by
  rw [forEach] at returns
  cases outcome : body start first with
  | error failure =>
      rw [outcome] at returns
      cases returns
  | ok own =>
      rw [outcome] at returns
      cases rest : forEach body (start + 1) items with
      | error failure =>
          simp only [rest] at returns
          cases returns
      | ok others =>
          simp only [rest] at returns
          cases returns
          exact ⟨own, others, rfl, rfl, rfl⟩

theorem forEach_body_ok {start : Nat} {items : List Item} {results : List Result}
    (returns : forEach body start items = .ok results) {position : Nat} {item : Item}
    (isItem : items[position]? = some item) :
    ∃ result, body (start + position) item = .ok result := by
  induction items generalizing start results position with
  | nil => cases isItem
  | cons first items induction =>
      rcases forEach_cons_ok returns with ⟨own, others, outcome, rest, -⟩
      cases position with
      | zero =>
          cases isItem
          exact ⟨own, outcome⟩
      | succ position =>
          rw [Nat.add_comm position 1, ← Nat.add_assoc]
          exact induction rest isItem

theorem mem_of_forEach {start : Nat} {items : List Item} {results : List Result}
    (returns : forEach body start items = .ok results) {result : Result}
    (isResult : result ∈ results) :
    ∃ position item own, items[position]? = some item ∧
      body (start + position) item = .ok own ∧ result ∈ own := by
  induction items generalizing start results with
  | nil =>
      cases returns
      cases isResult
  | cons first items induction =>
      rcases forEach_cons_ok returns with ⟨own, others, outcome, rest, rfl⟩
      rcases List.mem_append.mp isResult with now | later
      · exact ⟨0, first, own, rfl, outcome, now⟩
      · rcases induction rest later with ⟨position, item, own, isItem, isOwn, isMember⟩
        rw [Nat.add_assoc, Nat.add_comm 1] at isOwn
        exact ⟨position + 1, item, own, isItem, isOwn, isMember⟩

end Exceptions

end Miningcore.Paging

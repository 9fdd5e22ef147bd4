import Mathlib.Data.List.Basic
import Mathlib.Data.List.Nodup

/-! # Windows over the most recent items

A window keeps the latest few of the items it was given, the newest last. Items
that are told apart by an identifier and stand on a common base make a valid
window. -/

namespace Miningcore.RecentWindow

variable {Item Id Base : Type}

def latest (count : Nat) (items : List Item) : List Item := items.drop (items.length - count)

theorem latest_sublist (count : Nat) (items : List Item) : (latest count items).Sublist items :=
  List.drop_sublist _ _

theorem latest_length_le (count : Nat) (items : List Item) :
    (latest count items).length ≤ count := by
  rw [latest, List.length_drop]
  omega

theorem map_latest {Other : Type} (transform : Item → Other) (count : Nat) (items : List Item) :
    (latest count items).map transform = latest count (items.map transform) := by
  rw [latest, latest, List.map_drop, List.length_map]

variable (id : Item → Id) (base : Item → Base)

/-- A window of at most so many items: the newest is the last of them, no two have
the same identifier and all have the base of the newest. -/
structure Valid (bound : Nat) (newest : Option Item) (items : List Item) : Prop where
  last : items.getLast? = newest
  length : ∀ item ∈ newest, 1 ≤ items.length ∧ items.length ≤ bound
  ids : (items.map id).Nodup
  bases : ∀ item ∈ items, ∀ top ∈ newest, base item = base top

theorem valid_empty (bound : Nat) : Valid id base bound none ([] : List Item) where
  last := rfl
  length := by simp
  ids := List.nodup_nil
  bases := by simp

/-- What a new item has to share with an item that stays, and what not. -/
def Fits (kept : List Item) (item : Item) : Prop :=
  ∀ other ∈ kept, base other = base item ∧ id other ≠ id item

instance [DecidableEq Id] [DecidableEq Base] (kept : List Item) (item : Item) :
    Decidable (Fits id base kept item) := List.decidableBAll _ kept

theorem valid_append_iff {bound : Nat} {newest : Option Item} {items kept : List Item}
    {item : Item} (valid : Valid id base bound newest items) (sublist : kept.Sublist items)
    (room : kept.length < bound) :
    Valid id base bound (some item) (kept ++ [item]) ↔ Fits id base kept item := by
  constructor
  · intro appended other member
    have distinct := appended.ids
    rw [List.map_append, List.map_singleton, List.nodup_append] at distinct
    refine ⟨?_, ?_⟩
    · exact appended.bases other (List.mem_append_left _ member) item rfl
    · exact distinct.2.2 (id other) (List.mem_map_of_mem member) (id item) (by simp)
  · intro fits
    exact {
      last := by simp
      length := by
        intro _ _
        rw [List.length_append, List.length_singleton]
        omega
      ids := by
        rw [List.map_append, List.map_singleton, List.nodup_append]
        refine ⟨valid.ids.sublist (sublist.map id), List.nodup_singleton _, ?_⟩
        intro left isLeft right isRight
        rcases List.mem_map.mp isLeft with ⟨other, member, rfl⟩
        rw [List.mem_singleton.mp isRight]
        exact (fits other member).2
      bases := by
        intro other member top isTop
        cases isTop
        rcases List.mem_append.mp member with old | new
        · exact (fits other old).1
        · rw [List.mem_singleton.mp new] }

theorem mem_latest {bound count : Nat} {top : Item} {items : List Item}
    (valid : Valid id base bound (some top) items) (positive : 0 < count) :
    top ∈ latest count items := by
  have nonempty := (valid.length top rfl).1
  have last : (latest count items).getLast? = some top := by
    rw [latest, List.getLast?_drop, if_neg (by omega), valid.last]
  exact List.mem_of_getLast? last

theorem fits_latest_iff {bound count : Nat} {top item : Item} {items : List Item}
    (valid : Valid id base bound (some top) items) (positive : 0 < count) :
    Fits id base (latest count items) item ↔
      base top = base item ∧ id item ∉ (latest count items).map id := by
  constructor
  · intro fits
    refine ⟨(fits top (mem_latest id base valid positive)).1, ?_⟩
    intro member
    rcases List.mem_map.mp member with ⟨other, isOther, same⟩
    exact (fits other isOther).2 same
  · rintro ⟨same, fresh⟩ other member
    refine ⟨?_, ?_⟩
    · rw [← same]
      exact valid.bases other ((latest_sublist count items).subset member) top rfl
    · intro equal
      exact fresh (equal ▸ List.mem_map_of_mem member)

/-- What stays of a window beside a new item: nothing if the item starts afresh,
else as many items as leave room for it. -/
def kept (bound : Nat) (afresh : Bool) (items : List Item) : List Item :=
  if afresh then [] else latest (bound - 1) items

theorem map_kept {Other : Type} (transform : Item → Other) (bound : Nat) (afresh : Bool)
    (items : List Item) :
    (kept bound afresh items).map transform = kept bound afresh (items.map transform) := by
  cases afresh with
  | true => rfl
  | false => exact map_latest transform _ items

theorem kept_sublist (bound : Nat) (afresh : Bool) (items : List Item) :
    (kept bound afresh items).Sublist items := by
  cases afresh with
  | true => exact List.nil_sublist items
  | false => exact latest_sublist _ items

theorem kept_length_lt {bound : Nat} (positive : 0 < bound) (afresh : Bool) (items : List Item) :
    (kept bound afresh items).length < bound := by
  cases afresh with
  | true => exact positive
  | false =>
      have := latest_length_le (bound - 1) items
      change (latest (bound - 1) items).length < bound
      omega

/-- A window stays valid with a new item if and only if the item starts afresh, or
nothing stays beside it, or it has the base of the newest item and an identifier of
its own. -/
theorem valid_kept_iff {bound : Nat} {newest : Option Item} {items : List Item} {item : Item}
    {afresh : Bool} (valid : Valid id base bound newest items) (positive : 0 < bound)
    (first : newest = none → afresh = true) :
    Valid id base bound (some item) (kept bound afresh items ++ [item]) ↔
      (afresh = false → 1 < bound → (∀ top ∈ newest, base top = base item) ∧
        id item ∉ (kept bound afresh items).map id) := by
  rw [valid_append_iff id base valid (kept_sublist bound afresh items)
    (kept_length_lt positive afresh items)]
  cases afresh with
  | true => simp [kept, Fits]
  | false =>
      cases newest with
      | none => cases first rfl
      | some top =>
          by_cases several : 1 < bound
          · simp only [kept, Bool.false_eq_true, if_false, Option.mem_def, Option.some.injEq,
              forall_eq', forall_const, several]
            exact fits_latest_iff id base valid (by omega)
          · have one : bound - 1 = 0 := by omega
            simp [kept, Fits, latest, one, several]

end Miningcore.RecentWindow

import Mathlib.Data.List.Basic

/-! # Lists searched from the front

The components of the program keep their jobs in a list and act on the first one
that matches. -/

namespace Miningcore.Registry

variable {Entry Result : Type}

def updateFirst (found : Entry → Bool) (update : Entry → Entry × Result) :
    List Entry → Option (List Entry × Result)
  | [] => none
  | entry :: entries =>
      if found entry then
        let (updated, result) := update entry
        some (updated :: entries, result)
      else
        (updateFirst found update entries).map fun (rest, result) => (entry :: rest, result)

theorem updateFirst_some {found : Entry → Bool} {update : Entry → Entry × Result}
    {entries next : List Entry} {result : Result}
    (updated : updateFirst found update entries = some (next, result)) :
    ∃ front entry back, entries = front ++ entry :: back ∧ found entry = true ∧
      next = front ++ (update entry).1 :: back ∧ result = (update entry).2 := by
  induction entries generalizing next with
  | nil => cases updated
  | cons entry entries induction =>
      simp only [updateFirst] at updated
      split_ifs at updated with matching
      · cases updated
        exact ⟨[], entry, entries, rfl, matching, rfl, rfl⟩
      · rcases Option.map_eq_some_iff.mp updated with ⟨⟨rest, inner⟩, later, equal⟩
        cases equal
        rcases induction later with ⟨front, entry', back, rfl, matching', rfl, rfl⟩
        exact ⟨entry :: front, entry', back, rfl, matching', rfl, rfl⟩

theorem updateFirst_result (found : Entry → Bool) (update : Entry → Entry × Result)
    (entries : List Entry) :
    (updateFirst found update entries).map Prod.snd =
      (entries.find? found).map fun entry => (update entry).2 := by
  induction entries with
  | nil => rfl
  | cons entry entries induction =>
      rw [updateFirst, List.find?_cons]
      cases matching : found entry with
      | true => rfl
      | false =>
          rw [if_neg Bool.false_ne_true, Option.map_map]
          exact induction

theorem map_set_eq {Value : Type} (view : Entry → Value) {entries : List Entry} {index : Nat}
    {entry updated : Entry} (found : entries[index]? = some entry)
    (same : view updated = view entry) :
    (entries.set index updated).map view = entries.map view := by
  apply List.ext_getElem?
  intro other
  rw [List.getElem?_map, List.getElem?_map, List.getElem?_set]
  split_ifs with isIndex inside
  · rw [← isIndex, found, Option.map_some, Option.map_some, same]
  · rw [← isIndex, List.getElem?_eq_none (by omega)]
  · rfl

end Miningcore.Registry

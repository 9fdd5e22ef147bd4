import Mathlib.Data.List.AList

/-! # Dictionaries that lose entries

A component that keeps its items in a dictionary looks through the keys, and then removes those
whose items are obsolete. -/

namespace Miningcore.Dictionary

variable {Key Item : Type} [DecidableEq Key]

def removeKeys (keys : List Key) (dictionary : AList fun _ : Key => Item) :
    AList fun _ : Key => Item :=
  keys.foldl (fun rest key => rest.erase key) dictionary

theorem lookup_removeKeys (keys : List Key) (dictionary : AList fun _ : Key => Item) (key : Key) :
    (removeKeys keys dictionary).lookup key =
      if key ∈ keys then none else dictionary.lookup key := by
  induction keys generalizing dictionary with
  | nil => rfl
  | cons first keys induction =>
      change (removeKeys keys (dictionary.erase first)).lookup key = _
      rw [induction]
      by_cases isFirst : key = first
      · rw [if_pos (List.mem_cons.mpr (.inl isFirst)), isFirst, AList.lookup_erase, ite_self]
      · simp only [List.mem_cons, isFirst, false_or, AList.lookup_erase_ne isFirst]

def obsoleteKeys (obsolete : Item → Bool) (dictionary : AList fun _ : Key => Item) : List Key :=
  dictionary.keys.filter fun key => (dictionary.lookup key).any obsolete

theorem mem_obsoleteKeys {obsolete : Item → Bool} {dictionary : AList fun _ : Key => Item}
    {key : Key} :
    key ∈ obsoleteKeys obsolete dictionary ↔ (dictionary.lookup key).any obsolete = true := by
  rw [obsoleteKeys, List.mem_filter, and_iff_right_iff_imp]
  intro isObsolete
  rw [← AList.mem_keys, ← AList.lookup_isSome]
  cases found : dictionary.lookup key with
  | none =>
      rw [found] at isObsolete
      cases isObsolete
  | some item => rfl

def prune (obsolete : Item → Bool) (dictionary : AList fun _ : Key => Item) :
    AList fun _ : Key => Item :=
  removeKeys (obsoleteKeys obsolete dictionary) dictionary

theorem lookup_prune_eq_some {obsolete : Item → Bool} {dictionary : AList fun _ : Key => Item}
    {key : Key} {item : Item} :
    (prune obsolete dictionary).lookup key = some item ↔
      dictionary.lookup key = some item ∧ obsolete item = false := by
  rw [prune, lookup_removeKeys]
  simp only [mem_obsoleteKeys]
  cases found : dictionary.lookup key with
  | none => simp
  | some kept =>
      cases isObsolete : obsolete kept with
      | true =>
          rw [Option.any_some, if_pos isObsolete]
          constructor
          · rintro ⟨⟩
          · rintro ⟨⟨rfl⟩, isKept⟩
            rw [isObsolete] at isKept
            cases isKept
      | false =>
          rw [Option.any_some, if_neg (by rw [isObsolete]; exact Bool.false_ne_true)]
          constructor
          · rintro ⟨⟩
            exact ⟨rfl, isObsolete⟩
          · exact And.left

end Miningcore.Dictionary

import Mathlib.Data.Finset.Card
import Mathlib.Data.List.MinMax
import Mathlib.Data.List.Nodup

/-! # Caches that evict what was used least recently

Entries are found by a key and stamped with the time of their last use. A new entry takes the
room of the one with the oldest stamp, once a cache is full. -/

namespace Miningcore.LeastRecentlyUsed

structure Entry (Key Value Stamp : Type) where
  key : Key
  value : Value
  stamp : Stamp
deriving DecidableEq

variable {Key Value Stamp : Type} [DecidableEq Key] [DecidableEq Value] [LinearOrder Stamp]

def keys (entries : List (Entry Key Value Stamp)) : List Key := entries.map Entry.key

def oldest (entries : List (Entry Key Value Stamp)) : Option (Entry Key Value Stamp) :=
  entries.argmin Entry.stamp

def makeRoom (capacity : Nat) (entries : List (Entry Key Value Stamp)) :
    List (Entry Key Value Stamp) :=
  if capacity ≤ entries.length then
    match oldest entries with
    | none => entries
    | some entry => entries.erase entry
  else entries

def touch (key : Key) (now : Stamp) (entries : List (Entry Key Value Stamp)) :
    List (Entry Key Value Stamp) :=
  entries.map fun entry => if entry.key = key then { entry with stamp := now } else entry

/-- The entry with a key is used; if there is none, one with a value is added. -/
def use (capacity : Nat) (key : Key) (value : Value) (now : Stamp)
    (entries : List (Entry Key Value Stamp)) : List (Entry Key Value Stamp) :=
  if key ∈ keys entries then touch key now entries
  else makeRoom capacity entries ++ [⟨key, value, now⟩]

omit [DecidableEq Key] [DecidableEq Value] in
theorem oldest_map {Item : Type} (view : Item → Entry Key Value Stamp) (items : List Item) :
    oldest (items.map view) = (items.argmin fun item => (view item).stamp).map view := by
  induction items using List.reverseRecOn with
  | nil => rfl
  | append_singleton items item induction =>
      rw [oldest] at induction
      rw [oldest, List.map_append, List.map_singleton, List.argmin_concat, List.argmin_concat,
        induction]
      cases items.argmin fun item => (view item).stamp with
      | none => rfl
      | some least =>
          by_cases smaller : (view item).stamp < (view least).stamp
          · simp only [Option.map_some, smaller, if_true]
          · simp only [Option.map_some, smaller, if_false]

/-! ## What every use keeps -/

/-- No more entries than there is room for, each with a key and a stamp of its own. -/
structure Within (capacity : Nat) (entries : List (Entry Key Value Stamp)) : Prop where
  keys : (keys entries).Nodup
  stamps : (entries.map Entry.stamp).Nodup
  length : entries.length ≤ capacity

omit [DecidableEq Key] [DecidableEq Value] [LinearOrder Stamp] in
theorem within_nil (capacity : Nat) : Within capacity ([] : List (Entry Key Value Stamp)) where
  keys := List.nodup_nil
  stamps := List.nodup_nil
  length := Nat.zero_le _

theorem makeRoom_sublist (capacity : Nat) (entries : List (Entry Key Value Stamp)) :
    (makeRoom capacity entries).Sublist entries := by
  rw [makeRoom]
  split
  · split
    · exact List.Sublist.refl entries
    · exact List.erase_sublist
  · exact List.Sublist.refl entries

theorem makeRoom_length {capacity : Nat} (positive : 0 < capacity)
    {entries : List (Entry Key Value Stamp)} (length : entries.length ≤ capacity) :
    (makeRoom capacity entries).length < capacity := by
  rw [makeRoom]
  split
  · rename_i full
    split
    · rename_i empty
      rw [oldest, List.argmin_eq_none] at empty
      rw [empty]
      exact positive
    · rename_i entry found
      have removed := List.length_erase_of_mem (List.argmin_mem found)
      omega
  · rename_i room
    exact Nat.lt_of_not_le room

omit [DecidableEq Value] [LinearOrder Stamp] in
theorem keys_touch (key : Key) (now : Stamp) (entries : List (Entry Key Value Stamp)) :
    keys (touch key now entries) = keys entries := by
  rw [keys, keys, touch, List.map_map]
  apply List.map_congr_left
  intro entry _
  rw [Function.comp]
  split <;> rfl

omit [DecidableEq Value] [LinearOrder Stamp] in
theorem touch_absent {key : Key} {entries : List (Entry Key Value Stamp)}
    (absent : key ∉ keys entries) (now : Stamp) : touch key now entries = entries := by
  have same : touch key now entries = entries.map id := by
    apply List.map_congr_left
    intro entry member
    apply if_neg
    intro isKey
    rw [← isKey] at absent
    exact absent (List.mem_map_of_mem member)
  rw [same, List.map_id]

omit [DecidableEq Value] [LinearOrder Stamp] in
theorem mem_touch {key : Key} {now : Stamp} {entries : List (Entry Key Value Stamp)}
    {entry : Entry Key Value Stamp} (member : entry ∈ touch key now entries) :
    (entry.key = key ∧ entry.stamp = now) ∨ (entry.key ≠ key ∧ entry ∈ entries) := by
  rcases List.mem_map.mp member with ⟨old, oldMember, same⟩
  split at same
  · rename_i isKey
    rw [← same]
    exact .inl ⟨isKey, rfl⟩
  · rename_i otherKey
    rw [← same]
    exact .inr ⟨otherKey, oldMember⟩

omit [DecidableEq Value] in
theorem touch_stamps {key : Key} {now : Stamp} {entries : List (Entry Key Value Stamp)}
    (distinctKeys : (keys entries).Nodup) (stamps : (entries.map Entry.stamp).Nodup)
    (later : ∀ entry ∈ entries, entry.stamp < now) :
    ((touch key now entries).map Entry.stamp).Nodup := by
  induction entries with
  | nil => exact List.nodup_nil
  | cons entry entries induction =>
      rcases List.nodup_cons.mp distinctKeys with ⟨keyApart, restKeys⟩
      rcases List.nodup_cons.mp stamps with ⟨stampApart, restStamps⟩
      have rest := induction restKeys restStamps
        fun other member => later other (List.mem_cons_of_mem _ member)
      rw [touch, List.map_cons, List.map_cons]
      apply List.nodup_cons.mpr ⟨_, rest⟩
      intro member
      rcases List.mem_map.mp member with ⟨other, otherMember, sameStamp⟩
      rcases mem_touch otherMember with ⟨isKey, isNow⟩ | ⟨_, old⟩
      · by_cases first : entry.key = key
        · have restOther : key ∈ keys (touch key now entries) := by
            exact List.mem_map.mpr ⟨other, otherMember, isKey⟩
          rw [keys_touch, ← first] at restOther
          exact keyApart restOther
        · rw [if_neg first, isNow] at sameStamp
          exact (later entry List.mem_cons_self).ne sameStamp.symm
      · by_cases first : entry.key = key
        · rw [if_pos first] at sameStamp
          exact (later other (List.mem_cons_of_mem _ old)).ne sameStamp
        · rw [if_neg first] at sameStamp
          exact stampApart (List.mem_map.mpr ⟨other, old, sameStamp⟩)

theorem mem_use {capacity : Nat} {key : Key} {value : Value} {now : Stamp}
    {entries : List (Entry Key Value Stamp)} {entry : Entry Key Value Stamp}
    (member : entry ∈ use capacity key value now entries) :
    (entry.key = key ∧ entry.stamp = now) ∨ (entry.key ≠ key ∧ entry ∈ entries) := by
  rw [use] at member
  split at member
  · exact mem_touch member
  · rename_i absent
    rcases List.mem_append.mp member with old | new
    · have oldMember := (makeRoom_sublist capacity entries).subset old
      refine .inr ⟨?_, oldMember⟩
      intro isKey
      rw [← isKey] at absent
      exact absent (List.mem_map_of_mem oldMember)
    · rw [List.mem_singleton.mp new]
      exact .inl ⟨rfl, rfl⟩

theorem use_within {capacity : Nat} (positive : 0 < capacity) {key : Key} {value : Value}
    {now : Stamp} {entries : List (Entry Key Value Stamp)} (within : Within capacity entries)
    (later : ∀ entry ∈ entries, entry.stamp < now) :
    Within capacity (use capacity key value now entries) := by
  rw [use]
  split
  · constructor
    · rw [keys_touch]
      exact within.keys
    · exact touch_stamps within.keys within.stamps later
    · rw [touch, List.length_map]
      exact within.length
  · rename_i absent
    have sublist := makeRoom_sublist capacity entries
    constructor
    · rw [keys, List.map_append, List.map_singleton, ← List.concat_eq_append]
      apply List.Nodup.concat _ (within.keys.sublist (sublist.map _))
      intro member
      exact absent ((sublist.map Entry.key).subset member)
    · rw [List.map_append, List.map_singleton, ← List.concat_eq_append]
      apply List.Nodup.concat _ (within.stamps.sublist (sublist.map _))
      intro member
      rcases List.mem_map.mp ((sublist.map Entry.stamp).subset member) with ⟨entry, old, same⟩
      exact (later entry old).ne same
    · rw [List.length_append, List.length_singleton]
      exact makeRoom_length positive within.length

theorem use_stamps {capacity : Nat} {key : Key} {value : Value} {now : Stamp}
    {entries : List (Entry Key Value Stamp)} (later : ∀ entry ∈ entries, entry.stamp < now) :
    ∀ entry ∈ use capacity key value now entries, entry.stamp ≤ now := by
  intro entry member
  rcases mem_use member with ⟨_, isNow⟩ | ⟨_, old⟩
  · exact isNow.le
  · exact (later entry old).le

/-! ## What stays -/

/-- The cache has a value under a key, and what was used later than the key are others. -/
def Keeps (key : Key) (value : Value) (others : Finset Key)
    (entries : List (Entry Key Value Stamp)) : Prop :=
  ∃ entry ∈ entries, entry.key = key ∧ entry.value = value ∧
    ∀ other ∈ entries, entry.stamp < other.stamp → other.key ∈ others

theorem use_keeps_own {capacity : Nat} {key : Key} {value : Value} {now : Stamp}
    {entries : List (Entry Key Value Stamp)} (later : ∀ entry ∈ entries, entry.stamp < now) :
    ∃ kept, Keeps key kept ∅ (use capacity key value now entries) ∧
      (kept = value ∨ ∃ entry ∈ entries, entry.key = key ∧ entry.value = kept) := by
  have newest : ∀ other ∈ use capacity key value now entries, ¬now < other.stamp :=
    fun other member => not_lt.mpr (use_stamps later other member)
  by_cases present : key ∈ keys entries
  · rcases List.mem_map.mp present with ⟨entry, member, isKey⟩
    refine ⟨entry.value, ⟨{ entry with stamp := now }, ?_, isKey, rfl, ?_⟩, ?_⟩
    · rw [use, if_pos present, touch]
      exact List.mem_map.mpr ⟨entry, member, if_pos isKey⟩
    · intro other otherMember after
      exact absurd after (newest other otherMember)
    · exact .inr ⟨entry, member, isKey, rfl⟩
  · refine ⟨value, ⟨⟨key, value, now⟩, ?_, rfl, rfl, ?_⟩, .inl rfl⟩
    · rw [use, if_neg present]
      exact List.mem_append_right _ (List.mem_singleton_self _)
    · intro other otherMember after
      exact absurd after (newest other otherMember)

theorem others_card {capacity : Nat} {key : Key} {others : Finset Key}
    {entries : List (Entry Key Value Stamp)} {entry : Entry Key Value Stamp}
    (within : Within capacity entries) (full : capacity ≤ entries.length)
    (found : oldest entries = some entry)
    (after : ∀ other ∈ entries, entry.stamp < other.stamp → other.key ∈ others)
    (absent : key ∉ keys entries) : capacity ≤ (insert key (others.erase entry.key)).card := by
  have member : entry ∈ entries := List.argmin_mem found
  have restNodup : (keys (entries.erase entry)).Nodup :=
    within.keys.sublist (List.erase_sublist.map _)
  have restAbsent : key ∉ keys (entries.erase entry) := fun isRest =>
    absent ((List.erase_sublist.map _).subset isRest)
  have inside : (key :: keys (entries.erase entry)).toFinset ⊆
      insert key (others.erase entry.key) := by
    rw [List.toFinset_cons]
    apply Finset.insert_subset_insert
    intro otherKey isOther
    rcases List.mem_map.mp (List.mem_toFinset.mp isOther) with ⟨other, restMember, same⟩
    have nodup : entries.Nodup := List.Nodup.of_map _ within.keys
    rcases nodup.mem_erase_iff.mp restMember with ⟨different, otherMember⟩
    have distinctKey : other.key ≠ entry.key := fun equal =>
      different (List.inj_on_of_nodup_map within.keys otherMember member equal)
    have distinctStamp : entry.stamp ≠ other.stamp := fun equal =>
      different (List.inj_on_of_nodup_map within.stamps otherMember member equal.symm)
    have isLater : entry.stamp < other.stamp :=
      lt_of_le_of_ne (List.le_of_mem_argmin otherMember found) distinctStamp
    rw [← same, Finset.mem_erase]
    exact ⟨distinctKey, after other otherMember isLater⟩
  have counted := Finset.card_le_card inside
  rw [List.toFinset_card_of_nodup (List.nodup_cons.mpr ⟨restAbsent, restNodup⟩), List.length_cons,
    keys, List.length_map, List.length_erase_of_mem member] at counted
  omega

theorem use_keeps {capacity : Nat} {key : Key} {value : Value} {others : Finset Key}
    {entries : List (Entry Key Value Stamp)} (within : Within capacity entries)
    (keeps : Keeps key value others entries) {usedKey : Key} {created : Value} {now : Stamp}
    (later : ∀ entry ∈ entries, entry.stamp < now)
    (few : ((insert usedKey others).erase key).card < capacity) :
    Keeps key value (insert usedKey others) (use capacity usedKey created now entries) := by
  rcases keeps with ⟨entry, member, isKey, isValue, after⟩
  have others_use : ∀ other ∈ use capacity usedKey created now entries,
      entry.stamp < other.stamp → other.key ∈ insert usedKey others := by
    intro other otherMember isLater
    rcases mem_use otherMember with ⟨isUsed, _⟩ | ⟨_, old⟩
    · exact Finset.mem_insert.mpr (.inl isUsed)
    · exact Finset.mem_insert.mpr (.inr (after other old isLater))
  by_cases present : usedKey ∈ keys entries
  · by_cases isUsed : entry.key = usedKey
    · refine ⟨{ entry with stamp := now }, ?_, isKey, isValue, ?_⟩
      · rw [use, if_pos present, touch]
        exact List.mem_map.mpr ⟨entry, member, if_pos isUsed⟩
      · intro other otherMember isLater
        exact absurd isLater (not_lt.mpr (use_stamps later other otherMember))
    · refine ⟨entry, ?_, isKey, isValue, others_use⟩
      rw [use, if_pos present, touch]
      exact List.mem_map.mpr ⟨entry, member, if_neg isUsed⟩
  · refine ⟨entry, ?_, isKey, isValue, others_use⟩
    rw [use, if_neg present, List.mem_append, makeRoom]
    left
    split
    · rename_i full
      split
      · exact member
      · rename_i evicted found
        apply (List.mem_erase_of_ne _).mpr member
        intro isEvicted
        rw [← isEvicted] at found
        have count := others_card within full found after present
        have otherKey : usedKey ≠ key := by
          intro equal
          apply present
          rw [equal, ← isKey]
          exact List.mem_map_of_mem member
        rw [Finset.erase_insert_of_ne otherKey, ← isKey] at few
        exact absurd few (not_lt.mpr count)
    · exact member

end Miningcore.LeastRecentlyUsed

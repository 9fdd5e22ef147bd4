import Miningcore.Payments.PplnsPaging

/-! `CalculateRewards` on parts of a share table: the newer shares decide alone if
the pass ends in them, and they fill the window from the cut-off date on. -/

namespace Miningcore.Payments.Pplns

open Persistence

def shownShares (pageSize : Nat) (table : List Share) (poolId : Text) (created : Int) :
    List Share :=
  KeysetPaging.traverse Share.created pageSize table.length (eligibleShares table poolId created)

theorem eligibleShares_filter (property : Share → Bool) (table : List Share) (poolId : Text)
    (created : Int) :
    eligibleShares (table.filter property) poolId created =
      (eligibleShares table poolId created).filter property := by
  rw [eligibleShares, eligibleShares, KeyOrder.filter_descending, List.filter_filter,
    List.filter_filter]
  congr 2
  funext share
  exact Bool.and_comm _ _

theorem totalScore_perm {left right : List Share} (perm : left.Perm right) :
    totalScore left = totalScore right :=
  (perm.map Share.score).sum_eq

theorem totalScore_le_of_sublist {part whole : List Share} (sublist : part.Sublist whole)
    (nonneg : ∀ share ∈ whole, 0 ≤ share.score) : totalScore part ≤ totalScore whole := by
  apply (sublist.map Share.score).sum_le_sum
  intro score member
  rcases List.mem_map.mp member with ⟨share, shareMember, rfl⟩
  exact nonneg share shareMember

variable (window blockReward : ℚ)

section Table

variable (pageSize : Nat) (poolId : Text) (created : Int)

theorem calculateRewards_congr {table other : List Share}
    (equal : eligibleShares table poolId created = eligibleShares other poolId created) :
    calculateRewards pageSize window blockReward table poolId created =
      calculateRewards pageSize window blockReward other poolId created := by
  rw [calculateRewards_eq_traverse, calculateRewards_eq_traverse, equal]
  congr 1
  apply KeysetPaging.traverse_fuel
  · rw [← equal]
    exact eligibleShares_length table poolId created
  · exact eligibleShares_length other poolId created

variable {property : Share → Bool}
variable (upward : ∀ share other : Share, share.created ≤ other.created →
  property share = true → property other = true)

include upward in
theorem shownShares_prefix (table : List Share) :
    shownShares pageSize (table.filter property) poolId created <+:
      shownShares pageSize table poolId created := by
  have split := KeyOrder.filter_append_filter_not Share.created upward
    (eligibleShares_sorted table poolId created)
  have fuel : shownShares pageSize (table.filter property) poolId created =
      KeysetPaging.traverse Share.created pageSize table.length
        ((eligibleShares table poolId created).filter property) := by
    rw [shownShares, ← eligibleShares_filter]
    apply KeysetPaging.traverse_fuel
    · exact eligibleShares_length _ _ _
    · exact (eligibleShares_length _ _ _).trans (List.length_filter_le _ _)
  rw [fuel, shownShares]
  conv_rhs => rw [← split]
  apply KeysetPaging.traverse_prefix_append
  intro earlier earlierMember later laterMember
  by_contra notBelow
  have holds := upward earlier later (not_lt.mp notBelow) (List.mem_filter.mp earlierMember).2
  simpa [holds] using (List.mem_filter.mp laterMember).2

include upward in
theorem calculateRewards_filter {table : List Share}
    (stops : ¬KeepsCounting window blockReward
      (shownShares pageSize (table.filter property) poolId created)) :
    calculateRewards pageSize window blockReward table poolId created =
      calculateRewards pageSize window blockReward (table.filter property) poolId created := by
  rw [calculateRewards_eq_traverse, calculateRewards_eq_traverse]
  rcases shownShares_prefix pageSize poolId created upward table with ⟨more, shown⟩
  change countShares window blockReward _ (shownShares pageSize table poolId created) = _
  rw [← shown, countShares_append_of_stops window blockReward stops]
  rfl

theorem stops_of_filled {shares : List Share} (nonempty : shares ≠ [])
    (filled : window ≤ totalScore shares) : ¬KeepsCounting window blockReward shares := by
  intro keeps
  have last := keeps shares.dropLast (shares.getLast nonempty)
    (by rw [List.dropLast_append_getLast])
  rw [List.dropLast_append_getLast] at last
  exact absurd last.2.2.1 (not_lt.mpr filled)

theorem shownShares_stops (positive : 0 < pageSize) {table : List Share}
    (nonempty : eligibleShares table poolId created ≠ [])
    (filled : window ≤ totalScore (eligibleShares table poolId created))
    (separate : PagesSeparate window blockReward pageSize table poolId created) :
    ¬KeepsCounting window blockReward (shownShares pageSize table poolId created) := by
  rcases KeysetPaging.traverse_of_noTie Share.created pageSize (KeepsCounting window blockReward)
    positive table.length [] _ (eligibleShares_length table poolId created)
    (eligibleShares_sorted table poolId created) separate with all | ⟨count, stops, shown⟩
  · rw [shownShares, all]
    exact stops_of_filled window blockReward nonempty filled
  · rw [List.nil_append] at stops
    intro keeps
    rcases shown with ⟨more, equal⟩
    rw [shownShares, ← equal] at keeps
    exact stops keeps.of_append

theorem PagesSeparate.of_filter {table : List Share}
    (upward : ∀ share other : Share, share.created ≤ other.created →
      property share = true → property other = true)
    (separate : PagesSeparate window blockReward pageSize table poolId created) :
    PagesSeparate window blockReward pageSize (table.filter property) poolId created := by
  have split := KeyOrder.filter_append_filter_not Share.created upward
    (eligibleShares_sorted table poolId created)
  rw [PagesSeparate, ← split] at separate
  rw [PagesSeparate, eligibleShares_filter]
  exact separate.of_append

end Table

theorem cutOff_filled {shares : List Share} {result : Progress} {date : Int}
    (counted : countShares window blockReward (Progress.start blockReward) shares = .ok result)
    (cutOff : result.shareCutOffDate = some date) :
    ∃ front share, front ++ [share] <+: shares ∧ share.created = date ∧
      window ≤ totalScore (front ++ [share]) := by
  induction shares using List.reverseRecOn generalizing result with
  | nil =>
      cases counted
      cases cutOff
  | append_singleton shares share induction =>
      rcases countShares_concat_ok window blockReward counted with ⟨before, earlier, last⟩
      -- A cut-off date from before comes from a share before.
      have known (isDate : before.shareCutOffDate = some date) :
          ∃ front other, front ++ [other] <+: shares ++ [share] ∧ other.created = date ∧
            window ≤ totalScore (front ++ [other]) := by
        rcases induction earlier isDate with ⟨front, other, isPrefix, facts⟩
        exact ⟨front, other, isPrefix.trans (List.prefix_append _ _), facts⟩
      rcases last with ⟨-, rfl⟩ | ⟨running, counts⟩
      · exact known cutOff
      · have after := (keepsCounting_of_running window blockReward earlier running).2
        rcases countShare_ok window blockReward running counts with
          ⟨-, -, -, -, ⟨reaches, -, date', -⟩ | ⟨-, -, same, -⟩⟩
        · refine ⟨shares, share, List.prefix_refl _, ?_, ?_⟩
          · exact Option.some.inj (date'.symm.trans cutOff)
          · rwa [totalScore_append, totalScore_singleton, ← after.accumulated]
        · exact known (same ▸ cutOff)

theorem window_filled_since {pageSize : Nat} {table : List Share} {poolId : Text} {created : Int}
    {result : Progress} {date : Int}
    (computed : calculateRewards pageSize window blockReward table poolId created = .ok result)
    (cutOff : result.shareCutOffDate = some date) :
    ∃ counted, counted ≠ [] ∧ counted.Sublist (eligibleShares table poolId created) ∧
      (∀ share ∈ counted, date ≤ share.created) ∧ window ≤ totalScore counted := by
  rw [calculateRewards_eq_traverse] at computed
  rcases cutOff_filled window blockReward computed cutOff with
    ⟨front, last, isPrefix, isDate, filled⟩
  have sublist := isPrefix.sublist.trans (KeysetPaging.traverse_sublist Share.created pageSize _ _)
  refine ⟨front ++ [last], by simp, sublist, ?_, filled⟩
  have sorted := List.Pairwise.sublist sublist (eligibleShares_sorted table poolId created)
  intro share member
  rcases List.mem_append.mp member with newer | same
  · rw [← isDate]
    exact (List.pairwise_append.mp sorted).2.2 share newer last (List.mem_singleton_self last)
  · rw [List.mem_singleton.mp same, isDate]

end Miningcore.Payments.Pplns

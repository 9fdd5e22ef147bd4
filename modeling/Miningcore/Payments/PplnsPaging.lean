import Miningcore.Payments.PplnsRewards

/-! `CalculateRewards` on the share table: when reading it page by page amounts to
one pass over the shares of a block. -/

namespace Miningcore.Payments.Pplns

open Persistence

def eligibleShares (table : List Share) (poolId : Text) (created : Int) : List Share :=
  KeyOrder.descending Share.created (table.filter fun share =>
    share.poolId = poolId ∧ share.created ≤ created)

def singlePass (window blockReward : ℚ) (table : List Share) (poolId : Text) (created : Int) :
    Outcome :=
  countShares window blockReward (Progress.start blockReward) (eligibleShares table poolId created)

def totalScore (shares : List Share) : ℚ := (shares.map Share.score).sum

@[simp] theorem totalScore_append (front back : List Share) :
    totalScore (front ++ back) = totalScore front + totalScore back := by
  simp [totalScore]

@[simp] theorem totalScore_singleton (share : Share) : totalScore [share] = share.score := by
  simp [totalScore]

/-- The shares leave the pass running: none of them makes it throw, and after
each of them the scores are below the window and some reward remains. -/
def KeepsCounting (window blockReward : ℚ) (shares : List Share) : Prop :=
  ∀ front share, front ++ [share] <+: shares → share.networkDifficulty ≠ 0 ∧ window ≠ 0 ∧
    totalScore (front ++ [share]) < window ∧
    totalScore (front ++ [share]) * blockReward / window < blockReward

variable (window blockReward : ℚ)

theorem KeepsCounting.of_append {front back : List Share}
    (keeps : KeepsCounting window blockReward (front ++ back)) :
    KeepsCounting window blockReward front :=
  fun shares share isPrefix => keeps shares share (isPrefix.trans (List.prefix_append front back))

theorem keepsCounting_nil : KeepsCounting window blockReward [] := by
  intro front share isPrefix
  have := isPrefix.length_le
  simp at this

theorem keepsCounting_concat (shares : List Share) (share : Share) :
    KeepsCounting window blockReward (shares ++ [share]) ↔
      KeepsCounting window blockReward shares ∧ share.networkDifficulty ≠ 0 ∧ window ≠ 0 ∧
        totalScore (shares ++ [share]) < window ∧
        totalScore (shares ++ [share]) * blockReward / window < blockReward := by
  constructor
  · intro keeps
    exact ⟨keeps.of_append, keeps shares share (List.prefix_refl _)⟩
  · rintro ⟨keeps, last⟩ front other isPrefix
    rcases List.prefix_concat_iff.mp isPrefix with same | shorter
    · rcases List.append_inj' same rfl with ⟨rfl, sameShare⟩
      cases sameShare
      exact last
    · exact keeps front other shorter

structure After (shares : List Share) (progress : Progress) : Prop where
  done : progress.done = false
  accumulated : progress.accumulatedScore = totalScore shares
  remaining : progress.blockRewardRemaining =
    blockReward - totalScore shares * blockReward / window

theorem After.next {shares : List Share} {progress next : Progress} {share : Share}
    (after : After window blockReward shares progress)
    (counted : countShare window blockReward progress share = .ok next)
    (running : next.done = false) :
    After window blockReward (shares ++ [share]) next ∧ share.networkDifficulty ≠ 0 ∧
      window ≠ 0 ∧ totalScore (shares ++ [share]) < window ∧
      totalScore (shares ++ [share]) * blockReward / window < blockReward := by
  rw [totalScore_append, totalScore_singleton]
  rcases countShare_ok window blockReward after.done counted with
    ⟨networkDifficulty, windowNonzero, -, -, reached |
      ⟨below, -, -, accumulated, remaining, positive, -⟩⟩
  · rw [reached.2.1] at running
    cases running
  · rw [after.accumulated] at below accumulated
    have left : next.blockRewardRemaining =
        blockReward - (totalScore shares + share.score) * blockReward / window := by
      rw [remaining, after.remaining]
      ring
    rw [left] at positive
    refine ⟨⟨running, ?_, ?_⟩, networkDifficulty, windowNonzero, below, sub_pos.mp positive⟩
    · rw [accumulated, totalScore_append, totalScore_singleton]
    · rw [left, totalScore_append, totalScore_singleton]

theorem After.keeps {shares : List Share} {progress : Progress} {share : Share}
    (after : After window blockReward shares progress)
    (networkDifficulty : share.networkDifficulty ≠ 0) (windowNonzero : window ≠ 0)
    (below : totalScore (shares ++ [share]) < window)
    (part : totalScore (shares ++ [share]) * blockReward / window < blockReward) :
    ∃ next, countShare window blockReward progress share = .ok next ∧ next.done = false := by
  rw [totalScore_append, totalScore_singleton] at below part
  have notReached : ¬window ≤ progress.accumulatedScore + share.score := by
    rw [after.accumulated]
    exact not_le.mpr below
  have remains : ¬progress.blockRewardRemaining - share.score * blockReward / window ≤ 0 := by
    have spent : (totalScore shares + share.score) * blockReward / window =
        totalScore shares * blockReward / window + share.score * blockReward / window := by ring
    rw [after.remaining]
    linarith
  simp only [countShare, applyScore, if_neg networkDifficulty, ge_iff_le, if_neg notReached,
    if_neg windowNonzero, remains, false_and, if_false]
  exact ⟨_, rfl, after.done⟩

theorem running_of_keepsCounting {shares : List Share}
    (keeps : KeepsCounting window blockReward shares) :
    ∃ progress, countShares window blockReward (Progress.start blockReward) shares =
      .ok progress ∧ After window blockReward shares progress := by
  induction shares using List.reverseRecOn with
  | nil =>
      refine ⟨_, rfl, rfl, ?_, ?_⟩
      · simp [Progress.start, totalScore]
      · simp [Progress.start, totalScore]
  | append_singleton shares share induction =>
      rcases (keepsCounting_concat window blockReward shares share).mp keeps with
        ⟨earlier, networkDifficulty, windowNonzero, below, part⟩
      rcases induction earlier with ⟨progress, counted, after⟩
      rcases after.keeps window blockReward networkDifficulty windowNonzero below part with
        ⟨next, counts, running⟩
      refine ⟨next, ?_, (after.next window blockReward counts running).1⟩
      rw [countShares_append]
      simp only [counted, Except.bind, countShares, after.done, Bool.false_eq_true, if_false,
        counts]

theorem keepsCounting_of_running {shares : List Share} {progress : Progress}
    (counted : countShares window blockReward (Progress.start blockReward) shares = .ok progress)
    (running : progress.done = false) :
    KeepsCounting window blockReward shares ∧ After window blockReward shares progress := by
  induction shares using List.reverseRecOn generalizing progress with
  | nil =>
      cases counted
      refine ⟨keepsCounting_nil window blockReward, rfl, ?_, ?_⟩
      · simp [Progress.start, totalScore]
      · simp [Progress.start, totalScore]
  | append_singleton shares share induction =>
      rcases countShares_concat_ok window blockReward counted with
        ⟨before, earlier, ⟨done, rfl⟩ | ⟨notDone, counts⟩⟩
      · rw [done] at running
        cases running
      · rcases induction earlier notDone with ⟨keeps, after⟩
        rcases after.next window blockReward counts running with ⟨nextAfter, conditions⟩
        exact ⟨(keepsCounting_concat window blockReward shares share).mpr ⟨keeps, conditions⟩,
          nextAfter⟩

theorem countShares_append_of_stops {shares : List Share}
    (stops : ¬KeepsCounting window blockReward shares) (more : List Share) :
    countShares window blockReward (Progress.start blockReward) (shares ++ more) =
      countShares window blockReward (Progress.start blockReward) shares := by
  rw [countShares_append]
  cases counted : countShares window blockReward (Progress.start blockReward) shares with
  | error failure => rfl
  | ok progress =>
      apply countShares_done
      by_contra running
      exact stops (keepsCounting_of_running window blockReward counted (by simpa using running)).1

/-! ## The shares gone through -/

def Outcome.counted : Outcome → List Share
  | .ok progress => progress.counted
  | .error failure => failure.2.counted

theorem countShare_counted (progress : Progress) (share : Share) :
    Outcome.counted (countShare window blockReward progress share) =
      progress.counted ++ [share] := by
  simp only [countShare, applyScore]
  split_ifs <;> rfl

theorem countShares_counted (progress : Progress) (shares : List Share) :
    progress.counted <+:
      Outcome.counted (countShares window blockReward progress shares) := by
  induction shares generalizing progress with
  | nil => exact List.prefix_refl _
  | cons share shares induction =>
      rw [countShares]
      split_ifs
      · exact List.prefix_refl _
      · have step := countShare_counted window blockReward progress share
        cases counted : countShare window blockReward progress share with
        | error failure =>
            rw [counted] at step
            change progress.counted <+: failure.2.counted
            rw [show failure.2.counted = progress.counted ++ [share] from step]
            exact List.prefix_append _ _
        | ok next =>
            rw [counted] at step
            apply (List.prefix_append progress.counted [share]).trans
            rw [← show next.counted = progress.counted ++ [share] from step]
            exact induction next

theorem countShares_counted_cons {progress : Progress} (running : progress.done = false)
    (share : Share) (shares : List Share) :
    progress.counted ++ [share] <+:
      Outcome.counted (countShares window blockReward progress (share :: shares)) := by
  have step := countShare_counted window blockReward progress share
  rw [countShares, if_neg (by simp [running])]
  cases counted : countShare window blockReward progress share with
  | error failure =>
      rw [counted] at step
      exact step ▸ List.prefix_refl _
  | ok next =>
      rw [counted] at step
      rw [← step]
      exact countShares_counted window blockReward next shares

/-! ## Pages and passes -/

section Table

variable (pageSize : Nat) (table : List Share) (poolId : Text) (created : Int)

theorem eligibleShares_sorted : (eligibleShares table poolId created).Pairwise
    fun earlier later => later.created ≤ earlier.created :=
  KeyOrder.pairwise_descending Share.created _

theorem readSharesBeforeCreated_eq (before : Int) :
    readSharesBeforeCreated table poolId before false pageSize =
      ((KeyOrder.descending Share.created (table.filter fun share => share.poolId = poolId)).filter
        fun share => share.created < before).take pageSize := by
  rw [readSharesBeforeCreated, KeyOrder.filter_descending, List.filter_filter]
  congr 3
  funext share
  simp [Bool.and_comm]

theorem eligibleShares_eq :
    eligibleShares table poolId created =
      (KeyOrder.descending Share.created (table.filter fun share => share.poolId = poolId)).filter
        fun share => share.created ≤ created := by
  rw [eligibleShares, KeyOrder.filter_descending, List.filter_filter]
  congr 2
  funext share
  simp [Bool.and_comm]

theorem untilShort_fetchPages :
    KeysetPaging.untilShort pageSize (fetchPages table poolId created pageSize) =
      KeysetPaging.traverse Share.created pageSize table.length
        (eligibleShares table poolId created) := by
  rw [fetchPages]
  have first : readSharesBeforeCreated table poolId created true pageSize =
      (eligibleShares table poolId created).take pageSize := by
    simp [readSharesBeforeCreated, eligibleShares]
  rw [first]
  simp only [readSharesBeforeCreated_eq]
  apply KeysetPaging.untilShort_pages
  · exact KeyOrder.pairwise_descending Share.created _
  · rw [eligibleShares_eq]
    exact List.filter_sublist
  · intro share member
    have early : share.created ≤ created := by
      rw [eligibleShares_eq] at member
      simpa using (List.mem_filter.mp member).2
    rw [eligibleShares_eq, List.filter_filter]
    apply List.filter_congr
    intro other _
    by_cases smaller : other.created < share.created
    · simp [smaller, smaller.le.trans early]
    · simp [smaller]

theorem calculateRewards_eq_traverse :
    calculateRewards pageSize window blockReward table poolId created =
      countShares window blockReward (Progress.start blockReward)
        (KeysetPaging.traverse Share.created pageSize table.length
          (eligibleShares table poolId created)) := by
  rw [calculateRewards, countPages_eq, untilShort_fetchPages]

theorem eligibleShares_length : (eligibleShares table poolId created).length ≤ table.length := by
  rw [eligibleShares, KeyOrder.descending, List.length_insertionSort]
  exact List.length_filter_le _ _

/-- No two shares created at the same time lie on both sides of the end of a page
after which the pass is still running. -/
def PagesSeparate : Prop :=
  KeysetPaging.NoTie Share.created pageSize (KeepsCounting window blockReward) []
    (eligibleShares table poolId created)

theorem calculateRewards_of_pagesSeparate (positive : 0 < pageSize)
    (separate : PagesSeparate window blockReward pageSize table poolId created) :
    calculateRewards pageSize window blockReward table poolId created =
      singlePass window blockReward table poolId created := by
  rw [calculateRewards_eq_traverse, singlePass]
  rcases KeysetPaging.traverse_of_noTie Share.created pageSize (KeepsCounting window blockReward)
    positive table.length [] _ (eligibleShares_length table poolId created)
    (eligibleShares_sorted table poolId created) separate with all | ⟨count, stops, shown⟩
  · rw [all]
  · rw [List.nil_append] at stops
    rcases shown with ⟨more, traversed⟩
    rw [← traversed, countShares_append_of_stops window blockReward stops]
    conv_rhs => rw [← List.take_append_drop count (eligibleShares table poolId created)]
    rw [countShares_append_of_stops window blockReward stops]

theorem calculateRewards_ne_of_tie (positive : 0 < pageSize)
    (tie : ¬PagesSeparate window blockReward pageSize table poolId created) :
    calculateRewards pageSize window blockReward table poolId created ≠
      singlePass window blockReward table poolId created := by
  rcases KeysetPaging.traverse_of_tie Share.created pageSize (KeepsCounting window blockReward)
    positive (fun _ _ => KeepsCounting.of_append window blockReward) table.length [] _
    (eligibleShares_length table poolId created) (eligibleShares_sorted table poolId created) tie
    with ⟨count, later, tail, keeps, next, traversed, below⟩
  rw [List.nil_append] at keeps
  rcases running_of_keepsCounting window blockReward keeps with ⟨progress, counted, after⟩
  intro equal
  have split : eligibleShares table poolId created =
      (eligibleShares table poolId created).take count ++
        later :: (eligibleShares table poolId created).drop (count + 1) := by
    rcases List.getElem?_eq_some_iff.mp next with ⟨inside, same⟩
    rw [← same, ← List.drop_eq_getElem_cons inside, List.take_append_drop]
  rw [calculateRewards_eq_traverse, traversed, singlePass, countShares_append, counted] at equal
  rw [split, countShares_append, counted] at equal
  simp only [Except.bind] at equal
  -- One pass goes through the tied share next, the other through nothing or through
  -- an older share.
  have seen := countShares_counted_cons window blockReward after.done later
    ((eligibleShares table poolId created).drop (count + 1))
  rw [← equal] at seen
  cases tail with
  | nil =>
      have length := seen.length_le
      simp [countShares, Outcome.counted] at length
  | cons older tail =>
      have other := countShares_counted_cons window blockReward after.done older tail
      have same := (List.prefix_of_prefix_length_le seen other (by simp)).eq_of_length (by simp)
      have sameShare : later = older := by simpa using same
      exact absurd (below older List.mem_cons_self) (by simp [sameShare])

end Table

theorem totalScore_of_forall {shares : List Share} {score : ℚ}
    (same : ∀ share ∈ shares, share.score = score) :
    totalScore shares = shares.length * score := by
  induction shares with
  | nil => simp [totalScore]
  | cons share shares induction =>
      have rest := induction fun other member => same other (List.mem_cons_of_mem _ member)
      rw [totalScore, List.map_cons, List.sum_cons, same share List.mem_cons_self,
        show (shares.map Share.score).sum = totalScore shares from rfl, rest]
      push_cast [List.length_cons]
      ring

namespace SamplePage

def poolId : Text := text "excc1"

def share (miner : String) (created : Int) : Share where
  poolId
  miner := text miner
  payoutInfo := none
  difficulty := 1
  networkDifficulty := 100000
  created

/-- Shares that fill a page up to its last place, and two older ones created at
the same time. -/
def table (count : Nat) : List Share :=
  List.replicate count (share "alice" 9) ++ [share "bob" 8, share "carol" 8]

theorem table_length (count : Nat) : (table count).length = count + 1 + 1 := by
  simp [table]

theorem mem_table {count : Nat} {other : Share} (member : other ∈ table count) :
    other.poolId = poolId ∧ other.created ≤ 9 ∧ other.networkDifficulty ≠ 0 ∧
      other.score = 1 / 100000 := by
  rcases List.mem_append.mp member with newer | older
  · rw [List.eq_of_mem_replicate newer]
    decide +kernel
  · clear member
    revert other
    decide +kernel

theorem eligibleShares_table (count : Nat) :
    eligibleShares (table count) poolId 9 = table count := by
  rw [eligibleShares, List.filter_eq_self.mpr]
  · apply KeyOrder.descending_of_pairwise
    rw [table, List.pairwise_append]
    refine ⟨List.pairwise_replicate.mpr (.inr le_rfl), by decide, ?_⟩
    intro newer newerMember older olderMember
    rw [List.eq_of_mem_replicate newerMember]
    revert older
    decide
  · intro other member
    have facts := mem_table member
    simp [facts.1, facts.2.1]

theorem keepsCounting {count : Nat} {shares : List Share}
    (member : ∀ counted ∈ shares, counted ∈ table count) (few : shares.length < 200000) :
    KeepsCounting 2 50 shares := by
  intro front other isPrefix
  have inTable : ∀ counted ∈ front ++ [other], counted ∈ table count := fun counted inside =>
    member counted (isPrefix.subset inside)
  have total := totalScore_of_forall fun counted inside =>
    (mem_table (inTable counted inside)).2.2.2
  have fewer : ((front ++ [other]).length : ℚ) < 200000 := by
    exact_mod_cast isPrefix.length_le.trans_lt few
  refine ⟨(mem_table (inTable other (by simp))).2.2.1, two_ne_zero, ?_, ?_⟩
  · rw [total]
    linarith
  · rw [total]
    linarith

theorem calculateRewards_table (count : Nat) :
    calculateRewards (count + 1) 2 50 (table count) poolId 9 =
      countShares 2 50 (Progress.start 50)
        (List.replicate count (share "alice" 9) ++ [share "bob" 8]) := by
  rw [calculateRewards_eq_traverse, eligibleShares_table]
  have length := table_length count
  rcases KeysetPaging.traverse_full Share.created (count + 1) (Nat.succ_pos count) (count + 1)
    (table count) (by omega) with ⟨last, isLast, -, step⟩
  have lastOfPage : last = share "bob" 8 := by
    simpa [table, eq_comm] using isLast
  have page : (table count).take (count + 1) =
      List.replicate count (share "alice" 9) ++ [share "bob" 8] := by
    simp [table, List.take_append]
  have behind : (table count).drop (count + 1) = [share "carol" 8] := by
    simp [table, List.drop_append]
  have skipped : ([share "carol" 8].filter fun row => row.created < last.created) = [] := by
    rw [lastOfPage]
    decide
  rw [length, step, page, behind, skipped, KeysetPaging.traverse_nil, List.append_nil]

end SamplePage

end Miningcore.Payments.Pplns

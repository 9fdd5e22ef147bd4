import Miningcore.Payments.PayoutLedger
import Miningcore.Payments.PplnsWindow
import Mathlib.Data.Finset.Max

/-! The shares that a credited block deletes, and the rewards of the blocks that
are credited after it. -/

namespace Miningcore.Payments

open Miningcore.Configuration Persistence Transaction

def Credit.outcome (credit : Credit) (factor : Option ℚ) (table : List Share) : Pplns.Outcome :=
  Pplns.blockRewards credit.pool factor credit.block (schemeReward credit.pool credit.block.reward)
    table

def Credit.cutOffDate (credit : Credit) : Option Int :=
  schemeCutOffDate credit.pool credit.block (schemeReward credit.pool credit.block.reward)
    credit.shares

def cutOffDates (credited : List Credit) (poolId : Text) : List Int :=
  (credited.filter fun credit => credit.pool.id = poolId).filterMap Credit.cutOffDate

def sinceCutOffs (dates : List Int) (share : Share) : Bool :=
  dates.all fun date => date ≤ share.created

theorem sinceCutOffs_upward (dates : List Int) (share other : Share)
    (newer : share.created ≤ other.created) (holds : sinceCutOffs dates share = true) :
    sinceCutOffs dates other = true := by
  rw [sinceCutOffs, List.all_eq_true] at holds ⊢
  intro date member
  exact decide_eq_true ((of_decide_eq_true (holds date member)).trans newer)

def NothingDeleted (state : State) (pool : PoolConfig) (block : Block) : Prop :=
  (state.database.shares.filter fun share =>
      share.poolId = pool.id ∧ share.created ≤ block.created) =
    state.recorded.filter fun share => share.poolId = pool.id ∧ share.created ≤ block.created

/-- The stored shares from the last cut-off date on bring the pass for the block to
its end. -/
def FilledSinceCutOffs (state : State) (pool : PoolConfig) (factor : Option ℚ) (block : Block) :
    Prop :=
  ¬Pplns.KeepsCounting (Pplns.window factor) (schemeReward pool block.reward)
    (Pplns.shownShares Pplns.sharePageSize
      (state.database.shares.filter (sinceCutOffs (cutOffDates state.credited pool.id)))
      pool.id block.created)

/-- The block is not older than the blocks of the pool credited before, no tie lies
across the end of one of its pages, and no share has a negative score. -/
structure InCreationOrder (state : State) (pool : PoolConfig) (factor : Option ℚ)
    (block : Block) : Prop where
  order : ∀ credit ∈ state.credited, credit.pool.id = pool.id →
    credit.block.created ≤ block.created
  separate : Pplns.PagesSeparate (Pplns.window factor) (schemeReward pool block.reward)
    Pplns.sharePageSize state.database.shares pool.id block.created
  nonneg : ∀ share ∈ state.recorded, share.poolId = pool.id → 0 ≤ share.score

def CreditsInTime (state : State) : Event → Prop
  | .processBlock _ => ∀ pool block queue factor, state.round = some (pool, block :: queue) →
      block.status = .confirmed → pool.payoutScheme = .pplns factor →
      NothingDeleted state pool block ∨ FilledSinceCutOffs state pool factor block ∨
        InCreationOrder state pool factor block
  | _ => True

variable (pools : List PoolConfig)

structure Pruned (state : State) : Prop where
  stored : state.database.shares.Sublist state.recorded
  since : ∀ poolId,
    (state.database.shares.filter fun share =>
        share.poolId = poolId ∧ sinceCutOffs (cutOffDates state.credited poolId) share) =
      state.recorded.filter fun share =>
        share.poolId = poolId ∧ sinceCutOffs (cutOffDates state.credited poolId) share
  earlier : ∀ credit ∈ state.credited, credit.shares.Sublist state.recorded
  configured : ∀ credit ∈ state.credited, findPool pools credit.pool.id = some credit.pool
  round : ∀ pool queue, state.round = some (pool, queue) → findPool pools pool.id = some pool
  rewards : ∀ credit ∈ state.credited, ∀ factor, credit.pool.payoutScheme = .pplns factor →
    credit.outcome factor credit.shares = credit.outcome factor credit.recorded

theorem Pruned.initial : Pruned pools State.initial where
  stored := List.Sublist.refl _
  since := fun _ => rfl
  earlier := by simp [State.initial]
  configured := by simp [State.initial]
  round := by simp [State.initial]
  rewards := by simp [State.initial]

section Credit

variable {pools} {state : State} {pool : PoolConfig} {factor : Option ℚ} {block : Block}

theorem Pruned.eligible (pruned : Pruned pools state) (poolId : Text) (created : Int) :
    Pplns.eligibleShares
        (state.database.shares.filter (sinceCutOffs (cutOffDates state.credited poolId)))
        poolId created =
      Pplns.eligibleShares
        (state.recorded.filter (sinceCutOffs (cutOffDates state.credited poolId)))
        poolId created := by
  have part (table : List Share) :
      ((table.filter (sinceCutOffs (cutOffDates state.credited poolId))).filter fun share =>
        share.poolId = poolId ∧ share.created ≤ created) =
      (table.filter fun share =>
        share.poolId = poolId ∧ sinceCutOffs (cutOffDates state.credited poolId) share).filter
          fun share => share.created ≤ created := by
    rw [List.filter_filter, List.filter_filter]
    apply List.filter_congr
    intro share _
    by_cases inPool : share.poolId = poolId <;> simp [inPool, Bool.and_comm]
  rw [Pplns.eligibleShares, Pplns.eligibleShares, part, part, pruned.since]

theorem rewards_of_nothingDeleted (nothing : NothingDeleted state pool block) :
    Pplns.blockRewards pool factor block (schemeReward pool block.reward) state.database.shares =
      Pplns.blockRewards pool factor block (schemeReward pool block.reward) state.recorded := by
  apply Pplns.calculateRewards_congr
  rw [Pplns.eligibleShares, Pplns.eligibleShares, nothing]

theorem rewards_of_filled (pruned : Pruned pools state)
    (filled : FilledSinceCutOffs state pool factor block) :
    Pplns.blockRewards pool factor block (schemeReward pool block.reward) state.database.shares =
      Pplns.blockRewards pool factor block (schemeReward pool block.reward) state.recorded := by
  have same := pruned.eligible pool.id block.created
  have shown : Pplns.shownShares Pplns.sharePageSize
      (state.database.shares.filter (sinceCutOffs (cutOffDates state.credited pool.id)))
      pool.id block.created =
      Pplns.shownShares Pplns.sharePageSize
        (state.recorded.filter (sinceCutOffs (cutOffDates state.credited pool.id)))
        pool.id block.created := by
    rw [Pplns.shownShares, Pplns.shownShares, same]
    apply KeysetPaging.traverse_fuel
    · rw [← same]
      exact Pplns.eligibleShares_length _ _ _
    · exact Pplns.eligibleShares_length _ _ _
  have upward := sinceCutOffs_upward (cutOffDates state.credited pool.id)
  calc Pplns.blockRewards pool factor block (schemeReward pool block.reward) state.database.shares
      = Pplns.blockRewards pool factor block (schemeReward pool block.reward)
          (state.database.shares.filter (sinceCutOffs (cutOffDates state.credited pool.id))) :=
        Pplns.calculateRewards_filter _ _ _ _ _ upward filled
    _ = Pplns.blockRewards pool factor block (schemeReward pool block.reward)
          (state.recorded.filter (sinceCutOffs (cutOffDates state.credited pool.id))) :=
        Pplns.calculateRewards_congr _ _ _ _ _ same
    _ = Pplns.blockRewards pool factor block (schemeReward pool block.reward) state.recorded :=
        (Pplns.calculateRewards_filter _ _ _ _ _ upward (shown ▸ filled)).symm

theorem exists_last {dates : List Int} (nonempty : dates ≠ []) :
    ∃ last ∈ dates, ∀ date ∈ dates, date ≤ last := by
  rcases List.exists_mem_of_ne_nil dates nonempty with ⟨some, member⟩
  rcases Finset.exists_max_image dates.toFinset id ⟨some, List.mem_toFinset.mpr member⟩ with
    ⟨last, lastMember, greatest⟩
  exact ⟨last, List.mem_toFinset.mp lastMember,
    fun date dateMember => greatest date (List.mem_toFinset.mpr dateMember)⟩

theorem mem_cutOffDates {credited : List Credit} {poolId : Text} {date : Int}
    (member : date ∈ cutOffDates credited poolId) :
    ∃ credit ∈ credited, credit.pool.id = poolId ∧ credit.cutOffDate = some date := by
  rcases List.mem_filterMap.mp member with ⟨credit, creditMember, isDate⟩
  rw [List.mem_filter, decide_eq_true_eq] at creditMember
  exact ⟨credit, creditMember.1, creditMember.2, isDate⟩

theorem counted_subperm (pruned : Pruned pools state) {credit : Credit}
    (isCredit : credit ∈ state.credited) (order : credit.block.created ≤ block.created)
    {date : Int} (greatest : ∀ other ∈ cutOffDates state.credited pool.id, other ≤ date)
    {counted : List Share}
    (sublist : counted.Sublist
      (Pplns.eligibleShares credit.shares pool.id credit.block.created))
    (newer : ∀ share ∈ counted, date ≤ share.created) :
    counted.Subperm (Pplns.eligibleShares
      (state.recorded.filter (sinceCutOffs (cutOffDates state.credited pool.id)))
      pool.id block.created) := by
  have since : counted.Sublist ((Pplns.eligibleShares credit.shares pool.id
      credit.block.created).filter fun share => date ≤ share.created) := by
    rw [← List.filter_eq_self.mpr fun share member => decide_eq_true (newer share member)]
    exact sublist.filter _
  have recorded : (((credit.shares.filter fun share =>
        share.poolId = pool.id ∧ share.created ≤ credit.block.created).filter fun share =>
          date ≤ share.created)).Sublist
      ((state.recorded.filter (sinceCutOffs (cutOffDates state.credited pool.id))).filter
        fun share => share.poolId = pool.id ∧ share.created ≤ block.created) := by
    rw [List.filter_filter, List.filter_filter]
    apply ((pruned.earlier credit isCredit).filter _).trans
    apply List.monotone_filter_right
    intro share holds
    simp only [Bool.and_eq_true, decide_eq_true_eq] at holds ⊢
    refine ⟨⟨holds.2.1, holds.2.2.trans order⟩, ?_⟩
    rw [sinceCutOffs, List.all_eq_true]
    intro other member
    exact decide_eq_true ((greatest other member).trans holds.1)
  apply since.subperm.trans
  apply ((KeyOrder.perm_descending Share.created _).filter _).subperm.trans
  exact recorded.subperm.trans (KeyOrder.perm_descending Share.created _).symm.subperm

theorem filled_of_order (pruned : Pruned pools state) (isPool : findPool pools pool.id = some pool)
    (scheme : pool.payoutScheme = .pplns factor)
    (dated : cutOffDates state.credited pool.id ≠ [])
    (inOrder : InCreationOrder state pool factor block) :
    FilledSinceCutOffs state pool factor block := by
  rcases exists_last dated with ⟨date, isDate, greatest⟩
  rcases mem_cutOffDates isDate with ⟨credit, isCredit, samePool, cutOff⟩
  have poolEqual : credit.pool = pool := by
    have := pruned.configured credit isCredit
    rw [samePool, isPool] at this
    exact (Option.some.inj this).symm
  rw [Credit.cutOffDate, poolEqual, schemeCutOffDate, scheme] at cutOff
  simp only at cutOff
  cases computed : Pplns.blockRewards pool factor credit.block
      (schemeReward pool credit.block.reward) credit.shares with
  | error failure =>
      rw [computed] at cutOff
      cases cutOff
  | ok result =>
      rw [computed] at cutOff
      rcases Pplns.window_filled_since _ _ computed cutOff with
        ⟨counted, nonempty, sublist, newer, filled⟩
      have among := counted_subperm pruned isCredit
        (inOrder.order credit isCredit samePool) greatest sublist newer
      have nonneg : ∀ share ∈ Pplns.eligibleShares
          (state.recorded.filter (sinceCutOffs (cutOffDates state.credited pool.id)))
          pool.id block.created, 0 ≤ share.score := by
        intro share member
        rw [Pplns.eligibleShares, KeyOrder.mem_descending, List.mem_filter, List.mem_filter,
          decide_eq_true_eq] at member
        exact inOrder.nonneg share member.1.1 member.2.1
      rcases among with ⟨reordered, perm, part⟩
      apply Pplns.shownShares_stops _ _ _ _ _ (by norm_num [Pplns.sharePageSize])
      · rw [pruned.eligible]
        intro empty
        rw [empty, List.sublist_nil] at part
        rw [part] at perm
        exact nonempty perm.nil_eq.symm
      · rw [pruned.eligible]
        calc Pplns.window factor ≤ Pplns.totalScore counted := filled
          _ = Pplns.totalScore reordered := Pplns.totalScore_perm perm.symm
          _ ≤ _ := Pplns.totalScore_le_of_sublist part nonneg
      · exact Pplns.PagesSeparate.of_filter _ _ _ _ _ (sinceCutOffs_upward _) inOrder.separate

theorem rewards_of_order (pruned : Pruned pools state) (isPool : findPool pools pool.id = some pool)
    (scheme : pool.payoutScheme = .pplns factor)
    (inOrder : InCreationOrder state pool factor block) :
    Pplns.blockRewards pool factor block (schemeReward pool block.reward) state.database.shares =
      Pplns.blockRewards pool factor block (schemeReward pool block.reward) state.recorded := by
  by_cases dated : cutOffDates state.credited pool.id = []
  · have same := pruned.eligible pool.id block.created
    have all (table : List Share) : table.filter (sinceCutOffs []) = table :=
      List.filter_eq_self.mpr fun _ _ => rfl
    rw [dated, all, all] at same
    exact Pplns.calculateRewards_congr _ _ _ _ _ same
  · exact rewards_of_filled pruned (filled_of_order pruned isPool scheme dated inOrder)

end Credit

section Prune

theorem keptShares_sublist (table : List Share) (poolId : Text) (cutOffDate : Option Int) :
    (keptShares table poolId cutOffDate).Sublist table := by
  cases cutOffDate with
  | none => exact List.Sublist.refl table
  | some date => exact List.filter_sublist

theorem cutOffDates_append (credited : List Credit) (credit : Credit) (poolId : Text) :
    cutOffDates (credited ++ [credit]) poolId = cutOffDates credited poolId ++
      if credit.pool.id = poolId then credit.cutOffDate.toList else [] := by
  rw [cutOffDates, List.filter_append, List.filterMap_append, cutOffDates]
  congr 1
  by_cases same : credit.pool.id = poolId
  · cases cutOff : credit.cutOffDate <;> simp [same, cutOff]
  · simp [same]

theorem filter_sinceCutOffs_append (table : List Share) (poolId : Text) (dates more : List Int) :
    (table.filter fun share => share.poolId = poolId ∧ sinceCutOffs (dates ++ more) share) =
      (table.filter fun share => share.poolId = poolId ∧ sinceCutOffs dates share).filter
        (sinceCutOffs more) := by
  rw [List.filter_filter]
  apply List.filter_congr
  intro share _
  have both : sinceCutOffs (dates ++ more) share =
      (sinceCutOffs dates share && sinceCutOffs more share) := List.all_append
  rw [both]
  by_cases inPool : share.poolId = poolId <;> simp [inPool, Bool.and_comm]

theorem filter_keptShares (table : List Share) (poolId other : Text) (dates : List Int)
    (cutOffDate : Option Int) :
    ((keptShares table poolId cutOffDate).filter fun share => share.poolId = other ∧
      sinceCutOffs (dates ++ if poolId = other then cutOffDate.toList else []) share) =
    table.filter fun share => share.poolId = other ∧
      sinceCutOffs (dates ++ if poolId = other then cutOffDate.toList else []) share := by
  cases cutOffDate with
  | none => rfl
  | some date =>
      rw [keptShares, deleteSharesBeforeCreated, List.filter_filter]
      apply List.filter_congr
      intro share _
      by_cases inPool : share.poolId = other
      · by_cases same : poolId = other
        · subst same
          by_cases discarded : share.created < date
          · simp [sinceCutOffs, inPool, discarded]
          · simp [sinceCutOffs, inPool, discarded]
        · have different : share.poolId ≠ poolId := fun equal => same (equal.symm.trans inPool)
          simp [different]
      · simp [inPool]

end Prune

section Step

variable {pools} {state : State} {pool : PoolConfig} {updated block : Block} {queue : List Block}

theorem rewards_of_inTime {factor : Option ℚ} (pruned : Pruned pools state)
    (isPool : findPool pools pool.id = some pool) (scheme : pool.payoutScheme = .pplns factor)
    (inTime : NothingDeleted state pool block ∨ FilledSinceCutOffs state pool factor block ∨
      InCreationOrder state pool factor block) :
    Pplns.blockRewards pool factor block (schemeReward pool block.reward) state.database.shares =
      Pplns.blockRewards pool factor block (schemeReward pool block.reward) state.recorded := by
  rcases inTime with nothing | filled | inOrder
  · exact rewards_of_nothingDeleted nothing
  · exact rewards_of_filled pruned filled
  · exact rewards_of_order pruned isPool scheme inOrder

theorem processed_pruned {effort : Option ℚ} {next : Database} (pruned : Pruned pools state)
    (going : state.round = some (pool, updated :: queue))
    (isBlock : block = { updated with effort })
    (shares : next.shares =
      schemeShares pool block (schemeReward pool block.reward) state.database.shares)
    (inTime : ∀ factor, pool.payoutScheme = .pplns factor →
      NothingDeleted state pool updated ∨ FilledSinceCutOffs state pool factor updated ∨
        InCreationOrder state pool factor updated) :
    Pruned pools { state with
      database := next
      round := some (pool, queue)
      credited := state.credited ++ [⟨pool, block, state.database.shares, state.recorded⟩] } where
  stored := by
    rw [shares]
    exact (keptShares_sublist _ _ _).trans pruned.stored
  since := by
    intro poolId
    rw [shares, cutOffDates_append, schemeShares]
    have kept := filter_keptShares state.database.shares pool.id poolId
      (cutOffDates state.credited poolId)
      (schemeCutOffDate pool block (schemeReward pool block.reward) state.database.shares)
    refine kept.trans ?_
    rw [filter_sinceCutOffs_append, pruned.since, ← filter_sinceCutOffs_append]
    rfl
  earlier := by
    intro credit member
    rcases List.mem_append.mp member with old | new
    · exact pruned.earlier credit old
    · rw [List.mem_singleton.mp new]
      exact pruned.stored
  configured := by
    intro credit member
    rcases List.mem_append.mp member with old | new
    · exact pruned.configured credit old
    · rw [List.mem_singleton.mp new]
      exact pruned.round pool _ going
  round := by
    intro other rest equal
    cases equal
    exact pruned.round pool _ going
  rewards := by
    intro credit member factor scheme
    rcases List.mem_append.mp member with old | new
    · exact pruned.rewards credit old factor scheme
    · rw [List.mem_singleton.mp new] at scheme ⊢
      rw [Credit.outcome, Credit.outcome, isBlock]
      have equal := rewards_of_inTime pruned (pruned.round pool _ going) scheme
        (inTime factor scheme)
      exact equal

end Step

theorem step_pruned (state : State) (event : Event) (inTime : CreditsInTime state event)
    (pruned : Pruned pools state) : Pruned pools (step pools state event) := by
  have transition := step_transition pools state event
  generalize step pools state event = next at transition ⊢
  cases transition with
  | stays => exact pruned
  | recorded leads =>
      have shares := persistShares_shares leads
      exact {
        stored := by
          rw [shares]
          exact pruned.stored.append (List.Sublist.refl _)
        since := by
          intro poolId
          rw [shares, List.filter_append, List.filter_append, pruned.since]
        earlier := fun credit member =>
          (pruned.earlier credit member).trans (List.sublist_append_left _ _)
        configured := pruned.configured
        round := pruned.round
        rewards := pruned.rewards }
  | paid leads =>
      rcases persistPayments_leads leads with ⟨-, -, shares, -⟩
      exact { pruned with
        stored := shares ▸ pruned.stored
        since := shares ▸ pruned.since }
  | started pool verdict found =>
      refine { pruned with round := ?_ }
      intro other queue equal
      cases equal
      rw [← found]
      congr 1
      simpa using List.find?_some found
  | processed going leads =>
      rcases processBlock_leads leads with ⟨effort, reward, isBlock, other | confirmed⟩
      · rw [if_neg other.1, List.append_nil]
        refine { pruned with stored := ?_, since := ?_, round := ?_ }
        · rw [other.2]
          exact pruned.stored
        · rw [other.2]
          exact pruned.since
        · intro pool rest equal
          cases equal
          exact pruned.round _ _ going
      · rcases confirmed with ⟨status, credits, -, isNext⟩
        rw [if_pos status]
        apply processed_pruned pruned going isBlock (by rw [isNext])
        intro factor scheme
        apply inTime _ _ _ factor going ?_ scheme
        rwa [isBlock] at status
  | ended => exact { pruned with round := by simp }

namespace SampleRounds

def history : List ShareRecord :=
  [record "alice" 1 false, record "bob" 2 true, record "alice" 3 false, record "bob" 4 true]

def newerFirst : List Event :=
  [.persistShares history none, .startRound poolId (confirm [2]), .processBlock none,
    .processBlock none, .startRound poolId (confirm [1]), .processBlock none]

def oneRound : List Event :=
  [.persistShares (record "carol" 0 false :: history) none, .startRound poolId (confirm [1, 2]),
    .processBlock none, .processBlock none]

def rewards (outcome : Pplns.Outcome) : Option (Tally Text ℚ) :=
  outcome.toOption.map Pplns.Progress.rewards

def block (id : Nat) (created : Int) : Block :=
  { (record "bob" created true).block with id, status := .confirmed, confirmationProgress := 1 }

theorem creditsInTime {state : State} (updated : Block) (queue : List Block)
    {callsLeft : Option Nat} (going : state.round = some (pool, updated :: queue))
    (inTime : NothingDeleted state pool updated ∨ FilledSinceCutOffs state pool none updated ∨
      InCreationOrder state pool none updated) :
    CreditsInTime state (.processBlock callsLeft) := by
  intro other block rest factor same _ scheme
  rw [going] at same
  cases same
  cases scheme
  exact inTime

theorem pagesSeparate_of_short {window blockReward : ℚ} {pageSize : Nat} {table : List Share}
    {created : Int} (short : table.length ≤ pageSize) :
    Pplns.PagesSeparate window blockReward pageSize table poolId created := by
  intro count earlier later positive _ isLater _
  have inside := (List.getElem?_eq_some_iff.mp isLater).1
  have fits := Pplns.eligibleShares_length table poolId created
  have := Nat.le_mul_of_pos_left pageSize positive
  omega

end SampleRounds

end Miningcore.Payments

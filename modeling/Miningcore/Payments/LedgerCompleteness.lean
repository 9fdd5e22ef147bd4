import Miningcore.Payments.PayoutRuns

/-! The records of an address over runs of credits and payouts: what was credited is the
balance and the recorded payments together, as long as every success comes with an id. -/

namespace Miningcore.Payments.PayoutRuns

open Miningcore.Configuration DaemonInterface Interaction Persistence Transaction

/-- A success that reaches a payout has an id where the handler looks for it. -/
def RepliesIdentified (state : State) : Event → Prop
  | .deliver index => ∀ thread ∈ state.thread, ∀ order ∈ thread.awaits,
      ∀ answer ∈ state.replies[index]?, answer.1 = thread.id →
        identified order.command answer.2 = true
  | _ => True

instance (state : State) : (event : Event) → Decidable (RepliesIdentified state event)
  | .deliver index => inferInstanceAs (Decidable (∀ thread ∈ state.thread,
      ∀ order ∈ thread.awaits, ∀ answer ∈ state.replies[index]?, answer.1 = thread.id →
        identified order.command answer.2 = true))
  | .credit .. | .payout .. | .handle .. | .loseRequest _ | .giveUp _ | .persist _ =>
      .isTrue trivial

def HasId (standing : Standing) : Prop :=
  ∀ order txId, standing.settling = some (order, txId) → txId.getD [] ≠ []

theorem answered_hasId {standing : Standing} (has : HasId standing) (coin : CoinType)
    {order : Order} {reply : WalletReply} (isIdentified : identified order.command reply = true) :
    HasId ((payoutProtocol coin).answered standing order reply) := by
  intro settled txId settling
  rw [identified] at isIdentified
  simp only [payoutProtocol] at settling
  cases found : transactionId order.command reply with
  | none =>
      simp only [found] at settling
      split_ifs at settling
      exact has settled txId settling
  | some given =>
      simp only [found] at settling isIdentified
      cases settling
      exact of_decide_eq_true isIdentified

theorem identified_lost (command : WalletCommand) (exception : Exception) :
    identified command (.lost exception) = true := by
  have none : transactionId command (.lost exception) = none := by
    cases command with
    | transferSplit request response =>
        cases response with
        | transferResponse => rfl
        | transferSplitResponse => rfl
    | getInfo => rfl
    | sendMany args => rfl
    | walletLock => rfl
    | walletPassphrase password seconds => rfl
    | transfer request => rfl
  rw [identified, none]

variable (library : Monero.LibCryptonote) (contexts : List PayoutContext)

def DebitsRecorded (database : Database) : Prop :=
  ∀ poolId context address, findContext contexts poolId = some context →
    ¬context.pool.rewardRecipients.any (fun recipient => recipient.address = address) →
    debitedOf database ⟨context.pool.id, context.pool.coin, address⟩ =
      paymentsOf database ⟨context.pool.id, context.pool.coin, address⟩

structure Recorded (state : State) : Prop where
  sound : state.Sound contexts
  debits : DebitsRecorded contexts state.database
  ids : ∀ thread, state.thread = some thread → HasId thread.standing

variable {contexts}

theorem DebitsRecorded.persisted {database next : Database} {context : PayoutContext}
    {payments : PersistPayments} (recorded : DebitsRecorded contexts database)
    (isPool : findPool (pools contexts) context.pool.id = some context.pool)
    (persisted : Persisted context.pool payments database next)
    (has : payments.transactionConfirmation.getD [] ≠ []) : DebitsRecorded contexts next := by
  intro poolId other address found isMiner
  rw [persisted.debited, persisted.recorded, recorded poolId other address found isMiner]
  congr 1
  by_cases same : other.pool.id = context.pool.id
  · have samePool : other.pool = context.pool := by
      have isOther := findPool_of_context contexts found
      rw [same, isPool] at isOther
      exact (Option.some.inj isOther).symm
    rw [if_pos ⟨has, samePool ▸ isMiner⟩]
  · rw [paidTo_other same, ite_self]

theorem Recorded.advance {state : State} {context : PayoutContext} {standing : Standing}
    {program : Payout Unit} (sound : (state.advance context standing program).Sound contexts)
    (debits : DebitsRecorded contexts state.database) (has : HasId standing) :
    Recorded contexts (state.advance context standing program) where
  sound := sound
  debits := by
    rw [advance_database]
    exact debits
  ids thread going := by
    rw [advance_thread going]
    exact has

theorem Recorded.step (state : State) (event : Event) (identified : RepliesIdentified state event)
    (recorded : Recorded contexts state) :
    Recorded contexts (PayoutRuns.step library contexts state event) := by
  have sound := step_sound library contexts state event recorded.sound
  have transition := step_transition library contexts state event
  generalize PayoutRuns.step library contexts state event = next at transition sound ⊢
  cases transition with
  | stays => exact recorded
  | credited found leads =>
      rcases creditAll_effect (credits_nonneg _) (findPool_of_context contexts found)
        recorded.sound.ledger leads with ⟨-, debited, payments⟩
      refine ⟨sound, ?_, recorded.ids⟩
      intro poolId context address isFound isMiner
      rw [debited, payments]
      exact recorded.debits poolId context address isFound isMiner
  | started idle found isHandler =>
      refine Recorded.advance sound recorded.debits ?_
      intro order txId settling
      cases settling
  | handled isMessage => exact ⟨sound, recorded.debits, recorded.ids⟩
  | lost => exact ⟨sound, recorded.debits, recorded.ids⟩
  | answered going isCall isReply =>
      refine Recorded.advance sound recorded.debits ?_
      apply answered_hasId (recorded.ids _ going)
      apply identified _ going _ _ _ isReply rfl
      rw [Thread.awaits, isCall]
      rfl
  | gaveUp going isCall =>
      refine Recorded.advance sound recorded.debits ?_
      exact answered_hasId (recorded.ids _ going) _ (identified_lost _ _)
  | persisted going isPerform leads =>
      have proceeds := recorded.sound.thread _ going
      rw [isPerform] at proceeds
      rcases proceeds.follows.1 with ⟨-, -, order, settling, -⟩
      have has := recorded.ids _ going order _ settling
      refine Recorded.advance sound ?_ ?_
      · exact recorded.debits.persisted proceeds.isPool (proceeds.persisted leads).1 has
      · intro order txId settling
        cases settling
  | failed going isPerform fails =>
      refine ⟨sound, recorded.debits, ?_⟩
      intro thread ended
      cases ended

variable (contexts)

/-- In every run in which successes come with ids, the total ever credited to an address
that is no reward recipient is its balance plus its recorded payments. -/
theorem credited_eq_balance_add_payments (events : List Event)
    (identified : Run.Along (step library contexts) RepliesIdentified State.initial events)
    (poolId : Text) (context : PayoutContext) (found : findContext contexts poolId = some context)
    (address : Text)
    (isMiner : ¬context.pool.rewardRecipients.any (fun recipient => recipient.address = address)) :
    let database := (Run.final (step library contexts) State.initial events).database
    let account : Account := ⟨context.pool.id, context.pool.coin, address⟩
    creditedOf database account = database.balanceOf account + paymentsOf database account := by
  have initial : Recorded contexts State.initial := {
    sound := State.sound_initial contexts
    debits := fun _ _ _ _ _ => neg_zero
    ids := fun _ going => by cases going }
  have recorded := Run.final_invariant_along (step library contexts) RepliesIdentified
    (Recorded contexts) (Recorded.step library) State.initial initial events identified
  intro database account
  rw [recorded.sound.ledger.consistent.changes, changesOf_eq,
    ← recorded.debits poolId context address found isMiner]
  ring

theorem credited_eq_balance_add_payments_paid :
    let database := (Run.final (step SamplePayouts.cryptonote [SamplePayouts.context]) State.initial
      (SamplePayouts.round (some (.text (text "tx1"))))).database
    creditedOf database SamplePayouts.account = 10 ∧
      creditedOf database SamplePayouts.account =
        database.balanceOf SamplePayouts.account + paymentsOf database SamplePayouts.account :=
  ⟨by decide +kernel, credited_eq_balance_add_payments SamplePayouts.cryptonote
    [SamplePayouts.context] (SamplePayouts.round (some (.text (text "tx1")))) (by decide +kernel)
    SampleRounds.poolId SamplePayouts.context rfl SamplePayouts.miner (by decide)⟩

/-- The wallet reports a success without an id: the balance is debited, and nothing is
recorded. -/
theorem null_id_records_nothing :
    let database := (Run.final (step SamplePayouts.cryptonote [SamplePayouts.context]) State.initial
      (SamplePayouts.round none)).database
    ¬SamplePayouts.context.pool.rewardRecipients.any
        (fun recipient => recipient.address = SamplePayouts.miner) ∧
      creditedOf database SamplePayouts.account = 10 ∧
      database.balanceOf SamplePayouts.account = 0 ∧
      paymentsOf database SamplePayouts.account = 0 := by
  decide +kernel

end Miningcore.Payments.PayoutRuns

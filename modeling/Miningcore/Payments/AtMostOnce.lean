import Mathlib.Order.CompletePartialOrder
import Mathlib.Order.Interval.Set.Disjoint
import Miningcore.Payments.PayoutRuns

/-! Every unit of balance is paid at most once, as long as the pool gets to know what the
wallet has paid and gets to write it down.

The wallet executes a request once. So the question is whether the pool asks again for
what was paid already. It does not if all that was paid is debited by the time it reads
the balances: between the two, the payout is at the request or settles it. -/

namespace Miningcore.Payments.PayoutRuns

open Miningcore.Configuration DaemonInterface Interaction Persistence Transaction

def PaidOnce (executed : List (Nat × List Sent)) : Prop :=
  executed.Pairwise fun first second => ∀ sent ∈ first.2, ∀ again ∈ second.2,
    sent.account = again.account → Disjoint sent.units again.units

def Thread.persists (thread : Thread) : Option PersistPayments :=
  match thread.program with
  | .perform payments _ => some payments
  | _ => none

/-- The wallet pays only what a payout waits for and confirms it then; it also confirms that
it is locked. The pool does not give up on what is paid or on locking the wallet, and one of
the attempts of `PersistPayments` commits. -/
def Reliable (state : State) : Event → Prop
  | .handle index executes reply => ∀ message ∈ state.requests[index]?,
      (executes = true ∧ message.sends ≠ [] →
        state.thread.map Thread.id = some message.id ∧ confirms message.command reply = true) ∧
      (message.command.isWalletLock = true → confirms message.command reply = true)
  | .giveUp _ => ∀ thread ∈ state.thread, ∀ order ∈ thread.awaits,
      order.command.isWalletLock = false ∧
        (order.payees ≠ [] → thread.id ∉ state.executed.map Prod.fst)
  | .persist callsLeft => ∀ thread ∈ state.thread, ∀ payments ∈ thread.persists,
      ∃ attempt ∈ List.range (retryCount + 1), (Transaction.run .database
        (payments.transaction thread.context.pool) (callsLeft attempt) state.database).2.isOk = true
  | _ => True

instance (state : State) : (event : Event) → Decidable (Reliable state event)
  | .handle index executes reply => inferInstanceAs (Decidable (∀ message ∈ state.requests[index]?,
      (executes = true ∧ message.sends ≠ [] →
        state.thread.map Thread.id = some message.id ∧ confirms message.command reply = true) ∧
      (message.command.isWalletLock = true → confirms message.command reply = true)))
  | .giveUp _ => inferInstanceAs (Decidable (∀ thread ∈ state.thread, ∀ order ∈ thread.awaits,
      order.command.isWalletLock = false ∧
        (order.payees ≠ [] → thread.id ∉ state.executed.map Prod.fst)))
  | .persist callsLeft => inferInstanceAs (Decidable (∀ thread ∈ state.thread,
      ∀ payments ∈ thread.persists, ∃ attempt ∈ List.range (retryCount + 1), (Transaction.run
        .database (payments.transaction thread.context.pool) (callsLeft attempt)
        state.database).2.isOk = true))
  | .credit .. | .payout .. | .loseRequest _ | .deliver _ => .isTrue trivial

/-! ## Ids -/

/-- Ids are not used twice: a request is handled at most once. -/
structure Addressed (state : State) : Prop where
  requests : ∀ message ∈ state.requests, message.id < state.nextId
  replies : ∀ reply ∈ state.replies, reply.1 < state.nextId
  executed : ∀ entry ∈ state.executed, entry.1 < state.nextId
  thread : ∀ thread, state.thread = some thread → thread.id < state.nextId
  distinct : (state.requests.map Message.id).Nodup
  unanswered : ∀ message ∈ state.requests, ∀ reply ∈ state.replies, reply.1 ≠ message.id
  unhandled : ∀ message ∈ state.requests, ∀ entry ∈ state.executed, entry.1 ≠ message.id

theorem Addressed.initial : Addressed State.initial where
  requests _ member := by cases member
  replies _ member := by cases member
  executed _ member := by cases member
  thread _ going := by cases going
  distinct := List.nodup_nil
  unanswered _ member := by cases member
  unhandled _ member := by cases member

section Ids

variable {state : State}

theorem Addressed.fewer (addressed : Addressed state) {requests : List Message}
    {replies : List (Nat × WalletReply)} (fewerRequests : requests.Sublist state.requests)
    (fewerReplies : replies.Sublist state.replies) :
    Addressed { state with requests, replies } where
  requests message member := addressed.requests message (fewerRequests.subset member)
  replies reply member := addressed.replies reply (fewerReplies.subset member)
  executed := addressed.executed
  thread := addressed.thread
  distinct := (fewerRequests.map _).nodup addressed.distinct
  unanswered message isMessage reply isReply := addressed.unanswered message
    (fewerRequests.subset isMessage) reply (fewerReplies.subset isReply)
  unhandled message isMessage := addressed.unhandled message (fewerRequests.subset isMessage)

theorem Addressed.withDatabase (addressed : Addressed state) (database : Database) :
    Addressed { state with database } where
  requests := addressed.requests
  replies := addressed.replies
  executed := addressed.executed
  thread := addressed.thread
  distinct := addressed.distinct
  unanswered := addressed.unanswered
  unhandled := addressed.unhandled

theorem Addressed.advance (addressed : Addressed state) (context : PayoutContext)
    (standing : Standing) (program : Payout Unit) :
    Addressed (state.advance context standing program) := by
  rcases advance_cases state context standing program with
    ⟨equal, -⟩ | ⟨order, resume, -, equal⟩ | ⟨payments, next, -, equal⟩
  · rw [equal]
    exact { addressed with thread := fun _ ended => by cases ended }
  · rw [equal]
    have new : ∀ message ∈ state.requests ++
        [(⟨state.nextId, order.command, sends context state.database order.payees⟩ : Message)],
        message ∈ state.requests ∨ message.id = state.nextId := by
      intro message member
      rw [List.mem_append, List.mem_singleton] at member
      exact member.imp_right (congrArg Message.id)
    refine ⟨?_, ?_, ?_, ?_, ?_, ?_, ?_⟩
    · intro message member
      rcases new message member with old | isNew
      · exact (addressed.requests message old).trans (Nat.lt_succ_self _)
      · exact isNew ▸ Nat.lt_succ_self _
    · exact fun reply member => (addressed.replies reply member).trans (Nat.lt_succ_self _)
    · exact fun entry member => (addressed.executed entry member).trans (Nat.lt_succ_self _)
    · intro thread going
      cases going
      exact Nat.lt_succ_self _
    · rw [List.map_append, List.nodup_append]
      refine ⟨addressed.distinct, List.nodup_singleton _, ?_⟩
      intro id isOld other isNew
      rcases List.mem_map.mp isOld with ⟨message, member, rfl⟩
      rw [List.mem_singleton.mp isNew]
      exact (addressed.requests message member).ne
    · intro message member reply isReply
      rcases new message member with old | isNew
      · exact addressed.unanswered message old reply isReply
      · exact isNew ▸ (addressed.replies reply isReply).ne
    · intro message member entry isEntry
      rcases new message member with old | isNew
      · exact addressed.unhandled message old entry isEntry
      · exact isNew ▸ (addressed.executed entry isEntry).ne
  · rw [equal]
    refine ⟨?_, ?_, ?_, ?_, addressed.distinct, addressed.unanswered, addressed.unhandled⟩
    · exact fun message member => (addressed.requests message member).trans (Nat.lt_succ_self _)
    · exact fun reply member => (addressed.replies reply member).trans (Nat.lt_succ_self _)
    · exact fun entry member => (addressed.executed entry member).trans (Nat.lt_succ_self _)
    · intro thread going
      cases going
      exact Nat.lt_succ_self _

theorem Addressed.erased (addressed : Addressed state) {index : Nat} {handled : Message}
    (isHandled : state.requests[index]? = some handled) :
    ∀ message ∈ state.requests.eraseIdx index, message.id ≠ handled.id := by
  intro message member same
  rcases List.getElem?_eq_some_iff.mp isHandled with ⟨bound, rfl⟩
  rcases List.mem_eraseIdx_iff_getElem.mp member with ⟨other, otherBound, different, rfl⟩
  have distinct := addressed.distinct
  rw [List.nodup_iff_injective_getElem] at distinct
  have equal := @distinct ⟨other, by rwa [List.length_map]⟩ ⟨index, by rwa [List.length_map]⟩
    (by simpa using same)
  exact different (Fin.mk.inj equal)

theorem Addressed.handled (addressed : Addressed state) {index : Nat} {message : Message}
    (isMessage : state.requests[index]? = some message) (executes : Bool) (reply : WalletReply) :
    Addressed { state with
      requests := state.requests.eraseIdx index
      replies := state.replies ++ [(message.id, reply)]
      executed :=
        if executes then state.executed ++ [(message.id, message.sends)]
        else state.executed } := by
  have fewer : (state.requests.eraseIdx index).Sublist state.requests := List.eraseIdx_sublist _ _
  have bound := addressed.requests message (List.mem_of_getElem? isMessage)
  have others := addressed.erased isMessage
  have entries : ∀ entry ∈ (if executes then state.executed ++ [(message.id, message.sends)]
      else state.executed), entry ∈ state.executed ∨ entry.1 = message.id := by
    intro entry member
    split_ifs at member
    · rw [List.mem_append, List.mem_singleton] at member
      exact member.imp_right (congrArg Prod.fst)
    · exact .inl member
  refine ⟨?_, ?_, ?_, addressed.thread, ?_, ?_, ?_⟩
  · exact fun other member => addressed.requests other (fewer.subset member)
  · intro other member
    rw [List.mem_append, List.mem_singleton] at member
    rcases member with old | rfl
    · exact addressed.replies other old
    · exact bound
  · intro entry member
    rcases entries entry member with old | same
    · exact addressed.executed entry old
    · exact same ▸ bound
  · exact (fewer.map _).nodup addressed.distinct
  · intro other isOther answer member
    rw [List.mem_append, List.mem_singleton] at member
    rcases member with old | rfl
    · exact addressed.unanswered other (fewer.subset isOther) answer old
    · exact (others other isOther).symm
  · intro other isOther entry member
    rcases entries entry member with old | same
    · exact addressed.unhandled other (fewer.subset isOther) entry old
    · exact same ▸ (others other isOther).symm

end Ids

/-! ## What is paid and not debited yet -/

/-- A payout knows of an order that it was paid, or it waits for the reply to it and the
wallet has paid it. -/
inductive Outstanding (executed : List (Nat × List Sent)) (thread : Thread) : Order → Prop
  | settling {order : Order} {txId : Option Text}
      (isSettling : thread.standing.settling = some (order, txId)) :
      Outstanding executed thread order
  | awaiting {order : Order} (awaits : thread.awaits = some order)
      (isExecuted : thread.id ∈ executed.map Prod.fst) : Outstanding executed thread order

def Debited (database : Database) (sent : Sent) : Prop :=
  sent.debited + sent.amount ≤ debitedOf database sent.account

variable (contexts : List PayoutContext)

structure Tracked (state : State) : Prop where
  sound : state.Sound contexts
  addressed : Addressed state
  /-- What a payout waits for is what the request with its id asks for. -/
  own : ∀ thread, state.thread = some thread → ∀ message ∈ state.requests,
    message.id = thread.id → ∃ order, thread.awaits = some order ∧
      message.command = order.command ∧
      message.sends = sends thread.context state.database order.payees
  confirmed : ∀ thread order reply, state.thread = some thread → thread.awaits = some order →
    (thread.id, reply) ∈ state.replies → (order.command.isWalletLock = true ∨
      order.payees ≠ [] ∧ thread.id ∈ state.executed.map Prod.fst) →
    confirms order.command reply = true
  debited : ∀ entry ∈ state.executed, ∀ sent ∈ entry.2, Debited state.database sent ∨
    ∃ thread order, state.thread = some thread ∧ Outstanding state.executed thread order ∧
      sent ∈ sends thread.context state.database order.payees
  once : PaidOnce state.executed

theorem Tracked.initial : Tracked contexts State.initial where
  sound := State.sound_initial contexts
  addressed := .initial
  own _ going := by cases going
  confirmed _ _ _ going := by cases going
  debited _ member := by cases member
  once := List.Pairwise.nil

variable {contexts} {state : State}

theorem Tracked.advance {context : PayoutContext} {standing : Standing} {program : Payout Unit}
    (sound : (state.advance context standing program).Sound contexts)
    (follows : (payoutProtocol context.pool.coin).Follows standing program)
    (addressed : Addressed state) (once : PaidOnce state.executed)
    (debited : ∀ entry ∈ state.executed, ∀ sent ∈ entry.2, Debited state.database sent ∨
      ∃ order txId, standing.settling = some (order, txId) ∧
        sent ∈ sends context state.database order.payees) :
    Tracked contexts (state.advance context standing program) where
  sound := sound
  addressed := addressed.advance context standing program
  own := by
    intro thread going message member same
    rw [advance_thread going] at same ⊢
    rw [advance_database]
    rcases advance_cases state context standing program with
      ⟨equal, -⟩ | ⟨order, resume, isCall, equal⟩ | ⟨payments, next, -, equal⟩
    · rw [equal] at going
      cases going
    · rw [equal, List.mem_append, List.mem_singleton] at member
      rcases member with old | rfl
      · exact absurd same (addressed.requests message old).ne
      · rw [isCall]
        exact ⟨order, rfl, rfl, rfl⟩
    · rw [equal] at member
      exact absurd same (addressed.requests message member).ne
  confirmed := by
    intro thread order reply going awaits member
    rw [advance_thread going, advance_replies] at member
    exact absurd rfl (addressed.replies _ member).ne
  debited := by
    intro entry member sent isSent
    rw [advance_executed] at member
    rw [advance_database, advance_executed]
    rcases debited entry member sent isSent with isDebited | ⟨order, txId, settling, isSettled⟩
    · exact .inl isDebited
    · right
      rcases advance_cases state context standing program with
        ⟨-, ⟨result, ends⟩ | ⟨exception, ends⟩⟩ | ⟨_, resume, -, equal⟩ | ⟨payments, next, -, equal⟩
      · rw [ends] at follows
        rw [show standing.settling = none from follows] at settling
        cases settling
      · rw [ends] at follows
        rw [show standing.settling = none from follows] at settling
        cases settling
      · rw [equal]
        exact ⟨_, order, rfl, .settling settling, isSettled⟩
      · rw [equal]
        exact ⟨_, order, rfl, .settling settling, isSettled⟩
  once := by
    rw [advance_executed]
    exact once

theorem awaits_eq_some {thread : Thread} {order : Order} :
    thread.awaits = some order ↔ ∃ resume, thread.program = .call order resume := by
  rw [Thread.awaits]
  cases thread.program with
  | call other resume =>
      rw [Option.some.injEq]
      constructor
      · rintro rfl
        exact ⟨resume, rfl⟩
      · rintro ⟨_, same⟩
        cases same
        rfl
  | done result => simp
  | throw exception => simp
  | perform payments next => simp

theorem Tracked.mayAsk (tracked : Tracked contexts state) {thread : Thread} {order : Order}
    (going : state.thread = some thread) (awaits : thread.awaits = some order) :
    if order.command.isWalletLock then order.payees = [] else thread.standing.settling = none := by
  rcases awaits_eq_some.mp awaits with ⟨resume, isCall⟩
  have follows := (tracked.sound.thread thread going).follows
  rw [isCall] at follows
  exact follows.1.2.2.2

theorem Tracked.outstanding_cases (tracked : Tracked contexts state) {thread : Thread}
    {order paid : Order} (going : state.thread = some thread) (awaits : thread.awaits = some order)
    (outstanding : Outstanding state.executed thread paid) :
    (order.command.isWalletLock = true ∧ order.payees = [] ∧
      ∃ txId, thread.standing.settling = some (paid, txId)) ∨
    (paid = order ∧ thread.id ∈ state.executed.map Prod.fst) := by
  have may := tracked.mayAsk going awaits
  cases outstanding with
  | settling isSettling =>
      left
      split_ifs at may with isLock
      · exact ⟨isLock, may, _, isSettling⟩
      · rw [isSettling] at may
        cases may
  | awaiting isAwaited isExecuted =>
      right
      exact ⟨Option.some.inj (isAwaited.symm.trans awaits), isExecuted⟩

theorem Debited.disjoint {database : Database} {sent again : Sent} (debited : Debited database sent)
    (same : sent.account = again.account) (now : again.debited = debitedOf database again.account) :
    Disjoint sent.units again.units := by
  rw [Set.disjoint_left]
  intro unit first second
  have bound : sent.debited + sent.amount ≤ again.debited := by
    rw [now, ← same]
    exact debited
  exact absurd (first.2.trans_le bound) second.1.not_gt

/-! ## Steps -/

theorem Tracked.pays_new (tracked : Tracked contexts state) {message : Message}
    (isMessage : message ∈ state.requests)
    (waits : state.thread.map Thread.id = some message.id) :
    ∀ entry ∈ state.executed, ∀ sent ∈ entry.2, ∀ again ∈ message.sends,
      sent.account = again.account → Disjoint sent.units again.units := by
  intro entry isEntry sent isSent again isAgain same
  rcases Option.map_eq_some_iff.mp waits with ⟨thread, going, sameId⟩
  rcases tracked.own thread going message isMessage sameId.symm with ⟨order, awaits, -, isSends⟩
  rw [isSends] at isAgain
  have now : again.debited = debitedOf state.database again.account := by
    rcases List.mem_map.mp isAgain with ⟨balance, -, rfl⟩
    rfl
  rcases tracked.debited entry isEntry sent isSent with debited | ⟨other, paid, isGoing, paidFor, -⟩
  · exact debited.disjoint same now
  · rw [going, Option.some.injEq] at isGoing
    subst isGoing
    rcases tracked.outstanding_cases going awaits paidFor with ⟨-, isEmpty, -⟩ | ⟨-, isExecuted⟩
    · rw [isEmpty] at isAgain
      cases isAgain
    · rcases List.mem_map.mp isExecuted with ⟨handled, isHandled, handledId⟩
      exact absurd (handledId.trans sameId) (tracked.addressed.unhandled message isMessage
        handled isHandled)

theorem Outstanding.mono {executed more : List (Nat × List Sent)} {thread : Thread} {order : Order}
    (outstanding : Outstanding executed thread order) (subset : executed ⊆ more) :
    Outstanding more thread order := by
  cases outstanding with
  | settling isSettling => exact .settling isSettling
  | awaiting awaits isExecuted => exact .awaiting awaits (List.map_subset _ subset isExecuted)

section Handled

variable {index : Nat} {message : Message} {executes : Bool} {reply : WalletReply}

def paidAfter (executed : List (Nat × List Sent)) (message : Message) (executes : Bool) :
    List (Nat × List Sent) :=
  if executes then executed ++ [(message.id, message.sends)] else executed

theorem subset_paidAfter (executed : List (Nat × List Sent)) (message : Message) (executes : Bool) :
    executed ⊆ paidAfter executed message executes := by
  rw [paidAfter]
  split_ifs
  · exact List.subset_append_left _ _
  · exact List.Subset.refl _

variable (tracked : Tracked contexts state) (isMessage : state.requests[index]? = some message)
variable (reliable : Reliable state (.handle index executes reply))

include tracked isMessage reliable

theorem Tracked.handled_confirmed {thread : Thread} {order : Order} {answer : WalletReply}
    (going : state.thread = some thread) (awaits : thread.awaits = some order)
    (isAnswer : (thread.id, answer) ∈ state.replies ++ [(message.id, reply)])
    (needed : order.command.isWalletLock = true ∨ order.payees ≠ [] ∧
      thread.id ∈ (paidAfter state.executed message executes).map Prod.fst) :
    confirms order.command answer = true := by
  have member : message ∈ state.requests := List.mem_of_getElem? isMessage
  rcases reliable message isMessage with ⟨paysAwaited, locks⟩
  rw [paidAfter] at needed
  rw [List.mem_append, List.mem_singleton] at isAnswer
  rcases isAnswer with old | isNew
  · -- An earlier reply with this id excludes that the request is handled only now.
    apply tracked.confirmed thread order answer going awaits old
    refine needed.imp_right ?_
    rintro ⟨isPaid, isExecuted⟩
    refine ⟨isPaid, ?_⟩
    split_ifs at isExecuted
    · rw [List.map_append, List.mem_append, List.map_singleton, List.mem_singleton] at isExecuted
      rcases isExecuted with before | same
      · exact before
      · exact absurd same (tracked.addressed.unanswered message member _ old)
    · exact isExecuted
  · rcases Prod.mk.inj isNew with ⟨sameId, rfl⟩
    rcases tracked.own thread going message member sameId.symm with
      ⟨own, isOwn, sameCommand, isSends⟩
    rw [Option.some.inj (awaits.symm.trans isOwn)] at needed ⊢
    rw [← sameCommand] at needed ⊢
    rcases needed with isLock | ⟨isPaid, isExecuted⟩
    · exact locks isLock
    · have before : thread.id ∉ state.executed.map Prod.fst := by
        intro handled
        rcases List.mem_map.mp handled with ⟨entry, isEntry, entryId⟩
        exact tracked.addressed.unhandled message member entry isEntry (entryId.trans sameId)
      split_ifs at isExecuted with runs
      · refine (paysAwaited ⟨runs, ?_⟩).2
        rw [isSends]
        exact mt List.map_eq_nil_iff.mp isPaid
      · exact absurd isExecuted before

theorem Tracked.handled_debited {entry : Nat × List Sent} {sent : Sent}
    (isEntry : entry ∈ paidAfter state.executed message executes) (isSent : sent ∈ entry.2) :
    Debited state.database sent ∨ ∃ thread order, state.thread = some thread ∧
      Outstanding (paidAfter state.executed message executes) thread order ∧
      sent ∈ sends thread.context state.database order.payees := by
  have more := subset_paidAfter state.executed message executes
  have old : entry ∈ state.executed → Debited state.database sent ∨
      ∃ thread order, state.thread = some thread ∧
        Outstanding (paidAfter state.executed message executes) thread order ∧
        sent ∈ sends thread.context state.database order.payees := by
    intro isOld
    refine (tracked.debited entry isOld sent isSent).imp_right ?_
    rintro ⟨thread, order, going, outstanding, isPaid⟩
    exact ⟨thread, order, going, outstanding.mono more, isPaid⟩
  cases executes with
  | false => exact old isEntry
  | true =>
      rcases List.mem_append.mp isEntry with isOld | isNew
      · exact old isOld
      · rw [List.mem_singleton] at isNew
        subst isNew
        have member : message ∈ state.requests := List.mem_of_getElem? isMessage
        have waits := ((reliable message isMessage).1 ⟨rfl, List.ne_nil_of_mem isSent⟩).1
        rcases Option.map_eq_some_iff.mp waits with ⟨thread, going, sameId⟩
        rcases tracked.own thread going message member sameId.symm with
          ⟨order, awaits, -, isSends⟩
        right
        refine ⟨thread, order, going, .awaiting awaits ?_, isSends ▸ isSent⟩
        rw [sameId]
        exact List.mem_map_of_mem (List.mem_append_right _ List.mem_cons_self)

theorem Tracked.handled_once : PaidOnce (paidAfter state.executed message executes) := by
  cases executes with
  | false => exact tracked.once
  | true =>
      refine List.pairwise_append.mpr ⟨tracked.once, List.pairwise_singleton _ _, ?_⟩
      intro entry isEntry paid isPaid sent isSent again isAgain same
      rw [List.mem_singleton] at isPaid
      subst isPaid
      rcases (reliable message isMessage).1 ⟨rfl, List.ne_nil_of_mem isAgain⟩ with ⟨waits, -⟩
      exact tracked.pays_new (List.mem_of_getElem? isMessage) waits entry isEntry sent isSent again
        isAgain same

theorem Tracked.handled :
    Tracked contexts { state with
      requests := state.requests.eraseIdx index
      replies := state.replies ++ [(message.id, reply)]
      executed :=
        if executes then state.executed ++ [(message.id, message.sends)]
        else state.executed } where
  sound := tracked.sound.fewer List.eraseIdx_subset _ _
  addressed := tracked.addressed.handled isMessage executes reply
  own thread going other isOther :=
    tracked.own thread going other (List.mem_of_mem_eraseIdx isOther)
  confirmed _ _ _ going awaits isAnswer needed :=
    tracked.handled_confirmed isMessage reliable going awaits isAnswer needed
  debited _ isEntry _ isSent := tracked.handled_debited isMessage reliable isEntry isSent
  once := tracked.handled_once isMessage reliable

end Handled

section Protocol

variable (coin : CoinType) (standing : Standing) {order : Order} {reply : WalletReply}

theorem answered_of_order (isOrder : order.command.isWalletLock = false)
    (isConfirmed : confirms order.command reply = true) :
    ∃ txId, ((payoutProtocol coin).answered standing order reply).settling =
      some (order, txId) := by
  rw [confirms_of_order isOrder] at isConfirmed
  rcases Option.isSome_iff_exists.mp isConfirmed with ⟨txId, isId⟩
  refine ⟨txId, ?_⟩
  simp only [payoutProtocol, isId]

theorem answered_of_lock (isLock : order.command.isWalletLock = true)
    (isConfirmed : confirms order.command reply = true) :
    (payoutProtocol coin).answered standing order reply = standing := by
  rcases order with ⟨command, payees⟩
  cases command with
  | walletLock => simp only [payoutProtocol, transactionId, isConfirmed, if_true]
  | getInfo => cases isLock
  | sendMany args => cases isLock
  | walletPassphrase password seconds => cases isLock
  | transfer request => cases isLock
  | transferSplit request response => cases isLock

end Protocol

theorem Tracked.answered (tracked : Tracked contexts state) {index : Nat} {thread : Thread}
    {order : Order} {resume : WalletReply → Payout Unit} {reply : WalletReply}
    (going : state.thread = some thread) (isCall : thread.program = .call order resume)
    (isReply : state.replies[index]? = some (thread.id, reply))
    (sound : ({ state with replies := state.replies.eraseIdx index }.advance thread.context
      ((payoutProtocol thread.context.pool.coin).answered thread.standing order reply)
      (resume reply)).Sound contexts) :
    Tracked contexts ({ state with replies := state.replies.eraseIdx index }.advance thread.context
      ((payoutProtocol thread.context.pool.coin).answered thread.standing order reply)
      (resume reply)) := by
  have awaits : thread.awaits = some order := awaits_eq_some.mpr ⟨resume, isCall⟩
  have proceeds := tracked.sound.thread thread going
  rw [isCall] at proceeds
  have isConfirmed := tracked.confirmed thread order reply going awaits
    (List.mem_of_getElem? isReply)
  refine Tracked.advance sound (proceeds.answered reply).follows
    (tracked.addressed.fewer (List.Sublist.refl _) (List.eraseIdx_sublist _ _)) tracked.once ?_
  intro entry isEntry sent isSent
  refine (tracked.debited entry isEntry sent isSent).imp_right ?_
  rintro ⟨other, paid, isGoing, outstanding, isPaid⟩
  rw [going, Option.some.injEq] at isGoing
  subst isGoing
  rcases tracked.outstanding_cases going awaits outstanding with
    ⟨isLock, -, txId, settling⟩ | ⟨rfl, isExecuted⟩
  · rw [answered_of_lock _ _ isLock (isConfirmed (.inl isLock))]
    exact ⟨paid, txId, settling, isPaid⟩
  · have funded : paid.payees ≠ [] := by
      intro isEmpty
      rw [isEmpty] at isPaid
      cases isPaid
    have isOrder : paid.command.isWalletLock = false := by
      have may := tracked.mayAsk going awaits
      split_ifs at may with isLock
      · exact absurd may funded
      · exact Bool.eq_false_of_not_eq_true isLock
    rcases answered_of_order thread.context.pool.coin thread.standing isOrder
      (isConfirmed (.inr ⟨funded, isExecuted⟩)) with ⟨txId, settling⟩
    exact ⟨paid, txId, settling, isPaid⟩

theorem Tracked.gaveUp (tracked : Tracked contexts state) {exception : Exception} {thread : Thread}
    {order : Order} {resume : WalletReply → Payout Unit} (going : state.thread = some thread)
    (isCall : thread.program = .call order resume) (reliable : Reliable state (.giveUp exception))
    (sound : (state.advance thread.context
      ((payoutProtocol thread.context.pool.coin).answered thread.standing order (.lost exception))
      (resume (.lost exception))).Sound contexts) :
    Tracked contexts (state.advance thread.context
      ((payoutProtocol thread.context.pool.coin).answered thread.standing order (.lost exception))
      (resume (.lost exception))) := by
  have awaits : thread.awaits = some order := awaits_eq_some.mpr ⟨resume, isCall⟩
  have proceeds := tracked.sound.thread thread going
  rw [isCall] at proceeds
  rcases reliable thread going order awaits with ⟨isOrder, unpaid⟩
  refine Tracked.advance sound (proceeds.answered _).follows tracked.addressed tracked.once ?_
  intro entry isEntry sent isSent
  left
  rcases tracked.debited entry isEntry sent isSent with
    isDebited | ⟨other, paid, isGoing, outstanding, isPaid⟩
  · exact isDebited
  · rw [going, Option.some.injEq] at isGoing
    subst isGoing
    rcases tracked.outstanding_cases going awaits outstanding with
      ⟨isLock, -, -⟩ | ⟨rfl, isExecuted⟩
    · rw [isOrder] at isLock
      cases isLock
    · refine absurd isExecuted (unpaid ?_)
      intro isEmpty
      rw [isEmpty] at isPaid
      cases isPaid

theorem Tracked.persisted (tracked : Tracked contexts state) {thread : Thread}
    {payments : PersistPayments} {next : Payout Unit} {result : Unit} {database : Database}
    (going : state.thread = some thread) (isPerform : thread.program = .perform payments next)
    (leads : Leads (payments.transaction thread.context.pool) state.database result database)
    (sound : ({ state with database }.advance thread.context
      ((payoutProtocol thread.context.pool.coin).performed thread.standing payments) next).Sound
        contexts) :
    Tracked contexts ({ state with database }.advance thread.context
      ((payoutProtocol thread.context.pool.coin).performed thread.standing payments) next) := by
  have proceeds := tracked.sound.thread thread going
  rw [isPerform] at proceeds
  rcases proceeds.persisted leads with ⟨persisted, later⟩
  rcases proceeds.follows.1 with ⟨isUnpaid, -, order, settling, pays⟩
  have nonneg : ∀ balance ∈ payments.balances, 0 ≤ balance.amount :=
    fun balance member => proceeds.nonneg balance (isUnpaid member)
  refine Tracked.advance sound later.follows (tracked.addressed.withDatabase database)
    tracked.once ?_
  intro entry isEntry sent isSent
  left
  rw [Debited, persisted.debited]
  rcases tracked.debited entry isEntry sent isSent with
    isDebited | ⟨other, paid, isGoing, outstanding, isPaid⟩
  · exact isDebited.trans (le_add_of_nonneg_right (paidTo_nonneg nonneg _))
  · rw [going, Option.some.injEq] at isGoing
    subst isGoing
    cases outstanding with
    | awaiting awaits isExecuted =>
        rcases awaits_eq_some.mp awaits with ⟨resume, isCall⟩
        rw [isCall] at isPerform
        cases isPerform
    | settling isSettling =>
        rw [settling, Option.some.injEq, Prod.mk.injEq] at isSettling
        rcases isSettling with ⟨rfl, -⟩
        rcases List.mem_map.mp isPaid with ⟨balance, isPayee, rfl⟩
        have isBalance : balance ∈ payments.balances := by
          rcases pays.payees with payees | payees
          · exact payable_subset _ (payees ▸ isPayee)
          · exact payees ▸ isPayee
        exact add_le_add le_rfl (amount_le_paidTo nonneg isBalance)

theorem Tracked.credited (tracked : Tracked contexts state) {database : Database}
    (sound : { state with database }.Sound contexts)
    (debited : debitedOf database = debitedOf state.database) :
    Tracked contexts { state with database } := by
  have same : ∀ context payees, sends context database payees =
      sends context state.database payees := by
    intro context payees
    rw [sends, sends, debited]
  refine ⟨sound, tracked.addressed.withDatabase database, ?_, tracked.confirmed, ?_,
    tracked.once⟩
  · simp only [same]
    exact tracked.own
  · simp only [same, Debited, debited]
    exact tracked.debited

theorem Tracked.step (library : Monero.LibCryptonote) (state : State) (event : Event)
    (reliable : Reliable state event) (tracked : Tracked contexts state) :
    Tracked contexts (PayoutRuns.step library contexts state event) := by
  have sound := step_sound library contexts state event tracked.sound
  have transition := step_transition library contexts state event
  generalize PayoutRuns.step library contexts state event = next at transition sound ⊢
  cases transition with
  | stays => exact tracked
  | credited found leads =>
      exact tracked.credited sound (creditAll_effect (credits_nonneg _)
        (findPool_of_context contexts found) tracked.sound.ledger leads).2.1
  | started idle found isHandler =>
      have proceeds := started_proceeds library contexts tracked.sound.ledger found isHandler
      refine Tracked.advance sound (proceeds _).follows tracked.addressed tracked.once ?_
      intro entry isEntry sent isSent
      left
      rcases tracked.debited entry isEntry sent isSent with isDebited | ⟨thread, -, going, -⟩
      · exact isDebited
      · rw [idle] at going
        cases going
  | handled isMessage => exact tracked.handled isMessage reliable
  | lost =>
      have fewer := List.eraseIdx_sublist state.requests
      exact {
        sound := sound
        addressed := tracked.addressed.fewer (fewer _) (List.Sublist.refl _)
        own := fun thread going message member =>
          tracked.own thread going message (List.mem_of_mem_eraseIdx member)
        confirmed := tracked.confirmed
        debited := tracked.debited
        once := tracked.once }
  | answered going isCall isReply => exact tracked.answered going isCall isReply sound
  | gaveUp going isCall => exact tracked.gaveUp going isCall reliable sound
  | persisted going isPerform leads => exact tracked.persisted going isPerform leads sound
  | failed going isPerform fails =>
      rename_i callsLeft thread payments rest exception
      have persists : thread.persists = some payments := by rw [Thread.persists, isPerform]
      rcases reliable thread going payments persists with ⟨attempt, isAttempt, ok⟩
      rw [List.mem_range, Nat.lt_succ_iff] at isAttempt
      rcases run_cases .database (payments.transaction thread.context.pool) (callsLeft attempt)
        state.database with ⟨_, committed, -, commits⟩ | ⟨_, equal⟩
      · rcases executeWithRetry_commits (persistPayments_throwsOnly _ _ _) isAttempt commits with
          ⟨_, succeeds⟩
        rw [PersistPayments.run] at fails
        cases succeeds.symm.trans fails
      · rw [equal] at ok
        cases ok

/-- In every run of reliable steps the wallet pays each unit of an account at most once. -/
theorem unit_paid_at_most_once (library : Monero.LibCryptonote) (contexts : List PayoutContext)
    (events : List Event)
    (reliable : Run.Along (step library contexts) Reliable State.initial events) :
    PaidOnce (Run.final (step library contexts) State.initial events).executed :=
  (Run.final_invariant_along (step library contexts) Reliable (Tracked contexts)
    (Tracked.step library) State.initial (Tracked.initial contexts) events reliable).once

/-- Two rounds of credits, each paid out. The first two attempts to persist the second
payment fail. -/
def SamplePayouts.twoRounds : List Event :=
  round (some (.text (text "tx1"))) ++
    [credit, payout, pays (some (.text (text "tx2"))), .deliver 0,
      .persist fun attempt => if 7 ≤ attempt then some 1 else none]

theorem unit_paid_at_most_once_two_rounds :
    let state := Run.final (step SamplePayouts.cryptonote [SamplePayouts.context]) State.initial
      SamplePayouts.twoRounds
    state.executed = [(0, [⟨SamplePayouts.account, 0, 10⟩]),
      (2, [⟨SamplePayouts.account, 10, 10⟩])] ∧ PaidOnce state.executed :=
  ⟨by decide +kernel, unit_paid_at_most_once SamplePayouts.cryptonote [SamplePayouts.context]
    SamplePayouts.twoRounds (by decide +kernel)⟩

/-- The reply to a payment that the wallet made is lost. The payout ends, and the next one
asks for the same balance again. -/
def SamplePayouts.lostReply : List Event :=
  [credit, payout, pays (some (.text (text "tx1"))), .giveUp (.exception "timeout"), payout,
    pays (some (.text (text "tx2")))]

theorem lost_reply_pays_twice :
    ¬PaidOnce (Run.final (step SamplePayouts.cryptonote [SamplePayouts.context]) State.initial
      SamplePayouts.lostReply).executed := by
  have executed : (Run.final (step SamplePayouts.cryptonote [SamplePayouts.context]) State.initial
      SamplePayouts.lostReply).executed = [(0, [⟨SamplePayouts.account, 0, 10⟩]),
        (1, [⟨SamplePayouts.account, 0, 10⟩])] := by
    decide +kernel
  rw [executed, PaidOnce, List.pairwise_pair]
  intro once
  have disjoint := once _ List.mem_cons_self _ List.mem_cons_self rfl
  have unit : (0 : ℚ) ∈ Sent.units ⟨SamplePayouts.account, 0, 10⟩ := by norm_num [Sent.units]
  exact Set.disjoint_left.mp disjoint unit unit

end Miningcore.Payments.PayoutRuns

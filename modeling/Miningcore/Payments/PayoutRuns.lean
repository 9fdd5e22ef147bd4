import Miningcore.Payments.PayoutProtocol
import Miningcore.Payments.PersistedPayments

/-! Runs of payouts between the pool and the wallet.

The pool reads balances, asks the wallet to pay them and debits them. The wallet takes the
requests that are in flight in any order, executes them or not and answers. A request may
be lost, and so may a reply; the pool then gives up waiting at any time, also while its
request is still in flight. Blocks are credited at any time. -/

namespace Miningcore.Payments.PayoutRuns

open Miningcore.Configuration DaemonInterface Interaction Persistence Transaction

/-- What a request is to pay to an account, and what had been debited from it by then. The
units of balance that it pays are the next ones. -/
structure Sent where
  account : Account
  debited : ℚ
  amount : ℚ
deriving DecidableEq

def Sent.units (sent : Sent) : Set ℚ := Set.Ico sent.debited (sent.debited + sent.amount)

def accountOf (context : PayoutContext) (balance : Balance) : Account :=
  ⟨context.pool.id, context.pool.coin, balance.address⟩

def sends (context : PayoutContext) (database : Database) (payees : List Balance) : List Sent :=
  payees.map fun balance =>
    ⟨accountOf context balance, debitedOf database (accountOf context balance), balance.amount⟩

structure Message where
  id : Nat
  command : WalletCommand
  sends : List Sent

/-- A payout that is going on, and how it stands in the protocol. It waits for the reply to
the request with its id, or for the database. -/
structure Thread where
  context : PayoutContext
  id : Nat
  standing : Standing
  program : Payout Unit

def Thread.awaits (thread : Thread) : Option Order :=
  match thread.program with
  | .call order _ => some order
  | _ => none

/-- The database, the payout, the messages in flight and the transactions of the wallet. -/
structure State where
  database : Database
  thread : Option Thread
  nextId : Nat
  requests : List Message
  replies : List (Nat × WalletReply)
  executed : List (Nat × List Sent)

def State.initial : State where
  database := .empty
  thread := none
  nextId := 0
  requests := []
  replies := []
  executed := []

inductive Event
  | credit (poolId : Text) (block : Block) (credits : List (Text × ℚ≥0)) (callsLeft : Option Nat)
  | payout (poolId : Text) (wallet : Monero.Wallet)
  | handle (index : Nat) (executes : Bool) (reply : WalletReply)
  | loseRequest (index : Nat)
  | deliver (index : Nat)
  | giveUp (exception : Exception)
  | persist (callsLeft : Nat → Option Nat)

/-- The payout goes on to its next request, to the database or to its end. -/
def State.advance (state : State) (context : PayoutContext) (standing : Standing)
    (program : Payout Unit) : State :=
  match program with
  | .done _ => { state with thread := none }
  | .throw _ => { state with thread := none }
  | .call order _ =>
      { state with
        thread := some ⟨context, state.nextId, standing, program⟩
        nextId := state.nextId + 1
        requests := state.requests ++
          [⟨state.nextId, order.command, sends context state.database order.payees⟩] }
  | .perform _ _ =>
      { state with
        thread := some ⟨context, state.nextId, standing, program⟩
        nextId := state.nextId + 1 }

/-- A reply reaches the payout that waits for it, with other replies still in flight. -/
def State.resume (state : State) (thread : Thread) (reply : WalletReply)
    (replies : List (Nat × WalletReply)) : State :=
  match thread.program with
  | .call order resume =>
      { state with replies }.advance thread.context
        ((payoutProtocol thread.context.pool.coin).answered thread.standing order reply)
        (resume reply)
  | _ => state

def findContext (contexts : List PayoutContext) (poolId : Text) : Option PayoutContext :=
  contexts.find? fun context => context.pool.id = poolId

def balancesOverMinimum (context : PayoutContext) (database : Database) : List Balance :=
  getPoolBalancesOverThreshold database.balances context.pool.id context.processing.minimumPayment

/-- `PayoutPoolBalancesAsync`. -/
def State.payout (library : Monero.LibCryptonote) (state : State) (context : PayoutContext)
    (wallet : Monero.Wallet) : State :=
  let balances := balancesOverMinimum context state.database
  match balances.isEmpty, payoutHandler context.pool.coin with
  | false, some handler =>
      state.advance context ⟨balances, none⟩ (handler.payout library wallet context balances)
  | _, _ => state

/-- The payout calls `PersistPayments`. An exception ends it. -/
def State.persist (state : State) (thread : Thread) (callsLeft : Nat → Option Nat) : State :=
  match thread.program with
  | .perform payments next =>
      match payments.run thread.context.pool callsLeft state.database with
      | (database, .ok _) =>
          { state with database }.advance thread.context
            ((payoutProtocol thread.context.pool.coin).performed thread.standing payments) next
      | (database, .error _) => { state with database, thread := none }
  | _ => state

variable (library : Monero.LibCryptonote) (contexts : List PayoutContext)

def step (state : State) : Event → State
  | .credit poolId block credits callsLeft =>
      match findContext contexts poolId with
      | none => state
      | some context =>
          { state with database := (Transaction.run .database (creditAll context.pool block
            (credits.map fun credit => (credit.1, (credit.2 : ℚ)))) callsLeft state.database).1 }
  | .payout poolId wallet =>
      match state.thread, findContext contexts poolId with
      | none, some context => state.payout library context wallet
      | _, _ => state
  | .handle index executes reply =>
      match state.requests[index]? with
      | none => state
      | some message =>
          { state with
            requests := state.requests.eraseIdx index
            replies := state.replies ++ [(message.id, reply)]
            executed :=
              if executes then state.executed ++ [(message.id, message.sends)]
              else state.executed }
  | .loseRequest index => { state with requests := state.requests.eraseIdx index }
  | .deliver index =>
      match state.thread, state.replies[index]? with
      | some thread, some (id, reply) =>
          if id = thread.id then
            state.resume thread reply (state.replies.eraseIdx index)
          else state
      | _, _ => state
  | .giveUp exception =>
      match state.thread with
      | none => state
      | some thread => state.resume thread (.lost exception) state.replies
  | .persist callsLeft =>
      match state.thread with
      | none => state
      | some thread => state.persist thread callsLeft

/-! ## What a step can do -/

inductive Transition (state : State) : Event → State → Prop
  | stays {event : Event} : Transition state event state
  | credited {poolId : Text} {block : Block} {credits : List (Text × ℚ≥0)}
      {callsLeft : Option Nat} {context : PayoutContext} {result : Unit} {database : Database}
      (found : findContext contexts poolId = some context)
      (leads : Leads (creditAll context.pool block
        (credits.map fun credit => (credit.1, (credit.2 : ℚ)))) state.database result database) :
      Transition state (.credit poolId block credits callsLeft) { state with database }
  | started {poolId : Text} {wallet : Monero.Wallet} {context : PayoutContext}
      {handler : PayoutHandler} (idle : state.thread = none)
      (found : findContext contexts poolId = some context)
      (isHandler : payoutHandler context.pool.coin = some handler) :
      Transition state (.payout poolId wallet) (state.advance context
        ⟨balancesOverMinimum context state.database, none⟩
        (handler.payout library wallet context (balancesOverMinimum context state.database)))
  | handled {index : Nat} {message : Message} {executes : Bool} {reply : WalletReply}
      (isMessage : state.requests[index]? = some message) :
      Transition state (.handle index executes reply) { state with
        requests := state.requests.eraseIdx index
        replies := state.replies ++ [(message.id, reply)]
        executed :=
          if executes then state.executed ++ [(message.id, message.sends)] else state.executed }
  | lost {index : Nat} : Transition state (.loseRequest index)
      { state with requests := state.requests.eraseIdx index }
  | answered {index : Nat} {thread : Thread} {order : Order} {resume : WalletReply → Payout Unit}
      {reply : WalletReply} (going : state.thread = some thread)
      (isCall : thread.program = .call order resume)
      (isReply : state.replies[index]? = some (thread.id, reply)) :
      Transition state (.deliver index)
        ({ state with replies := state.replies.eraseIdx index }.advance thread.context
          ((payoutProtocol thread.context.pool.coin).answered thread.standing order reply)
          (resume reply))
  | gaveUp {exception : Exception} {thread : Thread} {order : Order}
      {resume : WalletReply → Payout Unit} (going : state.thread = some thread)
      (isCall : thread.program = .call order resume) :
      Transition state (.giveUp exception) (state.advance thread.context
        ((payoutProtocol thread.context.pool.coin).answered thread.standing order
          (.lost exception)) (resume (.lost exception)))
  | persisted {callsLeft : Nat → Option Nat} {thread : Thread} {payments : PersistPayments}
      {next : Payout Unit} {result : Unit} {database : Database}
      (going : state.thread = some thread) (isPerform : thread.program = .perform payments next)
      (leads : Leads (payments.transaction thread.context.pool) state.database result database) :
      Transition state (.persist callsLeft) ({ state with database }.advance thread.context
        ((payoutProtocol thread.context.pool.coin).performed thread.standing payments) next)
  | failed {callsLeft : Nat → Option Nat} {thread : Thread} {payments : PersistPayments}
      {next : Payout Unit} {exception : Exception} (going : state.thread = some thread)
      (isPerform : thread.program = .perform payments next)
      (fails : payments.run thread.context.pool callsLeft state.database =
        (state.database, .error exception)) :
      Transition state (.persist callsLeft) { state with thread := none }

theorem step_transition (state : State) (event : Event) :
    Transition library contexts state event (step library contexts state event) := by
  cases event with
  | credit poolId block credits callsLeft =>
      rw [step]
      cases found : findContext contexts poolId with
      | none => exact .stays
      | some context =>
          rcases run_cases .database (creditAll context.pool block
            (credits.map fun credit => (credit.1, (credit.2 : ℚ)))) callsLeft state.database with
            ⟨result, next, leads, equal⟩ | ⟨exception, equal⟩
          · simp only [equal]
            exact .credited found leads
          · simp only [equal]
            exact .stays
  | payout poolId wallet =>
      rw [step]
      cases idle : state.thread with
      | some thread => exact .stays
      | none =>
          cases found : findContext contexts poolId with
          | none => exact .stays
          | some context =>
              simp only [State.payout]
              split
              · rename_i handler _ isHandler
                exact .started idle found isHandler
              · exact .stays
  | handle index executes reply =>
      rw [step]
      cases isMessage : state.requests[index]? with
      | none => exact .stays
      | some message => exact .handled isMessage
  | loseRequest index => exact .lost
  | deliver index =>
      rw [step]
      cases going : state.thread with
      | none => exact .stays
      | some thread =>
          rcases isReply : state.replies[index]? with _ | ⟨id, reply⟩
          · exact .stays
          · dsimp only
            split_ifs with same
            · rw [State.resume]
              cases isCall : thread.program with
              | call order resume => exact .answered going isCall (same ▸ isReply)
              | done result => exact .stays
              | throw exception => exact .stays
              | perform payments next => exact .stays
            · exact .stays
  | giveUp exception =>
      rw [step]
      cases going : state.thread with
      | none => exact .stays
      | some thread =>
          simp only [State.resume]
          cases isCall : thread.program with
          | call order resume => exact .gaveUp going isCall
          | done result => exact .stays
          | throw other => exact .stays
          | perform payments next => exact .stays
  | persist callsLeft =>
      rw [step]
      cases going : state.thread with
      | none => exact .stays
      | some thread =>
          simp only [State.persist]
          cases isPerform : thread.program with
          | call order resume => exact .stays
          | done result => exact .stays
          | throw exception => exact .stays
          | perform payments next =>
              rcases executeWithRetry_cases (payments.transaction thread.context.pool) callsLeft
                retryCount state.database with ⟨result, database, leads, equal⟩ | ⟨exception, equal⟩
              · simp only [PersistPayments.run, equal]
                exact .persisted going isPerform leads
              · simp only [PersistPayments.run, equal]
                exact .failed going isPerform equal

/-! ## What every run keeps -/

def pools : List PoolConfig := contexts.map PayoutContext.pool

theorem findPool_of_context {poolId : Text} {context : PayoutContext}
    (found : findContext contexts poolId = some context) :
    findPool (pools contexts) context.pool.id = some context.pool := by
  have isId : context.pool.id = poolId := by simpa using List.find?_some found
  rw [isId, findPool, pools, List.find?_map, Option.map_eq_some_iff]
  exact ⟨context, found, rfl⟩

def Message.Asks (coin : CoinType) (message : Message) : Prop :=
  message.command.amounts coin = message.sends.map fun sent =>
    (payeeAddress coin sent.account.address, sentAmount coin sent.amount)

/-- A payout keeps to the protocol, and what it has not paid yet is there. -/
structure Proceeds (database : Database) (context : PayoutContext) (standing : Standing)
    (program : Payout Unit) : Prop where
  isPool : findPool (pools contexts) context.pool.id = some context.pool
  ledger : BalanceHistory.Ledger.Sound (pools contexts) ⟨database, standing.unpaid⟩
  owned : ∀ balance ∈ standing.unpaid, balance.poolId = context.pool.id
  nonneg : ∀ balance ∈ standing.unpaid, 0 ≤ balance.amount
  follows : (payoutProtocol context.pool.coin).Follows standing program

structure State.Sound (state : State) : Prop where
  ledger : BalanceHistory.Ledger.Sound (pools contexts) ⟨state.database, []⟩
  thread : ∀ thread, state.thread = some thread →
    Proceeds contexts state.database thread.context thread.standing thread.program
  requests : ∀ message ∈ state.requests, ∃ pool ∈ pools contexts, message.Asks pool.coin

section Advance

variable (state : State) (context : PayoutContext) (standing : Standing) (program : Payout Unit)

@[simp] theorem advance_database :
    (state.advance context standing program).database = state.database := by
  cases program <;> rfl

@[simp] theorem advance_replies :
    (state.advance context standing program).replies = state.replies := by
  cases program <;> rfl

@[simp] theorem advance_executed :
    (state.advance context standing program).executed = state.executed := by
  cases program <;> rfl

theorem advance_cases :
    (state.advance context standing program = { state with thread := none } ∧
      ((∃ result, program = .done result) ∨ ∃ exception, program = .throw exception)) ∨
    (∃ order resume, program = .call order resume ∧
      state.advance context standing program = { state with
        thread := some ⟨context, state.nextId, standing, program⟩
        nextId := state.nextId + 1
        requests := state.requests ++
          [⟨state.nextId, order.command, sends context state.database order.payees⟩] }) ∨
    ∃ payments next, program = .perform payments next ∧
      state.advance context standing program = { state with
        thread := some ⟨context, state.nextId, standing, program⟩
        nextId := state.nextId + 1 } := by
  cases program with
  | done result => exact .inl ⟨rfl, .inl ⟨result, rfl⟩⟩
  | throw exception => exact .inl ⟨rfl, .inr ⟨exception, rfl⟩⟩
  | call order resume => exact .inr (.inl ⟨order, resume, rfl, rfl⟩)
  | perform payments next => exact .inr (.inr ⟨payments, next, rfl, rfl⟩)

variable {state context standing program}

theorem advance_thread {thread : Thread}
    (going : (state.advance context standing program).thread = some thread) :
    thread = ⟨context, state.nextId, standing, program⟩ := by
  rcases advance_cases state context standing program with
    ⟨equal, -⟩ | ⟨order, resume, -, equal⟩ | ⟨payments, next, -, equal⟩
  · rw [equal] at going
    cases going
  · rw [equal] at going
    cases going
    rfl
  · rw [equal] at going
    cases going
    rfl

theorem asks_sends {order : Order} (asks : order.Asks context.pool.coin) (id : Nat)
    (database : Database) :
    Message.Asks context.pool.coin ⟨id, order.command, sends context database order.payees⟩ := by
  rw [Message.Asks, sends, List.map_map]
  exact asks

theorem advance_sound (ledger : BalanceHistory.Ledger.Sound (pools contexts) ⟨state.database, []⟩)
    (proceeds : Proceeds contexts state.database context standing program)
    (requests : ∀ message ∈ state.requests, ∃ pool ∈ pools contexts, message.Asks pool.coin) :
    (state.advance context standing program).Sound contexts where
  ledger := by
    rw [advance_database]
    exact ledger
  thread thread going := by
    rw [advance_thread going, advance_database]
    exact proceeds
  requests message member := by
    rcases advance_cases state context standing program with
      ⟨equal, -⟩ | ⟨order, resume, isCall, equal⟩ | ⟨payments, next, -, equal⟩
    · rw [equal] at member
      exact requests message member
    · rw [equal, List.mem_append, List.mem_singleton] at member
      rcases member with old | rfl
      · exact requests message old
      · have follows := proceeds.follows
        rw [isCall] at follows
        exact ⟨context.pool, List.mem_of_find?_eq_some proceeds.isPool,
          asks_sends follows.1.2.2.1 _ _⟩
    · rw [equal] at member
      exact requests message member

end Advance

section Proceeds

variable {contexts} {database next : Database} {context : PayoutContext} {standing : Standing}

theorem Proceeds.answered {order : Order} {resume : WalletReply → Payout Unit}
    (proceeds : Proceeds contexts database context standing (.call order resume))
    (reply : WalletReply) :
    Proceeds contexts database context
      ((payoutProtocol context.pool.coin).answered standing order reply) (resume reply) where
  isPool := proceeds.isPool
  ledger := by
    rw [answered_unpaid]
    exact proceeds.ledger
  owned := by
    rw [answered_unpaid]
    exact proceeds.owned
  nonneg := by
    rw [answered_unpaid]
    exact proceeds.nonneg
  follows := proceeds.follows.2 reply

theorem Proceeds.persisted {payments : PersistPayments} {rest : Payout Unit} {result : Unit}
    (proceeds : Proceeds contexts database context standing (.perform payments rest))
    (leads : Leads (payments.transaction context.pool) database result next) :
    Persisted context.pool payments database next ∧
      Proceeds contexts next context
        ((payoutProtocol context.pool.coin).performed standing payments) rest := by
  rcases proceeds.follows with ⟨⟨isUnpaid, nodup, -⟩, follows⟩
  rcases payments with ⟨balances, txId⟩
  rcases persist_effect proceeds.isPool nodup isUnpaid
    (fun balance member => proceeds.owned balance (isUnpaid member)) proceeds.ledger leads with
    ⟨persisted, ledger⟩
  refine ⟨persisted, ?_⟩
  exact {
    isPool := proceeds.isPool
    ledger := ledger
    owned := fun balance member => proceeds.owned balance (List.mem_filter.mp member).1
    nonneg := fun balance member => proceeds.nonneg balance (List.mem_filter.mp member).1
    follows := follows }

end Proceeds

theorem credits_nonneg (credits : List (Text × ℚ≥0)) :
    ∀ credit ∈ credits.map fun credit => (credit.1, (credit.2 : ℚ)), 0 ≤ credit.2 := by
  intro credit member
  rcases List.mem_map.mp member with ⟨given, -, rfl⟩
  exact given.2.coe_nonneg

theorem started_proceeds {poolId : Text} {context : PayoutContext} {handler : PayoutHandler}
    {database : Database}
    (sound : BalanceHistory.Ledger.Sound (pools contexts) ⟨database, []⟩)
    (found : findContext contexts poolId = some context)
    (isHandler : payoutHandler context.pool.coin = some handler) (wallet : Monero.Wallet) :
    Proceeds contexts database context ⟨balancesOverMinimum context database, none⟩
      (handler.payout library wallet context (balancesOverMinimum context database)) := by
  have read := BalanceHistory.read_sound (pools contexts) sound context.pool.id
    context.processing.minimumPayment
  have distinct : (balancesOverMinimum context database).Nodup := List.Nodup.of_map _ read.unique
  exact {
    isPool := findPool_of_context contexts found
    ledger := read
    owned := by
      intro balance member
      have parts := (List.mem_filter.mp member).2
      rw [decide_eq_true_eq] at parts
      exact parts.1
    nonneg := fun balance member =>
      sound.consistent.nonneg balance (List.mem_filter.mp member).1
    follows := follows_more (payout_follows library wallet isHandler distinct)
      (handler.paidBalances_subset library wallet context _) }

theorem Proceeds.credited {database next : Database} {context other : PayoutContext}
    {standing : Standing} {program : Payout Unit} {poolId : Text} {block : Block}
    {credits : List (Text × ℚ≥0)} {result : Unit}
    (proceeds : Proceeds contexts database context standing program)
    (found : findContext contexts poolId = some other)
    (leads : Leads (creditAll other.pool block
      (credits.map fun credit => (credit.1, (credit.2 : ℚ)))) database result next) :
    Proceeds contexts next context standing program :=
  { proceeds with
    ledger := (creditAll_effect (credits_nonneg credits) (findPool_of_context contexts found)
      proceeds.ledger leads).1 }

variable {contexts} in
theorem State.Sound.fewer {state : State} (sound : state.Sound contexts) {requests : List Message}
    (fewer : requests ⊆ state.requests) (replies : List (Nat × WalletReply))
    (executed : List (Nat × List Sent)) :
    { state with requests, replies, executed }.Sound contexts where
  ledger := sound.ledger
  thread := sound.thread
  requests message member := sound.requests message (fewer member)

theorem step_sound (state : State) (event : Event) (sound : state.Sound contexts) :
    (step library contexts state event).Sound contexts := by
  have transition := step_transition library contexts state event
  generalize step library contexts state event = next at transition ⊢
  cases transition with
  | stays => exact sound
  | credited found leads =>
      refine ⟨(creditAll_effect (credits_nonneg _) (findPool_of_context contexts found)
        sound.ledger leads).1, ?_, sound.requests⟩
      intro thread going
      exact (sound.thread thread going).credited contexts found leads
  | started idle found isHandler =>
      exact advance_sound contexts sound.ledger
        (started_proceeds library contexts sound.ledger found isHandler _) sound.requests
  | handled isMessage => exact sound.fewer List.eraseIdx_subset _ _
  | lost => exact sound.fewer List.eraseIdx_subset _ _
  | answered going isCall isReply =>
      have proceeds := sound.thread _ going
      rw [isCall] at proceeds
      exact advance_sound contexts sound.ledger (proceeds.answered _) sound.requests
  | gaveUp going isCall =>
      have proceeds := sound.thread _ going
      rw [isCall] at proceeds
      exact advance_sound contexts sound.ledger (proceeds.answered _) sound.requests
  | persisted going isPerform leads =>
      have proceeds := sound.thread _ going
      rw [isPerform] at proceeds
      have later := (proceeds.persisted leads).2
      exact advance_sound contexts (later.ledger.sublist _ (List.nil_sublist _)) later
        sound.requests
  | failed going isPerform fails =>
      refine ⟨sound.ledger, ?_, sound.requests⟩
      intro thread ended
      cases ended

theorem State.sound_initial : State.initial.Sound contexts where
  ledger := BalanceHistory.Ledger.sound_empty (pools contexts)
  thread _ going := by cases going
  requests _ member := by cases member

theorem requests_ask (events : List Event) :
    ∀ message ∈ (Run.final (step library contexts) State.initial events).requests,
      ∃ pool ∈ pools contexts, message.Asks pool.coin :=
  (Run.final_invariant (step library contexts) (State.Sound contexts)
    (step_sound library contexts) State.initial (State.sound_initial contexts) events).requests

namespace SamplePayouts

def cryptonote : Monero.LibCryptonote where
  decodeAddress _ := 18
  decodeIntegratedAddress _ := 0

def wallet : Monero.Wallet where
  networkType := .main
  supportsTransferSplit := true

def context : PayoutContext where
  pool := SampleRounds.pool
  poolName := none
  clusterName := none
  processing := {
    minimumPayment := 1
    walletPassword := none
    minersPayTxFees := false
    minimumPaymentToPaymentId := none }

def miner : Text := text "alice"

def account : Account := ⟨SampleRounds.poolId, .EXCC, miner⟩

def block : Block where
  id := 1
  poolId := SampleRounds.poolId
  blockHeight := 100
  networkDifficulty := 100
  status := .confirmed
  type := none
  confirmationProgress := 1
  effort := none
  transactionConfirmationData := []
  reward := 10
  hash := none
  created := 0

def credit : Event := .credit SampleRounds.poolId block [(miner, 10)] none

def payout : Event := .payout SampleRounds.poolId wallet

def pays (result : Option Value) : Event := .handle 0 true (.received (some ⟨result, none⟩))

def commits : Event := .persist fun _ => none

def round (result : Option Value) : List Event :=
  [credit, payout, pays result, .deliver 0, commits]

end SamplePayouts

end Miningcore.Payments.PayoutRuns

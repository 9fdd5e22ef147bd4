import Miningcore.Foundation.Resilience
import Miningcore.Payments.PayoutManager

/-! `ShareRecorder`: batches of shares go to the database, with retries behind a circuit
breaker, or to the recovery file. The file is writable. -/

namespace Miningcore.Mining

open Persistence Payments Resilience

inductive Failure
  | dbException
  | socketException
  | timeoutException
  | brokenCircuitException
  | other
deriving DecidableEq, Repr

/-- How an attempt to persist a batch fares: the number of calls to the database that
succeed, if there is a limit, and the exception behind the limit. -/
structure Attempt where
  callsLeft : Option Nat
  failure : Failure

/-- A batch of the queue, with how its attempts fare and what the breaker reads meanwhile. -/
structure Delivery (breaker : Breaker) where
  records : List ShareRecord
  attempts : Nat → Attempt
  readings : breaker.Readings

inductive RecoveryLine
  | comment (line : String)
  | blank
  | record (record : ShareRecord)

structure Stores where
  database : Database
  recoveryFile : List RecoveryLine

/-- `PersistShares`. An exception rolls the transaction back. -/
def persistSharesTx (records : List ShareRecord) (attempt : Attempt) :
    Operation Stores Failure Unit := fun stores =>
  match Transaction.run .database (persistShares records) attempt.callsLeft stores.database with
  | (database, .ok _) => ({ stores with database }, .ok ())
  | (database, .error _) => ({ stores with database }, .error attempt.failure)

def writeRecoveryFileheader : List RecoveryLine :=
  [.comment "# The existence of this file means shares could not be committed to the database.",
    .comment "# You should stop the pool cluster and run the following command:",
    .comment "# miningcore -c <path-to-config> -rs <path-to-this-file>", .blank]

variable {breaker : Breaker}

/-- `OnExecutePolicyFallback`: the batch is appended to the recovery file. -/
def onExecutePolicyFallback (records : List ShareRecord) :
    Operation (breaker.Circuit × Stores) Failure Unit := fun (circuit, stores) =>
  let header := if stores.recoveryFile.isEmpty then writeRecoveryFileheader else []
  ((circuit, { stores with
    recoveryFile := stores.recoveryFile ++ (header ++ records.map .record) }), .ok ())

/-- The exceptions that the retry, the breaker and the inner fallback handle. -/
def Failure.isDatabase : Failure → Bool
  | .dbException | .socketException | .timeoutException => true
  | .brokenCircuitException | .other => false

def Failure.isBrokenCircuit : Failure → Bool
  | .brokenCircuitException => true
  | _ => false

def retryCount : Nat := 3

/-- What the breaker is told: two failures, each of them after all retries, open the circuit
for a minute. Times are ticks. -/
def breakerPolicy : BreakerPolicy Failure where
  handles := Failure.isDatabase
  failuresAllowed := 2
  durationOfBreak := 600000000
  broken := .brokenCircuitException

/-- `PersistSharesFaulTolerant`, with the policies of `BuildFaultHandlingPolicy`. -/
def persistSharesFaulTolerant (delivery : Delivery breaker) :
    Operation (breaker.Circuit × Stores) Failure Unit :=
  fallback Failure.isBrokenCircuit (onExecutePolicyFallback delivery.records)
    (fallback Failure.isDatabase (onExecutePolicyFallback delivery.records)
      (circuitBreaker breaker breakerPolicy delivery.readings
        (retry Failure.isDatabase
          (fun number => persistSharesTx delivery.records (delivery.attempts number)) 0
          retryCount)))

/-- The subscription of `InitializeQueue`. Empty batches are left out, and an exception that
is left over is logged. -/
def onNext (state : breaker.Circuit × Stores) (delivery : Delivery breaker) :
    breaker.Circuit × Stores :=
  if delivery.records.isEmpty then state else (persistSharesFaulTolerant delivery state).1

/-! ## One batch -/

def recoverable (file : List RecoveryLine) : List ShareRecord :=
  file.filterMap fun line => match line with
    | .record record => some record
    | .comment _ | .blank => none

inductive Store
  | database
  | recoveryFile
deriving DecidableEq, Repr

/-- The batch has been added to one of the stores, as a whole and once, and the other store
is what it was. -/
def AddedTo (records : List ShareRecord) (before after : Stores) : Store → Prop
  | .database =>
      after.database.shares = before.database.shares ++ records.map ShareRecord.share ∧
        after.recoveryFile = before.recoveryFile
  | .recoveryFile =>
      after.database = before.database ∧
        recoverable after.recoveryFile = recoverable before.recoveryFile ++ records

theorem persistSharesTx_cases (records : List ShareRecord) (attempt : Attempt) (stores : Stores) :
    (∃ after, persistSharesTx records attempt stores = (after, .ok ()) ∧
      AddedTo records stores after .database) ∨
    persistSharesTx records attempt stores = (stores, .error attempt.failure) := by
  rw [persistSharesTx]
  rcases Transaction.run_cases .database (persistShares records) attempt.callsLeft
    stores.database with ⟨result, next, leads, committed⟩ | ⟨failure, rolledBack⟩
  · left
    rw [committed]
    exact ⟨_, rfl, persistShares_shares leads, rfl⟩
  · right
    rw [rolledBack]

theorem onExecutePolicyFallback_eq (records : List ShareRecord) (circuit : breaker.Circuit)
    (stores : Stores) :
    ∃ after, onExecutePolicyFallback records (circuit, stores) = ((circuit, after), .ok ()) ∧
      AddedTo records stores after .recoveryFile := by
  refine ⟨_, rfl, rfl, ?_⟩
  have header : recoverable
      (if stores.recoveryFile.isEmpty then writeRecoveryFileheader else []) = [] := by
    split_ifs
    · rfl
    · rfl
  have body : recoverable (records.map .record) = records := by
    rw [recoverable, List.filterMap_map]
    exact List.filterMap_some
  rw [recoverable, List.filterMap_append, List.filterMap_append]
  exact congrArg₂ _ rfl (by rw [← recoverable, ← recoverable, header, body, List.nil_append])

theorem retries_cases {delivery : Delivery breaker}
    (raised : ∀ number, (delivery.attempts number).failure.isDatabase = true) (stores : Stores) :
    (∃ after, retry Failure.isDatabase
        (fun number => persistSharesTx delivery.records (delivery.attempts number)) 0 retryCount
        stores = (after, .ok ()) ∧ AddedTo delivery.records stores after .database) ∨
    ∃ failure, retry Failure.isDatabase
        (fun number => persistSharesTx delivery.records (delivery.attempts number)) 0 retryCount
        stores = (stores, .error failure) ∧ failure.isDatabase = true := by
  have kept (number : Nat) (stores : Stores) (failure : Failure)
      (throws : (persistSharesTx delivery.records (delivery.attempts number) stores).2 =
        .error failure) :
      stores = (persistSharesTx delivery.records (delivery.attempts number) stores).1 := by
    rcases persistSharesTx_cases delivery.records (delivery.attempts number) stores with
      ⟨after, commits, -⟩ | rollsBack
    · rw [commits] at throws
      cases throws
    · rw [rollsBack]
  rcases retry_eq_attempt Failure.isDatabase Eq.refl Eq.trans kept 0 retryCount stores with
    ⟨last, before, rfl, ends⟩
  rw [ends]
  rcases persistSharesTx_cases delivery.records (delivery.attempts last) stores with
    commits | rollsBack
  · exact .inl commits
  · exact .inr ⟨_, rollsBack, raised last⟩

theorem persistSharesFaulTolerant_cases {delivery : Delivery breaker}
    (raised : ∀ number, (delivery.attempts number).failure.isDatabase = true)
    (circuit : breaker.Circuit) (stores : Stores) :
    ∃ next after store, persistSharesFaulTolerant delivery (circuit, stores) =
      ((next, after), .ok ()) ∧ AddedTo delivery.records stores after store := by
  rw [persistSharesFaulTolerant]
  rcases circuitBreaker_cases breaker breakerPolicy delivery.readings
    (retry Failure.isDatabase
      (fun number => persistSharesTx delivery.records (delivery.attempts number)) 0 retryCount)
    circuit stores with ⟨next, rejects⟩ | ⟨next, admits⟩
  · -- the inner fallback does not know the exception of the breaker
    have passes : fallback Failure.isDatabase (onExecutePolicyFallback delivery.records) _
        (circuit, stores) = ((next, stores), .error .brokenCircuitException) :=
      fallback_of_unhandled rejects rfl
    rcases onExecutePolicyFallback_eq delivery.records next stores with ⟨after, writes, added⟩
    refine ⟨next, after, .recoveryFile, ?_, added⟩
    rw [fallback_of_handled passes rfl, writes]
  · rcases retries_cases raised stores with ⟨after, commits, added⟩ | ⟨failure, fails, isDatabase⟩
    · rw [commits] at admits
      refine ⟨next, after, .database, ?_, added⟩
      exact fallback_of_ok (fallback_of_ok admits)
    · rw [fails] at admits
      rcases onExecutePolicyFallback_eq delivery.records next stores with ⟨after, writes, added⟩
      refine ⟨next, after, .recoveryFile, ?_, added⟩
      apply fallback_of_ok
      rw [fallback_of_handled admits isDatabase, writes]

/-! ## Runs -/

def storedIn (store : Store) (deliveries : List (Delivery breaker)) (stores : List Store) :
    List ShareRecord :=
  ((deliveries.zip stores).filter fun delivered => delivered.2 = store).flatMap
    fun delivered => delivered.1.records

theorem storedIn_cons (store first : Store) (delivery : Delivery breaker)
    (deliveries : List (Delivery breaker)) (stores : List Store) :
    storedIn store (delivery :: deliveries) (first :: stores) =
      (if first = store then delivery.records else []) ++ storedIn store deliveries stores := by
  rw [storedIn, List.zip_cons_cons, List.filter_cons]
  by_cases same : first = store
  · simp only [same, decide_true, if_true, List.flatMap_cons]
    rfl
  · simp only [same, decide_false, Bool.false_eq_true, if_false]
    rfl

theorem onNext_cases {delivery : Delivery breaker}
    (raised : ∀ number, (delivery.attempts number).failure.isDatabase = true)
    (state : breaker.Circuit × Stores) :
    ∃ store, AddedTo delivery.records state.2 (onNext state delivery).2 store := by
  rw [onNext]
  split_ifs with isEmpty
  · use .recoveryFile, rfl
    rw [List.isEmpty_iff.mp isEmpty, List.append_nil]
  · rcases persistSharesFaulTolerant_cases raised state.1 state.2 with
      ⟨next, after, store, ends, added⟩
    rw [ends]
    exact ⟨store, added⟩

/-- For every sequence of batches and every pattern of database exceptions, whatever the
breaker does in between: each batch goes to one of the stores, the database has the shares of
the batches that went there and no others, and so has the recovery file. -/
theorem shares_stored_once (deliveries : List (Delivery breaker))
    (raised : ∀ delivery ∈ deliveries, ∀ number,
      (delivery.attempts number).failure.isDatabase = true) (state : breaker.Circuit × Stores) :
    ∃ stores : List Store, stores.length = deliveries.length ∧
      (Run.final onNext state deliveries).2.database.shares =
        state.2.database.shares ++
          (storedIn .database deliveries stores).map ShareRecord.share ∧
      recoverable (Run.final onNext state deliveries).2.recoveryFile =
        recoverable state.2.recoveryFile ++ storedIn .recoveryFile deliveries stores := by
  induction deliveries generalizing state with
  | nil => exact ⟨[], rfl, (List.append_nil _).symm, (List.append_nil _).symm⟩
  | cons delivery deliveries induction =>
      rcases onNext_cases (raised delivery List.mem_cons_self) state with ⟨store, added⟩
      rcases induction (fun other member => raised other (List.mem_cons_of_mem _ member))
        (onNext state delivery) with ⟨stores, sameLength, database, recoveryFile⟩
      use store :: stores
      refine ⟨congrArg Nat.succ sameLength, ?_, ?_⟩
      · rw [Run.final, List.foldl_cons, ← Run.final, database, storedIn_cons]
        cases store with
        | database => simp [added.1]
        | recoveryFile => simp [added.1]
      · rw [Run.final, List.foldl_cons, ← Run.final, recoveryFile, storedIn_cons]
        cases store with
        | database => simp [added.2]
        | recoveryFile => simp [added.2]

/-! ## A break of the database

Two batches fail and open the circuit, the next one comes during the break, the trial behind
the break fails as well, and the one behind that is committed. -/

namespace SampleBreak

abbrev counting : Breaker := ConsecutiveFailures.breaker breakerPolicy

def delivery (callsLeft : Option Nat) (failure : Failure) (time : Int) :
    Delivery counting where
  records := [{
    share := {
      poolId := text "exc1"
      miner := text "miner"
      payoutInfo := none
      difficulty := 1
      networkDifficulty := 1
      created := time }
    blockHeight := 1
    isBlockCandidate := false
    blockReward := 0
    blockHash := none
    transactionConfirmationData := [] }]
  attempts _ := { callsLeft, failure }
  readings := ⟨time, time, time, time⟩

def deliveries : List (Delivery counting) :=
  [delivery (some 1) .dbException 0, delivery (some 0) .socketException 10,
    delivery none .dbException 20, delivery (some 1) .timeoutException 700000000,
    delivery none .dbException 1400000000]

def initial : counting.Circuit × Stores :=
  (⟨.closed, 0, 0⟩,
    { database := .empty, recoveryFile := [] })

end SampleBreak

theorem shares_stored_once_break :
    (Run.final onNext SampleBreak.initial SampleBreak.deliveries).2.database.shares.length = 1 ∧
      (Run.final onNext SampleBreak.initial SampleBreak.deliveries).2.recoveryFile.length = 8 ∧
      ∃ stores : List Store, stores.length = 5 ∧
        (Run.final onNext SampleBreak.initial SampleBreak.deliveries).2.database.shares =
          (storedIn .database SampleBreak.deliveries stores).map ShareRecord.share ∧
        recoverable
            (Run.final onNext SampleBreak.initial SampleBreak.deliveries).2.recoveryFile =
          storedIn .recoveryFile SampleBreak.deliveries stores := by
  have raised : ∀ delivery ∈ SampleBreak.deliveries, ∀ number,
      (delivery.attempts number).failure.isDatabase = true := by
    simp [SampleBreak.deliveries, SampleBreak.delivery, Failure.isDatabase]
  rcases shares_stored_once SampleBreak.deliveries raised SampleBreak.initial with
    ⟨stores, five, database, recoveryFile⟩
  have noShares : SampleBreak.initial.2.database.shares = [] := rfl
  have noLines : recoverable SampleBreak.initial.2.recoveryFile = [] := rfl
  rw [noShares, List.nil_append] at database
  rw [noLines, List.nil_append] at recoveryFile
  exact ⟨by decide +kernel, by decide +kernel, stores, five, database, recoveryFile⟩

end Miningcore.Mining

import Miningcore.Foundation.Messages
import Miningcore.Mining.ShareRecorder

/-! The notifications of `ShareRecorder` about new blocks.

`PersistShares` sends a message for each block it inserts, from inside of the transaction.
An attempt that is rolled back has told of blocks that are not in the database. -/

namespace Miningcore.Mining

open Persistence Payments Resilience Transaction

structure BlockNotification where
  poolId : Text
  blockHeight : Nat
deriving DecidableEq

def ShareRecord.notification (record : ShareRecord) : BlockNotification where
  poolId := record.share.poolId
  blockHeight := record.blockHeight

def Block.notification (block : Block) : BlockNotification where
  poolId := block.poolId
  blockHeight := block.blockHeight

structure Recorder where
  stores : Stores
  sent : List BlockNotification

/-- The body of `PersistShares`. -/
def persistSharesSending : List ShareRecord → Sending BlockNotification Database Exception Unit
  | [] => pure ()
  | record :: records => do
      perform (insertShare record.share)
      if record.isBlockCandidate then
        perform (insertBlock record.block)
        send (ShareRecord.notification record)
      persistSharesSending records

/-- `PersistShares`. -/
def persistSharesTxSending (records : List ShareRecord) (attempt : Attempt) :
    Operation Recorder Failure Unit := fun recorder =>
  match runSending .database (persistSharesSending records) attempt.callsLeft
      (recorder.stores.database, recorder.sent) with
  | ((database, sent), .ok _) => (⟨{ recorder.stores with database }, sent⟩, .ok ())
  | ((database, sent), .error _) =>
      (⟨{ recorder.stores with database }, sent⟩, .error attempt.failure)

variable {breaker : Breaker}

/-- `OnExecutePolicyFallback`. It sends no notification of a block. -/
def onExecutePolicyFallbackSending (records : List ShareRecord) :
    Operation (breaker.Circuit × Recorder) Failure Unit := fun (circuit, recorder) =>
  match onExecutePolicyFallback records (circuit, recorder.stores) with
  | ((circuit, stores), result) => ((circuit, { recorder with stores }), result)

def retriesSending (delivery : Delivery breaker) (first retries : Nat) :
    Operation Recorder Failure Unit :=
  retry Failure.isDatabase
    (fun number => persistSharesTxSending delivery.records (delivery.attempts number)) first retries

/-- `PersistSharesFaulTolerant`. -/
def persistSharesFaulTolerantSending (delivery : Delivery breaker) :
    Operation (breaker.Circuit × Recorder) Failure Unit :=
  fallback Failure.isBrokenCircuit (onExecutePolicyFallbackSending delivery.records)
    (fallback Failure.isDatabase (onExecutePolicyFallbackSending delivery.records)
      (circuitBreaker breaker breakerPolicy delivery.readings
        (retriesSending delivery 0 retryCount)))

/-! ## Without the messages -/

theorem persistSharesSending_erases (records : List ShareRecord) :
    Erases (persistSharesSending records) (persistShares records) := by
  induction records with
  | nil => exact erases_pure ()
  | cons record records induction =>
      rw [persistSharesSending, persistShares]
      apply erases_bind (erases_perform _)
      intro _
      split_ifs
      · apply erases_bind (erases_perform _)
        intro _
        exact erases_send _ induction
      · exact induction

theorem persistSharesTxSending_projects (records : List ShareRecord) (attempt : Attempt) :
    Projects Recorder.stores (persistSharesTxSending records attempt)
      (persistSharesTx records attempt) := by
  intro recorder
  have same := (persistSharesSending_erases records).run .database attempt.callsLeft
    (recorder.stores.database, recorder.sent)
  rw [persistSharesTx, persistSharesTxSending, ← same]
  generalize runSending .database (persistSharesSending records) attempt.callsLeft
    (recorder.stores.database, recorder.sent) = outcome
  rcases outcome with ⟨⟨database, sent⟩, failure | _⟩
  · rfl
  · rfl

theorem persistSharesFaulTolerantSending_projects (delivery : Delivery breaker) :
    Projects (Prod.map id Recorder.stores) (persistSharesFaulTolerantSending delivery)
      (persistSharesFaulTolerant delivery) := by
  have acts : Projects (Prod.map id Recorder.stores)
      (@onExecutePolicyFallbackSending breaker delivery.records)
      (onExecutePolicyFallback delivery.records) := fun _ => rfl
  apply Projects.fallback acts
  apply Projects.fallback acts
  apply Projects.circuitBreaker
  apply Projects.retry
  intro number
  exact persistSharesTxSending_projects delivery.records (delivery.attempts number)

/-! ## One attempt -/

def Covers (callsLeft : Option Nat) (calls : Nat) : Prop :=
  ∀ left ∈ callsLeft, calls ≤ left

def IsStorable (record : ShareRecord) : Prop :=
  record.isBlockCandidate = true → ∃ stored, numeric record.blockReward = .ok stored

def insertions : List ShareRecord → Nat
  | [] => 0
  | record :: records => (if record.isBlockCandidate then 2 else 1) + insertions records

def Succeeds (records : List ShareRecord) (attempt : Attempt) : Prop :=
  (∀ record ∈ records, IsStorable record) ∧ Covers attempt.callsLeft (insertions records + 1)

/-- An attempt that gets past the block of the first candidate: the shares before it, its own
share and its block are inserted. -/
def InsertsBlock (records : List ShareRecord) (callsLeft : Option Nat) : Prop :=
  ∃ record, records.find? ShareRecord.isBlockCandidate = some record ∧ IsStorable record ∧
    Covers callsLeft (records.findIdx ShareRecord.isBlockCandidate + 2)

def notifications (records : List ShareRecord) : List BlockNotification :=
  (records.filter ShareRecord.isBlockCandidate).map ShareRecord.notification

theorem covers_zero (callsLeft : Option Nat) : Covers callsLeft 0 := fun _ _ => Nat.zero_le _

theorem covers_succ {callsLeft : Option Nat} (calls : Nat) :
    Covers callsLeft (calls + 1) ↔
      callsLeft ≠ some 0 ∧ Covers (callsLeft.map Nat.pred) calls := by
  cases callsLeft with
  | none => simp [Covers]
  | some left =>
      simp only [Covers, Option.mem_some_iff, Option.map_some, forall_eq', ne_eq,
        Option.some.injEq, Nat.pred_eq_sub_one]
      omega

theorem insertShare_of_covers {callsLeft : Option Nat} (share : Share) (database : Database)
    (covers : callsLeft ≠ some 0) :
    insertShare share ⟨database, callsLeft⟩ =
      .ok ((), ⟨{ database with shares := database.shares ++ [share] },
        callsLeft.map Nat.pred⟩) := by
  simp only [insertShare, execute, call, if_neg covers]
  rfl

theorem insertBlock_of_covers {callsLeft : Option Nat} (block : Block) {stored : ℚ}
    (database : Database) (storable : numeric block.reward = .ok stored)
    (covers : callsLeft ≠ some 0) :
    insertBlock block ⟨database, callsLeft⟩ =
      .ok ((), ⟨{ database with
        blocks := database.blocks ++ [{ block with id := database.nextBlockId, reward := stored }]
        nextBlockId := database.nextBlockId + 1 }, callsLeft.map Nat.pred⟩) := by
  simp only [insertBlock, execute, call, if_neg covers, storable]
  rfl

theorem insertShare_of_lost (share : Share) (database : Database) :
    insertShare share ⟨database, some 0⟩ = .error .database := rfl

theorem insertBlock_of_refused {callsLeft : Option Nat} {block : Block} {failure : Exception}
    (database : Database) (refused : numeric block.reward = .error failure) :
    ∃ thrown, insertBlock block ⟨database, callsLeft⟩ = .error thrown := by
  by_cases lost : callsLeft = some 0
  · use .database
    rw [lost]
    rfl
  · use failure
    simp only [insertBlock, execute, call, if_neg lost, refused]
    rfl

theorem insertsBlock_cons {record : ShareRecord} {records : List ShareRecord}
    {callsLeft : Option Nat} :
    InsertsBlock (record :: records) callsLeft ↔
      if record.isBlockCandidate then IsStorable record ∧ Covers callsLeft 2
      else InsertsBlock records (callsLeft.map Nat.pred) := by
  cases candidate : record.isBlockCandidate with
  | true => simp [InsertsBlock, List.findIdx_cons, candidate]
  | false =>
      have lost (calls : Nat) : Covers callsLeft (calls + 1 + 2) ↔
          Covers (callsLeft.map Nat.pred) (calls + 2) := by
        rw [covers_succ]
        constructor
        · exact And.right
        · intro covers
          refine ⟨?_, covers⟩
          rintro rfl
          exact absurd (covers 0 rfl) (by omega)
      simp only [InsertsBlock, List.find?_cons, List.findIdx_cons, candidate, cond_false,
        Bool.false_eq_true, if_false, lost]

def Completes (records : List ShareRecord) (callsLeft : Option Nat) : Prop :=
  (∀ record ∈ records, IsStorable record) ∧ Covers callsLeft (insertions records)

theorem completes_cons {record : ShareRecord} {records : List ShareRecord}
    {callsLeft : Option Nat} :
    Completes (record :: records) callsLeft ↔
      if record.isBlockCandidate then
        (IsStorable record ∧ Covers callsLeft 2) ∧
          Completes records ((callsLeft.map Nat.pred).map Nat.pred)
      else callsLeft ≠ some 0 ∧ Completes records (callsLeft.map Nat.pred) := by
  cases candidate : record.isBlockCandidate with
  | true =>
      simp only [Completes, List.forall_mem_cons, insertions, candidate, if_true]
      rw [Nat.add_comm 2, covers_succ, covers_succ, covers_succ, covers_succ]
      simp only [covers_zero, and_true]
      tauto
  | false =>
      have storable : IsStorable record := by
        intro isCandidate
        rw [candidate] at isCandidate
        cases isCandidate
      simp only [Completes, List.forall_mem_cons, insertions, candidate, Bool.false_eq_true,
        if_false]
      rw [Nat.add_comm 1, covers_succ]
      tauto

theorem persistSharesSending_plain {record : ShareRecord} (records : List ShareRecord)
    {callsLeft : Option Nat} (plain : record.isBlockCandidate = false)
    (covers : callsLeft ≠ some 0) (database : Database) (sent : List BlockNotification) :
    persistSharesSending (record :: records) ⟨database, callsLeft⟩ sent =
      persistSharesSending records
        ⟨{ database with shares := database.shares ++ [record.share] }, callsLeft.map Nat.pred⟩
        sent := by
  rw [persistSharesSending, perform_bind_of_ok (insertShare_of_covers record.share database covers)]
  simp only [plain, Bool.false_eq_true, if_false]

theorem persistSharesSending_candidate {record : ShareRecord} (records : List ShareRecord)
    {callsLeft : Option Nat} (candidate : record.isBlockCandidate = true)
    (storable : IsStorable record) (covers : Covers callsLeft 2) (database : Database)
    (sent : List BlockNotification) :
    ∃ next, persistSharesSending (record :: records) ⟨database, callsLeft⟩ sent =
        persistSharesSending records ⟨next, (callsLeft.map Nat.pred).map Nat.pred⟩
          (sent ++ [ShareRecord.notification record]) ∧
      next.blocks.map Block.notification =
        database.blocks.map Block.notification ++ [ShareRecord.notification record] := by
  rw [covers_succ, covers_succ] at covers
  rcases storable candidate with ⟨stored, isStored⟩
  rw [persistSharesSending,
    perform_bind_of_ok (insertShare_of_covers record.share database covers.1)]
  simp only [candidate, if_true]
  rw [perform_bind_of_ok (insertBlock_of_covers record.block _ isStored covers.2.1)]
  refine ⟨_, rfl, ?_⟩
  simp only [List.map_append, List.map_cons, List.map_nil]
  rfl

theorem persistSharesSending_refused {record : ShareRecord} (records : List ShareRecord)
    {callsLeft : Option Nat} (refused : ¬(IsStorable record ∧ Covers callsLeft 2))
    (candidate : record.isBlockCandidate = true) (database : Database)
    (sent : List BlockNotification) :
    ∃ failure, persistSharesSending (record :: records) ⟨database, callsLeft⟩ sent =
      (.error failure, sent) := by
  rw [persistSharesSending]
  by_cases covers : callsLeft ≠ some 0
  · rw [perform_bind_of_ok (insertShare_of_covers record.share database covers)]
    simp only [candidate, if_true]
    have throws : ∃ failure, insertBlock record.block
        ⟨{ database with shares := database.shares ++ [record.share] },
          callsLeft.map Nat.pred⟩ = .error failure := by
      cases stored : numeric record.blockReward with
      | error failure => exact insertBlock_of_refused _ stored
      | ok reward =>
          have lost : callsLeft.map Nat.pred = some 0 := by
            by_contra left
            apply refused
            constructor
            · exact fun _ => ⟨reward, stored⟩
            · rw [covers_succ, covers_succ]
              exact ⟨covers, left, covers_zero _⟩
          use .database
          rw [lost]
          rfl
    rcases throws with ⟨failure, throws⟩
    exact ⟨failure, perform_bind_of_error throws sent⟩
  · rw [not_not.mp covers]
    exact ⟨.database, perform_bind_of_error (insertShare_of_lost record.share database) sent⟩

theorem persistSharesSending_completes {records : List ShareRecord} {callsLeft : Option Nat}
    (completes : Completes records callsLeft) (database : Database)
    (sent : List BlockNotification) :
    ∃ next, persistSharesSending records ⟨database, callsLeft⟩ sent =
        (.ok ((), ⟨next, callsLeft.map (· - insertions records)⟩),
          sent ++ notifications records) ∧
      next.blocks.map Block.notification =
        database.blocks.map Block.notification ++ notifications records := by
  induction records generalizing database callsLeft sent with
  | nil =>
      refine ⟨database, ?_, by simp [notifications]⟩
      simp [notifications, insertions, persistSharesSending]
      rfl
  | cons record records induction =>
      rw [completes_cons] at completes
      cases candidate : record.isBlockCandidate with
      | true =>
          simp only [candidate, if_true] at completes
          rcases persistSharesSending_candidate records candidate completes.1.1 completes.1.2
            database sent with ⟨inserted, continues, told⟩
          rcases induction completes.2 inserted (sent ++ [ShareRecord.notification record]) with
            ⟨next, ends, blocks⟩
          refine ⟨next, ?_, ?_⟩
          · rw [continues, ends]
            simp [notifications, insertions, candidate, Function.comp_def, Nat.sub_sub]
          · rw [blocks, told]
            simp [notifications, candidate]
      | false =>
          simp only [candidate, Bool.false_eq_true, if_false] at completes
          rw [persistSharesSending_plain records candidate completes.1]
          rcases induction completes.2
            { database with shares := database.shares ++ [record.share] } sent with
            ⟨next, ends, blocks⟩
          refine ⟨next, ?_, ?_⟩
          · rw [ends]
            simp [notifications, insertions, candidate, Function.comp_def, Nat.sub_sub]
          · rw [blocks]
            simp [notifications, candidate]

theorem persistSharesSending_fails {records : List ShareRecord} {callsLeft : Option Nat}
    (fails : ¬Completes records callsLeft) (database : Database)
    (sent : List BlockNotification) :
    ∃ failure messages, persistSharesSending records ⟨database, callsLeft⟩ sent =
        (.error failure, sent ++ messages) ∧
      (messages = [] ↔ ¬InsertsBlock records callsLeft) := by
  induction records generalizing database callsLeft sent with
  | nil => exact absurd ⟨by simp, covers_zero callsLeft⟩ fails
  | cons record records induction =>
      rw [completes_cons] at fails
      rw [insertsBlock_cons]
      cases candidate : record.isBlockCandidate with
      | true =>
          simp only [candidate, if_true] at fails ⊢
          by_cases inserted : IsStorable record ∧ Covers callsLeft 2
          · rcases persistSharesSending_candidate records candidate inserted.1 inserted.2
              database sent with ⟨next, continues, -⟩
            rcases induction (fun completes => fails ⟨inserted, completes⟩) next
              (sent ++ [ShareRecord.notification record]) with ⟨failure, messages, ends, -⟩
            refine ⟨failure, ShareRecord.notification record :: messages, ?_, ?_⟩
            · rw [continues, ends, List.append_assoc, List.singleton_append]
            · simp [inserted]
          · rcases persistSharesSending_refused records inserted candidate database sent with
              ⟨failure, ends⟩
            refine ⟨failure, [], ?_, ?_⟩
            · rw [ends, List.append_nil]
            · simp only [inserted, not_false_eq_true]
      | false =>
          simp only [candidate, Bool.false_eq_true, if_false] at fails ⊢
          by_cases lost : callsLeft = some 0
          · refine ⟨.database, [], ?_, ?_⟩
            · rw [lost, persistSharesSending, List.append_nil]
              exact perform_bind_of_error (insertShare_of_lost record.share database) sent
            · simp [lost, InsertsBlock, Covers]
          · rw [persistSharesSending_plain records candidate lost]
            exact induction (fun completes => fails ⟨lost, completes⟩) _ sent

theorem notifications_eq_nil_iff {records : List ShareRecord} {callsLeft : Option Nat}
    (completes : Completes records callsLeft) :
    notifications records = [] ↔ ¬InsertsBlock records callsLeft := by
  induction records generalizing callsLeft with
  | nil => simp [notifications, InsertsBlock]
  | cons record records induction =>
      rw [completes_cons] at completes
      rw [insertsBlock_cons]
      cases candidate : record.isBlockCandidate with
      | true =>
          simp only [candidate, if_true] at completes ⊢
          simp [notifications, candidate, completes.1]
      | false =>
          simp only [candidate, Bool.false_eq_true, if_false] at completes ⊢
          rw [← induction completes.2, notifications, List.filter_cons_of_neg]
          · rfl
          · rw [candidate]
            exact Bool.false_ne_true

theorem commit_of_covers {callsLeft : Option Nat} (covers : callsLeft ≠ some 0)
    (database : Database) :
    execute Exception.database .ok ⟨database, callsLeft⟩ =
      .ok ((), ⟨database, callsLeft.map Nat.pred⟩) := by
  simp only [execute, call, if_neg covers]
  rfl

theorem succeeds_iff {records : List ShareRecord} {attempt : Attempt} :
    Succeeds records attempt ↔
      Completes records attempt.callsLeft ∧
        attempt.callsLeft.map (· - insertions records) ≠ some 0 := by
  rw [Succeeds, Completes, and_assoc]
  apply and_congr_right
  intro _
  cases attempt.callsLeft with
  | none => simp [Covers]
  | some left =>
      simp only [Covers, Option.mem_some_iff, forall_eq', Option.map_some, ne_eq,
        Option.some.injEq]
      omega

theorem persistSharesTxSending_cases (records : List ShareRecord) (attempt : Attempt)
    (recorder : Recorder) :
    (Succeeds records attempt ∧
      ∃ after, persistSharesTxSending records attempt recorder =
          (⟨after, recorder.sent ++ notifications records⟩, .ok ()) ∧
        after.database.blocks.map Block.notification =
          recorder.stores.database.blocks.map Block.notification ++ notifications records) ∨
    (¬Succeeds records attempt ∧
      ∃ messages, persistSharesTxSending records attempt recorder =
          (⟨recorder.stores, recorder.sent ++ messages⟩, .error attempt.failure) ∧
        (messages = [] ↔ ¬InsertsBlock records attempt.callsLeft)) := by
  rw [succeeds_iff]
  by_cases completes : Completes records attempt.callsLeft
  · rcases persistSharesSending_completes completes recorder.stores.database recorder.sent with
      ⟨next, ends, blocks⟩
    by_cases lost : attempt.callsLeft.map (· - insertions records) = some 0
    · -- only the commit fails
      right
      refine ⟨fun succeeds => succeeds.2 lost, notifications records, ?_, ?_⟩
      · rw [persistSharesTxSending, runSending, bind_of_ok ends, lost]
        rfl
      · exact notifications_eq_nil_iff completes
    · left
      refine ⟨⟨completes, lost⟩, { recorder.stores with database := next }, ?_, blocks⟩
      rw [persistSharesTxSending, runSending, bind_of_ok ends,
        perform_bind_of_ok (commit_of_covers lost next)]
      rfl
  · right
    rcases persistSharesSending_fails completes recorder.stores.database recorder.sent with
      ⟨failure, messages, ends, silent⟩
    refine ⟨fun succeeds => completes succeeds.1, messages, ?_, silent⟩
    rw [persistSharesTxSending, runSending, bind_of_error ends]

/-! ## One batch -/

def OneForEachBlock (before after : Database) (sent : List BlockNotification) : Prop :=
  ∀ notification, (after.blocks.map Block.notification).count notification =
    (before.blocks.map Block.notification).count notification + sent.count notification

def FailsHandled (delivery : Delivery breaker) (number : Nat) : Prop :=
  ¬Succeeds delivery.records (delivery.attempts number) ∧
    (delivery.attempts number).failure.isDatabase = true

/-- The attempt with this number is made if the ones before it fail with exceptions of the
database. -/
def IsMade (delivery : Delivery breaker) (number : Nat) : Prop :=
  ∀ earlier < number, FailsHandled delivery earlier

/-- Unless the breaker rejects the batch, each attempt that is made and gets past the block of
the first candidate is committed. -/
def NoneFailsBehindBlock (delivery : Delivery breaker) (circuit : breaker.Circuit) : Prop :=
  (breaker.onActionPreExecute delivery.readings circuit).2 = true →
    ∀ number ≤ retryCount, IsMade delivery number →
      InsertsBlock delivery.records (delivery.attempts number).callsLeft →
      Succeeds delivery.records (delivery.attempts number)

def NoneFailsFrom (delivery : Delivery breaker) (first retries : Nat) : Prop :=
  ∀ number, first ≤ number → number ≤ first + retries →
    (∀ earlier, first ≤ earlier → earlier < number → FailsHandled delivery earlier) →
    InsertsBlock delivery.records (delivery.attempts number).callsLeft →
    Succeeds delivery.records (delivery.attempts number)

theorem noneFailsFrom_zero {delivery : Delivery breaker} {first : Nat} :
    NoneFailsFrom delivery first 0 ↔
      (InsertsBlock delivery.records (delivery.attempts first).callsLeft →
        Succeeds delivery.records (delivery.attempts first)) := by
  constructor
  · intro none
    apply none first le_rfl le_rfl
    intro earlier atLeast less
    omega
  · intro now number atLeast atMost _
    have same : number = first := by omega
    rw [same]
    exact now

theorem noneFailsFrom_succ {delivery : Delivery breaker} {first retries : Nat} :
    NoneFailsFrom delivery first (retries + 1) ↔
      (InsertsBlock delivery.records (delivery.attempts first).callsLeft →
        Succeeds delivery.records (delivery.attempts first)) ∧
      (FailsHandled delivery first → NoneFailsFrom delivery (first + 1) retries) := by
  constructor
  · intro none
    constructor
    · apply none first le_rfl (by omega)
      intro earlier atLeast less
      omega
    · intro fails number atLeast atMost failed
      apply none number (by omega) (by omega)
      intro earlier atLeast' less
      rcases Nat.eq_or_lt_of_le atLeast' with rfl | later
      · exact fails
      · exact failed earlier later less
  · rintro ⟨now, later⟩ number atLeast atMost failed
    rcases Nat.eq_or_lt_of_le atLeast with rfl | behind
    · exact now
    · apply later (failed first le_rfl behind) number behind (by omega)
      intro earlier atLeast' less
      exact failed earlier (by omega) less

theorem oneForEachBlock_refl_iff (database : Database) (messages : List BlockNotification) :
    OneForEachBlock database database messages ↔ messages = [] := by
  simp only [OneForEachBlock, Nat.left_eq_add, List.count_eq_zero]
  exact List.eq_nil_iff_forall_not_mem.symm

theorem oneForEachBlock_of_append {before after : Database} {messages : List BlockNotification}
    (added : after.blocks.map Block.notification =
      before.blocks.map Block.notification ++ messages) :
    OneForEachBlock before after messages := by
  intro notification
  rw [added, List.count_append]

/-- What is sent on the way covers the blocks that are added, and is no more than that exactly
under the condition. -/
def Covered (before after : Recorder) (condition : Prop) : Prop :=
  ∃ messages, after.sent = before.sent ++ messages ∧
    (∀ notification, (after.stores.database.blocks.map Block.notification).count notification ≤
      (before.stores.database.blocks.map Block.notification).count notification +
        messages.count notification) ∧
    (OneForEachBlock before.stores.database after.stores.database messages ↔ condition)

theorem covered_of_added {before : Recorder} {stores : Stores} {messages : List BlockNotification}
    {condition : Prop} (holds : condition)
    (added : stores.database.blocks.map Block.notification =
      before.stores.database.blocks.map Block.notification ++ messages) :
    Covered before ⟨stores, before.sent ++ messages⟩ condition := by
  have same := oneForEachBlock_of_append added
  refine ⟨messages, rfl, fun notification => (same notification).le, ?_⟩
  exact iff_of_true same holds

theorem covered_of_kept (before : Recorder) {messages : List BlockNotification}
    {condition : Prop} (silent : messages = [] ↔ condition) :
    Covered before ⟨before.stores, before.sent ++ messages⟩ condition := by
  refine ⟨messages, rfl, fun notification => Nat.le_add_right _ _, ?_⟩
  rw [oneForEachBlock_refl_iff]
  exact silent

theorem Covered.behind {before after : Recorder} {messages : List BlockNotification}
    {condition : Prop}
    (covered : Covered ⟨before.stores, before.sent ++ messages⟩ after condition) :
    Covered before after (messages = [] ∧ condition) := by
  rcases covered with ⟨later, sent, atMost, isExact⟩
  refine ⟨messages ++ later, ?_, ?_, ?_⟩
  · rw [sent, List.append_assoc]
  · intro notification
    have bound := atMost notification
    simp only [List.count_append] at bound ⊢
    omega
  · rw [← isExact]
    constructor
    · intro total
      have nothing : messages = [] := by
        apply List.eq_nil_iff_forall_not_mem.mpr
        intro notification member
        have bound := atMost notification
        have equal := total notification
        have counted := List.count_pos_iff.mpr member
        simp only [List.count_append] at bound equal
        omega
      refine ⟨nothing, ?_⟩
      rw [nothing, List.nil_append] at total
      exact total
    · rintro ⟨nothing, rest⟩
      rw [nothing, List.nil_append]
      exact rest

theorem retries_covered (delivery : Delivery breaker) (first retries : Nat) (recorder : Recorder) :
    Covered recorder (retriesSending delivery first retries recorder).1
      (NoneFailsFrom delivery first retries) := by
  induction retries generalizing first recorder with
  | zero =>
      rw [noneFailsFrom_zero, retriesSending, retry]
      rcases persistSharesTxSending_cases delivery.records (delivery.attempts first) recorder with
        ⟨succeeds, after, ends, blocks⟩ | ⟨fails, messages, ends, silent⟩
      · rw [ends]
        exact covered_of_added (fun _ => succeeds) blocks
      · rw [ends]
        apply covered_of_kept
        rw [silent]
        tauto
  | succ retries induction =>
      rw [noneFailsFrom_succ]
      rcases persistSharesTxSending_cases delivery.records (delivery.attempts first) recorder with
        ⟨succeeds, after, ends, blocks⟩ | ⟨fails, messages, ends, silent⟩
      · simp only [retriesSending, retry, ends]
        apply covered_of_added _ blocks
        exact ⟨fun _ => succeeds, fun failed => absurd succeeds failed.1⟩
      · simp only [retriesSending, retry, ends]
        split_ifs with handled
        · have rest := (induction (first + 1)
            ⟨recorder.stores, recorder.sent ++ messages⟩).behind
          rw [silent] at rest
          have failed : FailsHandled delivery first := ⟨fails, handled⟩
          have same : (¬InsertsBlock delivery.records (delivery.attempts first).callsLeft ∧
              NoneFailsFrom delivery (first + 1) retries) =
              ((InsertsBlock delivery.records (delivery.attempts first).callsLeft →
                Succeeds delivery.records (delivery.attempts first)) ∧
              (FailsHandled delivery first → NoneFailsFrom delivery (first + 1) retries)) := by
            apply propext
            tauto
          rw [← same]
          exact rest
        · apply covered_of_kept
          rw [silent]
          have unhandled : ¬FailsHandled delivery first := fun failed => handled failed.2
          tauto

def told (state : breaker.Circuit × Recorder) : Database × List BlockNotification :=
  (state.2.stores.database, state.2.sent)

theorem persistSharesFaulTolerantSending_told (delivery : Delivery breaker)
    (state : breaker.Circuit × Recorder) :
    told (persistSharesFaulTolerantSending delivery state).1 =
      told (circuitBreaker breaker breakerPolicy delivery.readings
        (retriesSending delivery 0 retryCount) state).1 := by
  have kept (state : breaker.Circuit × Recorder) :
      told (onExecutePolicyFallbackSending delivery.records state).1 = told state := rfl
  exact (fallback_keeps told kept state).trans (fallback_keeps told kept state)

/-- For every batch, every pattern of failures over its attempts and every state of the
breaker: each block is told as often as it is committed exactly if no attempt fails behind the
insertion of the block of the first candidate. -/
theorem notified_once_iff (delivery : Delivery breaker) (circuit : breaker.Circuit)
    (stores : Stores) :
    OneForEachBlock stores.database
        (persistSharesFaulTolerantSending delivery (circuit, ⟨stores, []⟩)).1.2.stores.database
        (persistSharesFaulTolerantSending delivery (circuit, ⟨stores, []⟩)).1.2.sent ↔
      NoneFailsBehindBlock delivery circuit := by
  have kept := persistSharesFaulTolerantSending_told delivery (circuit, ⟨stores, []⟩)
  rw [told, told, Prod.mk.injEq] at kept
  rw [kept.1, kept.2, NoneFailsBehindBlock]
  cases admission : (breaker.onActionPreExecute delivery.readings circuit).2 with
  | false =>
      rcases circuitBreaker_of_rejected admission breakerPolicy
        (retriesSending delivery 0 retryCount)
        ⟨stores, []⟩ with ⟨next, rejected⟩
      rw [rejected, oneForEachBlock_refl_iff]
      simp
  | true =>
      rcases circuitBreaker_of_admitted admission breakerPolicy
        (retriesSending delivery 0 retryCount)
        ⟨stores, []⟩ with ⟨next, admitted⟩
      rcases retries_covered delivery 0 retryCount ⟨stores, []⟩ with ⟨messages, sent, -, isExact⟩
      rw [List.nil_append] at sent
      rw [admitted, sent, isExact]
      simp [NoneFailsFrom, IsMade]

/-! ## A commit that fails

The only share of the batch found a block. The first attempt inserts both and fails at the
commit, the second one succeeds. -/

namespace SampleCommit

def delivery : Delivery SampleBreak.counting where
  records := [{
    share := {
      poolId := text "exc1"
      miner := text "miner"
      payoutInfo := none
      difficulty := 1
      networkDifficulty := 1
      created := 0 }
    blockHeight := 7
    isBlockCandidate := true
    blockReward := 25
    blockHash := none
    transactionConfirmationData := text "ab" }]
  attempts number :=
    { callsLeft := if number = 0 then some 2 else none, failure := .timeoutException }
  readings := ⟨0, 0, 0, 0⟩

def circuit : SampleBreak.counting.Circuit := ⟨.closed, 0, 0⟩

def recorded : Recorder :=
  (persistSharesFaulTolerantSending delivery (circuit, ⟨⟨.empty, []⟩, []⟩)).1.2

end SampleCommit

theorem notified_twice_commit :
    SampleCommit.recorded.stores.database.blocks.length = 1 ∧
      SampleCommit.recorded.sent =
        [⟨text "exc1", 7⟩, ⟨text "exc1", 7⟩] ∧
      ¬OneForEachBlock .empty SampleCommit.recorded.stores.database
        SampleCommit.recorded.sent := by
  refine ⟨by decide +kernel, by decide +kernel, ?_⟩
  intro one
  exact absurd (one ⟨text "exc1", 7⟩) (by decide +kernel)

end Miningcore.Mining

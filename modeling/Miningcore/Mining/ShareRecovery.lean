import Miningcore.Foundation.Paging
import Miningcore.Mining.BlockNotifications

/-! `ShareRecorder.RecoverShares`: the shares of a recovery file are imported.

The records of the file are collected and imported twenty at a time. The database is there
during the import and refuses some records. -/

namespace Miningcore.Mining

open Persistence Payments Resilience

/-- How the lines of a recovery file are read. A line that throws a `JsonException` has no
record. -/
structure LineReader where
  culture : Culture
  deserializeObject : Text → Option ShareRecord

def isRefused (refuses : ShareRecord → Bool) (record : ShareRecord) : Bool :=
  refuses record || (record.isBlockCandidate && !(numeric record.blockReward).isOk)

def importAttempt (refuses : ShareRecord → Bool) (records : List ShareRecord) : Attempt where
  callsLeft :=
    if records.any refuses then
      some (insertions (records.takeWhile fun record => !refuses record))
    else none
  failure := .dbException

def bufferSize : Nat := 20

theorem bufferSize_pos : 0 < bufferSize := Nat.succ_pos 19

/-- The variables of `RecoverShares`. -/
structure Recovery where
  stores : Stores
  shares : List ShareRecord
  successCount : Nat
  failCount : Nat

section RecoverShares

variable (reader : LineReader) (refuses : ShareRecord → Bool)

/-- The import in the loop. It counts the shares after it has cleared them, and an exception
leaves them in the buffer. -/
def importFull (recovery : Recovery) : Recovery :=
  if recovery.shares.length = bufferSize then
    match persistSharesTx recovery.shares (importAttempt refuses recovery.shares)
        recovery.stores with
    | (stores, .ok _) =>
        let cleared := { recovery with stores, shares := [] }
        { cleared with successCount := cleared.successCount + cleared.shares.length }
    | (stores, .error _) => { recovery with stores, failCount := recovery.failCount + 1 }
  else recovery

def recoverLine (recovery : Recovery) (line : Text) : Recovery :=
  let line := line.trim
  if line.length = 0 then recovery
  else if reader.culture.startsWith line (text "#") then recovery
  else
    importFull refuses (match reader.deserializeObject line with
      | some share => { recovery with shares := recovery.shares ++ [share] }
      | none => { recovery with failCount := recovery.failCount + 1 })

def importRemaining (recovery : Recovery) : Recovery :=
  if 0 < recovery.shares.length then
    match persistSharesTx recovery.shares (importAttempt refuses recovery.shares)
        recovery.stores with
    | (stores, .ok _) =>
        { recovery with
          stores, successCount := recovery.successCount + recovery.shares.length }
    | (stores, .error _) => { recovery with stores, failCount := recovery.failCount + 1 }
  else recovery

def recoverShares (stores : Stores) (lines : List Text) : Recovery :=
  importRemaining refuses (Run.final (recoverLine reader refuses)
    { stores, shares := [], successCount := 0, failCount := 0 } lines)

def recordOf (line : Text) : Option ShareRecord :=
  if line.trim.length = 0 ∨ reader.culture.startsWith line.trim (text "#") = true then none
  else reader.deserializeObject line.trim

def recordsOf (lines : List Text) : List ShareRecord := lines.filterMap (recordOf reader)

end RecoverShares

/-! ## What is to be imported -/

def batches (records : List ShareRecord) : List (List ShareRecord) :=
  Paging.pages bufferSize records

def importable (refuses : ShareRecord → Bool) (records : List ShareRecord) : List ShareRecord :=
  ((batches records).filter fun batch => !batch.any (isRefused refuses)).flatten

/-- Each importable record is in the database once, nothing else is, and the count is right. -/
def RecoversAll (reader : LineReader) (refuses : ShareRecord → Bool) (stores : Stores)
    (lines : List Text) : Prop :=
  let recovered := recoverShares reader refuses stores lines
  recovered.stores.database.shares =
      stores.database.shares ++
        (importable refuses (recordsOf reader lines)).map ShareRecord.share ∧
    recovered.successCount = (importable refuses (recordsOf reader lines)).length

/-! ## One import -/

theorem isRefused_eq_false_iff {refuses : ShareRecord → Bool} {record : ShareRecord} :
    isRefused refuses record = false ↔ refuses record = false ∧ IsStorable record := by
  have stored : (numeric record.blockReward).isOk = true ↔
      ∃ stored, numeric record.blockReward = .ok stored := by
    cases numeric record.blockReward with
    | error failure => simp [Except.isOk, Except.toBool]
    | ok reward => simp [Except.isOk, Except.toBool]
  rw [isRefused, IsStorable, ← stored]
  cases refuses record <;> cases record.isBlockCandidate <;> simp

theorem insertions_takeWhile_le (accepts : ShareRecord → Bool) (records : List ShareRecord) :
    insertions (records.takeWhile accepts) ≤ insertions records := by
  induction records with
  | nil => exact le_rfl
  | cons record records induction =>
      rw [List.takeWhile_cons]
      split_ifs
      · rw [insertions, insertions]
        omega
      · exact Nat.zero_le _

theorem succeeds_importAttempt_iff (refuses : ShareRecord → Bool) (records : List ShareRecord) :
    Succeeds records (importAttempt refuses records) ↔
      records.any (isRefused refuses) = false := by
  have calls : Covers (importAttempt refuses records).callsLeft (insertions records + 1) ↔
      records.any refuses = false := by
    rw [importAttempt, Covers]
    cases refused : records.any refuses with
    | false => simp
    | true =>
        have atMost := insertions_takeWhile_le (fun record => !refuses record) records
        simp only [if_true, Option.mem_some_iff, forall_eq']
        constructor
        · intro covers
          omega
        · intro absurd
          cases absurd
  rw [Succeeds, calls]
  simp only [List.any_eq_false, Bool.not_eq_true, isRefused_eq_false_iff]
  constructor
  · rintro ⟨storable, accepted⟩ record member
    exact ⟨accepted record member, storable record member⟩
  · intro both
    exact ⟨fun record member => (both record member).2, fun record member => (both record member).1⟩

theorem import_of_accepted {refuses : ShareRecord → Bool} {records : List ShareRecord}
    (accepted : records.any (isRefused refuses) = false) (stores : Stores) :
    ∃ after, persistSharesTx records (importAttempt refuses records) stores = (after, .ok ()) ∧
      after.database.shares = stores.database.shares ++ records.map ShareRecord.share := by
  have projected :=
    persistSharesTxSending_projects records (importAttempt refuses records) ⟨stores, []⟩
  rcases persistSharesTxSending_cases records (importAttempt refuses records) ⟨stores, []⟩ with
    ⟨-, after, commits, -⟩ | ⟨fails, -⟩
  · rw [commits] at projected
    rcases persistSharesTx_cases records (importAttempt refuses records) stores with
      ⟨next, same, added⟩ | rolledBack
    · exact ⟨next, same, added.1⟩
    · rw [rolledBack] at projected
      cases congrArg Prod.snd projected
  · exact absurd ((succeeds_importAttempt_iff refuses records).mpr accepted) fails

theorem import_of_refused {refuses : ShareRecord → Bool} {records : List ShareRecord}
    (refused : records.any (isRefused refuses) = true) (stores : Stores) :
    persistSharesTx records (importAttempt refuses records) stores =
      (stores, .error .dbException) := by
  have projected :=
    persistSharesTxSending_projects records (importAttempt refuses records) ⟨stores, []⟩
  rcases persistSharesTxSending_cases records (importAttempt refuses records) ⟨stores, []⟩ with
    ⟨succeeds, -⟩ | ⟨-, messages, rollsBack, -⟩
  · rw [succeeds_importAttempt_iff, refused] at succeeds
    cases succeeds
  · rw [rollsBack] at projected
    exact projected.symm

/-! ## The whole file -/

section File

variable (reader : LineReader) (refuses : ShareRecord → Bool)

theorem importFull_of_accepted (recovery : Recovery) (full : recovery.shares.length = bufferSize)
    (accepted : recovery.shares.any (isRefused refuses) = false) :
    ∃ stores, importFull refuses recovery = { recovery with stores, shares := [] } ∧
      stores.database.shares =
        recovery.stores.database.shares ++ recovery.shares.map ShareRecord.share := by
  rcases import_of_accepted accepted recovery.stores with ⟨after, commits, added⟩
  refine ⟨after, ?_, added⟩
  rw [importFull, if_pos full, commits]
  rfl

theorem importFull_of_refused (recovery : Recovery)
    (refused : recovery.shares.any (isRefused refuses) = true) :
    ∃ failCount, importFull refuses recovery = { recovery with failCount } := by
  rw [importFull, import_of_refused refused]
  split_ifs
  · exact ⟨_, rfl⟩
  · exact ⟨_, rfl⟩

theorem importRemaining_of_refused {recovery : Recovery}
    (refused : recovery.shares.any (isRefused refuses) = true) :
    ∃ failCount, importRemaining refuses recovery = { recovery with failCount } := by
  rw [importRemaining, import_of_refused refused]
  split_ifs
  · exact ⟨_, rfl⟩
  · exact ⟨_, rfl⟩

theorem importFull_of_less (recovery : Recovery) (less : recovery.shares.length < bufferSize) :
    importFull refuses recovery = recovery := by
  rw [importFull, if_neg (by omega)]

theorem recoverLine_of_none (recovery : Recovery) {line : Text}
    (unparsed : recordOf reader line = none) :
    ∃ failCount, recoverLine reader refuses recovery line = { recovery with failCount } ∨
      recoverLine reader refuses recovery line =
        importFull refuses { recovery with failCount } := by
  rw [recordOf] at unparsed
  simp only [recoverLine]
  split_ifs with blank comment
  · exact ⟨_, .inl rfl⟩
  · exact ⟨_, .inl rfl⟩
  · rw [if_neg (by tauto)] at unparsed
    rw [unparsed]
    exact ⟨_, .inr rfl⟩

theorem recoverLine_of_some (recovery : Recovery) {line : Text} {share : ShareRecord}
    (parsed : recordOf reader line = some share) :
    recoverLine reader refuses recovery line =
      importFull refuses { recovery with shares := recovery.shares ++ [share] } := by
  rw [recordOf] at parsed
  split_ifs at parsed with skipped
  rw [not_or] at skipped
  simp only [recoverLine, if_neg skipped.1, if_neg skipped.2, parsed]

theorem importRemaining_of_stuck (lines : List Text) (recovery : Recovery)
    (refused : recovery.shares.any (isRefused refuses) = true) :
    (importRemaining refuses (Run.final (recoverLine reader refuses) recovery lines)).stores =
        recovery.stores ∧
      (importRemaining refuses
        (Run.final (recoverLine reader refuses) recovery lines)).successCount =
        recovery.successCount := by
  induction lines generalizing recovery with
  | nil =>
      rcases importRemaining_of_refused refuses refused with ⟨failCount, kept⟩
      rw [Run.final, List.foldl_nil, kept]
      exact ⟨rfl, rfl⟩
  | cons line lines induction =>
      rw [Run.final, List.foldl_cons, ← Run.final]
      cases record : recordOf reader line with
      | none =>
          rcases recoverLine_of_none reader refuses recovery record with ⟨failCount, skips | tries⟩
          · rw [skips]
            exact induction _ refused
          · rcases importFull_of_refused refuses { recovery with failCount } refused with
              ⟨counted, kept⟩
            rw [tries, kept]
            exact induction _ refused
      | some share =>
          have still : (recovery.shares ++ [share]).any (isRefused refuses) = true := by
            rw [List.any_append, refused, Bool.true_or]
          rcases importFull_of_refused refuses
            { recovery with shares := recovery.shares ++ [share] } still with ⟨counted, kept⟩
          rw [recoverLine_of_some reader refuses recovery record, kept]
          exact induction _ still

def imported (records : List ShareRecord) : List ShareRecord × Nat :=
  if records.length < bufferSize then
    if records.any (isRefused refuses) then ([], 0) else (records, records.length)
  else if (records.take bufferSize).any (isRefused refuses) then ([], 0)
  else
    let rest := imported (records.drop bufferSize)
    (records.take bufferSize ++ rest.1, rest.2)
termination_by records.length
decreasing_by
  rename_i long _
  rw [List.length_drop]
  rw [bufferSize] at long ⊢
  omega

theorem imported_of_refused {front : List ShareRecord} (back : List ShareRecord)
    (atMost : front.length ≤ bufferSize) (refused : front.any (isRefused refuses) = true) :
    imported refuses (front ++ back) = ([], 0) := by
  rw [imported]
  split_ifs with short all first
  · rfl
  · rw [List.any_append, refused] at all
    exact absurd rfl all
  · rfl
  · rw [List.take_append, List.take_of_length_le atMost, List.any_append, refused] at first
    exact absurd rfl first

theorem imported_of_full {front : List ShareRecord} (back : List ShareRecord)
    (full : front.length = bufferSize) (accepted : front.any (isRefused refuses) = false) :
    imported refuses (front ++ back) =
      (front ++ (imported refuses back).1, (imported refuses back).2) := by
  have long : ¬(front ++ back).length < bufferSize := by
    rw [List.length_append, full]
    omega
  rw [imported, if_neg long, ← full, List.take_left, List.drop_left, if_neg]
  rw [accepted]
  exact Bool.false_ne_true

theorem importRemaining_of_accepted (lines : List Text) (recovery : Recovery)
    (accepted : recovery.shares.any (isRefused refuses) = false)
    (less : recovery.shares.length < bufferSize) :
    (importRemaining refuses
        (Run.final (recoverLine reader refuses) recovery lines)).stores.database.shares =
        recovery.stores.database.shares ++
          (imported refuses (recovery.shares ++ recordsOf reader lines)).1.map ShareRecord.share ∧
      (importRemaining refuses
        (Run.final (recoverLine reader refuses) recovery lines)).successCount =
        recovery.successCount +
          (imported refuses (recovery.shares ++ recordsOf reader lines)).2 := by
  induction lines generalizing recovery with
  | nil =>
      have notRefused : ¬recovery.shares.any (isRefused refuses) = true := by
        rw [accepted]
        exact Bool.false_ne_true
      rw [Run.final, List.foldl_nil, recordsOf, List.filterMap_nil, List.append_nil, imported,
        if_pos less, if_neg notRefused]
      rcases import_of_accepted accepted recovery.stores with ⟨after, commits, added⟩
      rw [importRemaining, commits]
      split_ifs
      · exact ⟨added, rfl⟩
      · have nothing : recovery.shares = [] := List.length_eq_zero_iff.mp (by omega)
        simp [nothing]
  | cons line lines induction =>
      rw [Run.final, List.foldl_cons, ← Run.final]
      cases record : recordOf reader line with
      | none =>
          rw [recordsOf, List.filterMap_cons_none record, ← recordsOf]
          rcases recoverLine_of_none reader refuses recovery record with ⟨failCount, skips | tries⟩
          · rw [skips]
            exact induction _ accepted less
          · rw [tries, importFull_of_less refuses { recovery with failCount } less]
            exact induction _ accepted less
      | some share =>
          rw [recordsOf, List.filterMap_cons_some record, ← recordsOf, List.append_cons,
            recoverLine_of_some reader refuses recovery record]
          have atMost : (recovery.shares ++ [share]).length ≤ bufferSize := by
            rw [List.length_append, List.length_singleton]
            omega
          generalize recovery.shares ++ [share] = shares at atMost ⊢
          cases verdict : shares.any (isRefused refuses) with
          | true =>
              rcases importFull_of_refused refuses { recovery with shares } verdict with
                ⟨failCount, kept⟩
              rw [imported_of_refused refuses _ atMost verdict, kept]
              rcases importRemaining_of_stuck reader refuses lines
                { recovery with shares, failCount } verdict with ⟨sameStores, sameCount⟩
              rw [sameStores, sameCount]
              exact ⟨(List.append_nil _).symm, rfl⟩
          | false =>
              rcases Nat.lt_or_eq_of_le atMost with fits | full
              · rw [importFull_of_less refuses { recovery with shares } fits]
                exact induction _ verdict fits
              · rcases importFull_of_accepted refuses { recovery with shares } full verdict with
                  ⟨stores, cleared, added⟩
                rcases induction { recovery with stores, shares := [] } rfl bufferSize_pos with
                  ⟨rows, count⟩
                rw [cleared, imported_of_full refuses _ full verdict, rows, count, added]
                simp

/-! ## Complete recoveries -/

theorem batches_of_full {records : List ShareRecord} (full : bufferSize ≤ records.length) :
    batches records = records.take bufferSize :: batches (records.drop bufferSize) := by
  apply Paging.pages_of_ne_nil bufferSize_pos
  intro nothing
  rw [nothing] at full
  exact absurd bufferSize_pos full.not_gt

theorem importable_eq_nil_iff {records : List ShareRecord} :
    importable refuses records = [] ↔
      ∀ batch ∈ batches records, batch.any (isRefused refuses) = true := by
  rw [importable, List.flatten_eq_nil_iff]
  constructor
  · intro all batch member
    cases accepted : batch.any (isRefused refuses) with
    | true => rfl
    | false =>
        have isNil := all batch (List.mem_filter.mpr ⟨member, by rw [accepted]; rfl⟩)
        exact absurd isNil (Paging.ne_nil_of_mem_pages bufferSize_pos member)
  · intro refused batch member
    rw [List.mem_filter] at member
    simp [refused batch member.1] at member

theorem imported_count_le (records : List ShareRecord) :
    (imported refuses records).2 ≤ (imported refuses records).1.length := by
  induction records using imported.induct refuses with
  | case1 records less refused => simp [imported, less, refused]
  | case2 records less accepted => simp [imported, less, accepted]
  | case3 records full refused => simp [imported, full, refused]
  | case4 records full accepted induction =>
      rw [imported, if_neg full, if_neg accepted]
      simp only [List.length_append]
      omega

theorem imported_of_less {records : List ShareRecord} (less : records.length < bufferSize) :
    imported refuses records =
      (importable refuses records, (importable refuses records).length) := by
  rw [imported, if_pos less, importable]
  by_cases nonempty : records = []
  · rw [nonempty, batches, Paging.pages_nil bufferSize_pos]
    rfl
  · rw [batches, Paging.pages_of_le nonempty less.le]
    split_ifs with refused
    · rw [List.filter_cons_of_neg (by simp [refused])]
      rfl
    · rw [List.filter_cons_of_pos (by simp [refused])]
      simp

theorem imported_of_all_refused {records : List ShareRecord} (full : bufferSize ≤ records.length)
    (refused : ∀ batch ∈ batches records, batch.any (isRefused refuses) = true) :
    imported refuses records =
      (importable refuses records, (importable refuses records).length) := by
  have first : (records.take bufferSize).any (isRefused refuses) = true := by
    apply refused
    rw [batches_of_full full]
    exact List.mem_cons_self
  rw [(importable_eq_nil_iff refuses).mpr refused, imported, if_neg full.not_gt, if_pos first]
  rfl

theorem all_refused_of_imported {records : List ShareRecord} (full : bufferSize ≤ records.length)
    (rows : (imported refuses records).1.length = (importable refuses records).length)
    (count : (imported refuses records).2 = (importable refuses records).length) :
    ∀ batch ∈ batches records, batch.any (isRefused refuses) = true := by
  rw [imported, if_neg full.not_gt] at rows count
  split_ifs at rows count with refused
  · apply (importable_eq_nil_iff refuses).mp
    exact List.length_eq_zero_iff.mp count.symm
  · have atMost := imported_count_le refuses (records.drop bufferSize)
    have positive : bufferSize = 20 := rfl
    simp only [List.length_append, List.length_take] at rows count
    omega

end File

/-- For every recovery file and every database: the import is complete, isolated and counted
exactly if the file has fewer than twenty parsable records or the database refuses a record in
each batch. -/
theorem recoversAll_iff (reader : LineReader) (refuses : ShareRecord → Bool) (stores : Stores)
    (lines : List Text) :
    RecoversAll reader refuses stores lines ↔
      (recordsOf reader lines).length < bufferSize ∨
        ∀ batch ∈ batches (recordsOf reader lines), batch.any (isRefused refuses) = true := by
  rcases importRemaining_of_accepted reader refuses lines
    { stores, shares := [], successCount := 0, failCount := 0 } rfl bufferSize_pos with
    ⟨rows, count⟩
  rw [List.nil_append] at rows count
  rw [Nat.zero_add] at count
  rw [RecoversAll, recoverShares]
  simp only [rows, count, List.append_cancel_left_eq]
  constructor
  · rintro ⟨sameRows, sameCount⟩
    by_cases less : (recordsOf reader lines).length < bufferSize
    · exact .inl less
    · right
      apply all_refused_of_imported refuses (not_lt.mp less) _ sameCount
      have lengths := congrArg List.length sameRows
      rwa [List.length_map, List.length_map] at lengths
  · intro complete
    have same : imported refuses (recordsOf reader lines) =
        (importable refuses (recordsOf reader lines),
          (importable refuses (recordsOf reader lines)).length) := by
      rcases Nat.lt_or_ge (recordsOf reader lines).length bufferSize with less | full
      · exact imported_of_less refuses less
      · rcases complete with less | refused
        · exact absurd less full.not_gt
        · exact imported_of_all_refused refuses full refused
    rw [same]
    exact ⟨rfl, rfl⟩

/-! ## A record that blocks the rest

The reward of the first record does not fit into its column. Twenty others follow it. -/

deriving instance DecidableEq for ShareRecord

namespace SampleFile

def record (miner : String) (blockReward : ℚ) : ShareRecord where
  share := {
    poolId := text "exc1"
    miner := text miner
    payoutInfo := none
    difficulty := 1
    networkDifficulty := 1
    created := 636530400000000000 }
  blockHeight := 7
  isBlockCandidate := true
  blockReward
  blockHash := none
  transactionConfirmationData := text "c0"

def line (miner reward : String) : Text :=
  text "\x7b\"poolId\":\"exc1\",\"miner\":\"" ++ text miner ++
    text "\",\"ipAddress\":\"127.0.0.1\",\"difficulty\":1.0,\"blockHeight\":7," ++
    text "\"blockReward\":" ++ text reward ++ text ",\"blockRewardDouble\":0.0," ++
    text "\"isBlockCandidate\":true,\"transactionConfirmationData\":\"c0\"," ++
    text "\"networkDifficulty\":1.0,\"created\":\"2018-02-01T00:00:00Z\"\x7d"

def refusedLine : Text := line "a" "10000000000000000"

def plainLine : Text := line "b" "25"

def reader : LineReader where
  culture := .ordinal
  deserializeObject line :=
    if line = refusedLine then some (record "a" (10 ^ 16))
    else if line = plainLine then some (record "b" 25)
    else none

def comment : Text := text "# miningcore"

def lines : List Text := comment :: refusedLine :: List.replicate 20 plainLine

def noReason : ShareRecord → Bool := fun _ => false

def stores : Stores := { database := .empty, recoveryFile := [] }

end SampleFile

/-- The last record is in a batch of its own and is not imported. Without the first record all
are imported and none is counted. -/
theorem recovery_blocked :
    (importable SampleFile.noReason (recordsOf SampleFile.reader SampleFile.lines)).length = 1 ∧
      (recoverShares SampleFile.reader SampleFile.noReason SampleFile.stores
        SampleFile.lines).stores.database.shares = [] ∧
      ¬RecoversAll SampleFile.reader SampleFile.noReason SampleFile.stores SampleFile.lines ∧
      (recoverShares SampleFile.reader SampleFile.noReason SampleFile.stores
        (List.replicate 20 SampleFile.plainLine)).stores.database.shares.length = 20 ∧
      (recoverShares SampleFile.reader SampleFile.noReason SampleFile.stores
        (List.replicate 20 SampleFile.plainLine)).successCount = 0 := by
  have read : recordsOf SampleFile.reader SampleFile.lines =
      SampleFile.record "a" (10 ^ 16) :: List.replicate 20 (SampleFile.record "b" 25) := by
    decide +kernel
  have nothing : (recoverShares SampleFile.reader SampleFile.noReason SampleFile.stores
      SampleFile.lines).stores.database.shares = [] := by decide +kernel
  have one : (importable SampleFile.noReason
      (recordsOf SampleFile.reader SampleFile.lines)).length = 1 := by
    rw [read, importable, batches_of_full (by decide), batches,
      Paging.pages_of_le (by decide) (by decide)]
    decide +kernel
  refine ⟨one, nothing, ?_, by decide +kernel, by decide +kernel⟩
  intro recovers
  have rows := congrArg List.length recovers.1
  rw [nothing, List.length_append, List.length_map, one] at rows
  exact absurd rows (by decide)

end Miningcore.Mining

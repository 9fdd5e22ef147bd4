import Miningcore.Blockchain.ExchangeCoin.RefusedSubmissions

/-! The calls that ban an address. -/

namespace Miningcore.Banning

open ExchangeCoin (PoolSettings ShareStats considerBan)

structure BanSettings where
  pool : PoolSettings
  /-- `BanOnJunkReceive` of the cluster, whose section may be missing. -/
  banOnJunkReceive : Option (Option Bool)

inductive Cause
  /-- `OnAuthorizeAsync`, for a worker that is not authorized. -/
  | unauthorized
  /-- `OnReceiveError`, with or without a `JsonException`. -/
  | receiveError (isJson : Bool)
  /-- `ConsiderBan`, for a rejected share. -/
  | rejectedShare (stats : ShareStats)

structure Occurrence where
  address : IPAddress
  cause : Cause
  time : Int

section Callers

variable (settings : BanSettings)

/-- `SetupBanning` has resolved a manager. Without one nothing is banned. -/
def hasBanManager : Bool := settings.pool.banning.any (·.enabled)

/-- The duration that `Ban` is called with, if it is called. -/
def banDuration : Cause → Option Int
  | .unauthorized => if hasBanManager settings then some (seconds 60) else none
  | .receiveError isJson =>
      if hasBanManager settings && isJson && (settings.banOnJunkReceive == some none ||
        settings.banOnJunkReceive == some (some true)) then some (minutes 30)
      else none
  | .rejectedShare stats =>
      match settings.pool.banning with
      | none => none
      | some config =>
          if (considerBan settings.pool config stats).2 then some (seconds config.time)
          else none

def banCall (occurrence : Occurrence) : Option BanCall :=
  (banDuration settings occurrence.cause).map fun duration =>
    { address := occurrence.address, duration, time := occurrence.time }

/-- The calls of `Ban` that come from some occurrences. -/
def banCalls (occurrences : List Occurrence) : List BanCall :=
  occurrences.filterMap (banCall settings)

theorem banDuration_pos {cause : Cause} {duration : Int}
    (positive : ∀ config, settings.pool.banning = some config → 0 < config.time)
    (isDuration : banDuration settings cause = some duration) : 0 < duration := by
  cases cause with
  | unauthorized =>
      simp only [banDuration, Option.ite_none_right_eq_some, Option.some.injEq] at isDuration
      rcases isDuration with ⟨-, rfl⟩
      decide
  | receiveError isJson =>
      simp only [banDuration, Option.ite_none_right_eq_some, Option.some.injEq] at isDuration
      rcases isDuration with ⟨-, rfl⟩
      decide
  | rejectedShare stats =>
      rw [banDuration] at isDuration
      split at isDuration
      · cases isDuration
      · rename_i config isConfig
        simp only [Option.ite_none_right_eq_some, Option.some.injEq] at isDuration
        rcases isDuration with ⟨-, rfl⟩
        exact Int.mul_pos (by decide) (positive config isConfig)

end Callers

/-! ## Two connections of one address -/

namespace Sample

def cache : MemoryCache where
  Entries := List (Text × Text × Int)
  empty := []
  set entries key value duration now := (key, value, now + duration) :: entries
  get entries key now :=
    match entries.lookup key with
    | some (value, expires) => if now < expires then some value else none
    | none => none
  get_empty _ _ := rfl
  get_set entries key value duration now other time _ _ := by
    by_cases same : key = other
    · rw [same, if_pos rfl, List.lookup_cons_self]
    · rw [if_neg same, List.lookup_cons, beq_false_of_ne (Ne.symm same)]

def settings : BanSettings where
  pool := ExchangeCoin.SampleShare.settings
  banOnJunkReceive := some none

def miner : IPAddress := ⟨text "192.0.2.7"⟩

/-- A worker of the one connection is being authorized when the other one sends junk. -/
def occurrences : List Occurrence :=
  [{ address := miner, cause := .receiveError true, time := 0 },
    { address := miner, cause := .unauthorized, time := minutes 1 }]

end Sample

namespace IntegratedBanManager

/-- An address is banned exactly until the last ban of it expires. -/
theorem isBanned_iff_last (cache : MemoryCache) (calls : List BanCall) (address : IPAddress)
    (time : Int) (notBefore : ∀ call ∈ calls, call.time ≤ time) :
    isBanned cache (after cache calls) address time = true ↔
      ∃ call, lastBan calls address = some call ∧ time < call.expires := by
  rw [isBanned_after notBefore, Option.any_eq_true]
  simp only [decide_eq_true_eq]

theorem isBanned_iff_last_sample :
    isBanned Sample.cache (after Sample.cache (banCalls Sample.settings Sample.occurrences))
        Sample.miner (seconds 90) = true ↔
      ∃ call, lastBan (banCalls Sample.settings Sample.occurrences) Sample.miner = some call ∧
        seconds 90 < call.expires :=
  isBanned_iff_last Sample.cache _ Sample.miner (seconds 90) (by decide)

theorem shorter_ban_releases :
    let calls := banCalls Sample.settings Sample.occurrences
    calls.Pairwise (fun earlier later => earlier.time ≤ later.time) ∧
      (∀ call ∈ calls, call.address.isLoopback = false ∧ call.time ≤ minutes 3) ∧
      ¬(isBanned Sample.cache (after Sample.cache calls) Sample.miner (minutes 3) = true ↔
        IsCovered calls Sample.miner (minutes 3)) := by
  decide

end IntegratedBanManager

end Miningcore.Banning

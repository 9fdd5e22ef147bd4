import Miningcore.Foundation.Run
import Miningcore.Stratum.ShareAcceptance

/-! `IntegratedBanManager`.

The cache has one entry for each banned address. A ban of an address that is banned already
replaces the entry, whichever of the two would have lasted longer. -/

namespace Miningcore.Banning

@[ext] structure IPAddress where
  toString : Text
deriving DecidableEq

def IPAddress.isLoopback (address : IPAddress) : Bool :=
  address == ⟨text "127.0.0.1"⟩ || address == ⟨text "::1"⟩

/-- `MemoryCache`, as documented. Setting an entry replaces it and its expiry, and it is found
until it has expired. -/
structure MemoryCache where
  Entries : Type
  empty : Entries
  set : Entries → (key value : Text) → (duration now : Int) → Entries
  get : Entries → (key : Text) → (now : Int) → Option Text
  get_empty : ∀ key now, get empty key now = none
  get_set : ∀ entries key value duration now other time, 0 < duration → now ≤ time →
    get (set entries key value duration now) other time =
      if key = other then if time < now + duration then some value else none
      else get entries other time

/-- `TimeSpan.FromSeconds`, in ticks. -/
def seconds (count : Int) : Int := 10000000 * count

/-- `TimeSpan.FromMinutes`. -/
def minutes (count : Int) : Int := seconds (60 * count)

structure BanCall where
  address : IPAddress
  duration : Int
  time : Int

namespace BanCall

def bans (address : IPAddress) (call : BanCall) : Bool :=
  call.address == address && !address.isLoopback && decide (0 < call.duration)

/-- The time from which on the entry of the call is not found any more. -/
def expires (call : BanCall) : Int := call.time + call.duration

theorem bans_eq_true_iff {address : IPAddress} {call : BanCall} :
    call.bans address = true ↔
      call.address = address ∧ address.isLoopback = false ∧ 0 < call.duration := by
  simp [bans, and_assoc]

end BanCall

/-! ## The manager -/

namespace IntegratedBanManager

variable (cache : MemoryCache)

def isBanned (entries : cache.Entries) (address : IPAddress) (now : Int) : Bool :=
  (cache.get entries address.toString now).isSome

def requireDuration (duration : Int) : Except Exception Unit :=
  throwIf (¬0 < duration) (.argument "duration must not be empty")

def ban (entries : cache.Entries) (address : IPAddress) (duration now : Int) :
    Except Exception cache.Entries := do
  requireDuration duration
  -- don't ban 127.0.0.1
  return if address.isLoopback then entries
    else cache.set entries address.toString [] duration now

def step (entries : cache.Entries) (call : BanCall) : cache.Entries :=
  match ban cache entries call.address call.duration call.time with
  | .ok next => next
  | .error _ => entries

def after (calls : List BanCall) : cache.Entries := Run.final (step cache) cache.empty calls

variable {cache}

theorem requireDuration_of_pos {duration : Int} (positive : 0 < duration) :
    requireDuration duration = .ok () := if_neg (not_not.mpr positive)

theorem requireDuration_ok_iff {duration : Int} :
    requireDuration duration = .ok () ↔ 0 < duration := by
  rw [requireDuration, throwIf_eq_ok, not_not]

theorem isBanned_set (entries : cache.Entries) {call : BanCall} {address : IPAddress} {time : Int}
    (lasts : 0 < call.duration) (notBefore : call.time ≤ time) :
    isBanned cache (cache.set entries call.address.toString [] call.duration call.time) address
        time =
      if call.address = address then decide (time < call.expires)
      else isBanned cache entries address time := by
  rw [isBanned, cache.get_set _ _ _ _ _ _ _ lasts notBefore, BanCall.expires]
  by_cases same : call.address = address
  · rw [if_pos same, if_pos (congrArg IPAddress.toString same)]
    by_cases before : time < call.time + call.duration <;> simp [before]
  · rw [if_neg same, if_neg fun equal => same (IPAddress.ext equal)]
    rfl

theorem isBanned_step (entries : cache.Entries) {call : BanCall} {address : IPAddress} {time : Int}
    (notBefore : call.time ≤ time) :
    isBanned cache (step cache entries call) address time =
      if call.bans address then decide (time < call.expires)
      else isBanned cache entries address time := by
  by_cases lasts : 0 < call.duration
  · by_cases isLoopback : call.address.isLoopback = true
    · have bansNot : ¬call.bans address = true := by
        rw [BanCall.bans_eq_true_iff]
        rintro ⟨rfl, notLoopback, -⟩
        rw [isLoopback] at notLoopback
        cases notLoopback
      rw [step, ban, requireDuration_of_pos lasts, if_pos isLoopback, if_neg bansNot]
      rfl
    · have bansIff : call.bans address = true ↔ call.address = address := by
        rw [BanCall.bans_eq_true_iff, and_iff_left_iff_imp]
        rintro rfl
        exact ⟨Bool.eq_false_iff.mpr isLoopback, lasts⟩
      rw [step, ban, requireDuration_of_pos lasts, if_neg isLoopback]
      simp only [bansIff]
      exact isBanned_set entries lasts notBefore
  · have bansNot : ¬call.bans address = true := by
      rw [BanCall.bans_eq_true_iff]
      rintro ⟨-, -, positive⟩
      exact lasts positive
    rw [step, ban, requireDuration, throwIf, if_pos lasts, if_neg bansNot]
    rfl

def lastBan (calls : List BanCall) (address : IPAddress) : Option BanCall :=
  (calls.filter (BanCall.bans address)).getLast?

theorem isBanned_after {calls : List BanCall} {time : Int}
    (notBefore : ∀ call ∈ calls, call.time ≤ time) (address : IPAddress) :
    isBanned cache (after cache calls) address time =
      (lastBan calls address).any fun call => decide (time < call.expires) := by
  rw [after, Run.observed_final (step cache) (isBanned cache · address time)
    (BanCall.bans address) (fun call => decide (time < call.expires)) calls
    (fun call member entries => isBanned_step entries (notBefore call member)), ← lastBan]
  cases lastBan calls address with
  | none =>
      change (cache.get cache.empty address.toString time).isSome = false
      rw [cache.get_empty]
      rfl
  | some call => rfl

def IsCovered (calls : List BanCall) (address : IPAddress) (time : Int) : Prop :=
  ∃ call ∈ calls, call.address = address ∧ call.time ≤ time ∧ time < call.expires

instance (calls : List BanCall) (address : IPAddress) (time : Int) :
    Decidable (IsCovered calls address time) :=
  inferInstanceAs (Decidable (∃ call ∈ calls, _))

theorem mem_of_lastBan {calls : List BanCall} {address : IPAddress} {last : BanCall}
    (isLast : lastBan calls address = some last) :
    last ∈ calls ∧ last.bans address = true :=
  List.mem_filter.mp (List.mem_of_getLast? isLast)

theorem isBanned_iff_isCovered {calls : List BanCall} {address : IPAddress} {time : Int}
    (notLoopback : address.isLoopback = false) (notBefore : ∀ call ∈ calls, call.time ≤ time)
    (inOrder : (calls.filter (BanCall.bans address)).Pairwise fun earlier later =>
      earlier.expires ≤ later.expires) :
    isBanned cache (after cache calls) address time = true ↔ IsCovered calls address time := by
  rw [isBanned_after notBefore, Option.any_eq_true]
  simp only [decide_eq_true_eq]
  constructor
  · rintro ⟨last, isLast, before⟩
    have member := mem_of_lastBan isLast
    exact ⟨last, member.1, (BanCall.bans_eq_true_iff.mp member.2).1, notBefore last member.1,
      before⟩
  · rintro ⟨call, member, isAddress, issued, before⟩
    have lasts : 0 < call.duration := by
      rw [BanCall.expires] at before
      omega
    have isBan : call ∈ calls.filter (BanCall.bans address) := List.mem_filter.mpr
      ⟨member, BanCall.bans_eq_true_iff.mpr ⟨isAddress, notLoopback, lasts⟩⟩
    rcases Option.isSome_iff_exists.mp (List.getLast?_isSome.mpr (List.ne_nil_of_mem isBan)) with
      ⟨last, isLast⟩
    rcases List.getLast?_eq_some_iff.mp isLast with ⟨front, split⟩
    refine ⟨last, isLast, ?_⟩
    rw [split] at isBan inOrder
    rcases List.mem_append.mp isBan with earlier | isLastCall
    · have notLater := (List.pairwise_append.mp inOrder).2.2 call earlier last
        (List.mem_singleton_self last)
      exact before.trans_le notLater
    · rw [← List.mem_singleton.mp isLastCall]
      exact before

end IntegratedBanManager

end Miningcore.Banning

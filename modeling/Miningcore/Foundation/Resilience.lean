import Mathlib.Data.Int.Order.Basic

/-! # Policies around a failing operation

A retry policy, a fallback and a circuit breaker. Each wraps an operation into another one,
and they nest. -/

namespace Miningcore.Resilience

/-- An operation changes a state, whether it returns or throws. -/
abbrev Operation (State Failure Result : Type) := State → State × Except Failure Result

variable {State Failure Result : Type}

/-! ## Retries and fallbacks -/

/-- Attempts of an operation until one returns, throws what is not handled, or is the last
one. Attempts may fare differently, so each has its number. -/
def retry (handles : Failure → Bool) (operation : Nat → Operation State Failure Result) :
    Nat → Nat → Operation State Failure Result
  | number, 0 => operation number
  | number, retries + 1 => fun state =>
      match operation number state with
      | (after, .ok result) => (after, .ok result)
      | (after, .error failure) =>
          if handles failure then retry handles operation (number + 1) retries after
          else (after, .error failure)

def fallback (handles : Failure → Bool) (action operation : Operation State Failure Result) :
    Operation State Failure Result := fun state =>
  match operation state with
  | (after, .ok result) => (after, .ok result)
  | (after, .error failure) => if handles failure then action after else (after, .error failure)

theorem retry_eq_attempt (handles : Failure → Bool)
    {operation : Nat → Operation State Failure Result} {Kept : State → State → Prop}
    (refl : ∀ state, Kept state state)
    (trans : ∀ {first second third}, Kept first second → Kept second third → Kept first third)
    (kept : ∀ number state failure, (operation number state).2 = .error failure →
      Kept state (operation number state).1) (number retries : Nat) (state : State) :
    ∃ last before, Kept state before ∧
      retry handles operation number retries state = operation last before := by
  induction retries generalizing number state with
  | zero => exact ⟨number, state, refl state, rfl⟩
  | succ retries induction =>
      simp only [retry]
      match outcome : operation number state with
      | (after, .ok result) => exact ⟨number, state, refl state, outcome.symm⟩
      | (after, .error failure) =>
          simp only
          split_ifs
          · have failed := kept number state failure (by rw [outcome])
            rw [outcome] at failed
            rcases induction (number + 1) after with ⟨last, before, later, ends⟩
            exact ⟨last, before, trans failed later, ends⟩
          · exact ⟨number, state, refl state, outcome.symm⟩

theorem fallback_of_ok {handles : Failure → Bool}
    {action operation : Operation State Failure Result} {state after : State} {result : Result}
    (returns : operation state = (after, .ok result)) :
    fallback handles action operation state = (after, .ok result) := by
  rw [fallback, returns]

theorem fallback_of_handled {handles : Failure → Bool}
    {action operation : Operation State Failure Result} {state after : State} {failure : Failure}
    (throws : operation state = (after, .error failure)) (handled : handles failure = true) :
    fallback handles action operation state = action after := by
  rw [fallback, throws]
  exact if_pos handled

theorem fallback_of_unhandled {handles : Failure → Bool}
    {action operation : Operation State Failure Result} {state after : State} {failure : Failure}
    (throws : operation state = (after, .error failure)) (unhandled : handles failure = false) :
    fallback handles action operation state = (after, .error failure) := by
  rw [fallback, throws]
  exact if_neg (by rw [unhandled]; exact Bool.false_ne_true)

theorem fallback_keeps {View : Type} (view : State → View) {handles : Failure → Bool}
    {action operation : Operation State Failure Result}
    (kept : ∀ state, view (action state).1 = view state) (state : State) :
    view (fallback handles action operation state).1 = view (operation state).1 := by
  rw [fallback]
  match operation state with
  | (after, .ok result) => rfl
  | (after, .error failure) =>
      simp only
      split_ifs
      · exact kept after
      · rfl

/-! ## Operations on a larger state -/

def Projects {Reduced : Type} (project : State → Reduced)
    (operation : Operation State Failure Result) (reduced : Operation Reduced Failure Result) :
    Prop :=
  ∀ state, (project (operation state).1, (operation state).2) = reduced (project state)

section Projects

variable {Reduced : Type} {project : State → Reduced} {handles : Failure → Bool}

theorem Projects.retry {operation : Nat → Operation State Failure Result}
    {reduced : Nat → Operation Reduced Failure Result}
    (projects : ∀ number, Projects project (operation number) (reduced number))
    (number retries : Nat) :
    Projects project (retry handles operation number retries)
      (retry handles reduced number retries) := by
  induction retries generalizing number with
  | zero => exact projects number
  | succ retries induction =>
      intro state
      have first := projects number state
      simp only [Resilience.retry, ← first]
      match operation number state with
      | (after, .ok result) => rfl
      | (after, .error failure) =>
          simp only
          split_ifs
          · exact induction (number + 1) after
          · rfl

theorem Projects.fallback {action operation : Operation State Failure Result}
    {reducedAction reduced : Operation Reduced Failure Result}
    (acts : Projects project action reducedAction) (projects : Projects project operation reduced) :
    Projects project (fallback handles action operation)
      (fallback handles reducedAction reduced) := by
  intro state
  have first := projects state
  simp only [Resilience.fallback, ← first]
  match operation state with
  | (after, .ok result) => rfl
  | (after, .error failure) =>
      simp only
      split_ifs
      · exact acts after
      · rfl

end Projects

/-! ## Circuit breakers -/

/-- A breaker has a state of its own. It lets a call through or not, and it sees how the calls
fare that it lets through; meanwhile it may read a clock. -/
structure Breaker where
  Circuit : Type
  Readings : Type
  onActionPreExecute : Readings → Circuit → Circuit × Bool
  onActionSuccess : Circuit → Circuit
  onActionFailure : Readings → Circuit → Circuit

/-- What a breaker is told: the exceptions that count, how many of them open it, for how long,
and the exception of a call that it rejects. -/
structure BreakerPolicy (Failure : Type) where
  handles : Failure → Bool
  failuresAllowed : Nat
  durationOfBreak : Int
  broken : Failure

def circuitBreaker (breaker : Breaker) (policy : BreakerPolicy Failure)
    (readings : breaker.Readings) (operation : Operation State Failure Result) :
    Operation (breaker.Circuit × State) Failure Result := fun (circuit, state) =>
  match breaker.onActionPreExecute readings circuit with
  | (admitted, false) => ((admitted, state), .error policy.broken)
  | (admitted, true) =>
      match operation state with
      | (after, .ok result) => ((breaker.onActionSuccess admitted, after), .ok result)
      | (after, .error failure) =>
          if policy.handles failure then
            ((breaker.onActionFailure readings admitted, after), .error failure)
          else ((admitted, after), .error failure)

theorem circuitBreaker_of_rejected {breaker : Breaker} {readings : breaker.Readings}
    {circuit : breaker.Circuit} (rejects : (breaker.onActionPreExecute readings circuit).2 = false)
    (policy : BreakerPolicy Failure) (operation : Operation State Failure Result) (state : State) :
    ∃ next, circuitBreaker breaker policy readings operation (circuit, state) =
      ((next, state), .error policy.broken) := by
  simp only [circuitBreaker]
  match outcome : breaker.onActionPreExecute readings circuit with
  | (admitted, false) => exact ⟨admitted, rfl⟩
  | (admitted, true) =>
      rw [outcome] at rejects
      cases rejects

theorem circuitBreaker_of_admitted {breaker : Breaker} {readings : breaker.Readings}
    {circuit : breaker.Circuit} (admits : (breaker.onActionPreExecute readings circuit).2 = true)
    (policy : BreakerPolicy Failure) (operation : Operation State Failure Result) (state : State) :
    ∃ next, circuitBreaker breaker policy readings operation (circuit, state) =
      ((next, (operation state).1), (operation state).2) := by
  simp only [circuitBreaker]
  match outcome : breaker.onActionPreExecute readings circuit with
  | (admitted, false) =>
      rw [outcome] at admits
      cases admits
  | (admitted, true) =>
      match operation state with
      | (after, .ok result) => exact ⟨_, rfl⟩
      | (after, .error failure) =>
          simp only
          split_ifs
          · exact ⟨_, rfl⟩
          · exact ⟨_, rfl⟩

theorem circuitBreaker_cases (breaker : Breaker) (policy : BreakerPolicy Failure)
    (readings : breaker.Readings) (operation : Operation State Failure Result)
    (circuit : breaker.Circuit) (state : State) :
    (∃ next, circuitBreaker breaker policy readings operation (circuit, state) =
      ((next, state), .error policy.broken)) ∨
    ∃ next, circuitBreaker breaker policy readings operation (circuit, state) =
      ((next, (operation state).1), (operation state).2) := by
  cases admission : (breaker.onActionPreExecute readings circuit).2 with
  | false => exact .inl (circuitBreaker_of_rejected admission policy operation state)
  | true => exact .inr (circuitBreaker_of_admitted admission policy operation state)

theorem Projects.circuitBreaker {Reduced : Type} {project : State → Reduced}
    {operation : Operation State Failure Result} {reduced : Operation Reduced Failure Result}
    (projects : Projects project operation reduced) (breaker : Breaker)
    (policy : BreakerPolicy Failure) (readings : breaker.Readings) :
    Projects (Prod.map id project) (circuitBreaker breaker policy readings operation)
      (circuitBreaker breaker policy readings reduced) := by
  intro (circuit, state)
  have first := projects state
  simp only [Resilience.circuitBreaker, Prod.map_apply, id_eq, ← first]
  match breaker.onActionPreExecute readings circuit with
  | (admitted, false) => rfl
  | (admitted, true) =>
      match operation state with
      | (after, .ok result) => rfl
      | (after, .error failure) =>
          simp only
          split_ifs
          · rfl
          · rfl

/-! ## A breaker that counts -/

namespace ConsecutiveFailures

inductive CircuitState
  | closed
  | opened
  | halfOpen
deriving DecidableEq, Repr

structure Circuit where
  state : CircuitState
  consecutiveFailures : Nat
  blockedTill : Int
deriving DecidableEq

/-- What the clock says when the breaker reads it during a call: at the entry, before and after
it grants a trial, and when the call has failed. -/
structure Readings where
  atEntry : Int
  atTrial : Int
  afterTrial : Int
  atFailure : Int

def Circuit.observe (circuit : Circuit) (now : Int) : Circuit :=
  if circuit.state = .opened ∧ circuit.blockedTill ≤ now then { circuit with state := .halfOpen }
  else circuit

/-- Whether a call is let through. A half-open circuit grants one trial in each break. -/
def Circuit.onActionPreExecute (policy : BreakerPolicy Failure) (readings : Readings)
    (circuit : Circuit) : Circuit × Bool :=
  let observed := circuit.observe readings.atEntry
  match observed.state with
  | .closed => (observed, true)
  | .opened => (observed, false)
  | .halfOpen =>
      if observed.blockedTill ≤ readings.atTrial then
        ({ observed with blockedTill := readings.afterTrial + policy.durationOfBreak }, true)
      else (observed, false)

def Circuit.onActionSuccess (circuit : Circuit) : Circuit :=
  match circuit.state with
  | .closed => { circuit with consecutiveFailures := 0 }
  | .opened => circuit
  | .halfOpen => { state := .closed, consecutiveFailures := 0, blockedTill := 0 }

def Circuit.breakCircuit (policy : BreakerPolicy Failure) (now : Int) (circuit : Circuit) :
    Circuit :=
  { circuit with state := .opened, blockedTill := now + policy.durationOfBreak }

def Circuit.onActionFailure (policy : BreakerPolicy Failure) (now : Int) (circuit : Circuit) :
    Circuit :=
  match circuit.state with
  | .closed =>
      let counted := { circuit with consecutiveFailures := circuit.consecutiveFailures + 1 }
      if policy.failuresAllowed ≤ counted.consecutiveFailures then counted.breakCircuit policy now
      else counted
  | .opened => circuit
  | .halfOpen => circuit.breakCircuit policy now

def breaker (policy : BreakerPolicy Failure) : Breaker where
  Circuit := Circuit
  Readings := Readings
  onActionPreExecute := Circuit.onActionPreExecute policy
  onActionSuccess := Circuit.onActionSuccess
  onActionFailure readings := Circuit.onActionFailure policy readings.atFailure

end ConsecutiveFailures

end Miningcore.Resilience

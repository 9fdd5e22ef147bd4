import Mathlib.Data.List.Basic

/-! # Transactions

The body of a transaction makes calls to a store, any of which may throw. What a
body leaves behind is committed if it returns and discarded if it throws, so all
that matters about a body is where it leads if it returns. -/

namespace Miningcore.Transaction

/-- A store during a transaction, and the number of calls that are still going to
succeed, if there is a limit. -/
structure Session (Store : Type) where
  store : Store
  callsLeft : Option Nat

abbrev Body (Store Failure : Type) := StateT (Session Store) (Except Failure)

variable {Store Failure Result Next : Type}

def attempt (result : Except Failure Result) : Body Store Failure Result := fun session =>
  result.map fun value => (value, session)

/-- A call to the store. It throws what the operation throws, or is lost. -/
def call (lost : Failure) (operation : Store → Except Failure (Result × Store)) :
    Body Store Failure Result := fun session =>
  if session.callsLeft = some 0 then .error lost
  else
    match operation session.store with
    | .error failure => .error failure
    | .ok (result, store) => .ok (result, ⟨store, session.callsLeft.map Nat.pred⟩)

def query (lost : Failure) (read : Store → Except Failure Result) : Body Store Failure Result :=
  call lost fun store => (read store).map fun result => (result, store)

def execute (lost : Failure) (write : Store → Except Failure Store) :
    Body Store Failure Unit :=
  call lost fun store => (write store).map fun next => ((), next)

def run (lost : Failure) (body : Body Store Failure Result) (callsLeft : Option Nat)
    (store : Store) : Store × Except Failure Result :=
  match (do let result ← body; execute lost .ok; return result : Body Store Failure Result)
      ⟨store, callsLeft⟩ with
  | .ok (result, session) => (session.store, .ok result)
  | .error failure => (store, .error failure)

def Leads (body : Body Store Failure Result) (store : Store) (result : Result) (next : Store) :
    Prop :=
  ∃ callsLeft callsAfter, body ⟨store, callsLeft⟩ = .ok (result, ⟨next, callsAfter⟩)

theorem leads_pure {result returned : Result} {store next : Store}
    (leads : Leads (pure result : Body Store Failure Result) store returned next) :
    returned = result ∧ next = store := by
  rcases leads with ⟨callsLeft, callsAfter, returns⟩
  cases returns
  exact ⟨rfl, rfl⟩

theorem leads_bind {body : Body Store Failure Result}
    {continuation : Result → Body Store Failure Next} {store next : Store} {returned : Next}
    (leads : Leads (body >>= continuation) store returned next) :
    ∃ result middle, Leads body store result middle ∧
      Leads (continuation result) middle returned next := by
  rcases leads with ⟨callsLeft, callsAfter, returns⟩
  simp only [bind, StateT.bind] at returns
  cases first : body ⟨store, callsLeft⟩ with
  | error failure =>
      rw [first] at returns
      cases returns
  | ok outcome =>
      rw [first] at returns
      rcases outcome with ⟨result, middle, callsMiddle⟩
      exact ⟨result, middle, ⟨callsLeft, callsMiddle, first⟩, ⟨callsMiddle, callsAfter, returns⟩⟩

theorem leads_attempt {computation : Except Failure Result} {store next : Store} {result : Result}
    (leads : Leads (attempt computation) store result next) :
    computation = .ok result ∧ next = store := by
  rcases leads with ⟨callsLeft, callsAfter, returns⟩
  cases computation with
  | error failure => cases returns
  | ok value =>
      cases returns
      exact ⟨rfl, rfl⟩

theorem leads_call {lost : Failure} {operation : Store → Except Failure (Result × Store)}
    {store next : Store} {result : Result} (leads : Leads (call lost operation) store result next) :
    operation store = .ok (result, next) := by
  rcases leads with ⟨callsLeft, callsAfter, returns⟩
  rw [call] at returns
  split_ifs at returns
  cases outcome : operation store with
  | error failure =>
      simp only [outcome] at returns
      cases returns
  | ok pair =>
      rcases pair with ⟨value, after⟩
      simp only [outcome] at returns
      cases returns
      rfl

theorem leads_query {lost : Failure} {read : Store → Except Failure Result}
    {store next : Store} {result : Result} (leads : Leads (query lost read) store result next) :
    read store = .ok result ∧ next = store := by
  have returns := leads_call leads
  cases outcome : read store with
  | error failure =>
      rw [outcome] at returns
      cases returns
  | ok value =>
      rw [outcome] at returns
      cases returns
      exact ⟨rfl, rfl⟩

theorem leads_execute {lost : Failure} {write : Store → Except Failure Store}
    {store next : Store} {result : Unit} (leads : Leads (execute lost write) store result next) :
    write store = .ok next := by
  have returns := leads_call leads
  cases outcome : write store with
  | error failure =>
      rw [outcome] at returns
      cases returns
  | ok value =>
      rw [outcome] at returns
      cases returns
      rfl

theorem run_cases (lost : Failure) (body : Body Store Failure Result) (callsLeft : Option Nat)
    (store : Store) :
    (∃ result next, Leads body store result next ∧
      run lost body callsLeft store = (next, .ok result)) ∨
    ∃ failure, run lost body callsLeft store = (store, .error failure) := by
  rw [run]
  cases outcome : (do let result ← body; execute lost .ok; return result :
      Body Store Failure Result) ⟨store, callsLeft⟩ with
  | error failure => exact .inr ⟨failure, rfl⟩
  | ok pair =>
      rcases pair with ⟨result, next, callsAfter⟩
      left
      rcases leads_bind ⟨callsLeft, callsAfter, outcome⟩ with ⟨value, middle, leads, rest⟩
      rcases leads_bind rest with ⟨done, last, commits, returns⟩
      have committed := leads_execute commits
      cases committed
      rcases leads_pure returns with ⟨rfl, rfl⟩
      exact ⟨result, next, leads, rfl⟩

/-! ## Bodies with one kind of exception -/

/-- The body throws nothing but the given exception. -/
def ThrowsOnly (failure : Failure) (body : Body Store Failure Result) : Prop :=
  ∀ session other, body session = .error other → other = failure

theorem throwsOnly_pure (failure : Failure) (result : Result) :
    ThrowsOnly failure (pure result : Body Store Failure Result) := by
  intro session other throws
  cases throws

theorem throwsOnly_bind {failure : Failure} {body : Body Store Failure Result}
    {continuation : Result → Body Store Failure Next} (first : ThrowsOnly failure body)
    (second : ∀ result, ThrowsOnly failure (continuation result)) :
    ThrowsOnly failure (body >>= continuation) := by
  intro session other throws
  simp only [bind, StateT.bind] at throws
  cases outcome : body session with
  | error thrown =>
      rw [outcome] at throws
      cases throws
      exact first session other outcome
  | ok pair =>
      rw [outcome] at throws
      exact second pair.1 pair.2 other throws

theorem throwsOnly_call {lost : Failure} {operation : Store → Except Failure (Result × Store)}
    (throws : ∀ store other, operation store = .error other → other = lost) :
    ThrowsOnly lost (call lost operation) := by
  intro session other thrown
  rw [call] at thrown
  split_ifs at thrown
  · cases thrown
    rfl
  · cases outcome : operation session.store with
    | error failure =>
        simp only [outcome] at thrown
        cases thrown
        exact throws session.store other outcome
    | ok pair =>
        simp only [outcome] at thrown
        cases thrown

theorem throwsOnly_query {lost : Failure} {read : Store → Except Failure Result}
    (throws : ∀ store other, read store = .error other → other = lost) :
    ThrowsOnly lost (query lost read) := by
  apply throwsOnly_call
  intro store other thrown
  cases outcome : read store with
  | error failure =>
      rw [outcome] at thrown
      cases thrown
      exact throws store other outcome
  | ok result =>
      rw [outcome] at thrown
      cases thrown

theorem throwsOnly_execute {lost : Failure} {write : Store → Except Failure Store}
    (throws : ∀ store other, write store = .error other → other = lost) :
    ThrowsOnly lost (execute lost write) := by
  apply throwsOnly_call
  intro store other thrown
  cases outcome : write store with
  | error failure =>
      rw [outcome] at thrown
      cases thrown
      exact throws store other outcome
  | ok next =>
      rw [outcome] at thrown
      cases thrown

theorem ThrowsOnly.run {lost : Failure} {body : Body Store Failure Result}
    (only : ThrowsOnly lost body) {callsLeft : Option Nat} {store next : Store} {other : Failure}
    (throws : Transaction.run lost body callsLeft store = (next, .error other)) : other = lost := by
  have commits : ThrowsOnly lost (do let result ← body; execute lost .ok; return result :
      Body Store Failure Result) := by
    apply throwsOnly_bind only
    intro result
    apply throwsOnly_bind
    · apply throwsOnly_execute
      intro _ _ thrown
      cases thrown
    · intro _
      exact throwsOnly_pure lost result
  rw [Transaction.run] at throws
  cases outcome : (do let result ← body; execute lost .ok; return result :
      Body Store Failure Result) ⟨store, callsLeft⟩ with
  | error failure =>
      rw [outcome] at throws
      cases throws
      exact commits _ other outcome
  | ok pair =>
      rw [outcome] at throws
      cases throws

/-! ## Bodies whose calls arrive -/

def Returns (body : Body Store Failure Result) (store : Store) (result : Result) (next : Store) :
    Prop :=
  body ⟨store, none⟩ = .ok (result, ⟨next, none⟩)

theorem Returns.leads {body : Body Store Failure Result} {store next : Store} {result : Result}
    (returns : Returns body store result next) : Leads body store result next :=
  ⟨none, none, returns⟩

theorem returns_pure (result : Result) (store : Store) :
    Returns (pure result : Body Store Failure Result) store result store := rfl

theorem returns_bind {body : Body Store Failure Result}
    {continuation : Result → Body Store Failure Next} {store middle next : Store}
    {result : Result} {returned : Next} (first : Returns body store result middle)
    (second : Returns (continuation result) middle returned next) :
    Returns (body >>= continuation) store returned next := by
  rw [Returns] at first second ⊢
  simp only [bind, StateT.bind, first]
  exact second

theorem returns_attempt {computation : Except Failure Result} {result : Result}
    (computed : computation = .ok result) (store : Store) :
    Returns (attempt computation) store result store := by
  rw [Returns, attempt, computed]
  rfl

theorem returns_query {lost : Failure} {read : Store → Except Failure Result} {store : Store}
    {result : Result} (reads : read store = .ok result) :
    Returns (query lost read) store result store := by
  simp only [Returns, query, call, reads]
  rfl

theorem returns_execute {lost : Failure} {write : Store → Except Failure Store}
    {store next : Store} (writes : write store = .ok next) :
    Returns (execute lost write) store () next := by
  simp only [Returns, execute, call, writes]
  rfl

theorem Returns.run {body : Body Store Failure Result} {store next : Store} {result : Result}
    (returns : Returns body store result next) (lost : Failure) :
    run lost body none store = (next, .ok result) := by
  have commits : Returns (do let value ← body; execute lost .ok; return value) store result next :=
    returns_bind returns (returns_bind (returns_execute rfl) (returns_pure result next))
  rw [Returns] at commits
  rw [Transaction.run, commits]

/-- Where there is no limit on the calls, the body sets none. -/
def Unlimited (body : Body Store Failure Result) : Prop :=
  ∀ store result session, body ⟨store, none⟩ = .ok (result, session) → session.callsLeft = none

theorem unlimited_pure (result : Result) : Unlimited (pure result : Body Store Failure Result) := by
  intro store returned session returns
  cases returns
  rfl

theorem unlimited_bind {body : Body Store Failure Result}
    {continuation : Result → Body Store Failure Next} (first : Unlimited body)
    (second : ∀ result, Unlimited (continuation result)) : Unlimited (body >>= continuation) := by
  intro store returned session returns
  simp only [bind, StateT.bind] at returns
  cases outcome : body ⟨store, none⟩ with
  | error failure =>
      rw [outcome] at returns
      cases returns
  | ok pair =>
      rcases pair with ⟨result, middle, callsLeft⟩
      cases first store result _ outcome
      rw [outcome] at returns
      exact second result middle returned session returns

theorem unlimited_attempt (computation : Except Failure Result) :
    Unlimited (attempt computation : Body Store Failure Result) := by
  intro store result session returns
  cases computation with
  | error failure => cases returns
  | ok value =>
      cases returns
      rfl

theorem unlimited_call (lost : Failure) (operation : Store → Except Failure (Result × Store)) :
    Unlimited (call lost operation) := by
  intro store result session returns
  simp only [call] at returns
  cases outcome : operation store with
  | error failure =>
      rw [outcome] at returns
      cases returns
  | ok pair =>
      rw [outcome] at returns
      cases returns
      rfl

theorem unlimited_query (lost : Failure) (read : Store → Except Failure Result) :
    Unlimited (query lost read) := unlimited_call lost _

theorem unlimited_execute (lost : Failure) (write : Store → Except Failure Store) :
    Unlimited (execute lost write) := unlimited_call lost _

theorem Unlimited.returns {body : Body Store Failure Result} (unlimited : Unlimited body)
    {store : Store} {result : Result} {session : Session Store}
    (outcome : body ⟨store, none⟩ = .ok (result, session)) :
    Returns body store result session.store := by
  rcases session with ⟨next, callsLeft⟩
  cases unlimited store result _ outcome
  exact outcome

theorem returns_pure_iff {result returned : Result} {store next : Store} :
    Returns (pure result : Body Store Failure Result) store returned next ↔
      result = returned ∧ store = next := by
  constructor
  · intro returns
    cases returns
    exact ⟨rfl, rfl⟩
  · rintro ⟨rfl, rfl⟩
    exact returns_pure result store

theorem returns_attempt_iff {computation : Except Failure Result} {store next : Store}
    {result : Result} :
    Returns (attempt computation) store result next ↔
      computation = .ok result ∧ store = next := by
  constructor
  · intro returns
    rcases leads_attempt returns.leads with ⟨computed, rfl⟩
    exact ⟨computed, rfl⟩
  · rintro ⟨computed, rfl⟩
    exact returns_attempt computed store

theorem returns_query_iff {lost : Failure} {read : Store → Except Failure Result}
    {store next : Store} {result : Result} :
    Returns (query lost read) store result next ↔ read store = .ok result ∧ store = next := by
  constructor
  · intro returns
    rcases leads_query returns.leads with ⟨reads, rfl⟩
    exact ⟨reads, rfl⟩
  · rintro ⟨reads, rfl⟩
    exact returns_query reads

theorem returns_execute_iff {lost : Failure} {write : Store → Except Failure Store}
    {store next : Store} :
    Returns (execute lost write) store () next ↔ write store = .ok next :=
  ⟨fun returns => leads_execute returns.leads, returns_execute⟩

theorem returns_bind_iff {body : Body Store Failure Result}
    {continuation : Result → Body Store Failure Next} (unlimited : Unlimited body)
    {store next : Store} {returned : Next} :
    Returns (body >>= continuation) store returned next ↔
      ∃ result middle, Returns body store result middle ∧
        Returns (continuation result) middle returned next := by
  constructor
  · intro returns
    simp only [Returns, bind, StateT.bind] at returns
    cases outcome : body ⟨store, none⟩ with
    | error failure =>
        rw [outcome] at returns
        cases returns
    | ok pair =>
        rcases pair with ⟨result, session⟩
        have first := unlimited.returns outcome
        rw [first] at returns
        exact ⟨result, session.store, first, returns⟩
  · rintro ⟨result, middle, first, second⟩
    exact returns_bind first second

theorem returns_attempt_bind_iff {computation : Except Failure Result}
    {continuation : Result → Body Store Failure Next} {store next : Store} {returned : Next} :
    Returns (attempt computation >>= continuation) store returned next ↔
      ∃ result, computation = .ok result ∧ Returns (continuation result) store returned next := by
  rw [returns_bind_iff (unlimited_attempt computation)]
  simp only [returns_attempt_iff, and_assoc, exists_and_left, exists_eq_left']

theorem returns_query_bind_iff {lost : Failure} {read : Store → Except Failure Result}
    {continuation : Result → Body Store Failure Next} {store next : Store} {returned : Next} :
    Returns (query lost read >>= continuation) store returned next ↔
      ∃ result, read store = .ok result ∧ Returns (continuation result) store returned next := by
  rw [returns_bind_iff (unlimited_query lost read)]
  simp only [returns_query_iff, and_assoc, exists_and_left, exists_eq_left']

theorem run_eq_ok_iff {body : Body Store Failure Result} (unlimited : Unlimited body)
    {store next : Store} {result : Result} (lost : Failure) :
    run lost body none store = (next, .ok result) ↔ Returns body store result next := by
  constructor
  · intro committed
    have left : Unlimited (do let value ← body; execute lost .ok; return value) :=
      unlimited_bind unlimited fun value =>
        unlimited_bind (unlimited_execute lost .ok) fun _ => unlimited_pure value
    have commits : Returns (do let value ← body; execute lost .ok; return value) store result
        next := by
      rw [run] at committed
      cases outcome : (do let value ← body; execute lost .ok; return value :
          Body Store Failure Result) ⟨store, none⟩ with
      | error failure =>
          rw [outcome] at committed
          cases committed
      | ok pair =>
          rw [outcome] at committed
          cases committed
          exact left.returns outcome
    rcases (returns_bind_iff unlimited).mp commits with ⟨value, middle, returns, rest⟩
    rcases (returns_bind_iff (unlimited_execute lost .ok)).mp rest with
      ⟨_, after, executes, returned⟩
    rcases returns_pure_iff.mp returned with ⟨rfl, rfl⟩
    cases returns_execute_iff.mp executes
    exact returns
  · exact fun returns => returns.run lost

end Miningcore.Transaction

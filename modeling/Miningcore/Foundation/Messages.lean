import Miningcore.Foundation.Transaction

/-! # Messages out of a transaction

The body of a transaction may send messages. A rollback restores the store, but a message
that has been sent stays sent. -/

namespace Miningcore.Transaction

abbrev Sending (Message Store Failure : Type) :=
  StateT (Session Store) (ExceptT Failure (StateM (List Message)))

variable {Message Store Failure Result Next : Type}

def perform (body : Body Store Failure Result) : Sending Message Store Failure Result :=
  fun session sent => (body session, sent)

def send (message : Message) : Sending Message Store Failure Unit :=
  fun session sent => (.ok ((), session), sent ++ [message])

def runSending (lost : Failure) (body : Sending Message Store Failure Result)
    (callsLeft : Option Nat) (state : Store × List Message) :
    (Store × List Message) × Except Failure Result :=
  match (do let result ← body; perform (execute lost .ok); return result :
      Sending Message Store Failure Result) ⟨state.1, callsLeft⟩ state.2 with
  | (.ok (result, session), sent) => ((session.store, sent), .ok result)
  | (.error failure, sent) => ((state.1, sent), .error failure)

theorem bind_of_ok {body : Sending Message Store Failure Result}
    {continuation : Result → Sending Message Store Failure Next} {session after : Session Store}
    {sent sentAfter : List Message} {result : Result}
    (returns : body session sent = (.ok (result, after), sentAfter)) :
    (body >>= continuation) session sent = continuation result after sentAfter := by
  simp only [bind, StateT.bind, ExceptT.bind, ExceptT.mk, returns]
  rfl

theorem bind_of_error {body : Sending Message Store Failure Result}
    {continuation : Result → Sending Message Store Failure Next} {session : Session Store}
    {sent sentAfter : List Message} {failure : Failure}
    (throws : body session sent = (.error failure, sentAfter)) :
    (body >>= continuation) session sent = (.error failure, sentAfter) := by
  simp only [bind, StateT.bind, ExceptT.bind, ExceptT.mk, throws]
  rfl

theorem perform_bind_of_ok {body : Body Store Failure Result}
    {continuation : Result → Sending Message Store Failure Next} {session after : Session Store}
    {result : Result} (returns : body session = .ok (result, after)) (sent : List Message) :
    (perform body >>= continuation) session sent = continuation result after sent := by
  apply bind_of_ok
  rw [perform, returns]

theorem perform_bind_of_error {body : Body Store Failure Result}
    {continuation : Result → Sending Message Store Failure Next} {session : Session Store}
    {failure : Failure} (throws : body session = .error failure) (sent : List Message) :
    (perform body >>= continuation) session sent = (.error failure, sent) := by
  apply bind_of_error
  rw [perform, throws]

def Erases (sending : Sending Message Store Failure Result) (body : Body Store Failure Result) :
    Prop :=
  ∀ session sent, (sending session sent).1 = body session

theorem erases_pure (result : Result) :
    Erases (pure result : Sending Message Store Failure Result) (pure result) :=
  fun _ _ => rfl

theorem erases_perform (body : Body Store Failure Result) :
    Erases (perform body : Sending Message Store Failure Result) body :=
  fun _ _ => rfl

theorem erases_send (message : Message) {sending : Unit → Sending Message Store Failure Result}
    {body : Body Store Failure Result} (rest : Erases (sending ()) body) :
    Erases (send message >>= sending) body := by
  intro session sent
  exact rest session (sent ++ [message])

theorem erases_bind {sending : Sending Message Store Failure Result}
    {body : Body Store Failure Result}
    {sendingNext : Result → Sending Message Store Failure Next}
    {bodyNext : Result → Body Store Failure Next} (first : Erases sending body)
    (second : ∀ result, Erases (sendingNext result) (bodyNext result)) :
    Erases (sending >>= sendingNext) (body >>= bodyNext) := by
  intro session sent
  have same := first session sent
  match outcome : sending session sent with
  | (.error failure, sentAfter) =>
      rw [outcome] at same
      rw [bind_of_error outcome]
      simp only [bind, StateT.bind, ← same]
      rfl
  | (.ok (result, after), sentAfter) =>
      rw [outcome] at same
      rw [bind_of_ok outcome, second result after sentAfter]
      simp only [bind, StateT.bind, ← same]
      rfl

theorem Erases.run {sending : Sending Message Store Failure Result}
    {body : Body Store Failure Result} (erases : Erases sending body) (lost : Failure)
    (callsLeft : Option Nat) (state : Store × List Message) :
    ((runSending lost sending callsLeft state).1.1, (runSending lost sending callsLeft state).2) =
      run lost body callsLeft state.1 := by
  have commits : Erases (do let result ← sending; perform (execute lost .ok); return result)
      (do let result ← body; execute lost .ok; return result) := by
    apply erases_bind erases
    intro result
    apply erases_bind (erases_perform _)
    intro _
    exact erases_pure result
  have same := commits ⟨state.1, callsLeft⟩ state.2
  rw [Transaction.run, ← same, runSending]
  rcases (do let result ← sending; perform (execute lost .ok); return result :
      Sending Message Store Failure Result) ⟨state.1, callsLeft⟩ state.2 with
    ⟨failure | ⟨result, session⟩, sentAfter⟩
  · rfl
  · rfl

end Miningcore.Transaction

import Mathlib.Logic.Basic

/-! # Programs that talk to a partner

A program sends requests to a partner and goes on with what comes back. Between two
requests it performs effects of its own, which throw or are done. Replies are whatever
the partner makes of a request, so what holds of a program has to hold for all of them.

A protocol is kept track of in a state of its own. It says what a program may ask and
perform in a state, and in which states it may end. -/

namespace Miningcore.Interaction

inductive Program (Request Reply Effect Failure Result : Type)
  | done (result : Result)
  | throw (failure : Failure)
  | call (request : Request) (resume : Reply → Program Request Reply Effect Failure Result)
  | perform (effect : Effect) (next : Program Request Reply Effect Failure Result)

variable {Request Reply Effect Failure Result Next : Type}

namespace Program

protected def bind (program : Program Request Reply Effect Failure Result)
    (continuation : Result → Program Request Reply Effect Failure Next) :
    Program Request Reply Effect Failure Next :=
  match program with
  | .done result => continuation result
  | .throw failure => .throw failure
  | .call request resume => .call request fun reply => (resume reply).bind continuation
  | .perform effect next => .perform effect (next.bind continuation)

instance : Monad (Program Request Reply Effect Failure) where
  pure := .done
  bind := Program.bind

theorem bind_assoc {Last : Type} (program : Program Request Reply Effect Failure Result)
    (first : Result → Program Request Reply Effect Failure Next)
    (second : Next → Program Request Reply Effect Failure Last) :
    program >>= first >>= second = program >>= fun result => first result >>= second := by
  induction program with
  | done result => rfl
  | throw failure => rfl
  | call request resume induction =>
      apply congrArg (Program.call request)
      funext reply
      exact induction reply
  | perform effect next induction => exact congrArg (Program.perform effect) induction

def attempt : Except Failure Result → Program Request Reply Effect Failure Result
  | .ok result => .done result
  | .error failure => .throw failure

def ask (request : Request) : Program Request Reply Effect Failure Reply := .call request .done

def act (effect : Effect) : Program Request Reply Effect Failure Unit := .perform effect (.done ())

end Program

structure Protocol (Request Reply Effect State : Type) where
  mayAsk : State → Request → Prop
  answered : State → Request → Reply → State
  mayPerform : State → Effect → Prop
  performed : State → Effect → State
  mayEnd : State → Prop

variable {State : Type}

/-- The program keeps to the protocol, and what it returns meets the postcondition. -/
def Protocol.Ensures (protocol : Protocol Request Reply Effect State)
    (post : State → Result → Prop) :
    State → Program Request Reply Effect Failure Result → Prop
  | state, .done result => post state result
  | state, .throw _ => protocol.mayEnd state
  | state, .call request resume => protocol.mayAsk state request ∧
      ∀ reply, protocol.Ensures post (protocol.answered state request reply) (resume reply)
  | state, .perform effect next => protocol.mayPerform state effect ∧
      protocol.Ensures post (protocol.performed state effect) next

namespace Protocol

variable (protocol : Protocol Request Reply Effect State)
variable {post : State → Result → Prop} {state : State}

def Follows (state : State) (program : Program Request Reply Effect Failure Result) : Prop :=
  protocol.Ensures (fun last _ => protocol.mayEnd last) state program

theorem Ensures.bind {next : State → Next → Prop}
    {program : Program Request Reply Effect Failure Result}
    {continuation : Result → Program Request Reply Effect Failure Next}
    (first : protocol.Ensures post state program)
    (second : ∀ middle result, post middle result →
      protocol.Ensures next middle (continuation result)) :
    protocol.Ensures next state (program >>= continuation) := by
  induction program generalizing state with
  | done result => exact second state result first
  | throw failure => exact first
  | call request resume induction => exact ⟨first.1, fun reply => induction reply (first.2 reply)⟩
  | perform effect rest induction => exact ⟨first.1, induction first.2⟩

theorem Ensures.weaken {weaker : State → Result → Prop}
    {program : Program Request Reply Effect Failure Result}
    (ensures : protocol.Ensures post state program)
    (implies : ∀ last result, post last result → weaker last result) :
    protocol.Ensures weaker state program := by
  induction program generalizing state with
  | done result => exact implies state result ensures
  | throw failure => exact ensures
  | call request resume induction =>
      exact ⟨ensures.1, fun reply => induction reply (ensures.2 reply)⟩
  | perform effect rest induction => exact ⟨ensures.1, induction ensures.2⟩

theorem ensures_attempt {computation : Except Failure Result}
    (throws : ∀ failure, computation = .error failure → protocol.mayEnd state)
    (returns : ∀ result, computation = .ok result → post state result) :
    protocol.Ensures post state (Program.attempt computation) := by
  cases computation with
  | error failure => exact throws failure rfl
  | ok result => exact returns result rfl

end Protocol

end Miningcore.Interaction

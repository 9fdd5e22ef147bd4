import Miningcore.Foundation.Run

/-! # Refinement

A component refines another one if, from related states, both answer every event alike and stay
related. -/

namespace Miningcore.Refinement

variable {Concrete Abstract Event Answer : Type}

def answers {State : Type} (step : State → Event → State) (answer : State → Event → Answer)
    (state : State) : List Event → List Answer
  | [] => []
  | event :: events => answer state event :: answers step answer (step state event) events

section Simulation

variable (step : Concrete → Event → Concrete) (answer : Concrete → Event → Answer)
  (abstractStep : Abstract → Event → Abstract) (abstractAnswer : Abstract → Event → Answer)

/-- One event leads from related states to related states, with the same answer. -/
structure Simulates (related : Concrete → Abstract → Prop) : Prop where
  steps : ∀ {concrete abstract} event, related concrete abstract →
    related (step concrete event) (abstractStep abstract event)
  alike : ∀ {concrete abstract} event, related concrete abstract →
    answer concrete event = abstractAnswer abstract event

variable {step answer abstractStep abstractAnswer} {related : Concrete → Abstract → Prop}

theorem Simulates.final
    (simulates : Simulates step answer abstractStep abstractAnswer related)
    {concrete : Concrete} {abstract : Abstract} (start : related concrete abstract)
    (events : List Event) :
    related (Run.final step concrete events) (Run.final abstractStep abstract events) := by
  induction events generalizing concrete abstract with
  | nil => exact start
  | cons event events induction => exact induction (simulates.steps event start)

theorem Simulates.answers_eq
    (simulates : Simulates step answer abstractStep abstractAnswer related)
    {concrete : Concrete} {abstract : Abstract} (start : related concrete abstract)
    (events : List Event) :
    answers step answer concrete events = answers abstractStep abstractAnswer abstract events := by
  induction events generalizing concrete abstract with
  | nil => rfl
  | cons event events induction =>
      rw [answers, answers, simulates.alike event start, induction (simulates.steps event start)]

end Simulation

end Miningcore.Refinement

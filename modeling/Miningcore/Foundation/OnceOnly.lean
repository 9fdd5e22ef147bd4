import Miningcore.Foundation.Run

/-! # Components that accept a key at most once

A component answers a stream of events and accepts some of them. It guards
against repetition by closing the key of every event it accepts: a closed key
is never accepted and never opens again. Over any run the accepted keys are
then pairwise different, whatever the events are. -/

namespace Miningcore

structure OnceOnly (State Event Acceptance Key : Type) where
  step : State → Event → State
  accepted : State → Event → Option Acceptance
  key : Acceptance → Key
  closed : State → Key → Prop
  /-- The states the component can be in. -/
  valid : State → Prop
  step_valid : ∀ state event, valid state → valid (step state event)
  accepted_open : ∀ state event acceptance, valid state →
    accepted state event = some acceptance → ¬closed state (key acceptance)
  accepted_closes : ∀ state event acceptance, valid state →
    accepted state event = some acceptance → closed (step state event) (key acceptance)
  closed_stays : ∀ state event target, valid state →
    closed state target → closed (step state event) target

namespace OnceOnly

variable {State Event Acceptance Key : Type}
variable (component : OnceOnly State Event Acceptance Key)

def acceptances (state : State) (events : List Event) : List Acceptance :=
  Run.emitted component.step component.accepted state events

theorem key_ne_of_closed (state : State) (valid : component.valid state)
    (target : Key) (closed : component.closed state target) (events : List Event) :
    ∀ acceptance ∈ component.acceptances state events,
      component.key acceptance ≠ target := by
  apply Run.emitted_forall component.step component.accepted
    (fun state => component.valid state ∧ component.closed state target) (fun _ => True)
  · rintro state event ⟨valid, closed⟩
    exact ⟨component.step_valid state event valid,
      component.closed_stays state event target valid closed⟩
  · rintro state event acceptance ⟨valid, closed⟩ - accepted equal
    apply component.accepted_open state event acceptance valid accepted
    rw [equal]
    exact closed
  · exact ⟨valid, closed⟩
  · exact fun _ _ => trivial

theorem acceptances_pairwise (state : State) (valid : component.valid state)
    (events : List Event) :
    (component.acceptances state events).Pairwise fun earlier later =>
      component.key earlier ≠ component.key later := by
  induction events generalizing state with
  | nil => exact List.Pairwise.nil
  | cons event events induction =>
      have nextValid := component.step_valid state event valid
      rw [acceptances, Run.emitted, List.pairwise_append]
      refine ⟨?_, induction (component.step state event) nextValid, ?_⟩
      · cases component.accepted state event <;> simp
      · intro earlier now later member equal
        rw [Option.mem_toList] at now
        exact component.key_ne_of_closed (component.step state event) nextValid
          (component.key earlier)
          (component.accepted_closes state event earlier valid now)
          events later member equal.symm

theorem work_pairwise {Work : Type} (work : Acceptance → Work)
    (property : Acceptance → Prop)
    (key_of_work : ∀ left right, property left → property right →
      work left = work right → component.key left = component.key right)
    (state : State) (valid : component.valid state) (events : List Event)
    (holds : ∀ acceptance ∈ component.acceptances state events, property acceptance) :
    (component.acceptances state events).Pairwise fun earlier later =>
      work earlier ≠ work later := by
  apply (component.acceptances_pairwise state valid events).imp_of_mem
  intro earlier later earlierMember laterMember different equal
  exact different (key_of_work earlier later (holds earlier earlierMember)
    (holds later laterMember) equal)

end OnceOnly

end Miningcore

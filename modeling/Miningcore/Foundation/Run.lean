import Mathlib.Data.List.Induction

/-! # Runs of a component

A component takes one event after the other and may emit an output at each of
them. The rules below lift what holds of a single step to every run. -/

namespace Miningcore.Run

variable {State Event Output : Type}
variable (step : State → Event → State)

def final (state : State) (events : List Event) : State := events.foldl step state

theorem final_append (state : State) (front back : List Event) :
    final step state (front ++ back) = final step (final step state front) back :=
  List.foldl_append

theorem final_invariant (invariant : State → Prop)
    (preserved : ∀ state event, invariant state → invariant (step state event))
    (state : State) (holds : invariant state) (events : List Event) :
    invariant (final step state events) := by
  induction events generalizing state with
  | nil => exact holds
  | cons event events induction =>
      exact induction (step state event) (preserved state event holds)

theorem final_related (invariant : State → Prop)
    (preserved : ∀ state event, invariant state → invariant (step state event))
    (relation : State → State → Prop) (refl : ∀ state, relation state state)
    (trans : ∀ first second third, relation first second → relation second third →
      relation first third)
    (related : ∀ state event, invariant state → relation state (step state event))
    (state : State) (holds : invariant state) (events : List Event) :
    relation state (final step state events) := by
  induction events generalizing state with
  | nil => exact refl state
  | cons event events induction =>
      exact trans _ _ _ (related state event holds)
        (induction (step state event) (preserved state event holds))

def Along (condition : State → Event → Prop) (state : State) : List Event → Prop
  | [] => True
  | event :: events => condition state event ∧ Along condition (step state event) events

instance {condition : State → Event → Prop}
    [decidable : ∀ state event, Decidable (condition state event)] (state : State)
    (events : List Event) : Decidable (Along step condition state events) :=
  go state events
where
  go (state : State) : (events : List Event) → Decidable (Along step condition state events)
    | [] => .isTrue trivial
    | event :: events =>
        @instDecidableAnd _ _ (decidable state event) (go (step state event) events)

theorem along_append {condition : State → Event → Prop} {state : State}
    {front back : List Event} :
    Along step condition state (front ++ back) ↔
      Along step condition state front ∧ Along step condition (final step state front) back := by
  induction front generalizing state with
  | nil => exact (and_iff_right trivial).symm
  | cons event front induction =>
      rw [List.cons_append, Along, Along, induction, and_assoc]
      rfl

theorem along_imp {condition weaker : State → Event → Prop}
    (implies : ∀ state event, condition state event → weaker state event) {state : State}
    {events : List Event} (along : Along step condition state events) :
    Along step weaker state events := by
  induction events generalizing state with
  | nil => trivial
  | cons event events induction => exact ⟨implies state event along.1, induction along.2⟩

theorem final_invariant_along (condition : State → Event → Prop) (invariant : State → Prop)
    (preserved : ∀ state event, condition state event → invariant state →
      invariant (step state event))
    (state : State) (holds : invariant state) (events : List Event)
    (along : Along step condition state events) :
    invariant (final step state events) := by
  induction events generalizing state with
  | nil => exact holds
  | cons event events induction =>
      exact induction (step state event) (preserved state event along.1 holds) along.2

theorem always_of_along (condition : State → Event → Prop) (invariant : State → Prop)
    (preserved : ∀ state event, condition state event → invariant state →
      invariant (step state event))
    (state : State) (holds : invariant state) (events : List Event)
    (along : Along step condition state events) :
    ∀ front, front <+: events → invariant (final step state front) := by
  rintro front ⟨back, rfl⟩
  exact final_invariant_along step condition invariant preserved state holds front
    ((along_append step).mp along).1

theorem final_kept_along (condition : State → Event → Prop) (property kept : State → Prop)
    (preserved : ∀ state event, condition state event → property (step state event) →
      kept state → kept (step state event))
    (state : State) (holds : kept state) (events : List Event)
    (along : Along step condition state events)
    (passes : ∀ front, front <+: events → property (final step state front)) :
    kept (final step state events) := by
  induction events generalizing state with
  | nil => exact holds
  | cons event events induction =>
      have next : property (step state event) := passes [event] ⟨events, rfl⟩
      apply induction (step state event) (preserved state event along.1 next holds) along.2
      intro front isPrefix
      exact passes (event :: front) (List.cons_prefix_cons.mpr ⟨rfl, isPrefix⟩)

theorem always_iff_along (condition : State → Event → Prop) (invariant : State → Prop)
    (preserved_iff : ∀ state event, invariant state →
      (invariant (step state event) ↔ condition state event))
    (state : State) (holds : invariant state) (events : List Event) :
    (∀ front, front <+: events → invariant (final step state front)) ↔
      Along step condition state events := by
  induction events generalizing state with
  | nil =>
      refine ⟨fun _ => trivial, ?_⟩
      intro _ front isPrefix
      rw [List.prefix_nil.mp isPrefix]
      exact holds
  | cons event events induction =>
      constructor
      · intro always
        have next : invariant (step state event) := always [event] ⟨events, rfl⟩
        refine ⟨(preserved_iff state event holds).mp next, (induction _ next).mp ?_⟩
        intro front isPrefix
        exact always (event :: front) (List.cons_prefix_cons.mpr ⟨rfl, isPrefix⟩)
      · rintro ⟨now, later⟩ front isPrefix
        have next := (preserved_iff state event holds).mpr now
        cases front with
        | nil => exact holds
        | cons first front =>
            rcases List.cons_prefix_cons.mp isPrefix with ⟨rfl, rest⟩
            exact (induction _ next).mpr later front rest

theorem observed_final {Value : Type} (observed : State → Value) (writes : Event → Bool)
    (value : Event → Value) (events : List Event)
    (observed_step : ∀ event ∈ events, ∀ state,
      observed (step state event) = if writes event then value event else observed state)
    (state : State) :
    observed (final step state events) =
      match (events.filter writes).getLast? with
      | some last => value last
      | none => observed state := by
  induction events using List.reverseRecOn with
  | nil => rfl
  | append_singleton events last induction =>
      rw [final_append, List.filter_append]
      change observed (step (final step state events) last) = _
      rw [observed_step last (List.mem_append_right _ (List.mem_singleton_self last))]
      by_cases isWriter : writes last = true
      · rw [if_pos isWriter, List.filter_cons_of_pos isWriter, List.filter_nil,
          List.getLast?_concat]
      · rw [if_neg isWriter, List.filter_cons_of_neg isWriter, List.filter_nil, List.append_nil]
        apply induction
        intro event member
        exact observed_step event (List.mem_append_left _ member)

variable (emit : State → Event → Option Output)

def emitted (state : State) : List Event → List Output
  | [] => []
  | event :: events => (emit state event).toList ++ emitted (step state event) events

@[simp] theorem emitted_nil (state : State) : emitted step emit state [] = [] := rfl

theorem mem_emitted_cons {state : State} {event : Event} {events : List Event} {output : Output} :
    output ∈ emitted step emit state (event :: events) ↔
      emit state event = some output ∨ output ∈ emitted step emit (step state event) events := by
  rw [emitted, List.mem_append, Option.mem_toList]

/-- If, given an invariant, the output of an admissible step has a property exactly when the
step meets a condition, all outputs of a run of admissible steps have it exactly when all of
its steps meet the condition. -/
theorem emitted_forall_iff_along_admissible (admissible : State → Event → Prop)
    (invariant : State → Prop)
    (preserved : ∀ state event, admissible state event → invariant state →
      invariant (step state event))
    (condition : State → Event → Prop) (property : Output → Prop)
    (guaranteed_iff : ∀ state event, admissible state event → invariant state →
      ((∀ output, emit state event = some output → property output) ↔ condition state event))
    (state : State) (holds : invariant state) (events : List Event)
    (along : Along step admissible state events) :
    (∀ output ∈ emitted step emit state events, property output) ↔
      Along step condition state events := by
  induction events generalizing state with
  | nil => simp [Along]
  | cons event events induction =>
      rw [Along, ← guaranteed_iff state event along.1 holds,
        ← induction _ (preserved state event along.1 holds) along.2]
      constructor
      · intro all
        constructor
        · intro output now
          exact all output ((mem_emitted_cons step emit).mpr (.inl now))
        · intro output later
          exact all output ((mem_emitted_cons step emit).mpr (.inr later))
      · rintro ⟨first, rest⟩ output member
        rcases (mem_emitted_cons step emit).mp member with now | later
        · exact first output now
        · exact rest output later

theorem along_of_forall (condition : State → Event → Prop) (state : State) {events : List Event}
    (holds : ∀ event ∈ events, ∀ state, condition state event) :
    Along step condition state events := by
  induction events generalizing state with
  | nil => trivial
  | cons event events induction =>
      constructor
      · exact holds event List.mem_cons_self state
      · exact induction (step state event)
          fun other otherMember => holds other (List.mem_cons_of_mem event otherMember)

/-- If, given an invariant, the output of a step has a property exactly when the step
meets a condition, all outputs of a run have it exactly when all steps meet the
condition. -/
theorem emitted_forall_iff_along (invariant : State → Prop)
    (preserved : ∀ state event, invariant state → invariant (step state event))
    (condition : State → Event → Prop) (property : Output → Prop)
    (guaranteed_iff : ∀ state event, invariant state →
      ((∀ output, emit state event = some output → property output) ↔ condition state event))
    (state : State) (holds : invariant state) (events : List Event) :
    (∀ output ∈ emitted step emit state events, property output) ↔
      Along step condition state events :=
  emitted_forall_iff_along_admissible step emit (fun _ _ => True) invariant
    (fun state event _ => preserved state event) condition property
    (fun state event _ => guaranteed_iff state event) state holds events
    (along_of_forall step _ state fun _ _ _ => trivial)

theorem emitted_forall_along (condition : State → Event → Prop) (invariant : State → Prop)
    (preserved : ∀ state event, condition state event → invariant state →
      invariant (step state event))
    (property : Output → Prop)
    (guaranteed : ∀ state event output, condition state event → invariant state →
      emit state event = some output → property output)
    (state : State) (holds : invariant state) (events : List Event)
    (along : Along step condition state events) :
    ∀ output ∈ emitted step emit state events, property output := by
  induction events generalizing state with
  | nil => simp
  | cons event events induction =>
      intro output member
      rcases (mem_emitted_cons step emit).mp member with now | later
      · exact guaranteed state event output along.1 holds now
      · exact induction (step state event) (preserved state event along.1 holds) along.2 output
          later

theorem emitted_forall (invariant : State → Prop) (admissible : Event → Prop)
    (preserved : ∀ state event, invariant state → invariant (step state event))
    (property : Output → Prop)
    (guaranteed : ∀ state event output, invariant state → admissible event →
      emit state event = some output → property output)
    (state : State) (holds : invariant state) (events : List Event)
    (allAdmissible : ∀ event ∈ events, admissible event) :
    ∀ output ∈ emitted step emit state events, property output := by
  apply emitted_forall_along step emit (fun _ event => admissible event) invariant
    (fun state event _ => preserved state event) property _ state holds events
    (along_of_forall step _ state fun event member _ => allAdmissible event member)
  intro state event output isAdmissible holds
  exact guaranteed state event output holds isAdmissible

end Miningcore.Run

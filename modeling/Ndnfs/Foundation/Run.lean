import Mathlib.Tactic.Common

namespace Ndnfs.Run

variable {State Event : Type} (step : State → Event → State)

/-- This is the state after all events. -/
def after (state : State) (events : List Event) : State := events.foldl step state

/-- Every event of the run is allowed in the state that it meets. -/
def Steps (allowed : State → Event → Prop) : State → List Event → Prop
  | _, [] => True
  | state, event :: events => allowed state event ∧ Steps allowed (step state event) events

/-- The steps of one run can be tested. -/
instance decidableSteps (allowed : State → Event → Prop)
    [∀ state event, Decidable (allowed state event)] :
    (state : State) → (events : List Event) → Decidable (Steps step allowed state events)
  | _, [] => .isTrue trivial
  | state, event :: events =>
      @instDecidableAnd _ _ (inferInstanceAs (Decidable (allowed state event)))
        (decidableSteps allowed (step state event) events)

/-- Events that are allowed in every state make a run. -/
theorem steps_of_forall {allowed : Event → Prop} {state : State} {events : List Event}
    (all : ∀ event ∈ events, allowed event) :
    Steps step (fun _ event => allowed event) state events := by
  induction events generalizing state with
  | nil => exact trivial
  | cons event events ih =>
      rw [List.forall_mem_cons] at all
      exact ⟨all.1, ih all.2⟩

theorem steps_true {state : State} (events : List Event) :
    Steps step (fun _ _ => True) state events :=
  steps_of_forall step fun _ _ => trivial

/-- The property holds before the run and after each of its events. -/
def Holds (property : State → Prop) : State → List Event → Prop
  | state, [] => property state
  | state, event :: events => property state ∧ Holds property (step state event) events

variable {step}

theorem Holds.first {property : State → Prop} {state : State} {events : List Event}
    (holds : Holds step property state events) : property state := by
  cases events with
  | nil => exact holds
  | cons event events => exact holds.1

/-- A property of every state of the run holds after each beginning of the run. -/
theorem Holds.after_prefix {property : State → Prop} {state : State} {events : List Event}
    (holds : Holds step property state events) {start : List Event} (early : start <+: events) :
    property (after step state start) := by
  induction start generalizing state events with
  | nil => exact holds.first
  | cons event start ih =>
      obtain ⟨rest, rfl⟩ := early
      exact ih holds.2 ⟨rest, rfl⟩

/-- A property of every state of the run is one of every beginning of the run. -/
theorem holds_iff_prefix {property : State → Prop} {state : State} {events : List Event} :
    Holds step property state events ↔
      ∀ start, start <+: events → property (after step state start) := by
  constructor
  · intro holds start early
    exact holds.after_prefix early
  · intro all
    induction events generalizing state with
    | nil => exact all [] (List.prefix_refl _)
    | cons event events ih =>
        constructor
        · exact all [] List.nil_prefix
        · apply ih
          intro start early
          exact all (event :: start) (List.cons_prefix_cons.mpr ⟨rfl, early⟩)

theorem Holds.imp {first second : State → Prop} (imp : ∀ state, first state → second state)
    {state : State} {events : List Event} (holds : Holds step first state events) :
    Holds step second state events := by
  induction events generalizing state with
  | nil => exact imp state holds
  | cons event events ih => exact ⟨imp state holds.1, ih holds.2⟩

theorem Steps.imp {first second : State → Event → Prop}
    (imp : ∀ state event, first state event → second state event) {state : State}
    {events : List Event} (steps : Steps step first state events) :
    Steps step second state events := by
  induction events generalizing state with
  | nil => trivial
  | cons event events ih => exact ⟨imp state event steps.1, ih steps.2⟩

/-- The last event of a run is allowed in the state that it meets. -/
theorem Steps.last {allowed : State → Event → Prop} {state : State} {events : List Event}
    {event : Event} (steps : Steps step allowed state (events ++ [event])) :
    allowed (after step state events) event := by
  induction events generalizing state with
  | nil => exact steps.1
  | cons first events ih => exact ih steps.2

/-- Two conditions that agree in every state of a run allow the same runs. -/
theorem Holds.steps_iff {property : State → Prop} {first second : State → Event → Prop}
    (agree : ∀ state event, property state → (first state event ↔ second state event))
    {state : State} {events : List Event} (holds : Holds step property state events) :
    Steps step first state events ↔ Steps step second state events := by
  induction events generalizing state with
  | nil => exact Iff.rfl
  | cons event events ih => exact and_congr (agree state event holds.1) (ih holds.2)

/-- An invariant of each allowed event holds in every state of the run. -/
theorem invariant {allowed : State → Event → Prop} {property : State → Prop}
    (preserved : ∀ state event, property state → allowed state event → property (step state event))
    {state : State} {events : List Event} (steps : Steps step allowed state events)
    (initial : property state) : Holds step property state events := by
  induction events generalizing state with
  | nil => exact initial
  | cons event events ih =>
      exact ⟨initial, ih steps.2 (preserved state event initial steps.1)⟩

/-- A property holds throughout exactly the runs whose events keep it one by one. -/
theorem holds_iff_steps (claimed : State → Event → Prop) {kept : State → Event → Prop}
    (auxiliary : State → Prop) {property : State → Prop}
    (auxiliary_step : ∀ state event, claimed state event → auxiliary state →
      auxiliary (step state event))
    (property_step : ∀ state event, claimed state event → auxiliary state → property state →
      (property (step state event) ↔ kept state event))
    {state : State} {events : List Event} (claimed_steps : Steps step claimed state events)
    (start : auxiliary state) (initial : property state) :
    Holds step property state events ↔ Steps step kept state events := by
  induction events generalizing state with
  | nil => exact ⟨fun _ => trivial, fun _ => initial⟩
  | cons event events ih =>
      have one := property_step state event claimed_steps.1 start initial
      have next := auxiliary_step state event claimed_steps.1 start
      constructor
      · intro holds
        have here := holds.2.first
        exact ⟨one.mp here, (ih claimed_steps.2 next here).mp holds.2⟩
      · intro steps
        have here := one.mpr steps.1
        exact ⟨initial, (ih claimed_steps.2 next here).mpr steps.2⟩

end Ndnfs.Run

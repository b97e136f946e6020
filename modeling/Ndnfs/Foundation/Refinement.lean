import Ndnfs.Foundation.Run

namespace Ndnfs.Run

variable {State Event State' Event' : Type} {step : State → Event → State}
  {step' : State' → Event' → State'}

theorem after_append (state : State) (first second : List Event) :
    after step state (first ++ second) = after step (after step state first) second :=
  List.foldl_append

/-- Two runs one after the other are one run. -/
theorem Steps.append {allowed : State → Event → Prop} {state : State} {first second : List Event}
    (steps : Steps step allowed state first)
    (steps' : Steps step allowed (after step state first) second) :
    Steps step allowed state (first ++ second) := by
  induction first generalizing state with
  | nil => exact steps'
  | cons event first ih => exact ⟨steps.1, ih steps.2 steps'⟩

theorem Holds.last {property : State → Prop} {state : State} {events : List Event}
    (holds : Holds step property state events) : property (after step state events) :=
  holds.after_prefix (List.prefix_refl _)

section Translate

variable (step) (meaning : State → Event → List Event')

/-- Each event of a run stands for events of another machine. -/
def translate : State → List Event → List Event'
  | _, [] => []
  | state, event :: events => meaning state event ++ translate (step state event) events

variable {step meaning}

/-- A relation that each event and its meaning keep relates the ends of both runs. -/
theorem after_translate {related : State → State' → Prop} {allowed : State → Event → Prop}
    (simulates : ∀ state state' event, related state state' → allowed state event →
      related (step state event) (after step' state' (meaning state event)))
    {state : State} {state' : State'} {events : List Event}
    (steps : Steps step allowed state events) (start : related state state') :
    related (after step state events)
      (after step' state' (translate step meaning state events)) := by
  induction events generalizing state state' with
  | nil => exact start
  | cons event events ih =>
      rw [translate, after_append]
      exact ih steps.2 (simulates state state' event start steps.1)

end Translate

end Ndnfs.Run

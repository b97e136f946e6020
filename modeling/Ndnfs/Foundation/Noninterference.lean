import Ndnfs.Foundation.Crash
import Ndnfs.Foundation.Interleaving
import Ndnfs.Foundation.Refinement

namespace Ndnfs

namespace Effect.Program

variable {Request : Type} {Reply : Request → Type} {A State : Type}

/-- The value of a program that has no request left. -/
def value? : Program Request Reply A → Option A
  | .ret value => some value
  | .call .. => none

/-- Related states answer the request alike and stay related. -/
def Respects (handler : Handler Request Reply State) (related : State → State → Prop)
    (request : Request) : Prop :=
  ∀ state state', related state state' →
    (handler request state).1 = (handler request state').1 ∧
      related (handler request state).2 (handler request state').2

end Effect.Program

namespace Effect.Running

open Program

variable {Request : Type} {Reply : Request → Type} {A State Event : Type}
  {handler : Program.Handler Request Reply State} {interfere : State → Event → State}
  {related : State → State → Prop} {allowed : Event → Prop}

/-- The rest of the program ends on its own as the whole program does. -/
def Tracks (handler : Program.Handler Request Reply State) (related : State → State → Prop)
    (result : A × State) (running : Running Request Reply A State) : Prop :=
  ∃ alone, running.program.Along handler (fun request _ => Respects handler related request) alone ∧
    related alone running.state ∧ running.program.run handler alone = result

theorem tracks_step
    (unseen : ∀ alone state event, related alone state → allowed event →
      related alone (interfere state event))
    {result : A × State} {running : Running Request Reply A State} {move : Option Event}
    (tracks : running.Tracks handler related result) (permitted : ∀ event ∈ move, allowed event) :
    (running.step handler interfere move).Tracks handler related result := by
  obtain ⟨program, state⟩ := running
  obtain ⟨alone, along, start, ends⟩ := tracks
  cases move with
  | some event => exact ⟨alone, along, unseen alone state event start (permitted event rfl), ends⟩
  | none =>
      cases program with
      | ret value => exact ⟨alone, along, start, ends⟩
      | call request next =>
          obtain ⟨same, later⟩ := along.1 alone state start
          refine ⟨(handler request alone).2, ?_, later, ?_⟩
          · change (next (handler request state).1).Along handler _ _
            rw [← same]
            exact along.2
          · change (next (handler request state).1).run handler _ = result
            rw [← same]
            exact ends

/-- Between the requests of a program others act without being seen; it ends as on its own. -/
theorem interleaved_same
    (unseen : ∀ alone state event, related alone state → allowed event →
      related alone (interfere state event))
    {program : Program Request Reply A} {state : State}
    (along : program.Along handler (fun request _ => Respects handler related request) state)
    (start : related state state) {moves : List (Option Event)}
    (permitted : ∀ move ∈ moves, ∀ event ∈ move, allowed event) {value : A}
    (ended : (Run.after (step handler interfere) ⟨program, state⟩ moves).program.value? =
      some value) :
    value = (program.run handler state).1 ∧ related (program.run handler state).2
      (Run.after (step handler interfere) ⟨program, state⟩ moves).state := by
  have initial : Tracks handler related (program.run handler state) ⟨program, state⟩ :=
    ⟨state, along, start, rfl⟩
  have preserved : ∀ (running : Running Request Reply A State) (move : Option Event),
      running.Tracks handler related (program.run handler state) →
      (∀ event ∈ move, allowed event) →
      (running.step handler interfere move).Tracks handler related (program.run handler state) :=
    fun _ _ tracks permitted => tracks_step unseen tracks permitted
  have tracks := (Run.invariant preserved
    (Run.steps_of_forall (step handler interfere) permitted) initial).last
  obtain ⟨alone, -, same, ends⟩ := tracks
  generalize Run.after (step handler interfere) ⟨program, state⟩ moves = running at ended same ends
  obtain ⟨rest, last⟩ := running
  cases rest with
  | ret other =>
      obtain rfl := Option.some.inj ended
      rw [← ends]
      exact ⟨rfl, same⟩
  | call request next => cases ended

end Effect.Running

namespace Run

variable {State Event : Type}

/-- Events of others change nothing that a party can tell apart. -/
structure Unwinding (step : State → Event → State) (mine allowed : Event → Prop)
    (related : State → State → Prop) : Prop where
  own : ∀ state state' event, related state state' → mine event → allowed event →
    related (step state event) (step state' event)
  others : ∀ state state' event, related state state' → ¬ mine event → allowed event →
    related (step state event) state'

variable {step : State → Event → State} {mine allowed : Event → Prop} [DecidablePred mine]
  {related : State → State → Prop}

/-- The party ends as in the run of its own events alone. -/
theorem Unwinding.run (unwinding : Unwinding step mine allowed related) {state state' : State}
    (start : related state state') {events : List Event}
    (permitted : ∀ event ∈ events, allowed event) :
    related (after step state events)
      (after step state' (events.filter fun event => mine event)) := by
  induction events generalizing state state' with
  | nil => exact start
  | cons event events ih =>
      rw [List.forall_mem_cons] at permitted
      by_cases own : mine event
      · rw [List.filter_cons_of_pos (by simpa using own)]
        exact ih (unwinding.own state state' event start own permitted.1) permitted.2
      · rw [List.filter_cons_of_neg (by simpa using own)]
        exact ih (unwinding.others state state' event start own permitted.1) permitted.2

end Run

end Ndnfs

import Ndnfs.Foundation.Program
import Ndnfs.Foundation.Run

namespace Ndnfs.Effect

/-- A party at work on a program, and the state that it shares with others. -/
structure Running (Request : Type) (Reply : Request → Type) (A State : Type) where
  program : Program Request Reply A
  state : State

variable {Request : Type} {Reply : Request → Type} {A State Event : Type}

/-- The others act only where the party cannot observe it. -/
structure Unobserved (handler : Program.Handler Request Reply State)
    (interfere : State → Event → State) (Same : State → State → Prop) : Prop where
  reply : ∀ request first second, Same first second →
    (handler request first).1 = (handler request second).1 ∧
      Same (handler request first).2 (handler request second).2
  interfere : ∀ event first second, Same first second → Same first (interfere second event)

namespace Running

variable (handler : Program.Handler Request Reply State) (interfere : State → Event → State)

/-- The party makes its next request, or another one acts in between. -/
def step (running : Running Request Reply A State) : Option Event → Running Request Reply A State
  | some event => ⟨running.program, interfere running.state event⟩
  | none =>
      match running.program with
      | .ret value => ⟨.ret value, running.state⟩
      | .call request next =>
          ⟨next (handler request running.state).1, (handler request running.state).2⟩

/-- The party sees the same as in a run on its own that always has the property. -/
def Follows (property : State → Prop) (Same : State → State → Prop)
    (running : Running Request Reply A State) : Prop :=
  ∃ alone, running.program.Always handler property alone ∧ Same alone running.state

variable {handler interfere}

theorem follows_step {Same : State → State → Prop} (unobserved : Unobserved handler interfere Same)
    {property : State → Prop} {running : Running Request Reply A State} (move : Option Event)
    (follows : running.Follows handler property Same) :
    (running.step handler interfere move).Follows handler property Same := by
  obtain ⟨program, state⟩ := running
  obtain ⟨alone, always, same⟩ := follows
  cases move with
  | some event => exact ⟨alone, always, unobserved.interfere event alone state same⟩
  | none =>
      cases program with
      | ret value => exact ⟨alone, always, same⟩
      | call request next =>
          obtain ⟨reply, after⟩ := unobserved.reply request alone state same
          refine ⟨(handler request alone).2, ?_, after⟩
          change (next (handler request state).1).Always handler property _
          rw [← reply]
          exact always.2

end Running

end Ndnfs.Effect

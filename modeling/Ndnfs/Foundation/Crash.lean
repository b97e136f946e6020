import Ndnfs.Foundation.Program

namespace Ndnfs.Effect.Program

variable {Request : Type} {Reply : Request → Type} {A B State : Type}
  (handler : Handler Request Reply State)

/-- The state after the first so many requests; then the program is cut off. -/
def cut : Nat → Program Request Reply A → State → State
  | 0, _, state => state
  | _ + 1, .ret _, state => state
  | count + 1, .call request next, state =>
      cut count (next (handler request state).1) (handler request state).2

variable {handler} {property : State → Prop} {keeps : (request : Request) → Reply request → Prop}

/-- What always holds is what holds wherever the program is cut off. -/
theorem always_iff_cut (program : Program Request Reply A) (state : State) :
    program.Always handler property state ↔
      ∀ count, property (program.cut handler count state) := by
  induction program generalizing state with
  | ret value =>
      refine ⟨fun always count => ?_, fun all => all 0⟩
      cases count <;> exact always
  | call request next ih =>
      rw [Always, ih]
      constructor
      · rintro ⟨here, later⟩ count
        cases count with
        | zero => exact here
        | succ count => exact later count
      · intro all
        exact ⟨all 0, fun count => all (count + 1)⟩

theorem Along.imp {keeps keeps' : (request : Request) → Reply request → Prop}
    (imp : ∀ request reply, keeps request reply → keeps' request reply)
    {program : Program Request Reply A} {state : State}
    (along : program.Along handler keeps state) : program.Along handler keeps' state := by
  induction program generalizing state with
  | ret value => trivial
  | call request next ih => exact ⟨imp request _ along.1, ih _ along.2⟩

/-- A property that every request of the run keeps always holds. -/
theorem always_of_along
    (preserved : ∀ request state, property state → keeps request (handler request state).1 →
      property (handler request state).2)
    {program : Program Request Reply A} {state : State}
    (along : program.Along handler keeps state) (start : property state) :
    program.Always handler property state := by
  induction program generalizing state with
  | ret value => exact start
  | call request next ih =>
      exact ⟨start, ih _ along.2 (preserved request state start along.1)⟩

end Ndnfs.Effect.Program

import Ndnfs.Foundation.Program

namespace Ndnfs.Effect.Program

variable {Request : Type} {Reply : Request → Type} {A B State : Type}

section Rules

variable (possible : (request : Request) → Reply request → Prop) (permitted : Request → Prop)

/-- Whatever possible replies come, the program makes only permitted requests, and its value meets the
postcondition. -/
def Guards : Program Request Reply A → (A → Prop) → Prop
  | .ret value, post => post value
  | .call request next, post => permitted request ∧ ∀ reply, possible request reply →
      (next reply).Guards post

@[simp] theorem guards_pure (post : A → Prop) (value : A) :
    (pure value : Program Request Reply A).Guards possible permitted post ↔ post value := Iff.rfl

@[simp] theorem guards_perform (request : Request) (post : Reply request → Prop) :
    (perform request : Program Request Reply _).Guards possible permitted post ↔
      permitted request ∧ ∀ reply, possible request reply → post reply := Iff.rfl

@[simp] theorem guards_bind (program : Program Request Reply A) (f : A → Program Request Reply B)
    (post : B → Prop) :
    (program >>= f).Guards possible permitted post ↔
      program.Guards possible permitted fun middle => (f middle).Guards possible permitted post := by
  rw [bind_def]
  induction program with
  | ret middle => rfl
  | call request next ih => simp only [bind, Guards, ih]

variable {possible permitted}

/-- The rule of consequence. -/
theorem Guards.mono {program : Program Request Reply A} {post weaker : A → Prop}
    (guards : program.Guards possible permitted post) (implied : ∀ value, post value → weaker value) :
    program.Guards possible permitted weaker := by
  induction program with
  | ret value => exact implied value guards
  | call request next ih => exact ⟨guards.1, fun reply came => ih reply (guards.2 reply came)⟩

/-- What the program may request is what it requests along a run. -/
theorem Guards.along {handler : Handler Request Reply State} {fit : State → Prop}
    (gives : ∀ request state, fit state →
      possible request (handler request state).1 ∧ fit (handler request state).2)
    {program : Program Request Reply A} {post : A → Prop}
    (guards : program.Guards possible permitted post) {state : State} (start : fit state) :
    program.Along handler (fun request _ => permitted request) state := by
  induction program generalizing state with
  | ret value => trivial
  | call request next ih =>
      obtain ⟨came, later⟩ := gives request state start
      exact ⟨guards.1, ih _ (guards.2 _ came) later⟩

end Rules

end Ndnfs.Effect.Program

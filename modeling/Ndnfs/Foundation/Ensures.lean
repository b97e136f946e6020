import Ndnfs.Foundation.Program

namespace Ndnfs.Effect.Program

variable {Request Mark : Type} {Reply : Request → Type} {A B State : Type}

section Rules

variable (allowed : (request : Request) → Reply request → Prop)
  (mark : (request : Request) → Reply request → Option Mark)

/-- The postcondition holds of the marks and of the value for every sequence of allowed replies. -/
def Ensures : Program Request Reply A → (List Mark → A → Prop) → Prop
  | .ret value, post => post [] value
  | .call request next, post => ∀ reply, allowed request reply →
      (next reply).Ensures fun marks value => post ((mark request reply).toList ++ marks) value

@[simp] theorem ensures_pure (post : List Mark → A → Prop) (value : A) :
    (pure value : Program Request Reply A).Ensures allowed mark post ↔ post [] value := Iff.rfl

@[simp] theorem ensures_perform (request : Request) (post : List Mark → Reply request → Prop) :
    (perform request : Program Request Reply _).Ensures allowed mark post ↔
      ∀ reply, allowed request reply → post (mark request reply).toList reply := by
  simp only [perform, Ensures, List.append_nil]

/-- The first program ensures what the second one needs. -/
@[simp] theorem ensures_bind (program : Program Request Reply A) (f : A → Program Request Reply B)
    (post : List Mark → B → Prop) :
    (program >>= f).Ensures allowed mark post ↔ program.Ensures allowed mark fun first middle =>
      (f middle).Ensures allowed mark fun rest value => post (first ++ rest) value := by
  rw [bind_def]
  induction program generalizing post with
  | ret middle => rfl
  | call request next ih => simp only [bind, Ensures, ih, List.append_assoc]

variable {allowed mark}

/-- The rule of consequence. -/
theorem Ensures.mono {program : Program Request Reply A} {post weaker : List Mark → A → Prop}
    (ensures : program.Ensures allowed mark post)
    (implied : ∀ marks value, post marks value → weaker marks value) :
    program.Ensures allowed mark weaker := by
  induction program generalizing post weaker with
  | ret value => exact implied [] value ensures
  | call request next ih =>
      intro reply permitted
      exact ih reply (ensures reply permitted) fun marks value => implied _ value

/-- What holds of all marks and values needs no program. -/
theorem ensures_of_forall {program : Program Request Reply A} {post : List Mark → A → Prop}
    (all : ∀ marks value, post marks value) : program.Ensures allowed mark post := by
  induction program generalizing post with
  | ret value => exact all [] value
  | call request next ih =>
      intro reply _
      exact ih reply fun marks value => all _ value

/-- Two postconditions meet in a run when every request has an allowed reply. -/
theorem Ensures.both (possible : ∀ request, ∃ reply, allowed request reply)
    {program : Program Request Reply A} {first second : List Mark → A → Prop}
    (ensures : program.Ensures allowed mark first) (ensures' : program.Ensures allowed mark second) :
    ∃ marks value, first marks value ∧ second marks value := by
  induction program generalizing first second with
  | ret value => exact ⟨[], value, ensures, ensures'⟩
  | call request next ih =>
      obtain ⟨reply, permitted⟩ := possible request
      obtain ⟨marks, value, holds⟩ := ih reply (ensures reply permitted) (ensures' reply permitted)
      exact ⟨_, value, holds⟩

/-- The run of a handler with allowed replies satisfies the postcondition. -/
theorem Ensures.run (handler : Handler Request Reply State)
    (permitted : ∀ request state, allowed request (handler request state).1)
    {program : Program Request Reply A} {post : List Mark → A → Prop}
    (ensures : program.Ensures allowed mark post) (state : State) :
    post ((program.trace handler state).filterMap fun event => mark event.1 event.2)
      (program.run handler state).1 := by
  induction program generalizing post state with
  | ret value => exact ensures
  | call request next ih =>
      have rest := ih _ (ensures _ (permitted request state)) (handler request state).2
      simp only [trace, Program.run, List.filterMap_cons]
      cases left : mark request (handler request state).1 with
      | none =>
          rw [left] at rest
          exact rest
      | some value =>
          rw [left] at rest
          exact rest

end Rules

end Ndnfs.Effect.Program

import Mathlib.Order.Basic
import Ndnfs.Foundation.Program

namespace Ndnfs.Effect.Program

variable {Request A B Shared Own Note Time : Type} {Reply : Request → Type} [Preorder Time]

section Rules

variable (act : Handler Request Reply (Shared × Own)) (moment : Time → Shared → Prop)
  (note : Note → Time → Request → Note) (check : Note → Time → Request → Prop)

/-- Another party moves on between the requests, from one moment to a later one. Each request passes
its check against the notes about the ones before it, and the value meets the postcondition. -/
def Passes : Program Request Reply A → (Time → Own → Note → A → Prop) → Time → Own → Note → Prop
  | .ret value, post, time, own, notes => post time own notes value
  | .call request next, post, time, own, notes => ∀ later, time ≤ later → ∀ shared,
      moment later shared → check notes later request ∧
        (next (act request (shared, own)).1).Passes post later (act request (shared, own)).2.2
          (note notes later request)

@[simp] theorem passes_pure (post : Time → Own → Note → A → Prop) (value : A) (time : Time)
    (own : Own) (notes : Note) :
    (pure value : Program Request Reply A).Passes act moment note check post time own notes ↔
      post time own notes value := Iff.rfl

@[simp] theorem passes_perform (request : Request)
    (post : Time → Own → Note → Reply request → Prop) (time : Time) (own : Own) (notes : Note) :
    (perform request : Program Request Reply _).Passes act moment note check post time own notes ↔
      ∀ later, time ≤ later → ∀ shared, moment later shared → check notes later request ∧
        post later (act request (shared, own)).2.2 (note notes later request)
          (act request (shared, own)).1 := Iff.rfl

/-- The second program starts at the moment at which the first one stops. -/
@[simp] theorem passes_bind (program : Program Request Reply A) (f : A → Program Request Reply B)
    (post : Time → Own → Note → B → Prop) (time : Time) (own : Own) (notes : Note) :
    (program >>= f).Passes act moment note check post time own notes ↔
      program.Passes act moment note check
        (fun time own notes middle => (f middle).Passes act moment note check post time own notes)
        time own notes := by
  rw [bind_def]
  induction program generalizing time own notes with
  | ret middle => rfl
  | call request next ih => simp only [bind, Passes, ih]

variable {act moment note check}

/-- While the program waits, time may pass. -/
theorem Passes.later {program : Program Request Reply A} {post : Own → Note → A → Prop}
    {time later : Time} {own : Own} {notes : Note}
    (passes : program.Passes act moment note check (fun _ => post) time own notes)
    (passed : time ≤ later) :
    program.Passes act moment note check (fun _ => post) later own notes := by
  cases program with
  | ret value => exact passes
  | call request next => exact fun last after => passes last (passed.trans after)

end Rules

end Ndnfs.Effect.Program

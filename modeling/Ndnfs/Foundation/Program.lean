import Mathlib.Logic.Relation
import Mathlib.Tactic.Common

namespace Ndnfs.Effect

/-- A program returns a value or makes one request and continues with the reply. -/
inductive Program (Request : Type) (Reply : Request → Type) (A : Type) : Type where
  | ret (value : A)
  | call (request : Request) (next : Reply request → Program Request Reply A)

namespace Program

variable {Request : Type} {Reply : Request → Type} {A B C State : Type}

/-- The continuation runs at every leaf of the first program. -/
def bind : Program Request Reply A → (A → Program Request Reply B) → Program Request Reply B
  | .ret value, f => f value
  | .call request next, f => .call request fun reply => (next reply).bind f

/-- This program makes one request and returns its reply. -/
def perform (request : Request) : Program Request Reply (Reply request) := .call request .ret

instance : Monad (Program Request Reply) where
  pure := .ret
  bind := bind

theorem bind_def (program : Program Request Reply A) (f : A → Program Request Reply B) :
    program >>= f = program.bind f := rfl

theorem bind_ret (program : Program Request Reply A) : program.bind .ret = program := by
  induction program with
  | ret value => rfl
  | call request next ih =>
      simp only [bind]
      congr 1
      funext reply
      exact ih reply

theorem bind_bind (program : Program Request Reply A) (f : A → Program Request Reply B)
    (g : B → Program Request Reply C) :
    (program.bind f).bind g = program.bind fun value => (f value).bind g := by
  induction program with
  | ret value => rfl
  | call request next ih =>
      simp only [bind]
      congr 1
      funext reply
      exact ih reply

instance : LawfulMonad (Program Request Reply) :=
  LawfulMonad.mk' (Program Request Reply) bind_ret (fun _ _ => rfl) bind_bind

/-- A handler answers each request and updates the state. -/
abbrev Handler (Request : Type) (Reply : Request → Type) (State : Type) :=
  (request : Request) → State → Reply request × State

/-- The run answers every request in order. -/
def run (handler : Handler Request Reply State) :
    Program Request Reply A → State → A × State
  | .ret value, state => (value, state)
  | .call request next, state =>
      (next (handler request state).1).run handler (handler request state).2

section Run

variable (handler : Handler Request Reply State)

@[simp] theorem run_ret (value : A) (state : State) :
    (ret value : Program Request Reply A).run handler state = (value, state) := rfl

@[simp] theorem run_pure (value : A) (state : State) :
    (pure value : Program Request Reply A).run handler state = (value, state) := rfl

@[simp] theorem run_perform (request : Request) (state : State) :
    (perform request : Program Request Reply _).run handler state = handler request state := rfl

/-- The second program starts where the first one stops. -/
@[simp] theorem run_bind (program : Program Request Reply A) (f : A → Program Request Reply B)
    (state : State) :
    (program >>= f).run handler state =
      (f (program.run handler state).1).run handler (program.run handler state).2 := by
  rw [bind_def]
  induction program generalizing state with
  | ret value => rfl
  | call request next ih => exact ih _ _

/-- A conditional program runs the selected branch. -/
theorem run_ite (condition : Prop) [Decidable condition] (first second : Program Request Reply A)
    (state : State) :
    (if condition then first else second).run handler state =
      if condition then first.run handler state else second.run handler state := by
  split <;> rfl

/-- This property holds of every state before a request and of the last state. -/
def Always (property : State → Prop) : Program Request Reply A → State → Prop
  | .ret _, state => property state
  | .call request next, state => property state ∧
      (next (handler request state).1).Always property (handler request state).2

theorem Always.first {property : State → Prop} {program : Program Request Reply A} {state : State}
    (always : program.Always handler property state) : property state := by
  cases program with
  | ret value => exact always
  | call request next => exact always.1

theorem Always.last {property : State → Prop} {program : Program Request Reply A} {state : State}
    (always : program.Always handler property state) :
    property (program.run handler state).2 := by
  induction program generalizing state with
  | ret value => exact always
  | call request next ih => exact ih _ always.2

@[simp] theorem always_pure (property : State → Prop) (value : A) (state : State) :
    (pure value : Program Request Reply A).Always handler property state ↔ property state := Iff.rfl

@[simp] theorem always_perform (property : State → Prop) (request : Request) (state : State) :
    (perform request : Program Request Reply _).Always handler property state ↔
      property state ∧ property (handler request state).2 := Iff.rfl

@[simp] theorem always_bind (property : State → Prop) (program : Program Request Reply A)
    (f : A → Program Request Reply B) (state : State) :
    (program >>= f).Always handler property state ↔ program.Always handler property state ∧
      (f (program.run handler state).1).Always handler property (program.run handler state).2 := by
  rw [bind_def]
  induction program generalizing state with
  | ret value => exact ⟨fun always => ⟨always.first, always⟩, fun always => always.2⟩
  | call request next ih => simp only [Always, bind, run, ih, and_assoc]

/-- This property holds of every request and of its reply. -/
def Along (property : (request : Request) → Reply request → Prop) :
    Program Request Reply A → State → Prop
  | .ret _, _ => True
  | .call request next, state => property request (handler request state).1 ∧
      (next (handler request state).1).Along property (handler request state).2

/-- A property of the requests of one run can be tested. -/
instance decidableAlong (property : (request : Request) → Reply request → Prop)
    [∀ request reply, Decidable (property request reply)] :
    (program : Program Request Reply A) → (state : State) →
      Decidable (program.Along handler property state)
  | .ret _, _ => .isTrue trivial
  | .call request next, state =>
      @instDecidableAnd _ _ (inferInstanceAs (Decidable (property request (handler request state).1)))
        (decidableAlong property (next (handler request state).1) (handler request state).2)

@[simp] theorem along_pure (property : (request : Request) → Reply request → Prop) (value : A)
    (state : State) :
    (pure value : Program Request Reply A).Along handler property state ↔ True := Iff.rfl

@[simp] theorem along_perform (property : (request : Request) → Reply request → Prop)
    (request : Request) (state : State) :
    (perform request : Program Request Reply _).Along handler property state ↔
      property request (handler request state).1 := and_iff_left trivial

@[simp] theorem along_bind (property : (request : Request) → Reply request → Prop)
    (program : Program Request Reply A) (f : A → Program Request Reply B) (state : State) :
    (program >>= f).Along handler property state ↔ program.Along handler property state ∧
      (f (program.run handler state).1).Along handler property (program.run handler state).2 := by
  rw [bind_def]
  induction program generalizing state with
  | ret value => simp [Along, bind]
  | call request next ih => simp only [Along, bind, run, ih, and_assoc]

/-- These are the requests of one run in their order, each with its reply. -/
def trace : Program Request Reply A → State → List (Sigma Reply)
  | .ret _, _ => []
  | .call request next, state =>
      ⟨request, (handler request state).1⟩ ::
        (next (handler request state).1).trace (handler request state).2

@[simp] theorem trace_pure (value : A) (state : State) :
    (pure value : Program Request Reply A).trace handler state = [] := rfl

@[simp] theorem trace_perform (request : Request) (state : State) :
    (perform request : Program Request Reply _).trace handler state =
      [⟨request, (handler request state).1⟩] := rfl

/-- The requests of the second program follow those of the first one. -/
@[simp] theorem trace_bind (program : Program Request Reply A) (f : A → Program Request Reply B)
    (state : State) :
    (program >>= f).trace handler state = program.trace handler state ++
      (f (program.run handler state).1).trace handler (program.run handler state).2 := by
  rw [bind_def]
  induction program generalizing state with
  | ret value => rfl
  | call request next ih => simp only [trace, bind, run, ih, List.cons_append]

end Run

/-- The program makes only requests with this property, whatever the replies are. -/
def Only (property : Request → Prop) : Program Request Reply A → Prop
  | .ret _ => True
  | .call request next => property request ∧ ∀ reply, (next reply).Only property

@[simp] theorem only_bind (property : Request → Prop) (program : Program Request Reply A)
    (f : A → Program Request Reply B) (first : program.Only property)
    (second : ∀ value, (f value).Only property) : (program >>= f).Only property := by
  rw [bind_def]
  induction program with
  | ret value => exact second value
  | call request next ih => exact ⟨first.1, fun reply => ih reply (first.2 reply)⟩

end Program

end Ndnfs.Effect

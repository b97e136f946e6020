import Mathlib.Data.List.Basic

namespace Ndnfs.Handles

/-- What a program does with a handle. -/
inductive Use (Handle : Type) where
  | acquire (handle : Handle)
  | access (handle : Handle)
  | release (handle : Handle)

variable {Handle : Type} [DecidableEq Handle]

/-- These handles are held in the end; there is no end once a handle is used that is not held. -/
def held : List Handle → List (Use Handle) → Option (List Handle)
  | handles, [] => some handles
  | handles, .acquire handle :: uses => held (handle :: handles) uses
  | handles, .access handle :: uses => if handle ∈ handles then held handles uses else none
  | handles, .release handle :: uses =>
      if handle ∈ handles then held (handles.erase handle) uses else none

/-- Each handle is released exactly once after it was acquired and used only in between. -/
def Balanced (uses : List (Use Handle)) : Prop := held [] uses = some []

instance (uses : List (Use Handle)) : Decidable (Balanced uses) :=
  inferInstanceAs (Decidable (_ = _))

@[simp] theorem held_nil (handles : List Handle) : held handles [] = some handles := rfl

@[simp] theorem held_acquire (handles : List Handle) (handle : Handle) (uses : List (Use Handle)) :
    held handles (.acquire handle :: uses) = held (handle :: handles) uses := rfl

@[simp] theorem held_access_head (handles : List Handle) (handle : Handle)
    (uses : List (Use Handle)) :
    held (handle :: handles) (.access handle :: uses) = held (handle :: handles) uses :=
  if_pos List.mem_cons_self

@[simp] theorem held_release_head (handles : List Handle) (handle : Handle)
    (uses : List (Use Handle)) :
    held (handle :: handles) (.release handle :: uses) = held handles uses := by
  rw [held, if_pos List.mem_cons_self, List.erase_cons_head]

theorem held_access_of_notMem {handles : List Handle} {handle : Handle} (gone : handle ∉ handles)
    (uses : List (Use Handle)) : held handles (.access handle :: uses) = none := if_neg gone

/-- The second uses start with the handles that the first ones leave. -/
theorem held_append (handles : List Handle) (first second : List (Use Handle)) :
    held handles (first ++ second) = (held handles first).bind fun rest => held rest second := by
  induction first generalizing handles with
  | nil => rfl
  | cons use first ih =>
      cases use with
      | acquire handle => exact ih (handle :: handles)
      | access handle =>
          simp only [List.cons_append, held]
          split
          · exact ih handles
          · rfl
      | release handle =>
          simp only [List.cons_append, held]
          split
          · exact ih (handles.erase handle)
          · rfl

end Ndnfs.Handles

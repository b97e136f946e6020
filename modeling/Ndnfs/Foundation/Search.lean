import Mathlib.Data.List.Infix
import Ndnfs.Foundation.Percent

namespace Ndnfs

variable {A : Type} [DecidableEq A]

/-- This is the text behind the first occurrence of the pattern. -/
def after (pattern text : List A) : Option (List A) :=
  (find pattern text).map fun position => text.drop (position + pattern.length)

theorem after_cons {pattern : List A} {head : A} {tail : List A}
    (absent : ¬ pattern <+: head :: tail) : after pattern (head :: tail) = after pattern tail := by
  rw [after, after, find, if_neg absent, Option.map_map]
  congr 1
  funext position
  simp only [Function.comp_apply, Nat.add_right_comm, List.drop_succ_cons]

/-- The search stops at an occurrence at the start of the text. -/
theorem after_append (pattern text : List A) : after pattern (pattern ++ text) = some text := by
  have here : find pattern (pattern ++ text) = some 0 := by
    cases shape : pattern ++ text with
    | nil =>
        rw [List.append_eq_nil_iff] at shape
        rw [find, if_pos shape.1]
    | cons head tail => rw [find, if_pos (shape ▸ List.prefix_append pattern text)]
  rw [after, here, Option.map_some, Nat.zero_add, List.drop_left]

/-- No occurrence of the pattern starts in this block, whatever follows it. -/
def Skips (pattern block : List A) : Prop :=
  ∀ rest ∈ block.tails, rest ≠ [] → ¬ pattern <+: rest ∧ ¬ rest <+: pattern

instance (pattern block : List A) : Decidable (Skips pattern block) :=
  inferInstanceAs (Decidable (∀ rest ∈ block.tails, _))

theorem Skips.after {pattern block : List A} (skips : Skips pattern block) (text : List A) :
    after pattern (block ++ text) = Ndnfs.after pattern text := by
  induction block with
  | nil => rfl
  | cons head tail ih =>
      have rest : Skips pattern tail := by
        intro other member
        rw [List.mem_tails] at member
        exact skips other ((List.mem_tails _ _).mpr (member.trans (List.suffix_cons head tail)))
      obtain ⟨apart, apart'⟩ := skips (head :: tail) ((List.mem_tails _ _).mpr List.suffix_rfl)
        (List.cons_ne_nil head tail)
      rw [List.cons_append, after_cons, ih rest]
      intro occurs
      rcases List.prefix_or_prefix_of_prefix occurs (List.prefix_append (head :: tail) text) with
        inside | inside
      · exact apart inside
      · exact apart' inside

/-- A block without the second letter of the pattern is passed when the text behind it does not
start with this letter. -/
theorem after_of_notMem {first second : A} {more block text : List A} (absent : second ∉ block)
    (head : text.head? ≠ some second) :
    after (first :: second :: more) (block ++ text) = after (first :: second :: more) text := by
  induction block with
  | nil => rfl
  | cons letter block ih =>
      rw [List.mem_cons, not_or] at absent
      rw [List.cons_append, after_cons, ih absent.2]
      intro occurs
      obtain ⟨-, next⟩ := List.cons_prefix_cons.mp occurs
      cases block with
      | nil =>
          obtain ⟨rest, rfl⟩ := next
          exact head rfl
      | cons letter' block =>
          obtain ⟨same, -⟩ := List.cons_prefix_cons.mp next
          exact absent.2 (same ▸ List.mem_cons_self)

end Ndnfs

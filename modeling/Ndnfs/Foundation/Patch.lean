import Mathlib.Data.List.Basic
import Mathlib.Tactic.Common

namespace Ndnfs.Patch

variable {A : Type} (fill : A)

/-- The data replaces what stands from the offset on; a gap before it is filled. -/
def patch (content data : List A) (offset : Nat) : List A :=
  if data = [] then content
  else (content ++ List.replicate (offset - content.length) fill).take offset ++ data ++
    content.drop (offset + data.length)

variable {fill}

@[simp] theorem patch_nil (content : List A) (offset : Nat) :
    patch fill content [] offset = content := if_pos rfl

theorem length_patch {data : List A} (nonempty : data ≠ []) (content : List A) (offset : Nat) :
    (patch fill content data offset).length = max content.length (offset + data.length) := by
  rw [patch, if_neg nonempty]
  simp only [List.length_append, List.length_take, List.length_replicate, List.length_drop]
  omega

/-- What stands before the data after a write. -/
theorem getElem?_patch_before {content data : List A} {offset index : Nat} (before : index < offset)
    (present : index < content.length) :
    (patch fill content data offset)[index]? = content[index]? := by
  unfold patch
  split
  · rfl
  · rw [List.append_assoc, List.getElem?_append_left (by simp; omega),
      List.getElem?_take_of_lt before, List.getElem?_append_left present]

theorem getElem?_patch_inside (content : List A) {data : List A} {offset index : Nat}
    (from_offset : offset ≤ index) (inside : index < offset + data.length) :
    (patch fill content data offset)[index]? = data[index - offset]? := by
  have nonempty : data ≠ [] := by
    rintro rfl
    rw [List.length_nil] at inside
    omega
  have start : ((content ++ List.replicate (offset - content.length) fill).take offset).length =
      offset := by
    simp only [List.length_take, List.length_append, List.length_replicate]
    omega
  rw [patch, if_neg nonempty, List.append_assoc, List.getElem?_append_right (by omega), start,
    List.getElem?_append_left (by omega)]

theorem getElem?_patch_behind (content : List A) {data : List A} {offset index : Nat}
    (behind : offset + data.length ≤ index) :
    (patch fill content data offset)[index]? = content[index]? := by
  unfold patch
  split
  · rfl
  · have start : ((content ++ List.replicate (offset - content.length) fill).take offset ++
        data).length = offset + data.length := by
      simp only [List.length_append, List.length_take, List.length_replicate]
      omega
    rw [List.getElem?_append_right (by omega), start, List.getElem?_drop]
    congr 1
    omega

/-- The written range reads back as the data. -/
theorem read_patch (content data : List A) (offset : Nat) :
    ((patch fill content data offset).drop offset).take data.length = data := by
  apply List.ext_getElem?
  intro index
  by_cases inside : index < data.length
  · rw [List.getElem?_take_of_lt inside, List.getElem?_drop,
      getElem?_patch_inside content (Nat.le_add_right _ _) (by omega), Nat.add_sub_cancel_left]
  · have outside := Nat.le_of_not_lt inside
    rw [List.getElem?_eq_none outside, List.getElem?_eq_none]
    exact Nat.le_trans (List.length_take_le _ _) outside

/-- A range that exists and that the data does not meet reads as before. -/
theorem read_patch_apart {content data : List A} {offset start count : Nat}
    (present : start + count ≤ content.length)
    (apart : start + count ≤ offset ∨ offset + data.length ≤ start) :
    ((patch fill content data offset).drop start).take count =
      (content.drop start).take count := by
  apply List.ext_getElem?
  intro index
  by_cases inside : index < count
  · rw [List.getElem?_take_of_lt inside, List.getElem?_take_of_lt inside, List.getElem?_drop,
      List.getElem?_drop]
    rcases apart with before | behind
    · exact getElem?_patch_before (by omega) (by omega)
    · exact getElem?_patch_behind content (by omega)
  · have outside := Nat.le_of_not_lt inside
    rw [List.getElem?_eq_none (Nat.le_trans (List.length_take_le _ _) outside),
      List.getElem?_eq_none (Nat.le_trans (List.length_take_le _ _) outside)]

section Pieces

/-- A piece is an offset with the data for it. -/
abbrev Piece (A : Type) := Nat × List A

variable (fill)

/-- The pieces are written in their order. -/
def patchAll (content : List A) (pieces : List (Piece A)) : List A :=
  pieces.foldl (fun content piece => patch fill content piece.2 piece.1) content

variable {fill}

/-- The piece is what the whole has at its offset. -/
def Piece.Of (whole : List A) (piece : Piece A) : Prop :=
  piece.2 = (whole.drop piece.1).take piece.2.length

instance [DecidableEq A] (whole : List A) (piece : Piece A) : Decidable (piece.Of whole) :=
  inferInstanceAs (Decidable (_ = _))

def Piece.Covers (piece : Piece A) (index : Nat) : Prop :=
  piece.1 ≤ index ∧ index < piece.1 + piece.2.length

instance (piece : Piece A) (index : Nat) : Decidable (piece.Covers index) :=
  inferInstanceAs (Decidable (_ ∧ _))

theorem Piece.Of.getElem? {whole : List A} {piece : Piece A} (part : piece.Of whole) {index : Nat}
    (covers : piece.Covers index) : piece.2[index - piece.1]? = whole[index]? := by
  obtain ⟨start, inside⟩ := covers
  rw [part, List.getElem?_take_of_lt (by omega), List.getElem?_drop]
  congr 1
  omega

/-- The first elements of a piece are a piece. -/
theorem Piece.Of.take {whole data : List A} {offset : Nat}
    (part : Piece.Of whole (offset, data)) (count : Nat) :
    Piece.Of whole (offset, data.take count) := by
  have same : data = (whole.drop offset).take data.length := part
  change data.take count = (whole.drop offset).take (data.take count).length
  rw [List.length_take]
  nth_rewrite 1 [same]
  rw [List.take_take]

/-- A piece ends inside the whole. -/
theorem Piece.Of.bound {whole : List A} {piece : Piece A} (part : piece.Of whole)
    (nonempty : piece.2 ≠ []) : piece.1 + piece.2.length ≤ whole.length := by
  have length := congrArg List.length part
  rw [List.length_take, List.length_drop] at length
  have positive := List.length_pos_iff.mpr nonempty
  omega

/-- The content agrees with the whole in the places that were written already. -/
structure Agrees (whole content : List A) (written : Nat → Prop) : Prop where
  short : content.length ≤ whole.length
  same : ∀ index, written index → content[index]? = whole[index]?

theorem Agrees.patch {whole content : List A} {written : Nat → Prop}
    (agrees : Agrees whole content written) {piece : Piece A} (part : piece.Of whole) :
    Agrees whole (patch fill content piece.2 piece.1)
      fun index => index < whole.length ∧ written index ∨ piece.Covers index := by
  by_cases empty : piece.2 = []
  · rw [empty, patch_nil]
    refine ⟨agrees.short, ?_⟩
    rintro index (⟨-, earlier⟩ | ⟨start, inside⟩)
    · exact agrees.same index earlier
    · rw [empty, List.length_nil] at inside
      omega
  · have bound := part.bound empty
    refine ⟨?_, ?_⟩
    · rw [length_patch empty]
      exact Nat.max_le.mpr ⟨agrees.short, bound⟩
    · intro index place
      by_cases covers : piece.Covers index
      · rw [getElem?_patch_inside content covers.1 covers.2, part.getElem? covers]
      · obtain ⟨inside, earlier⟩ := place.resolve_right covers
        have here := agrees.same index earlier
        have present : index < content.length := by
          rw [List.getElem?_eq_getElem inside] at here
          exact (List.getElem?_eq_some_iff.mp here).1
        rw [← here]
        by_cases before : index < piece.1
        · exact getElem?_patch_before before present
        · exact getElem?_patch_behind content (by
            have outside := not_and.mp covers (Nat.le_of_not_lt before)
            omega)

theorem Agrees.patchAll {whole content : List A} {written : Nat → Prop}
    (agrees : Agrees whole content written) {pieces : List (Piece A)}
    (parts : ∀ piece ∈ pieces, piece.Of whole) :
    Agrees whole (patchAll fill content pieces)
      fun index => index < whole.length ∧
        (written index ∨ ∃ piece ∈ pieces, piece.Covers index) := by
  induction pieces generalizing content written with
  | nil => exact ⟨agrees.short, fun index place => agrees.same index (by simpa using place.2)⟩
  | cons piece pieces ih =>
      have first : Agrees whole (Patch.patch fill content piece.2 piece.1) _ :=
        agrees.patch (parts piece List.mem_cons_self)
      have rest := ih first fun other member => parts other (List.mem_cons_of_mem piece member)
      refine ⟨rest.short, fun index place => rest.same index ⟨place.1, ?_⟩⟩
      rcases place.2 with earlier | ⟨other, member, covers⟩
      · exact .inl (.inl ⟨place.1, earlier⟩)
      · rcases List.mem_cons.mp member with rfl | later
        · exact .inl (.inr covers)
        · exact .inr ⟨other, later, covers⟩

/-- Pieces that cover the whole make it, in whatever order they are written. -/
theorem patchAll_eq {whole : List A} {pieces : List (Piece A)}
    (parts : ∀ piece ∈ pieces, piece.Of whole)
    (covered : ∀ index < whole.length, ∃ piece ∈ pieces, piece.Covers index) :
    patchAll fill [] pieces = whole := by
  have start : Agrees whole [] fun _ => False := ⟨Nat.zero_le _, fun _ none => none.elim⟩
  have all : Agrees whole (patchAll fill [] pieces) _ := start.patchAll parts
  apply List.ext_getElem?
  intro index
  by_cases inside : index < whole.length
  · exact all.same index ⟨inside, .inr (covered index inside)⟩
  · rw [List.getElem?_eq_none (Nat.le_of_not_lt inside),
      List.getElem?_eq_none (Nat.le_trans all.short (Nat.le_of_not_lt inside))]

end Pieces

end Ndnfs.Patch

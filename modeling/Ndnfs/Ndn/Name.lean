import Ndnfs.Foundation.Percent

namespace Ndnfs
open Percent

/-- A name component holds arbitrary bytes. -/
abbrev Component := Bytes

abbrev Name := List Component

/-- These bytes stand for themselves in an escaped component: letters, digits, + - . _. -/
def isPlain (byte : UInt8) : Bool :=
  (48 ≤ byte && byte ≤ 57) || (65 ≤ byte && byte ≤ 90) || (97 ≤ byte && byte ≤ 122) ||
    byte == 43 || byte == 45 || byte == 46 || byte == 95

def escapeByte (byte : UInt8) : Token := if isPlain byte then .literal byte else .escaped byte

/-- This text escapes each byte on its own. -/
def escape (bytes : Bytes) : Bytes := text (bytes.map escapeByte)

/-- The component consists of zero or more periods. -/
def AllPeriods (bytes : Bytes) : Prop := ∀ byte ∈ bytes, byte = period

instance (bytes : Bytes) : Decidable (AllPeriods bytes) :=
  inferInstanceAs (Decidable (∀ byte ∈ bytes, byte = period))

/-- A component of periods only gets three more periods. -/
def escapeComponent (component : Component) : Bytes :=
  if AllPeriods component then ascii "..." ++ component else escape component

/-- A slash precedes each part. -/
def joinSlash (parts : List Bytes) : Bytes := parts.flatMap fun part => slash :: part

/-- A URI part of periods only loses three periods or is skipped. -/
def uriPart (part : Bytes) : Option Component :=
  if AllPeriods part then
    if part.length ≤ 2 then none else some (part.drop 3)
  else some part

@[simp] theorem joinSlash_nil : joinSlash [] = [] := rfl

@[simp] theorem joinSlash_cons (part : Bytes) (parts : List Bytes) :
    joinSlash (part :: parts) = slash :: (part ++ joinSlash parts) := rfl

@[simp] theorem joinSlash_append (first second : List Bytes) :
    joinSlash (first ++ second) = joinSlash first ++ joinSlash second := List.flatMap_append

@[simp] theorem escape_nil : escape [] = [] := rfl

@[simp] theorem escape_cons (byte : UInt8) (bytes : Bytes) :
    escape (byte :: bytes) = (escapeByte byte).text ++ escape bytes := rfl

@[simp] theorem escape_append (first second : Bytes) :
    escape (first ++ second) = escape first ++ escape second := by
  simp [escape]

theorem isPlain_slash : isPlain slash = false := by decide

theorem isPlain_percent : isPlain percent = false := by decide

theorem isPlain_period : isPlain period = true := by decide

theorem isPlain_hexDigit : ∀ value < 16, isPlain (hexDigit value) = true := by decide

theorem escapeByte_plain {byte : UInt8} (plain : isPlain byte = true) :
    escapeByte byte = .literal byte := if_pos plain

theorem escapeByte_other {byte : UInt8} (other : isPlain byte = false) :
    escapeByte byte = .escaped byte := if_neg (by simp [other])

theorem escapeByte_valid (byte : UInt8) : (escapeByte byte).Valid := by
  unfold escapeByte Token.Valid
  split
  · rename_i plain
    intro same
    obtain rfl := Token.literal.inj same
    simp [isPlain_percent] at plain
  · simp

/-- An escaped text has only plain bytes and percent signs. -/
theorem mem_escape {bytes : Bytes} {byte : UInt8} (member : byte ∈ escape bytes) :
    isPlain byte = true ∨ byte = percent := by
  simp only [escape, text, List.mem_flatMap, List.mem_map] at member
  obtain ⟨_, ⟨source, _, rfl⟩, member⟩ := member
  unfold escapeByte at member
  split at member
  · simp only [Token.text, List.mem_singleton] at member
    exact .inl (member ▸ ‹_›)
  · simp only [Token.text, List.mem_cons, List.not_mem_nil, or_false] at member
    rcases member with rfl | rfl | rfl
    · exact .inr rfl
    · exact .inl (isPlain_hexDigit _ (high_lt source))
    · exact .inl (isPlain_hexDigit _ (low_lt source))

theorem slash_notMem_escape (bytes : Bytes) : slash ∉ escape bytes := by
  intro member
  rcases mem_escape member with plain | percent
  · simp [isPlain_slash] at plain
  · exact absurd percent (by decide)

/-- A text of plain bytes is its own escape. -/
theorem escape_of_plain {bytes : Bytes} (plain : ∀ byte ∈ bytes, isPlain byte = true) :
    escape bytes = bytes := by
  induction bytes with
  | nil => rfl
  | cons byte bytes ih =>
      rw [escape_cons, escapeByte_plain (plain byte (by simp)), ih fun other member =>
        plain other (by simp [member])]
      rfl

theorem length_le_escape (bytes : Bytes) : bytes.length ≤ (escape bytes).length := by
  induction bytes with
  | nil => exact Nat.le_refl _
  | cons byte bytes ih =>
      rw [escape_cons, List.length_append, List.length_cons]
      unfold escapeByte
      split <;> simp only [Token.text, List.length_cons, List.length_nil] <;> omega

/-- Each byte that is not plain makes the escape longer. -/
theorem length_lt_escape {bytes : Bytes} {byte : UInt8} (member : byte ∈ bytes)
    (other : isPlain byte = false) : bytes.length < (escape bytes).length := by
  obtain ⟨first, second, rfl⟩ := List.append_of_mem member
  have before := length_le_escape first
  have after := length_le_escape second
  rw [escape_append, escape_cons, escapeByte_other other]
  simp only [List.length_append, List.length_cons, Token.text, List.length_nil]
  omega

theorem escape_eq_nil {bytes : Bytes} : escape bytes = [] ↔ bytes = [] := by
  constructor
  · intro empty
    have bound := length_le_escape bytes
    rw [empty] at bound
    exact List.eq_nil_of_length_eq_zero (Nat.le_zero.mp bound)
  · rintro rfl
    rfl

theorem allPeriods_plain {bytes : Bytes} (periods : AllPeriods bytes) :
    ∀ byte ∈ bytes, isPlain byte = true := by
  intro byte member
  rw [periods byte member]
  exact isPlain_period

/-- The escape of a component is made of periods only when the component is. -/
theorem allPeriods_escape {bytes : Bytes} : AllPeriods (escape bytes) ↔ AllPeriods bytes := by
  constructor
  · intro periods byte member
    obtain ⟨first, second, rfl⟩ := List.append_of_mem member
    rw [escape_append, escape_cons] at periods
    by_cases plain : isPlain byte = true
    · apply periods
      simp [escapeByte_plain plain, Token.text]
    · have escaped := periods percent (by
        simp [escapeByte_other (Bool.eq_false_iff.mpr plain), Token.text])
      exact absurd escaped (by decide)
  · intro periods
    rw [escape_of_plain (allPeriods_plain periods)]
    exact periods

theorem escapeComponent_ne_nil (component : Component) : escapeComponent component ≠ [] := by
  unfold escapeComponent
  split
  · simp [ascii]
  · rename_i other
    intro empty
    rw [escape_eq_nil.mp empty] at other
    exact other (by simp [AllPeriods])

/-- The escaped component has only plain bytes and percent signs. -/
theorem mem_escapeComponent {component : Component} {byte : UInt8}
    (member : byte ∈ escapeComponent component) : isPlain byte = true ∨ byte = percent := by
  unfold escapeComponent at member
  split at member
  · rename_i periods
    rcases List.mem_append.mp member with added | inside
    · have same : byte = period := by
        simpa [ascii, show '.'.toUInt8 = period from rfl] using added
      exact .inl (same ▸ isPlain_period)
    · exact .inl (allPeriods_plain periods byte inside)
  · exact mem_escape member

theorem slash_notMem_escapeComponent (component : Component) :
    slash ∉ escapeComponent component := by
  intro member
  rcases mem_escapeComponent member with plain | percent
  · simp [isPlain_slash] at plain
  · exact absurd percent (by decide)

/-- The escape of a component is at least as long as the component. -/
theorem length_le_escapeComponent (component : Component) :
    component.length ≤ (escapeComponent component).length := by
  unfold escapeComponent
  split
  · simp
  · exact length_le_escape component

/-- The slash-preceded parts determine the list of parts. -/
theorem joinSlash_injective {first second : List Bytes} (clean : ∀ part ∈ first, slash ∉ part)
    (clean' : ∀ part ∈ second, slash ∉ part) (same : joinSlash first = joinSlash second) :
    first = second := by
  induction first generalizing second with
  | nil =>
      cases second with
      | nil => rfl
      | cons => simp at same
  | cons head tail ih =>
      cases second with
      | nil => simp at same
      | cons head' tail' =>
          simp only [joinSlash_cons, List.cons.injEq, true_and] at same
          have split {part : Bytes} (rest : List Bytes) (absent : slash ∉ part) :
              (part ++ joinSlash rest).takeWhile (· != slash) = part := by
            have head : (joinSlash rest).takeWhile (· != slash) = [] := by
              cases rest <;> simp
            rw [List.takeWhile_append_of_pos (by
              intro byte member
              simpa using fun same : byte = slash => absent (same ▸ member)), head, List.append_nil]
          have heads : head = head' := by
            rw [← split tail (clean head (by simp)), same,
              split tail' (clean' head' (by simp))]
          subst heads
          rw [ih (fun part member => clean part (by simp [member]))
            (fun part member => clean' part (by simp [member])) (List.append_cancel_left same)]

/-- The text of a list of parts does not end in a slash. -/
theorem getLast_joinSlash {parts : List Bytes} (clean : ∀ part ∈ parts, part ≠ [] ∧ slash ∉ part) :
    (joinSlash parts).getLast? ≠ some slash := by
  rcases List.eq_nil_or_concat parts with rfl | ⟨parts, part, rfl⟩
  · simp
  · obtain ⟨nonempty, noSlash⟩ := clean part (by simp)
    have last : part.getLast? ≠ some slash := fun last => noSlash (List.mem_of_getLast? last)
    rw [List.concat_eq_append, joinSlash_append, joinSlash_cons, joinSlash_nil, List.append_nil,
      List.getLast?_append, List.getLast?_cons_of_ne_nil nonempty,
      Option.or_of_isSome (by simpa using nonempty)]
    exact last

theorem clean_escape (name : Name) :
    ∀ part ∈ name.map escapeComponent, part ≠ [] ∧ slash ∉ part := by
  intro part member
  obtain ⟨component, -, rfl⟩ := List.mem_map.mp member
  exact ⟨escapeComponent_ne_nil component, slash_notMem_escapeComponent component⟩

theorem joinSlash_ne_slash {parts : List Bytes} (clean : ∀ part ∈ parts, part ≠ [] ∧ slash ∉ part) :
    joinSlash parts ≠ ascii "/" := by
  intro single
  apply getLast_joinSlash clean
  rw [single]
  rfl

end Ndnfs

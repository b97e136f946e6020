import Mathlib.Tactic.Common

namespace Ndnfs

/-- A C string or a buffer is a list of bytes. -/
abbrev Bytes := List UInt8

/-- A check of all bytes of a text goes through the text. -/
instance (bytes : Bytes) (property : UInt8 → Prop) [DecidablePred property] :
    Decidable (∀ byte ∈ bytes, property byte) := List.decidableBAll property bytes

/-- This function gives the bytes of an ASCII text. -/
def ascii (text : String) : Bytes := text.toList.map Char.toUInt8

/-- The first position at which the pattern occurs. -/
def find {A : Type} [DecidableEq A] (pattern : List A) : List A → Option Nat
  | [] => if pattern = [] then some 0 else none
  | head :: tail =>
      if pattern <+: head :: tail then some 0 else (find pattern tail).map (· + 1)

/-- The new text takes the place of the given range. -/
def replaceRange {A : Type} (text : List A) (position length : Nat) (new : List A) : List A :=
  text.take position ++ new ++ text.drop (position + length)

/-- The loop replaces the first occurrence until there is none; the fuel counts its rounds. -/
def replaceLoop {A : Type} [DecidableEq A] (pattern new : List A) : Nat → List A → List A
  | 0, text => text
  | fuel + 1, text =>
      match find pattern text with
      | none => text
      | some position =>
          replaceLoop pattern new fuel (replaceRange text position pattern.length new)

section Replaces

variable {A : Type} [DecidableEq A] (pattern new : List A)

/-- The loop ends with this text; no run without an end is one of these. -/
inductive Replaces : List A → List A → Prop where
  | stop {text : List A} (absent : find pattern text = none) : Replaces text text
  | round {text result : List A} {position : Nat} (found : find pattern text = some position)
      (rest : Replaces (replaceRange text position pattern.length new) result) :
      Replaces text result

variable {pattern new}

/-- The loop has one result at most. -/
theorem Replaces.unique {text first second : List A} (one : Replaces pattern new text first)
    (other : Replaces pattern new text second) : first = second := by
  induction one with
  | stop absent =>
      cases other with
      | stop => rfl
      | round found rest =>
          rw [absent] at found
          cases found
  | round found rest ih =>
      cases other with
      | stop absent =>
          rw [absent] at found
          cases found
      | round found' rest' =>
          obtain rfl := Option.some.inj (found.symm.trans found')
          exact ih rest'

/-- The loop has ended when its fuel was enough to remove every occurrence. -/
theorem replaces_replaceLoop (fuel : Nat) {text : List A}
    (absent : find pattern (replaceLoop pattern new fuel text) = none) :
    Replaces pattern new text (replaceLoop pattern new fuel text) := by
  induction fuel generalizing text with
  | zero => exact .stop absent
  | succ fuel ih =>
      cases found : find pattern text with
      | none =>
          simp only [replaceLoop, found]
          exact .stop found
      | some position =>
          simp only [replaceLoop, found] at absent ⊢
          exact .round found (ih absent)

end Replaces

namespace Percent

def percent : UInt8 := 37
def slash : UInt8 := 47
def period : UInt8 := 46

/-- The upper-case hexadecimal digit. -/
def hexDigit (value : Nat) : UInt8 := UInt8.ofNat (if value < 10 then 48 + value else 55 + value)

/-- An escaped text is a sequence of literal bytes and of escaped bytes. -/
inductive Token where
  | literal (byte : UInt8)
  | escaped (byte : UInt8)
  deriving DecidableEq

def Token.text : Token → Bytes
  | .literal byte => [byte]
  | .escaped byte => [percent, hexDigit (byte.toNat / 16), hexDigit (byte.toNat % 16)]

/-- A percent sign never stands for itself. -/
def Token.Valid (token : Token) : Prop := token ≠ .literal percent

def text (tokens : List Token) : Bytes := tokens.flatMap Token.text

@[simp] theorem text_nil : text [] = [] := rfl

@[simp] theorem text_cons (token : Token) (tokens : List Token) :
    text (token :: tokens) = token.text ++ text tokens := rfl

@[simp] theorem text_append (first second : List Token) :
    text (first ++ second) = text first ++ text second := List.flatMap_append

theorem hexDigit_ne_percent : ∀ value < 16, hexDigit value ≠ percent := by decide

theorem hexDigit_injective : ∀ first < 16, ∀ second < 16,
    hexDigit first = hexDigit second → first = second := by decide

theorem high_lt (byte : UInt8) : byte.toNat / 16 < 16 := by
  have bound := byte.toNat_lt
  omega

theorem low_lt (byte : UInt8) : byte.toNat % 16 < 16 := Nat.mod_lt _ (by decide)

/-- The two digits determine the byte. -/
theorem digits_injective {first second : UInt8}
    (high : hexDigit (first.toNat / 16) = hexDigit (second.toNat / 16))
    (low : hexDigit (first.toNat % 16) = hexDigit (second.toNat % 16)) : first = second := by
  have sameHigh := hexDigit_injective _ (high_lt first) _ (high_lt second) high
  have sameLow := hexDigit_injective _ (low_lt first) _ (low_lt second) low
  apply UInt8.toNat_inj.mp
  omega

/-- A search for an escaped byte steps over each other token as a whole. -/
theorem find_token {byte : UInt8} {token : Token} (valid : token.Valid)
    (other : token ≠ .escaped byte) (rest : Bytes) :
    find (Token.escaped byte).text (token.text ++ rest) =
      (find (Token.escaped byte).text rest).map (· + token.text.length) := by
  have step (head : UInt8) (tail : Bytes) (different : head ≠ percent) :
      find (Token.escaped byte).text (head :: tail) =
        (find (Token.escaped byte).text tail).map (· + 1) := by
    rw [find, if_neg]
    intro occurs
    exact different (List.cons_prefix_cons.mp occurs).1.symm
  cases token with
  | literal head =>
      have different : head ≠ percent := fun same => valid (congrArg Token.literal same)
      exact step head rest different
  | escaped head =>
      have absent : ¬ (Token.escaped byte).text <+: (Token.escaped head).text ++ rest := by
        intro occurs
        simp only [Token.text, List.cons_append, List.nil_append, List.cons_prefix_cons] at occurs
        exact other (congrArg Token.escaped (digits_injective occurs.2.1 occurs.2.2.1).symm)
      change ¬ _ <+: percent :: hexDigit (head.toNat / 16) :: hexDigit (head.toNat % 16) :: rest
        at absent
      change find _ (percent :: hexDigit (head.toNat / 16) :: hexDigit (head.toNat % 16) :: rest) = _
      rw [find, if_neg absent, step _ _ (hexDigit_ne_percent _ (high_lt head)),
        step _ _ (hexDigit_ne_percent _ (low_lt head))]
      simp [Option.map_map, Function.comp_def, Token.text, Nat.add_assoc]

/-- Without the escaped byte the search finds nothing. -/
theorem find_text_none {byte : UInt8} {tokens : List Token} (valid : ∀ token ∈ tokens, token.Valid)
    (absent : Token.escaped byte ∉ tokens) : find (Token.escaped byte).text (text tokens) = none := by
  induction tokens with
  | nil => rfl
  | cons token tokens ih =>
      simp only [List.mem_cons, not_or] at absent
      rw [text_cons, find_token (valid token (by simp)) (Ne.symm absent.1),
        ih (fun other member => valid other (by simp [member])) absent.2]
      rfl

/-- The search finds the first escaped byte at the end of the tokens before it. -/
theorem find_text_first {byte : UInt8} {before : List Token}
    (valid : ∀ token ∈ before, token.Valid) (absent : Token.escaped byte ∉ before) (rest : Bytes) :
    find (Token.escaped byte).text (text before ++ ((Token.escaped byte).text ++ rest)) =
      some (text before).length := by
  induction before with
  | nil => simp [Token.text, find]
  | cons token before ih =>
      simp only [List.mem_cons, not_or] at absent
      rw [text_cons, List.append_assoc, find_token (valid token (by simp)) (Ne.symm absent.1),
        ih (fun other member => valid other (by simp [member])) absent.2]
      simp [Nat.add_comm]

/-- This function writes one escaped byte as itself. -/
def unescape (byte : UInt8) (token : Token) : Token :=
  if token = .escaped byte then .literal byte else token

/-- The loop un-escapes one byte everywhere and touches no other token. -/
theorem replaceLoop_text {byte : UInt8} (different : byte ≠ percent) (fuel : Nat)
    (tokens before : List Token) (enough : tokens.count (.escaped byte) ≤ fuel)
    (valid : ∀ token ∈ before ++ tokens, token.Valid) (absent : Token.escaped byte ∉ before) :
    replaceLoop (Token.escaped byte).text [byte] fuel (text (before ++ tokens)) =
      text (before ++ tokens.map (unescape byte)) := by
  induction tokens generalizing before fuel with
  | nil =>
      have stop := find_text_none (by simpa using valid) absent
      cases fuel with
      | zero => rfl
      | succ fuel => simp only [replaceLoop, List.append_nil, stop, List.map_nil]
  | cons token tokens ih =>
      by_cases same : token = .escaped byte
      · subst token
        rw [List.count_cons_self] at enough
        obtain ⟨rounds, rfl⟩ : ∃ rounds, fuel = rounds + 1 := ⟨fuel - 1, by omega⟩
        have found := find_text_first (fun other member => valid other (by simp [member])) absent
          (text tokens)
        have replaced : replaceRange (text before ++ ((Token.escaped byte).text ++ text tokens))
            (text before).length (Token.escaped byte).text.length [byte] =
            text ((before ++ [.literal byte]) ++ tokens) := by
          simp [replaceRange, Token.text, List.drop_append]
        have next := ih rounds (before ++ [.literal byte]) (by omega) (by
          intro other member
          simp only [List.mem_append, List.mem_cons, List.not_mem_nil, or_false] at member
          rcases member with (member | rfl) | member
          · exact valid other (by simp [member])
          · simpa [Token.Valid] using different
          · exact valid other (by simp [member])) (by simpa using absent)
        rw [text_append, text_cons, replaceLoop, found]
        simp only [replaced, next]
        simp [unescape]
      · have next := ih fuel (before ++ [token]) (by
            rwa [List.count_cons_of_ne same] at enough) (by simpa using valid)
          (by simp [absent, Ne.symm same])
        simpa [unescape, same] using next

theorem unescape_valid {byte : UInt8} (different : byte ≠ percent) {token : Token}
    (valid : token.Valid) : (unescape byte token).Valid := by
  unfold unescape
  split
  · intro same
    exact different (Token.literal.inj same)
  · exact valid

theorem escaped_notMem_unescape (byte : UInt8) (tokens : List Token) :
    Token.escaped byte ∉ tokens.map (unescape byte) := by
  intro member
  obtain ⟨token, -, same⟩ := List.mem_map.mp member
  unfold unescape at same
  split at same
  · cases same
  · rename_i other
    exact other same

/-- The loop ends after it has un-escaped one byte everywhere. -/
theorem replaces_text {byte : UInt8} (different : byte ≠ percent) {tokens : List Token}
    (valid : ∀ token ∈ tokens, token.Valid) :
    Replaces (Token.escaped byte).text [byte] (text tokens)
      (text (tokens.map (unescape byte))) := by
  have loop : replaceLoop (Token.escaped byte).text [byte] (tokens.count (.escaped byte))
      (text tokens) = text (tokens.map (unescape byte)) :=
    replaceLoop_text different _ tokens [] (Nat.le_refl _) valid List.not_mem_nil
  have validAfter : ∀ token ∈ tokens.map (unescape byte), token.Valid := by
    intro token member
    obtain ⟨before, inside, rfl⟩ := List.mem_map.mp member
    exact unescape_valid different (valid before inside)
  have absent := find_text_none validAfter (escaped_notMem_unescape byte tokens)
  rw [← loop] at absent ⊢
  exact replaces_replaceLoop _ absent

end Percent

end Ndnfs

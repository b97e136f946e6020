import Ndnfs.Ndn.Library
import Mathlib.Data.List.Induction

namespace Ndnfs.Reference
open Percent

/-- This function reads one hexadecimal digit. -/
def hexValue (digit : UInt8) : Option Nat :=
  if 48 ≤ digit ∧ digit ≤ 57 then some (digit.toNat - 48)
  else if 65 ≤ digit ∧ digit ≤ 70 then some (digit.toNat - 55)
  else if 97 ≤ digit ∧ digit ≤ 102 then some (digit.toNat - 87)
  else none

/-- A percent sign with two digits stands for one byte. -/
def unescape : Bytes → Bytes
  | [] => []
  | [first] => [first]
  | [first, second] => [first, second]
  | first :: high :: low :: rest =>
      if first = percent then
        match hexValue high, hexValue low with
        | some upper, some lower => UInt8.ofNat (16 * upper + lower) :: unescape rest
        | _, _ => first :: unescape (high :: low :: rest)
      else first :: unescape (high :: low :: rest)

theorem hexValue_hexDigit : ∀ value < 16, hexValue (hexDigit value) = some value := by decide

theorem unescape_literal {byte : UInt8} (literal : byte ≠ percent) (rest : Bytes) :
    unescape (byte :: rest) = byte :: unescape rest := by
  match rest with
  | [] => rfl
  | [_] => rfl
  | _ :: _ :: _ => rw [unescape, if_neg literal]

theorem unescape_token (byte : UInt8) (rest : Bytes) :
    unescape ((escapeByte byte).text ++ rest) = byte :: unescape rest := by
  by_cases plain : isPlain byte = true
  · have literal : byte ≠ percent := by
      rintro rfl
      simp [isPlain_percent] at plain
    rw [escapeByte_plain plain]
    exact unescape_literal literal rest
  · rw [escapeByte_other (Bool.eq_false_iff.mpr plain)]
    change unescape (percent :: hexDigit (byte.toNat / 16) :: hexDigit (byte.toNat % 16) :: rest) = _
    simp only [unescape, if_pos, hexValue_hexDigit _ (high_lt byte), hexValue_hexDigit _ (low_lt byte)]
    rw [Nat.div_add_mod, UInt8.ofNat_toNat]

theorem unescape_escape (bytes : Bytes) : unescape (escape bytes) = bytes := by
  induction bytes with
  | nil => rfl
  | cons byte bytes ih => rw [escape_cons, unescape_token, ih]

/-- A scheme ends at a colon before the first slash. -/
def dropScheme (uri : Bytes) : Bytes :=
  match uri.dropWhile fun byte => byte != 58 && byte != slash with
  | 58 :: rest => rest
  | _ => uri

/-- An authority stands between a leading // and the next slash. -/
def dropAuthority : Bytes → Bytes
  | first :: second :: rest =>
      if first = slash then
        if second = slash then (rest.dropWhile (· != slash)).drop 1 else second :: rest
      else first :: second :: rest
  | [first] => if first = slash then [] else [first]
  | [] => []

def nameOfUri (uri : Bytes) : Name :=
  (((dropAuthority (dropScheme uri)).splitOn slash).map unescape).filterMap uriPart

def toUri (name : Name) : Bytes :=
  if name = [] then [slash] else joinSlash (name.map escapeComponent)

def fromEscapedString (text : Bytes) : Component :=
  if AllPeriods (unescape text) then (unescape text).drop 3 else unescape text

theorem dropScheme_of_notMem {uri : Bytes} (absent : (58 : UInt8) ∉ uri) : dropScheme uri = uri := by
  unfold dropScheme
  split
  · rename_i rest colon
    have member : (58 : UInt8) ∈ uri.dropWhile fun byte => byte != 58 && byte != slash := by
      simp [colon]
    exact absurd (List.dropWhile_subset _ member) absent
  · rfl

theorem colon_notMem_escape (bytes : Bytes) : (58 : UInt8) ∉ escape bytes := by
  intro member
  rcases mem_escape member with plain | same
  · exact absurd plain (by decide)
  · exact absurd same (by decide)

theorem colon_notMem_joinSlash (parts : List Bytes) :
    (58 : UInt8) ∉ joinSlash (parts.map escape) := by
  induction parts with
  | nil => simp
  | cons part parts ih =>
      simp only [List.map_cons, joinSlash_cons, List.mem_cons, List.mem_append, not_or]
      exact ⟨by decide, colon_notMem_escape part, ih⟩

/-- The split at slashes finds each escaped part. -/
theorem splitOn_parts (part : Bytes) (parts : List Bytes) :
    (escape part ++ joinSlash (parts.map escape)).splitOn slash = (part :: parts).map escape := by
  induction parts generalizing part with
  | nil =>
      simpa using List.splitOn_eq_singleton (slash_notMem_escape part)
  | cons next parts ih =>
      rw [List.map_cons, joinSlash_cons,
        List.splitOn_append_cons_self_of_not_mem (slash_notMem_escape part), ih next]
      rfl

theorem map_unescape_escape (parts : List Bytes) : (parts.map escape).map unescape = parts := by
  simp [List.map_map, Function.comp_def, unescape_escape]

theorem escape_head {part : Bytes} (nonempty : part ≠ []) :
    ∃ first rest, escape part = first :: rest ∧ first ≠ slash := by
  cases text : escape part with
  | nil => exact absurd (escape_eq_nil.mp text) nonempty
  | cons first rest =>
      refine ⟨first, rest, rfl, ?_⟩
      rintro rfl
      exact slash_notMem_escape part (by simp [text])

theorem nameOfUri_relative (part : Bytes) (parts : List Bytes) (nonempty : part ≠ []) :
    nameOfUri (escape part ++ joinSlash (parts.map escape)) = (part :: parts).filterMap uriPart := by
  have noColon : (58 : UInt8) ∉ escape part ++ joinSlash (parts.map escape) := by
    rw [List.mem_append, not_or]
    exact ⟨colon_notMem_escape part, colon_notMem_joinSlash parts⟩
  have relative : dropAuthority (escape part ++ joinSlash (parts.map escape)) =
      escape part ++ joinSlash (parts.map escape) := by
    obtain ⟨first, rest, shape, other⟩ := escape_head nonempty
    rw [shape, List.cons_append]
    cases rest ++ joinSlash (parts.map escape) <;> simp [dropAuthority, other]
  rw [nameOfUri, dropScheme_of_notMem noColon, relative, splitOn_parts, map_unescape_escape]

theorem nameOfUri_join (parts : List Bytes) (relative : parts.head? ≠ some []) :
    nameOfUri (joinSlash (parts.map escape)) = parts.filterMap uriPart := by
  cases parts with
  | nil => decide
  | cons part parts =>
      have nonempty : part ≠ [] := by simpa using relative
      have noColon := colon_notMem_joinSlash (part :: parts)
      have rooted : dropAuthority (joinSlash ((part :: parts).map escape)) =
          escape part ++ joinSlash (parts.map escape) := by
        obtain ⟨first, rest, shape, other⟩ := escape_head nonempty
        simp [dropAuthority, shape, other]
      rw [nameOfUri, dropScheme_of_notMem noColon, rooted, splitOn_parts, map_unescape_escape]

/-- The number stands in big-endian order. -/
def bigEndian : Nat → Nat → Bytes
  | 0, _ => []
  | width + 1, number => bigEndian width (number / 256) ++ [UInt8.ofNat (number % 256)]

def bigEndianValue (bytes : Bytes) : Nat := bytes.foldl (fun value byte => 256 * value + byte.toNat) 0

theorem bigEndian_length (width number : Nat) : (bigEndian width number).length = width := by
  induction width generalizing number with
  | zero => rfl
  | succ width ih => simp [bigEndian, ih]

theorem bigEndianValue_bigEndian (width number : Nat) (fits : number < 256 ^ width) :
    bigEndianValue (bigEndian width number) = number := by
  induction width generalizing number with
  | zero =>
      simp only [Nat.pow_zero, Nat.lt_one_iff] at fits
      rw [fits]
      rfl
  | succ width ih =>
      have smaller : number / 256 < 256 ^ width := by
        rw [Nat.pow_succ] at fits
        exact Nat.div_lt_of_lt_mul (by rwa [Nat.mul_comm])
      have upper := ih (number / 256) smaller
      unfold bigEndianValue at upper ⊢
      rw [bigEndian, List.foldl_append, upper, List.foldl_cons, List.foldl_nil,
        UInt8.toNat_ofNat_of_lt' (show number % 256 < UInt8.size from Nat.mod_lt _ (by decide))]
      exact Nat.div_add_mod number 256

/-- A non-negative integer takes 1, 2, 4 or 8 bytes. -/
def numberWidth (number : Nat) : Nat :=
  if number < 2 ^ 8 then 1 else if number < 2 ^ 16 then 2 else if number < 2 ^ 32 then 4 else 8

def fromNumberWithMarker (number : Nat) (marker : UInt8) : Component :=
  marker :: bigEndian (numberWidth number) number

def toNumberWithMarker (component : Component) (marker : UInt8) : Option Nat :=
  match component with
  | [] => none
  | first :: rest =>
      if first = marker ∧ (rest.length = 1 ∨ rest.length = 2 ∨ rest.length = 4 ∨ rest.length = 8) then
        some (bigEndianValue rest)
      else none

theorem toNumberWithMarker_from (number : Nat) (marker : UInt8) (fits : number < 2 ^ 64) :
    toNumberWithMarker (fromNumberWithMarker number marker) marker = some number := by
  have value : bigEndianValue (bigEndian (numberWidth number) number) = number := by
    apply bigEndianValue_bigEndian
    unfold numberWidth
    split
    · simpa using ‹_›
    · split
      · simpa using ‹_›
      · split
        · simpa using ‹_›
        · simpa using fits
  have width : numberWidth number = 1 ∨ numberWidth number = 2 ∨ numberWidth number = 4 ∨
      numberWidth number = 8 := by
    unfold numberWidth
    split_ifs <;> simp
  simp only [fromNumberWithMarker, toNumberWithMarker, bigEndian_length, width, and_self, if_true,
    value]

theorem bigEndianValue_lt (bytes : Bytes) : bigEndianValue bytes < 256 ^ bytes.length := by
  induction bytes using List.reverseRecOn with
  | nil => decide
  | append_singleton bytes byte ih =>
      unfold bigEndianValue at ih ⊢
      have small := byte.toNat_lt
      rw [List.foldl_append, List.foldl_cons, List.foldl_nil, List.length_append,
        List.length_singleton, Nat.pow_succ]
      omega

theorem toNumberWithMarker_lt (component : Component) (marker : UInt8) (number : Nat)
    (read : toNumberWithMarker component marker = some number) : number < 2 ^ 64 := by
  unfold toNumberWithMarker at read
  split at read
  · cases read
  · rename_i first rest
    split at read
    · rename_i shape
      obtain rfl := Option.some.inj read
      have bound := bigEndianValue_lt rest
      rcases shape.2 with width | width | width | width <;> rw [width] at bound <;> omega
    · cases read

/-- This instance follows ndn-cpp on URIs without surrounding white space. -/
def ndn : NdnCpp where
  toEscapedString := escapeComponent
  fromEscapedString := fromEscapedString
  toUri := toUri
  nameOfUri := nameOfUri
  fromNumberWithMarker := fromNumberWithMarker
  toNumberWithMarker := toNumberWithMarker
  keyLocatorName := List.dropLast
  catchesExceptions := false
  toEscapedString_eq _ := rfl
  fromEscapedString_escape component other := by
    rw [fromEscapedString, unescape_escape, if_neg other]
  toUri_nil := rfl
  toUri_ne_nil name nonempty := if_neg nonempty
  nameOfUri_join := nameOfUri_join
  nameOfUri_relative := nameOfUri_relative
  nameOfUri_slash := by decide
  fromNumberWithMarker_head _ _ := rfl
  toNumberWithMarker_from := toNumberWithMarker_from
  toNumberWithMarker_lt := toNumberWithMarker_lt

/-- Both programs sign with the key of this certificate. -/
def certificateName : Name :=
  [ascii "testname", ascii "KEY", ascii "DSK-123", ascii "ID-CERT", ascii "0"]

end Ndnfs.Reference

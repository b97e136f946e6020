import Mathlib.Data.List.Basic
import Ndnfs.Ndn.Library

namespace Ndnfs
open Percent

/-- The bytes whose escape stands for the component in a URI. -/
def rawPart (component : Component) : Bytes :=
  if AllPeriods component then ascii "..." ++ component else component

theorem allPeriods_dots {component : Component} (periods : AllPeriods component) :
    AllPeriods (ascii "..." ++ component) :=
  List.forall_mem_append.mpr ⟨by decide, periods⟩

theorem escape_rawPart (component : Component) :
    escape (rawPart component) = escapeComponent component := by
  unfold rawPart escapeComponent
  split
  · exact escape_of_plain (allPeriods_plain (allPeriods_dots ‹_›))
  · rfl

theorem rawPart_ne_nil (component : Component) : rawPart component ≠ [] := by
  intro empty
  have text := escape_rawPart component
  rw [empty, escape_nil] at text
  exact escapeComponent_ne_nil component text.symm

theorem uriPart_rawPart (component : Component) : uriPart (rawPart component) = some component := by
  unfold rawPart
  split
  · rename_i periods
    have long : ¬ (ascii "..." ++ component).length ≤ 2 := by
      rw [List.length_append]
      exact Nat.not_le.mpr (Nat.lt_add_right component.length (by decide))
    rw [uriPart, if_pos (allPeriods_dots periods), if_neg long]
    rfl
  · rename_i other
    rw [uriPart, if_neg other]

theorem map_escape_rawPart (name : Name) :
    (name.map rawPart).map escape = name.map escapeComponent := by
  rw [List.map_map]
  exact List.map_congr_left fun component _ => escape_rawPart component

theorem filterMap_rawPart (name : Name) : (name.map rawPart).filterMap uriPart = name := by
  rw [List.filterMap_map]
  exact (List.filterMap_congr fun component _ => uriPart_rawPart component).trans
    (List.filterMap_some)

/-- A component takes no more text than the part it comes from. -/
theorem length_uriPart {part : Bytes} {component : Component} (read : uriPart part = some component) :
    (escapeComponent component).length ≤ (escape part).length := by
  unfold uriPart at read
  split at read
  · rename_i periods
    split at read
    · cases read
    · obtain rfl := Option.some.inj read
      have rest : AllPeriods (part.drop 3) := fun byte member =>
        periods byte (List.mem_of_mem_drop member)
      rw [escapeComponent, if_pos rest, escape_of_plain (allPeriods_plain periods),
        List.length_append, List.length_drop]
      change 3 + (part.length - 3) ≤ part.length
      omega
  · rename_i other
    obtain rfl := Option.some.inj read
    exact Nat.le_of_eq (congrArg List.length (if_neg other))

theorem length_filterMap_uriPart (parts : List Bytes) :
    (joinSlash ((parts.filterMap uriPart).map escapeComponent)).length ≤
      (joinSlash (parts.map escape)).length := by
  induction parts with
  | nil => exact Nat.le_refl _
  | cons part parts ih =>
      cases read : uriPart part with
      | none =>
          rw [List.filterMap_cons_none read, List.map_cons, joinSlash_cons, List.length_cons,
            List.length_append]
          omega
      | some component =>
          have head := length_uriPart read
          rw [List.filterMap_cons_some read]
          simp only [List.map_cons, joinSlash_cons, List.length_cons, List.length_append]
          omega

theorem suffix_append_cases {A : Type} {suffix first second : List A}
    (ending : suffix <:+ first ++ second) :
    suffix <:+ second ∨ ∃ rest, rest <:+ first ∧ suffix = rest ++ second := by
  obtain ⟨before, same⟩ := ending
  rcases List.append_eq_append_iff.mp same with ⟨rest, split, shape⟩ | ⟨rest, split, shape⟩
  · exact .inr ⟨rest, ⟨before, split.symm⟩, shape⟩
  · exact .inl ⟨rest, shape.symm⟩

/-- What is left of a token is plain or the whole token. -/
theorem escape_of_token_suffix {suffix : Bytes} {byte : UInt8}
    (ending : suffix <:+ (escapeByte byte).text) : ∃ rest, suffix = escape rest := by
  have single : escape [byte] = (escapeByte byte).text := by simp
  unfold escapeByte at ending single
  split at ending
  · rcases List.suffix_cons_iff.mp ending with whole | rest
    · exact ⟨[byte], by rw [whole, single, if_pos ‹_›]; rfl⟩
    · exact ⟨[], List.suffix_nil.mp rest⟩
  · rcases List.suffix_cons_iff.mp ending with whole | digits
    · exact ⟨[byte], by rw [whole, single, if_neg ‹_›]; rfl⟩
    · refine ⟨suffix, (escape_of_plain fun digit member => ?_).symm⟩
      have inside := digits.subset member
      simp only [List.mem_cons, List.not_mem_nil, or_false] at inside
      rcases inside with rfl | rfl
      · exact isPlain_hexDigit _ (high_lt byte)
      · exact isPlain_hexDigit _ (low_lt byte)

/-- What is left of an escaped text is an escaped text; a cut escape leaves plain digits. -/
theorem exists_escape_of_suffix {suffix bytes : Bytes} (ending : suffix <:+ escape bytes) :
    ∃ rest, suffix = escape rest := by
  induction bytes with
  | nil => exact ⟨[], List.suffix_nil.mp ending⟩
  | cons byte bytes ih =>
      rw [escape_cons] at ending
      rcases suffix_append_cases ending with inside | ⟨token, tokenEnding, rfl⟩
      · exact ih inside
      · obtain ⟨rest, rfl⟩ := escape_of_token_suffix tokenEnding
        exact ⟨rest ++ bytes, (escape_append rest bytes).symm⟩

/-- The end of a path is the end of one part and the parts after it. -/
theorem exists_parts_of_suffix {suffix : Bytes} {parts : List Bytes}
    (ending : suffix <:+ joinSlash (parts.map escape)) : ∃ first rest, rest <:+ parts ∧
      suffix = escape first ++ joinSlash (rest.map escape) := by
  induction parts with
  | nil => exact ⟨[], [], List.suffix_refl [], List.suffix_nil.mp ending⟩
  | cons part parts ih =>
      rw [List.map_cons, joinSlash_cons] at ending
      rcases List.suffix_cons_iff.mp ending with whole | inside
      · exact ⟨[], part :: parts, List.suffix_refl _, whole⟩
      · rcases suffix_append_cases inside with later | ⟨text, textEnding, rfl⟩
        · obtain ⟨first, rest, restEnding, shape⟩ := ih later
          exact ⟨first, rest, restEnding.trans (List.suffix_cons part parts), shape⟩
        · obtain ⟨first, rfl⟩ := exists_escape_of_suffix textEnding
          exact ⟨first, parts, List.suffix_cons part parts, rfl⟩

namespace NdnCpp

variable (ndn : NdnCpp)

/-- The URI of a name and the text of its components give the name back. -/
theorem nameOfUri_text (name : Name) :
    ndn.nameOfUri (joinSlash (name.map escapeComponent)) = name := by
  have relative : (name.map rawPart).head? ≠ some [] := by
    cases name with
    | nil => simp
    | cons component name => simpa using rawPart_ne_nil component
  have parsed := ndn.nameOfUri_join (name.map rawPart) relative
  rwa [map_escape_rawPart, filterMap_rawPart] at parsed

theorem nameOfUri_toUri (name : Name) : ndn.nameOfUri (ndn.toUri name) = name := by
  by_cases empty : name = []
  · rw [empty, ndn.toUri_nil, ndn.nameOfUri_slash]
  · rw [ndn.toUri_join empty, ndn.nameOfUri_text]

/-- Without the first slash the text gives the same name. -/
theorem nameOfUri_relativeText (component : Component) (name : Name) :
    ndn.nameOfUri (escapeComponent component ++ joinSlash (name.map escapeComponent)) =
      component :: name := by
  have parsed := ndn.nameOfUri_relative (rawPart component) (name.map rawPart)
    (rawPart_ne_nil component)
  rwa [map_escape_rawPart, escape_rawPart, ← List.map_cons, filterMap_rawPart] at parsed

/-- The end of a text gives a name whose text is not longer, up to a first slash. -/
theorem length_nameOfUri_suffix {suffix : Bytes} {name : Name}
    (ending : suffix <:+ joinSlash (name.map escapeComponent)) :
    (joinSlash ((ndn.nameOfUri suffix).map escapeComponent)).length ≤ suffix.length + 1 := by
  rw [← map_escape_rawPart] at ending
  obtain ⟨first, rest, restEnding, rfl⟩ := exists_parts_of_suffix ending
  have bound := length_filterMap_uriPart (first :: rest)
  rw [List.map_cons, joinSlash_cons, List.length_cons] at bound
  by_cases empty : first = []
  · have relative : rest.head? ≠ some [] := by
      intro head
      obtain ⟨component, -, none⟩ :=
        List.mem_map.mp (restEnding.subset (List.mem_of_head? head))
      exact rawPart_ne_nil component none
    have skipped : (first :: rest).filterMap uriPart = rest.filterMap uriPart := by
      rw [empty]
      rfl
    rw [empty, escape_nil, List.nil_append, ndn.nameOfUri_join rest relative, ← skipped]
    simpa [empty] using bound
  · rw [ndn.nameOfUri_relative first rest empty]
    exact bound

end NdnCpp

end Ndnfs

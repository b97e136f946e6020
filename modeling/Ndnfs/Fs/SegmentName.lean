import Ndnfs.Fs.Segment
import Ndnfs.Ndn.Uri
import Ndnfs.System.Path

namespace Ndnfs
open Percent

/-- A text of escaped bytes is un-escaped at its slashes only. -/
theorem unescapeSlashes_escape (bytes : Bytes) : unescapeSlashes (escape bytes) =
    text ((bytes.map escapeByte).map (unescape slash)) := by
  have enough : (bytes.map escapeByte).count (.escaped slash) ≤ (escape bytes).length :=
    calc (bytes.map escapeByte).count (.escaped slash)
      _ ≤ (bytes.map escapeByte).length := List.count_le_length
      _ = bytes.length := List.length_map _
      _ ≤ (escape bytes).length := length_le_escape bytes
  have valid : ∀ token ∈ [] ++ bytes.map escapeByte, token.Valid := by
    intro token member
    obtain ⟨byte, -, rfl⟩ := List.mem_map.mp member
    exact escapeByte_valid byte
  exact replaceLoop_text (by decide) _ (bytes.map escapeByte) [] enough valid (by simp)

theorem unescape_part {part : Bytes} (clean : slash ∉ part) :
    text ((part.map escapeByte).map (unescape slash)) = escape part := by
  have kept : ∀ byte ∈ part, unescape slash (escapeByte byte) = escapeByte byte := by
    intro byte member
    refine if_neg fun escaped => clean ?_
    unfold escapeByte at escaped
    split at escaped
    · cases escaped
    · exact Token.escaped.inj escaped ▸ member
  rw [List.map_map, escape]
  exact congrArg text (List.map_congr_left kept)

/-- The slashes between the parts come back. -/
theorem unescapeSlashes_join {parts : List Bytes} (clean : ∀ part ∈ parts, slash ∉ part) :
    unescapeSlashes (escape (joinSlash parts)) = joinSlash (parts.map escape) := by
  rw [unescapeSlashes_escape]
  induction parts with
  | nil => rfl
  | cons part parts ih =>
      have tail := ih fun other member => clean other (List.mem_cons_of_mem part member)
      rw [joinSlash_cons, List.map_cons, List.map_append, List.map_cons, List.map_append,
        text_cons, text_append, unescape_part (clean part List.mem_cons_self), tail]
      rfl

/-- The component that a part of at least three periods or of other bytes becomes. -/
def uriComponent (part : Bytes) : Component := if AllPeriods part then part.drop 3 else part

/-- The part of a URI is a component of the name. -/
structure ProperPart (part : Bytes) : Prop where
  nonempty : part ≠ []
  not_dot : part ≠ ascii "."
  not_dotdot : part ≠ ascii ".."

theorem ProperPart.three_le {part : Bytes} (proper : ProperPart part)
    (periods : AllPeriods part) : 3 ≤ part.length := by
  have shape : part = List.replicate part.length period := List.eq_replicate_of_mem periods
  by_contra short
  have lengths : part.length = 0 ∨ part.length = 1 ∨ part.length = 2 := by omega
  rcases lengths with length | length | length <;> rw [length] at shape
  · exact proper.nonempty shape
  · exact proper.not_dot shape
  · exact proper.not_dotdot shape

/-- The part can be told from the component. -/
theorem ProperPart.rawPart_uriComponent {part : Bytes} (proper : ProperPart part) :
    rawPart (uriComponent part) = part := by
  by_cases periods : AllPeriods part
  · have rest : AllPeriods (part.drop 3) := fun byte member =>
      periods byte (List.mem_of_mem_drop member)
    have first : part.take 3 = ascii "..." := by
      have shape : part.take 3 = List.replicate (part.take 3).length period :=
        List.eq_replicate_of_mem fun byte member => periods byte (List.mem_of_mem_take member)
      rw [List.length_take, Nat.min_eq_left (proper.three_le periods)] at shape
      exact shape
    rw [uriComponent, if_pos periods, rawPart, if_pos rest, ← first, List.take_append_drop]
  · rw [uriComponent, if_neg periods, rawPart, if_neg periods]

theorem ProperPart.uriPart_eq {part : Bytes} (proper : ProperPart part) :
    uriPart part = some (uriComponent part) := by
  unfold uriPart uriComponent
  split
  · rename_i periods
    have long := proper.three_le periods
    rw [if_neg (by omega)]
  · rfl

/-- One or two periods are no escaped component. -/
theorem escapeComponent_ne_periods (component : Component) {periods : Bytes}
    (all : AllPeriods periods) (short : periods.length < 3) :
    escapeComponent component ≠ periods := by
  intro same
  unfold escapeComponent at same
  split at same
  · rw [← same, List.length_append] at short
    exact absurd short (Nat.not_lt.mpr (Nat.le_add_right 3 component.length))
  · rename_i other
    rw [← same, allPeriods_escape] at all
    exact other all

theorem properPart_escapeComponent (component : Component) :
    ProperPart (escapeComponent component) where
  nonempty := escapeComponent_ne_nil component
  not_dot := escapeComponent_ne_periods component (by decide) (by decide)
  not_dotdot := escapeComponent_ne_periods component (by decide) (by decide)

theorem ValidName.proper {name : Bytes} (valid : ValidName name) : ProperPart name :=
  ⟨valid.nonempty, valid.not_dot, valid.not_dotdot⟩

theorem filterMap_uriPart {parts : List Bytes} (proper : ∀ part ∈ parts, ProperPart part) :
    parts.filterMap uriPart = parts.map uriComponent :=
  (List.filterMap_congr fun part member => (proper part member).uriPart_eq).trans
    (congrFun List.filterMap_eq_map parts)

/-- The empty part of the root path is no component. -/
theorem Path.filterMap_parts (path : Path) :
    path.parts.filterMap uriPart = path.names.map uriComponent := by
  unfold Path.parts
  split
  · rename_i root
    rw [root]
    rfl
  · exact filterMap_uriPart fun part member => (path.valid part member).proper

namespace FileSystem

variable (fs : FileSystem)

/-- The parts of the full name of a file. -/
def nameParts (served : Name) (path : Path) : List Bytes :=
  served.map escapeComponent ++ path.names

theorem nameParts_proper (served : Name) (path : Path) :
    ∀ part ∈ nameParts served path, ProperPart part := by
  intro part member
  rcases List.mem_append.mp member with upper | lower
  · obtain ⟨component, -, rfl⟩ := List.mem_map.mp upper
    exact properPart_escapeComponent component
  · exact (path.valid part lower).proper

/-- Each part becomes a component of the signed name. -/
theorem segName_eq {served : Name} (nonempty : served ≠ [])
    (canonical : fs.globalPrefix = fs.ndn.toUri served) (path : Path) (ver seg : Int) :
    fs.segName path.text ver seg = (nameParts served path).map uriComponent ++
      [fs.ndn.versionComponent ver, fs.ndn.segmentComponent seg] := by
  have prefixText : fs.globalPrefix = joinSlash (served.map escapeComponent) :=
    canonical.trans (fs.ndn.toUri_join nonempty)
  have fullName : fs.globalPrefix ++ path.text =
      joinSlash (served.map escapeComponent ++ path.parts) := by
    rw [prefixText, Path.text, joinSlash_append]
  have clean : ∀ part ∈ served.map escapeComponent ++ path.parts, slash ∉ part := by
    intro part member
    rcases List.mem_append.mp member with upper | lower
    · obtain ⟨component, -, rfl⟩ := List.mem_map.mp upper
      exact slash_notMem_escapeComponent component
    · exact path.slash_notMem_parts part lower
  have notPeriods : ¬ AllPeriods (joinSlash (served.map escapeComponent ++ path.parts)) := by
    obtain ⟨component, rest, rfl⟩ := List.exists_cons_of_ne_nil nonempty
    intro periods
    exact absurd (periods slash (by simp)) (by decide)
  have relative : (served.map escapeComponent ++ path.parts).head? ≠ some [] := by
    obtain ⟨component, rest, rfl⟩ := List.exists_cons_of_ne_nil nonempty
    simpa using escapeComponent_ne_nil component
  have names : (served.map escapeComponent ++ path.parts).filterMap uriPart =
      (nameParts served path).map uriComponent := by
    rw [List.filterMap_append, path.filterMap_parts, filterMap_uriPart, nameParts, List.map_append]
    intro part member
    obtain ⟨component, -, rfl⟩ := List.mem_map.mp member
    exact properPart_escapeComponent component
  rw [segName, fs.ndn.toEscapedString_eq, fullName, escapeComponent, if_neg notPeriods,
    unescapeSlashes_join clean, fs.ndn.nameOfUri_join _ relative, names]

end FileSystem

end Ndnfs

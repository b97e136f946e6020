import Ndnfs.Fs.SegmentName
import Ndnfs.Server.Deployment

namespace Ndnfs
open Percent

/-- The text between a leading // and the next / is no part of the name. -/
def NdnCpp.DropsAuthority (ndn : NdnCpp) : Prop := ∀ (authority : Bytes) (parts : List Bytes),
  ndn.nameOfUri (joinSlash (([] :: authority :: parts).map escape)) = parts.filterMap uriPart

theorem Reference.dropsAuthority : Reference.ndn.DropsAuthority := by
  intro authority parts
  have noColon := colon_notMem_joinSlash ([] :: authority :: parts)
  have dropped : dropAuthority (joinSlash (([] :: authority :: parts).map escape)) =
      (joinSlash (parts.map escape)).drop 1 := by
    have passed : (escape authority ++ joinSlash (parts.map escape)).dropWhile (· != slash) =
        joinSlash (parts.map escape) := by
      rw [List.dropWhile_append_of_pos]
      · cases parts <;> simp
      · intro byte member
        simpa using ne_of_mem_of_not_mem member (slash_notMem_escape authority)
    exact congrArg (List.drop 1) passed
  change nameOfUri _ = _
  rw [nameOfUri, dropScheme_of_notMem noColon, dropped]
  cases parts with
  | nil => rfl
  | cons part parts =>
      rw [List.map_cons, joinSlash_cons, List.drop_succ_cons, List.drop_zero, splitOn_parts,
        map_unescape_escape]

/-- Slashes stand for themselves, and every other byte for its escape. -/
def slashesPlain (bytes : Bytes) : Bytes :=
  bytes.flatMap fun byte => if byte = slash then [slash] else (escapeByte byte).text

theorem text_unescape_escape (bytes : Bytes) :
    text ((bytes.map escapeByte).map (unescape slash)) = slashesPlain bytes := by
  rw [text, List.map_map, List.flatMap_map, slashesPlain]
  congr 1
  funext byte
  by_cases same : byte = slash
  · subst same
    rfl
  · have other : escapeByte byte ≠ .escaped slash := by
      unfold escapeByte
      split
      · exact Token.noConfusion
      · exact fun escaped => same (Token.escaped.inj escaped)
    rw [if_neg same]
    exact congrArg Token.text (if_neg other)

/-- The loop ends with the slashes un-escaped, and a name without slashes is left as it was. -/
theorem unescapes_only_slashes (ndn : NdnCpp) {bytes : Bytes} (notPeriods : ¬ AllPeriods bytes) :
    Replaces (ascii "%2F") (ascii "/") (ndn.toEscapedString bytes) (slashesPlain bytes) ∧
      unescapeSlashes (ndn.toEscapedString bytes) = slashesPlain bytes ∧
      (∀ result, Replaces (ascii "%2F") (ascii "/") (ndn.toEscapedString bytes) result →
        result = slashesPlain bytes) ∧
      ∀ upper fileName lower, bytes = upper ++ fileName ++ lower → slash ∉ fileName →
        slashesPlain bytes = slashesPlain upper ++ escape fileName ++ slashesPlain lower := by
  have escaped : ndn.toEscapedString bytes = escape bytes := by
    rw [ndn.toEscapedString_eq, escapeComponent, if_neg notPeriods]
  have valid : ∀ token ∈ bytes.map escapeByte, token.Valid := by
    intro token member
    obtain ⟨byte, -, rfl⟩ := List.mem_map.mp member
    exact escapeByte_valid byte
  have ends : Replaces (ascii "%2F") (ascii "/") (escape bytes) (slashesPlain bytes) := by
    rw [← text_unescape_escape]
    have different : slash ≠ percent := by decide
    exact replaces_text different valid
  rw [escaped]
  refine ⟨ends, ?_, ?_, ?_⟩
  · rw [unescapeSlashes_escape, text_unescape_escape]
  · intro result other
    exact other.unique ends
  · intro upper fileName lower split clean
    have kept : slashesPlain fileName = escape fileName := by
      rw [← text_unescape_escape, unescape_part clean]
    rw [split, ← kept, slashesPlain, List.flatMap_append, List.flatMap_append]
    rfl

/-- A file name with the text "%2F" keeps its percent sign escaped. -/
theorem unescapes_only_slashes_percent :
    ¬ AllPeriods (ascii "/a%2Fb") ∧
      unescapeSlashes (Reference.ndn.toEscapedString (ascii "/a%2Fb")) = ascii "/a%252Fb" := by
  have notPeriods : ¬ AllPeriods (ascii "/a%2Fb") := by decide
  refine ⟨notPeriods, ?_⟩
  rw [(unescapes_only_slashes Reference.ndn notPeriods).2.1]
  decide

/-- An escaped component comes back when the second escape changes no byte. -/
theorem uriComponent_escapeComponent_iff (component : Component) :
    uriComponent (escapeComponent component) = component ↔
      ∀ byte ∈ component, isPlain byte = true := by
  by_cases periods : AllPeriods component
  · have all := allPeriods_dots periods
    rw [escapeComponent, if_pos periods, uriComponent, if_pos all]
    exact iff_of_true rfl (allPeriods_plain periods)
  · have other : ¬ AllPeriods (escape component) := mt allPeriods_escape.mp periods
    rw [escapeComponent, if_neg periods, uriComponent, if_neg other]
    constructor
    · intro same byte member
      by_contra changed
      have longer := length_lt_escape member (Bool.eq_false_iff.mpr changed)
      rw [same] at longer
      exact Nat.lt_irrefl _ longer
    · exact escape_of_plain

/-- A file name comes back unless it loses three periods. -/
theorem uriComponent_eq_iff {name : Bytes} (valid : ValidName name) :
    uriComponent name = name ↔ ¬ AllPeriods name := by
  constructor
  · intro same periods
    have enough := valid.proper.three_le periods
    have lengths := congrArg List.length same
    rw [uriComponent, if_pos periods, List.length_drop] at lengths
    omega
  · intro other
    exact if_neg other

theorem map_eq_self_iff {A : Type} {step : A → A} {list : List A} :
    list.map step = list ↔ ∀ item ∈ list, step item = item := by
  have same := List.map_inj_left (f := step) (g := id) (l := list)
  rwa [List.map_id] at same

namespace FileSystem

variable (fs : FileSystem) (served : Name) (path : Path) (ver seg : Int)

/-- The signed name has the components of the prefix, the file names, the version and the segment,
and no other path gets it. -/
structure NamedRight : Prop where
  components : fs.segName path.text ver seg = served ++ path.names ++
    [fs.ndn.versionComponent ver, fs.ndn.segmentComponent seg]
  unique : ∀ (other : Path) (ver' seg' : Int),
    fs.segName other.text ver' seg' = fs.segName path.text ver seg → other = path

/-- The prefix is not the root and has only bytes that are not escaped, and no file name has only
periods. -/
structure NamedRightWhen : Prop where
  nonempty : served ≠ []
  plain : ∀ component ∈ served, ∀ byte ∈ component, isPlain byte = true
  letters : ∀ name ∈ path.names, ¬ AllPeriods name

variable {fs} {served} {path} {ver} {seg}

/-- The path can be told from a name with a prefix. -/
theorem segName_path (nonempty : served ≠ []) (canonical : fs.globalPrefix = fs.ndn.toUri served)
    {other : Path} {ver' seg' : Int}
    (same : fs.segName other.text ver' seg' = fs.segName path.text ver seg) : other = path := by
  rw [fs.segName_eq nonempty canonical, fs.segName_eq nonempty canonical] at same
  have parts := congrArg (List.map rawPart) (List.append_inj_left' same rfl)
  have back (path : Path) : ((nameParts served path).map uriComponent).map rawPart =
      nameParts served path := by
    rw [List.map_map, map_eq_self_iff]
    exact fun part member => (nameParts_proper served path part member).rawPart_uriComponent
  rw [back, back] at parts
  exact Path.ext_names (List.append_cancel_left parts)

/-- The name is made of the right components exactly when none is changed. -/
theorem segName_components_iff (nonempty : served ≠ [])
    (canonical : fs.globalPrefix = fs.ndn.toUri served) :
    fs.segName path.text ver seg = served ++ path.names ++
        [fs.ndn.versionComponent ver, fs.ndn.segmentComponent seg] ↔
      (∀ component ∈ served, ∀ byte ∈ component, isPlain byte = true) ∧
        ∀ name ∈ path.names, ¬ AllPeriods name := by
  have upper : (served.map escapeComponent).map uriComponent = served ↔
      ∀ component ∈ served, ∀ byte ∈ component, isPlain byte = true := by
    rw [List.map_map, map_eq_self_iff]
    exact forall₂_congr fun component _ => uriComponent_escapeComponent_iff component
  have lower : path.names.map uriComponent = path.names ↔ ∀ name ∈ path.names, ¬ AllPeriods name := by
    rw [map_eq_self_iff]
    exact forall₂_congr fun name member => uriComponent_eq_iff (path.valid name member)
  rw [fs.segName_eq nonempty canonical, List.append_left_inj, nameParts, List.map_append, ← upper,
    ← lower]
  constructor
  · intro same
    exact List.append_inj same (by simp)
  · rintro ⟨first, second⟩
    rw [first, second]

/-- With the root prefix the first file name is taken for an authority. -/
theorem segName_root (canonical : fs.globalPrefix = fs.ndn.toUri [])
    (authority : fs.ndn.DropsAuthority) (path : Path) (ver seg : Int) :
    fs.segName path.text ver seg = (path.names.drop 1).map uriComponent ++
      [fs.ndn.versionComponent ver, fs.ndn.segmentComponent seg] := by
  have fullName : fs.globalPrefix ++ path.text = joinSlash ([] :: path.parts) := by
    rw [canonical, fs.ndn.toUri_nil, Path.text, joinSlash_cons]
    rfl
  have clean : ∀ part ∈ [] :: path.parts, slash ∉ part :=
    List.forall_mem_cons.mpr ⟨by simp, path.slash_notMem_parts⟩
  have notPeriods : ¬ AllPeriods (joinSlash ([] :: path.parts)) := fun periods =>
    absurd (periods slash (by simp)) (by decide)
  have name : fs.ndn.nameOfUri (joinSlash (([] :: path.parts).map escape)) =
      (path.names.drop 1).map uriComponent := by
    have valid := path.valid
    rw [Path.parts]
    cases names : path.names with
    | nil => exact authority [] []
    | cons name names =>
        rw [if_neg (List.cons_ne_nil _ _), authority, List.drop_succ_cons, List.drop_zero]
        apply filterMap_uriPart
        intro part member
        exact (valid part (names ▸ List.mem_cons_of_mem name member)).proper
  rw [segName, fs.ndn.toEscapedString_eq, fullName, escapeComponent, if_neg notPeriods,
    unescapeSlashes_join clean, name]

/-- Two paths that differ in their first name get the same name. -/
theorem not_unique_root (canonical : fs.globalPrefix = fs.ndn.toUri [])
    (authority : fs.ndn.DropsAuthority) : ¬ fs.NamedRight [] path ver seg := by
  intro right
  obtain ⟨fresh, valid, different⟩ : ∃ fresh, ValidName fresh ∧ path.names.head? ≠ some fresh := by
    by_cases first : path.names.head? = some (ascii "a")
    · refine ⟨ascii "b", by decide, ?_⟩
      rw [first]
      decide
    · exact ⟨ascii "a", by decide, first⟩
  have validNames : ∀ name ∈ fresh :: path.names.drop 1, ValidName name :=
    List.forall_mem_cons.mpr ⟨valid, fun name member =>
      path.valid name (List.mem_of_mem_drop member)⟩
  have same := right.unique ⟨_, validNames⟩ ver seg (by
    rw [segName_root canonical authority, segName_root canonical authority]
    rfl)
  apply different
  rw [← same]
  rfl

/-- The signed names are right exactly under this condition on the prefix and the path. -/
theorem namedRight_iff (canonical : fs.globalPrefix = fs.ndn.toUri served)
    (authority : fs.ndn.DropsAuthority) (path : Path) (ver seg : Int) :
    fs.NamedRight served path ver seg ↔ NamedRightWhen served path := by
  by_cases root : served = []
  · subst root
    exact iff_of_false (not_unique_root canonical authority) fun right => right.nonempty rfl
  · have components : fs.segName path.text ver seg = served ++ path.names ++
        [fs.ndn.versionComponent ver, fs.ndn.segmentComponent seg] ↔ _ :=
      segName_components_iff root canonical
    constructor
    · intro right
      obtain ⟨plain, letters⟩ := components.mp right.components
      exact ⟨root, plain, letters⟩
    · intro right
      exact ⟨components.mpr ⟨right.plain, right.letters⟩, fun _ _ _ => segName_path root canonical⟩

/-- The names of a file with one letter are right under the default prefix. -/
theorem namedRight_iff_letter :
    Reference.deployment.fs.NamedRight [ascii "ndn", ascii "broadcast", ascii "ndnfs"]
        ⟨[ascii "a"], by decide⟩ 2 0 ↔
      NamedRightWhen [ascii "ndn", ascii "broadcast", ascii "ndnfs"] ⟨[ascii "a"], by decide⟩ :=
  namedRight_iff Reference.canonical.uri Reference.dropsAuthority _ 2 0

/-- The file "..." is signed under an empty component. -/
theorem namedRight_fails : ¬ ∀ (fs : FileSystem) (served : Name) (path : Path) (ver seg : Int),
    fs.globalPrefix = fs.ndn.toUri served → fs.ndn.DropsAuthority →
      fs.NamedRight served path ver seg := by
  intro claim
  have right := claim Reference.deployment.fs _ ⟨[ascii "..."], by decide⟩ 2 0
    Reference.canonical.uri Reference.dropsAuthority
  have components := right.components
  revert components
  decide

end FileSystem

end Ndnfs

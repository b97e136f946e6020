import Ndnfs.Fs.SegmentName
import Ndnfs.Server.Deployment
import Ndnfs.Server.Scan

namespace Ndnfs
open MachineInteger Percent NdnCpp

/-- The part stands for itself in an escaped path. -/
def Carried (part : Bytes) : Prop := part ≠ ascii "..." ∧ ∀ byte ∈ part, isPlain byte = true

instance (part : Bytes) : Decidable (Carried part) := inferInstanceAs (Decidable (_ ∧ _))

theorem kind_of_first {first : UInt8} (plain : isPlain first = true ∨ first = percent)
    (rest : Bytes) : componentKind (first :: rest) = .plain := by
  have other (marker : UInt8) (unused : ¬ (isPlain marker = true ∨ marker = percent)) :
      first ≠ marker := by
    rintro rfl
    exact unused plain
  simp [componentKind, other versionMarker (by decide), other segmentMarker (by decide),
    other metaMarker (by decide)]

/-- Text without a marker byte is a plain component unless nothing of it is left. -/
theorem kind_uriComponent {part : Bytes}
    (text : ∀ byte ∈ part, isPlain byte = true ∨ byte = percent)
    (nonempty : componentKind (uriComponent part) ≠ .empty) :
    componentKind (uriComponent part) = .plain := by
  have inside : ∀ byte ∈ uriComponent part, byte ∈ part := by
    intro byte member
    unfold uriComponent at member
    split at member
    · exact List.mem_of_mem_drop member
    · exact member
  cases shape : uriComponent part with
  | nil => exact absurd (by rw [shape]; rfl) nonempty
  | cons first rest => exact kind_of_first (text first (inside first (by simp [shape]))) rest

theorem length_le_uriComponent (part : Bytes) :
    part.length ≤ (escapeComponent (uriComponent part)).length := by
  unfold uriComponent
  split
  · rename_i periods
    have rest : AllPeriods (part.drop 3) := fun byte member =>
      periods byte (List.mem_of_mem_drop member)
    rw [escapeComponent, if_pos rest, List.length_append, List.length_drop]
    change part.length ≤ 3 + (part.length - 3)
    omega
  · exact length_le_escapeComponent part

/-- An escape of the same length changes no byte. -/
theorem plain_of_length {part : Bytes}
    (same : (escapeComponent (uriComponent part)).length = part.length) :
    ∀ byte ∈ part, isPlain byte = true := by
  by_cases periods : AllPeriods part
  · exact allPeriods_plain periods
  · intro byte member
    by_contra other
    have longer := length_lt_escape member (Bool.eq_false_iff.mpr other)
    rw [uriComponent, if_neg periods, escapeComponent, if_neg periods] at same
    omega

theorem Carried.escape_uriComponent {part : Bytes} (carried : Carried part)
    (proper : ProperPart part) : escapeComponent (uriComponent part) = part := by
  rw [← escape_rawPart, proper.rawPart_uriComponent, escape_of_plain carried.2]

theorem Carried.kind_plain {part : Bytes} (carried : Carried part) (proper : ProperPart part) :
    componentKind (uriComponent part) = .plain := by
  refine kind_uriComponent (fun byte member => .inl (carried.2 byte member)) fun empty => ?_
  have same := carried.escape_uriComponent proper
  rw [componentKind_empty empty] at same
  exact carried.1 same.symm

/-- Only the part of three periods leaves nothing. -/
theorem ne_threePeriods {part : Bytes} (nonempty : componentKind (uriComponent part) ≠ .empty) :
    part ≠ ascii "..." := by
  rintro rfl
  exact nonempty (by decide)

/-- Longer parts make a longer text. -/
theorem length_joinSlash_le {parts : List Bytes} {grow : Bytes → Bytes}
    (longer : ∀ part ∈ parts, part.length ≤ (grow part).length) :
    (joinSlash parts).length ≤ (joinSlash (parts.map grow)).length := by
  induction parts with
  | nil => exact Nat.le_refl _
  | cons part parts ih =>
      have head := longer part List.mem_cons_self
      have tail := ih fun other member => longer other (List.mem_cons_of_mem part member)
      simp only [List.map_cons, joinSlash_cons, List.length_cons, List.length_append]
      omega

/-- The text keeps its length only when each part does. -/
theorem length_of_joinSlash_le {parts : List Bytes} {grow : Bytes → Bytes}
    (longer : ∀ part ∈ parts, part.length ≤ (grow part).length)
    (bound : (joinSlash (parts.map grow)).length ≤ (joinSlash parts).length) :
    ∀ part ∈ parts, (grow part).length = part.length := by
  induction parts with
  | nil => simp
  | cons part parts ih =>
      have head := longer part List.mem_cons_self
      have rest : ∀ other ∈ parts, other.length ≤ (grow other).length := fun other member =>
        longer other (List.mem_cons_of_mem part member)
      have tail := length_joinSlash_le rest
      simp only [List.map_cons, joinSlash_cons, List.length_cons, List.length_append] at bound
      refine List.forall_mem_cons.mpr ⟨by omega, ih rest (by omega)⟩

theorem carried_escapeComponent (component : Component) :
    Carried (escapeComponent component) ↔
      component ≠ [] ∧ ∀ byte ∈ component, isPlain byte = true := by
  constructor
  · intro carried
    refine ⟨?_, fun byte member => ?_⟩
    · rintro rfl
      exact carried.1 (by decide)
    · by_contra other
      have notPeriods : ¬ AllPeriods component := fun periods =>
        other (allPeriods_plain periods byte member)
      obtain ⟨first, second, rfl⟩ := List.append_of_mem member
      have escaped := carried.2 percent (by
        rw [escapeComponent, if_neg notPeriods, escape_append, escape_cons,
          escapeByte_other (Bool.eq_false_iff.mpr other)]
        simp [Token.text])
      exact absurd escaped (by decide)
  · rintro ⟨nonempty, plain⟩
    by_cases periods : AllPeriods component
    · have all : AllPeriods (ascii "..." ++ component) :=
        List.forall_mem_append.mpr ⟨by decide, periods⟩
      rw [escapeComponent, if_pos periods]
      exact ⟨fun same => nonempty (List.append_right_eq_self.mp same), allPeriods_plain all⟩
    · rw [escapeComponent, if_neg periods, escape_of_plain plain]
      refine ⟨?_, plain⟩
      rintro rfl
      exact periods (by decide)

/-- The text of a path is a slash or the text of its names. -/
theorem Path.text_eq (path : Path) :
    path.text = if joinSlash path.names = [] then ascii "/" else joinSlash path.names := by
  unfold Path.text Path.parts
  cases path.names with
  | nil => rfl
  | cons name names => simp

namespace Deployment

variable (deployment : Deployment)

/-- The server finds the file, the version and the segment in the signed name. -/
def NamesAgree (path : Path) (version seg : Int) : Prop :=
  deployment.server.parseName (deployment.fs.segName path.text version seg) =
    .ok ⟨3, version, seg, path.text⟩

/-- No escape changes the prefix or the path, and the version is no blank one. -/
def NamesAgreeWhen (served : Name) (path : Path) (version : Int) : Prop :=
  (∀ component ∈ served, component ≠ [] ∧ ∀ byte ∈ component, isPlain byte = true) ∧
    (∀ name ∈ path.names, Carried name) ∧ version ≠ -1

instance (served : Name) (path : Path) (version : Int) :
    Decidable (NamesAgreeWhen served path version) :=
  inferInstanceAs (Decidable (_ ∧ _))

theorem carried_nameParts (served : Name) (path : Path) :
    (∀ part ∈ FileSystem.nameParts served path, Carried part) ↔
      (∀ component ∈ served, component ≠ [] ∧ ∀ byte ∈ component, isPlain byte = true) ∧
        ∀ name ∈ path.names, Carried name := by
  simp only [FileSystem.nameParts, List.forall_mem_append, List.forall_mem_map,
    carried_escapeComponent]

/-- A name of carried parts comes back. -/
theorem namesAgree_of_carried {served : Name} (canonical : deployment.Canonical served)
    {path : Path} {version seg : Int} (range : IsInt version) (rangeSeg : IsInt seg)
    (known : version ≠ -1) (knownSeg : seg ≠ -1)
    (carried : ∀ part ∈ FileSystem.nameParts served path, Carried part) :
    deployment.NamesAgree path version seg := by
  have proper := FileSystem.nameParts_proper served path
  have plain : ∀ component ∈ (FileSystem.nameParts served path).map uriComponent,
      componentKind component = .plain := by
    intro component member
    obtain ⟨part, inside, rfl⟩ := List.mem_map.mp member
    exact (carried part inside).kind_plain (proper part inside)
  have text : Server.plainText ((FileSystem.nameParts served path).map uriComponent) =
      joinSlash (served.map escapeComponent) ++ joinSlash path.names := by
    have same : ((FileSystem.nameParts served path).map uriComponent).map escapeComponent =
        FileSystem.nameParts served path := by
      rw [List.map_map]
      exact (List.map_congr_left fun part member =>
        (carried part member).escape_uriComponent (proper part member)).trans (List.map_id _)
    rw [Server.plainText_of_plain plain, same, FileSystem.nameParts, joinSlash_append]
  have scanned := deployment.server.scanName_segmentName (Server.isFront_of_plain plain) range
    rangeSeg known
  rw [NamesAgree, deployment.fs.segName_eq canonical.nonempty canonical.uri]
  refine (deployment.server.parseName_accepted scanned).trans
    ((deployment.server.finish_prefix text ?_).trans ?_)
  · exact congrArg List.length canonical.uri_eq
  · rw [path.text_eq, Server.Scan.ret, if_pos ⟨known, knownSeg⟩]

/-- The path that comes back has only plain bytes, percent signs and slashes. -/
theorem mem_plainText {name : Name} {byte : UInt8} (member : byte ∈ Server.plainText name) :
    isPlain byte = true ∨ byte = percent ∨ byte = slash := by
  simp only [Server.plainText, joinSlash, List.mem_flatMap, List.mem_map, List.mem_cons] at member
  obtain ⟨_, ⟨component, -, rfl⟩, same | inside⟩ := member
  · exact .inr (.inr same)
  · exact (mem_escapeComponent inside).imp_right .inl

theorem mem_text_of_names {path : Path} {name : Bytes} (member : name ∈ path.names) {byte : UInt8}
    (inside : byte ∈ name) : byte ∈ path.text := by
  have nonempty : path.names ≠ [] := List.ne_nil_of_mem member
  rw [Path.text, Path.parts, if_neg nonempty]
  exact List.mem_flatMap.mpr ⟨name, member, List.mem_cons_of_mem slash inside⟩

/-- The text of a longer name would not come back. -/
theorem length_of_text {uri text : Bytes} {path : Path} (last : text.getLast? ≠ some slash)
    (enough : uri.length ≤ text.length)
    (same : path.text = if text.drop uri.length = [] then ascii "/" else text.drop uri.length) :
    text.length ≤ (uri ++ joinSlash path.names).length := by
  rw [List.length_append]
  split at same
  · rename_i cut
    have bound := List.drop_eq_nil_iff.mp cut
    omega
  · by_cases root : joinSlash path.names = []
    · rw [path.text_eq, if_pos root] at same
      have ending : text.getLast? = some slash := by
        rw [← List.take_append_drop uri.length text, ← same, List.getLast?_append]
        rfl
      exact absurd ending last
    · rw [path.text_eq, if_neg root] at same
      rw [same, List.length_drop]
      omega

/-- A name that comes back consists of carried parts. -/
theorem carried_of_namesAgree {served : Name} (canonical : deployment.Canonical served)
    {path : Path} {version seg : Int} (agree : deployment.NamesAgree path version seg) :
    version ≠ -1 ∧ ∀ part ∈ FileSystem.nameParts served path, Carried part := by
  rw [NamesAgree, deployment.fs.segName_eq canonical.nonempty canonical.uri] at agree
  obtain ⟨scan, scanned, finished⟩ := deployment.server.parseName_ok agree (by simp)
  obtain ⟨enough, parsed⟩ := deployment.server.finish_eq_ok finished
  obtain ⟨nonempty, oss⟩ := deployment.server.scanName_complete scanned
  obtain ⟨ret, versionSame, segSame, textSame⟩ := Parsed.mk.inj parsed
  have known : version ≠ -1 := by
    intro blank
    rw [versionSame] at blank
    rw [Server.Scan.ret, if_neg fun known => known.1 blank, if_neg fun known => known.1 blank] at ret
    exact absurd ret (by decide)
  have pathBytes : ∀ byte ∈ path.text, isPlain byte = true ∨ byte = percent ∨ byte = slash := by
    intro byte member
    rw [textSame] at member
    split at member
    · exact .inr (.inr (List.mem_singleton.mp member))
    · have inside := List.mem_of_mem_drop member
      rw [oss] at inside
      exact mem_plainText inside
  have bytes : ∀ part ∈ FileSystem.nameParts served path, ∀ byte ∈ part,
      isPlain byte = true ∨ byte = percent := by
    intro part member byte inside
    rcases List.mem_append.mp member with upper | lower
    · obtain ⟨component, -, rfl⟩ := List.mem_map.mp upper
      exact mem_escapeComponent inside
    · have noSlash : byte ≠ slash := fun same => (path.valid part lower).no_slash (same ▸ inside)
      rcases pathBytes byte (mem_text_of_names lower inside) with plain | percent | slash
      · exact .inl plain
      · exact .inr percent
      · exact absurd slash noSlash
  have kept : ∀ part ∈ FileSystem.nameParts served path,
      componentKind (uriComponent part) ≠ .empty := fun part member =>
    nonempty _ (List.mem_append_left _ (List.mem_map_of_mem member))
  have plain : ∀ component ∈ (FileSystem.nameParts served path).map uriComponent,
      componentKind component = .plain :=
    List.forall_mem_map.mpr fun part member =>
      kind_uriComponent (bytes part member) (kept part member)
  have text : scan.oss = joinSlash ((FileSystem.nameParts served path).map
      (escapeComponent ∘ uriComponent)) := by
    rw [oss, Server.plainText_append, Server.plainText_of_plain plain, Server.plainText_other,
      List.append_nil, List.map_map]
    · rfl
    · intro component member
      simp only [List.mem_cons, List.not_mem_nil, or_false] at member
      rcases member with rfl | rfl
      · have kind := deployment.server.componentKind_versionComponent version
        exact fun plain => absurd (kind.symm.trans plain) (by decide)
      · have kind := deployment.server.componentKind_segmentComponent seg
        exact fun plain => absurd (kind.symm.trans plain) (by decide)
  have bound : scan.oss.length ≤ (joinSlash (FileSystem.nameParts served path)).length := by
    rw [FileSystem.nameParts, joinSlash_append, ← canonical.uri_eq]
    refine length_of_text ?_ enough textSame
    rw [text, ← List.map_map]
    exact getLast_joinSlash (clean_escape _)
  rw [text] at bound
  have lengths := length_of_joinSlash_le (fun part _ => length_le_uriComponent part) bound
  exact ⟨known, fun part member =>
    ⟨ne_threePeriods (kept part member), plain_of_length (lengths part member)⟩⟩

theorem namesAgree_iff {served : Name} (canonical : deployment.Canonical served) (path : Path)
    {version seg : Int} (range : IsInt version) (rangeSeg : IsInt seg) (nonneg : 0 ≤ seg) :
    deployment.NamesAgree path version seg ↔ NamesAgreeWhen served path version := by
  constructor
  · intro agree
    obtain ⟨known, carried⟩ := deployment.carried_of_namesAgree canonical agree
    obtain ⟨plain, names⟩ := (carried_nameParts served path).mp carried
    exact ⟨plain, names, known⟩
  · rintro ⟨plain, names, known⟩
    exact deployment.namesAgree_of_carried canonical range rangeSeg known (by omega)
      ((carried_nameParts served path).mpr ⟨plain, names⟩)

theorem namesAgree_iff_file : Reference.deployment.NamesAgree ⟨[ascii "a"], by decide⟩ 7 0 :=
  (Reference.deployment.namesAgree_iff Reference.canonical _ (by decide) (by decide)
    (by decide)).mpr (by decide)

/-- The server looks for the escape of a blank. -/
theorem namesAgree_fails : ¬ ∀ (deployment : Deployment) (served : Name) (path : Path)
    (version seg : Int), deployment.Canonical served → IsInt version → IsInt seg → 0 ≤ seg →
    deployment.NamesAgree path version seg := by
  intro claim
  have agree := claim Reference.deployment _ ⟨[ascii "a b"], by decide⟩ 7 0 Reference.canonical
    (by decide) (by decide) (by decide)
  revert agree
  unfold NamesAgree
  decide

end Deployment

end Ndnfs

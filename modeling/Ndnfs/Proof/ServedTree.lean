import Ndnfs.Proof.TouchedPath
import Ndnfs.System.Path

namespace Ndnfs
open Effect Program MachineInteger Percent NdnCpp

/-- This text is empty or starts with a slash, and no component of it leads upwards. -/
def StaysInside (rest : Bytes) : Prop :=
  (rest = [] ∨ rest.head? = some slash) ∧ ascii ".." ∉ rest.splitOn slash

instance (rest : Bytes) : Decidable (StaysInside rest) := inferInstanceAs (Decidable (_ ∧ _))

/-- The path is the root followed by a text that stays inside. -/
def Below (root path : Bytes) : Prop := ∃ rest, path = root ++ rest ∧ StaysInside rest

theorem below_append_iff (root rest : Bytes) : Below root (root ++ rest) ↔ StaysInside rest := by
  constructor
  · rintro ⟨other, same, inside⟩
    rw [List.append_cancel_left same]
    exact inside
  · intro inside
    exact ⟨rest, rfl, inside⟩

theorem escapeComponent_ne_dotdot (component : Component) :
    escapeComponent component ≠ ascii ".." := by
  unfold escapeComponent
  split
  · intro same
    have lengths := congrArg List.length same
    simp [ascii] at lengths
  · rename_i other
    intro same
    apply other
    rw [← allPeriods_escape, same]
    decide

/-- Every text is a part without a slash and parts that a slash precedes. -/
theorem exists_joinSlash (bytes : Bytes) : ∃ first parts, bytes = first ++ joinSlash parts ∧
    slash ∉ first ∧ ∀ part ∈ parts, slash ∉ part := by
  induction bytes with
  | nil => exact ⟨[], [], rfl, by simp, by simp⟩
  | cons byte bytes ih =>
      obtain ⟨first, parts, rfl, absent, clean⟩ := ih
      by_cases here : byte = slash
      · subst here
        exact ⟨[], first :: parts, rfl, by simp, List.forall_mem_cons.mpr ⟨absent, clean⟩⟩
      · exact ⟨byte :: first, parts, rfl, by simp [absent, Ne.symm here], clean⟩

theorem joinSlash_of_head {bytes : Bytes} (head : bytes.head? = some slash) :
    ∃ parts, parts ≠ [] ∧ bytes = joinSlash parts ∧ ∀ part ∈ parts, slash ∉ part := by
  obtain ⟨first, parts, rfl, absent, clean⟩ := exists_joinSlash bytes
  cases first with
  | nil =>
      refine ⟨parts, ?_, rfl, clean⟩
      rintro rfl
      cases head
  | cons byte first =>
      obtain rfl := Option.some.inj head
      exact absurd List.mem_cons_self absent

/-- A cut in front of a slash leaves the last parts. -/
theorem drop_joinSlash {parts : List Bytes} (clean : ∀ part ∈ parts, slash ∉ part) {count : Nat}
    (head : ((joinSlash parts).drop count).head? = some slash) :
    ∃ index, (joinSlash parts).drop count = joinSlash (parts.drop index) := by
  induction parts generalizing count with
  | nil => simp at head
  | cons part parts ih =>
      have absent := clean part List.mem_cons_self
      have rest : ∀ other ∈ parts, slash ∉ other := fun other member =>
        clean other (List.mem_cons_of_mem part member)
      cases count with
      | zero => exact ⟨0, rfl⟩
      | succ count =>
          rw [joinSlash_cons, List.drop_succ_cons] at head ⊢
          by_cases short : count < part.length
          · rw [List.drop_append_of_le_length (Nat.le_of_lt short), List.head?_append,
              List.head?_drop, List.getElem?_eq_getElem short, Option.some_or] at head
            rw [← Option.some.inj head] at absent
            exact absurd (List.getElem_mem short) absent
          · have enough := Nat.le_of_not_lt short
            rw [List.drop_append, List.drop_of_length_le enough, List.nil_append] at head ⊢
            obtain ⟨index, cut⟩ := ih rest head
            exact ⟨index + 1, cut⟩

namespace Server

variable (server : Server)

theorem cutPath_ne_nil (name : Name) : server.cutPath name ≠ [] := by
  unfold cutPath
  split
  · decide
  · assumption

/-- A path that starts with a slash has whole components of the name, so none leads upwards. -/
theorem cutPath_parts {name : Name} (head : (server.cutPath name).head? = some slash) :
    ∃ parts, server.cutPath name = joinSlash parts ∧
      ∀ part ∈ parts, slash ∉ part ∧ part ≠ ascii ".." := by
  unfold cutPath at head ⊢
  split
  · exact ⟨[[]], rfl, by decide⟩
  · rename_i filled
    rw [if_neg filled] at head
    obtain ⟨index, cut⟩ := drop_joinSlash (fun part member => (clean_escape _ part member).2) head
    refine ⟨_, cut, fun part member => ?_⟩
    obtain ⟨component, -, rfl⟩ := List.mem_map.mp (List.mem_of_mem_drop member)
    exact ⟨slash_notMem_escapeComponent component, escapeComponent_ne_dotdot component⟩

theorem staysInside_cutPath_iff (name : Name) :
    StaysInside (server.cutPath name) ↔ (server.cutPath name).head? = some slash := by
  constructor
  · rintro ⟨empty | head, -⟩
    · exact absurd empty (server.cutPath_ne_nil name)
    · exact head
  · intro head
    obtain ⟨parts, join, clean⟩ := server.cutPath_parts head
    refine ⟨.inr head, ?_⟩
    rw [join, Disk.splitOn_joinSlash fun part member => (clean part member).1]
    intro member
    rcases List.mem_cons.mp member with empty | inside
    · cases empty
    · exact (clean _ inside).2 rfl

/-- The last component of the path is the one that a cut of "_list" turns into "..". -/
def EndsUpwards (path : Bytes) : Prop :=
  (path.splitOn slash).getLast? = some (ascii ".." ++ contentMetaString)

instance (path : Bytes) : Decidable (EndsUpwards path) := inferInstanceAs (Decidable (_ = _))

/-- The path of a directory is cut between components and does not come to end in "..". -/
def DirectoryInside (path : Bytes) : Prop :=
  (queryPath path = [] ∨ (queryPath path).head? = some slash) ∧ ¬ EndsUpwards path

instance (path : Bytes) : Decidable (DirectoryInside path) := inferInstanceAs (Decidable (_ ∧ _))

theorem queryPath_append (path : Bytes) : queryPath (path ++ contentMetaString) = path := by
  rw [queryPath, if_pos (List.suffix_append path contentMetaString), List.length_append,
    Nat.add_sub_cancel, List.take_left]

/-- The last component of a text that ends in "_list" is the cut one with "_list". -/
theorem endsUpwards_append_iff {parts : List Bytes} {last : Bytes}
    (clean : ∀ part ∈ parts, slash ∉ part) (absent : slash ∉ last) :
    EndsUpwards (joinSlash (parts ++ [last]) ++ contentMetaString) ↔ last = ascii ".." := by
  have join : joinSlash (parts ++ [last]) ++ contentMetaString =
      joinSlash (parts ++ [last ++ contentMetaString]) := by simp
  have clean' : ∀ part ∈ parts ++ [last ++ contentMetaString], slash ∉ part := by
    intro part member
    rcases List.mem_append.mp member with before | here
    · exact clean part before
    · rw [List.mem_singleton.mp here, List.mem_append, not_or]
      exact ⟨absent, by decide⟩
  rw [join, EndsUpwards, Disk.splitOn_joinSlash clean', ← List.cons_append, List.getLast?_concat,
    Option.some.injEq]
  exact List.append_left_inj contentMetaString

/-- A path whose last component ends in "_list" ends in "_list". -/
theorem suffix_of_endsUpwards {path : Bytes} (head : path.head? = some slash)
    (upwards : EndsUpwards path) : contentMetaString <:+ path := by
  obtain ⟨parts, nonempty, rfl, clean⟩ := joinSlash_of_head head
  rw [EndsUpwards, Disk.splitOn_joinSlash clean, List.getLast?_cons_of_ne_nil nonempty] at upwards
  obtain ⟨front, rfl⟩ := List.getLast?_eq_some_iff.mp upwards
  refine ⟨joinSlash (front ++ [ascii ".."]), ?_⟩
  simp

/-- The cut of "_list" keeps a path inside unless the last component becomes "..". -/
theorem staysInside_queryPath_iff (name : Name) :
    StaysInside (queryPath (server.cutPath name)) ↔ DirectoryInside (server.cutPath name) := by
  refine and_congr_right fun start => not_congr ?_
  by_cases list : contentMetaString <:+ server.cutPath name
  · obtain ⟨path, text⟩ := list
    rw [← text, queryPath_append] at start ⊢
    rcases start with rfl | head
    · decide
    · have whole : (server.cutPath name).head? = some slash := by
        rw [← text, List.head?_append, head, Option.some_or]
      obtain ⟨parts, join, clean⟩ := server.cutPath_parts whole
      obtain ⟨kept, nonempty, rfl, clean'⟩ := joinSlash_of_head head
      rcases List.eq_nil_or_concat kept with rfl | ⟨front, last, rfl⟩
      · exact absurd rfl nonempty
      · rw [List.concat_eq_append] at text clean' ⊢
        have cleanFront : ∀ part ∈ front, slash ∉ part := fun part member =>
          clean' part (List.mem_append_left _ member)
        have absent : slash ∉ last := clean' last (by simp)
        rw [endsUpwards_append_iff cleanFront absent, Disk.splitOn_joinSlash clean']
        constructor
        · intro member
          rcases List.mem_cons.mp member with empty | inside
          · cases empty
          · rcases List.mem_append.mp inside with before | here
            · have same : parts = front ++ [last ++ contentMetaString] := by
                apply joinSlash_injective fun part member => (clean part member).1
                · intro part member
                  rcases List.mem_append.mp member with before | here
                  · exact cleanFront part before
                  · rw [List.mem_singleton.mp here, List.mem_append, not_or]
                    exact ⟨absent, by decide⟩
                · rw [← join, ← text]
                  simp
              exact absurd rfl (clean _ (same ▸ List.mem_append_left _ before)).2
            · exact (List.mem_singleton.mp here).symm
        · rintro rfl
          simp
  · rw [queryPath, if_neg list] at start ⊢
    have head := start.resolve_left (server.cutPath_ne_nil name)
    exact iff_of_false ((server.staysInside_cutPath_iff name).mpr head).2 fun upwards =>
      list (suffix_of_endsUpwards head upwards)

/-- A path that is opened, listed or inspected is below the root. -/
def TouchesBelow (root : Bytes) : (call : Call Cursor Location) → call.Reply → Prop
  | .openFile path _, _ | .stat path, _ | .lstat path, _ | .opendir path, _ => Below root path
  | .time, _ | .uninitialised, _ | .prepare _, _ | .step _, _ | .columnInt .., _
  | .columnText .., _ | .columnBlob .., _ | .readBlob _, _ | .finalize _, _ | .close _, _
  | .pread .., _ | .pwrite .., _ | .truncate .., _ | .unlink _, _ | .mkfifo .., _ | .mknod .., _
  | .mkdir .., _ | .rmdir _, _ | .rename .., _ | .putData _, _ => True

theorem touchesBelow_eq (root : Bytes) : TouchesBelow root = Touches (Below root) := by
  funext call reply
  cases call <;> rfl

theorem below_filePath_iff (path : Bytes) :
    Below server.fsPath (server.filePath path) ↔ StaysInside path :=
  below_append_iff server.fsPath path

/-- No path that the server touches for the Interest leaves the served tree. -/
def StaysInTree (environment : Environment) (state : State) (name : Name) : Prop :=
  (server.onInterestCallback name : Source Cursor Location _).Along handle
    (TouchesBelow server.fsPath) ⟨state, environment⟩

theorem staysInTree_eq (environment : Environment) (state : State) (name : Name) :
    server.StaysInTree environment state name ↔
      server.TouchesOnly (Below server.fsPath) environment state name := by
  rw [StaysInTree, touchesBelow_eq, TouchesOnly]

/-- A file is asked for under a path that starts with a slash, and a directory under one that the
cut of "_list" keeps inside. -/
def TreeKept (state : State) (name : Name) : Prop :=
  ∀ version seg, server.Accepted name version seg →
    server.fsPrefix.length ≤ (plainText name).length →
      (server.AsksFile state name version seg →
        (server.cutPath name).head? = some slash) ∧
      (server.AsksDirectory state name version seg → DirectoryInside (server.cutPath name))

/-- The server touches only paths below its root exactly when the tree is kept. -/
theorem staysInTree_iff (server : Server) (environment : Environment) (state : State)
    (name : Name) : server.StaysInTree environment state name ↔ server.TreeKept state name := by
  rw [staysInTree_eq, touchesOnly_iff]
  simp only [below_filePath_iff, staysInside_cutPath_iff, staysInside_queryPath_iff]
  exact Iff.rfl

/-- The directory above the served one is listed. -/
theorem staysInTree_fails : ¬ ∀ (server : Server) (served rest : Name) (environment : Environment)
    (state : State), server.fsPrefix = server.ndn.toUri served →
      server.StaysInTree environment state (served ++ rest) := by
  intro claim
  have stays := claim Reference.server [ascii "ndn", ascii "broadcast", ascii "ndnfs"]
    [ascii ".._list"] (Reference.calm 1) Reference.newState (by decide)
  have parse : Reference.server.parseName
      ([ascii "ndn", ascii "broadcast", ascii "ndnfs"] ++ [ascii ".._list"]) =
        .ok ⟨1, -1, -1, ascii "/.._list"⟩ := by decide
  rw [staysInTree_eq, touchesOnly_path parse] at stays
  have inside := (Reference.server.below_filePath_iff _).mp (stays.2 (by decide))
  revert inside
  decide

end Server

end Ndnfs

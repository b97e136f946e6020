import Ndnfs.Proof.Numbers
import Ndnfs.Server.Along

namespace Ndnfs
open Effect Program MachineInteger

/-- Every path that is opened, listed or inspected has this property. -/
def Touches (property : Bytes → Prop) : (call : Call Cursor Location) → call.Reply → Prop
  | .openFile path _, _ | .stat path, _ | .lstat path, _ | .opendir path, _ => property path
  | .time, _ | .uninitialised, _ | .prepare _, _ | .step _, _ | .columnInt .., _
  | .columnText .., _ | .columnBlob .., _ | .readBlob _, _ | .finalize _, _ | .close _, _
  | .pread .., _ | .pwrite .., _ | .truncate .., _ | .unlink _, _ | .mkfifo .., _ | .mknod .., _
  | .mkdir .., _ | .rmdir _, _ | .rename .., _ | .putData _, _ => True

theorem ignoresRows_touches (property : Bytes → Prop) : IgnoresRows (Touches property) :=
  ⟨fun _ _ => trivial, fun _ _ => trivial, fun _ _ _ => trivial, fun _ _ _ => trivial,
    fun _ => trivial⟩

namespace Server

variable (server : Server) (property : Bytes → Prop)

section Along

variable (path : Bytes) (world : World)

theorem along_readFileSize_iff :
    (server.readFileSize path : Source Cursor Location _).Along handle (Touches property) world ↔
      property (server.filePath path) := by
  simp only [readFileSize, along_bind, along_perform, run_perform, handle, World.inspect, Touches]
  cases world.environment.outcome (world.state.disk.statText (server.filePath path)) with
  | ok st => exact and_iff_left trivial
  | error error => exact and_iff_left ⟨trivial, trivial⟩

/-- A segment without a row leads to no system call. -/
theorem along_sendFileContent_iff (interestName : Name) (version seg : Int) :
    (server.sendFileContent interestName path version seg : Source Cursor Location _).Along handle
      (Touches property) world ↔
        (world.state.db.fileSegments.Has (path, version, contentSeg seg) →
          property (server.filePath path)) := by
  simp only [sendFileContent, along_bind, along_perform, run_perform, handle, Database.execute,
    code_select_lookup, Touches, true_and]
  by_cases row : world.state.db.fileSegments.Has (path, version, contentSeg seg)
  · simp only [row, ne_eq, not_true_eq_false, if_false, along_bind, along_perform, run_perform,
      handle, server.along_readFileSize_iff property path, forall_const, if_true, Touches,
      true_and, run_readFileSize]
    rw [← and_assoc, and_self]
    refine and_iff_left ?_
    split
    · trivial
    · simp only [along_bind, along_perform, Touches, true_and]
      split
      · trivial
      · split
        · exact ⟨trivial, trivial⟩
        · trivial
  · simp only [row, ne_eq, done_ne_row, not_false_eq_true, if_true, if_false, along_bind,
      false_implies, along_perform, along_pure, and_true, Touches]

/-- Only the metadata of a regular file with a recorded version needs a system call. -/
theorem along_sendFileMeta_iff (mimeType : Bytes) (version type : Int) :
    (server.sendFileMeta path mimeType version type : Source Cursor Location _).Along handle
      (Touches property) world ↔
        (world.state.db.fileVersions.Has (path, version) → type = FileType.regular.code →
          property (server.filePath path)) := by
  have query : (executeOnce (.selectFileVersion path version) : Source Cursor Location Int).Along
      handle (Touches property) world := ⟨trivial, trivial, trivial, trivial⟩
  simp only [sendFileMeta, along_bind, query, true_and, run_executeOnce, Database.execute,
    code_select_lookup]
  by_cases row : world.state.db.fileVersions.Has (path, version)
  · simp only [row, ne_eq, not_true_eq_false, if_false, if_true, forall_const]
    split
    · rename_i regular
      simp only [along_bind, along_perform, along_pure, Touches, and_true,
        server.along_readFileSize_iff property path, regular, forall_const]
    · rename_i other
      exact iff_of_true ⟨trivial, trivial⟩ fun regular => absurd regular other
  · simp only [row, ne_eq, done_ne_row, not_false_eq_true, if_true, if_false, along_pure,
      false_implies]

theorem along_sendDirMeta_iff :
    (server.sendDirMetaBrowserFriendly path : Source Cursor Location _).Along handle
      (Touches property) world ↔ property (server.filePath (queryPath path)) := by
  simp only [sendDirMetaBrowserFriendly, along_bind, along_perform, run_perform, handle,
    World.inspect, Touches]
  refine and_iff_left_of_imp fun inside => ?_
  split
  · trivial
  · simp only [along_bind, along_perform, run_perform, handle, World.inspect, Touches]
    refine ⟨inside, ?_⟩
    split
    · exact ⟨trivial, trivial⟩
    · exact ⟨trivial, trivial, trivial⟩

end Along

/-- Every path that the server touches for the Interest has this property. -/
def TouchesOnly (environment : Environment) (state : State) (name : Name) : Prop :=
  (server.onInterestCallback name : Source Cursor Location _).Along handle (Touches property)
    ⟨state, environment⟩

section Requests

variable {server} {property} {environment : Environment} {state : State} {name : Name}
  {version seg : Int} {path : Bytes}

theorem touchesOnly_segment (parse : server.parseName name = .ok ⟨3, version, seg, path⟩) :
    server.TouchesOnly property environment state name ↔
      (state.db.fileSegments.Has (path, version, contentSeg seg) →
        property (server.filePath path)) := by
  rw [TouchesOnly, along_segment_iff state environment parse]
  exact server.along_sendFileContent_iff property path _ name version seg

theorem touchesOnly_version (parse : server.parseName name = .ok ⟨2, version, seg, path⟩) :
    server.TouchesOnly property environment state name ↔
      (state.db.fileSystem.Has path → state.db.fileSegments.Has (path, version, 0) →
        property (server.filePath path)) := by
  rw [TouchesOnly, along_version_iff (ignoresRows_touches property) state environment parse]
  apply imp_congr_right
  intro _
  exact server.along_sendFileContent_iff property path _ name version (-1)

/-- A path with a row is a file, and a path without one is tried as a directory. -/
theorem touchesOnly_path (parse : server.parseName name = .ok ⟨1, version, seg, path⟩) :
    server.TouchesOnly property environment state name ↔
      (∀ row, state.db.fileSystem.lookup path = some row →
        state.db.fileVersions.Has (path, toInt row.currentVersion) →
          toInt row.type = FileType.regular.code → property (server.filePath path)) ∧
      (¬ state.db.fileSystem.Has path → property (server.filePath (queryPath path))) := by
  rw [TouchesOnly, along_path_iff (ignoresRows_touches property) state environment parse,
    along_sendDirMeta_iff]
  simp only [along_sendFileMeta_iff]

/-- A name that is no request leads to no system call. -/
theorem touchesOnly_of_not_passes (rejected : ¬ server.Passes name) :
    server.TouchesOnly property environment state name := by
  apply along_of_not_request
  intro parsed parse
  by_contra request
  exact rejected (passes_of_parseName parse request)

end Requests

/-- The Interest asks for the bytes of a row, for the first bytes of a version or for the size of
a regular file. -/
def AsksFile (state : State) (name : Name) (version seg : Int) : Prop :=
  let path := server.cutPath name
  version ≠ -1 ∧ seg ≠ -1 ∧ state.db.fileSegments.Has (path, version, seg) ∨
    version ≠ -1 ∧ seg = -1 ∧ hasMarker name = false ∧ state.db.fileSystem.Has path ∧
      state.db.fileSegments.Has (path, version, 0) ∨
    (version = -1 ∨ seg = -1 ∧ hasMarker name = true) ∧
      ∃ row, state.db.fileSystem.lookup path = some row ∧
        state.db.fileVersions.Has (path, toInt row.currentVersion) ∧
        toInt row.type = FileType.regular.code

/-- The Interest asks for a path without a row. -/
def AsksDirectory (state : State) (name : Name) (version seg : Int) : Prop :=
  (version = -1 ∨ seg = -1 ∧ hasMarker name = true) ∧
    ¬ state.db.fileSystem.Has (server.cutPath name)

variable {server} {property}

/-- The numbers of an accepted name decide what is touched. -/
theorem touchesOnly_accepted {name : Name} {version seg : Int}
    (accepted : server.Accepted name version seg)
    (enough : server.fsPrefix.length ≤ (plainText name).length) (environment : Environment)
    (state : State) :
    server.TouchesOnly property environment state name ↔
      (server.AsksFile state name version seg → property (server.filePath (server.cutPath name))) ∧
      (server.AsksDirectory state name version seg →
        property (server.filePath (queryPath (server.cutPath name)))) := by
  have parse := accepted.parse_ok enough
  by_cases general : version = -1 ∨ seg = -1 ∧ hasMarker name = true
  · have one : Scan.ret ⟨version, seg, hasMarker name, plainText name⟩ = 1 := Scan.ret_path general
    have asks : server.AsksFile state name version seg ↔
        ∃ row, state.db.fileSystem.lookup (server.cutPath name) = some row ∧
          state.db.fileVersions.Has (server.cutPath name, toInt row.currentVersion) ∧
          toInt row.type = FileType.regular.code := by
      rcases general with blank | ⟨blank, marker⟩
      · simp [AsksFile, blank]
      · simp [AsksFile, blank, marker]
    have directory : server.AsksDirectory state name version seg ↔
        ¬ state.db.fileSystem.Has (server.cutPath name) := and_iff_right general
    rw [one] at parse
    rw [touchesOnly_path parse, asks, directory]
    simp only [forall_exists_index, and_imp]
  · have known : version ≠ -1 := fun blank => general (.inl blank)
    have noDirectory : ¬ server.AsksDirectory state name version seg := fun directory =>
      general directory.1
    rw [and_iff_left fun directory => absurd directory noDirectory]
    by_cases blank : seg = -1
    · have marker : hasMarker name = false := by
        rw [← Bool.not_eq_true]
        exact fun marker => general (.inr ⟨blank, marker⟩)
      have two : Scan.ret ⟨version, seg, hasMarker name, plainText name⟩ = 2 := by
        rw [blank]
        exact Scan.ret_version known marker
      rw [two] at parse
      rw [touchesOnly_version parse, ← and_imp]
      simp [AsksFile, known, blank, marker]
    · have three : Scan.ret ⟨version, seg, hasMarker name, plainText name⟩ = 3 :=
        Scan.ret_segment known blank
      rw [three] at parse
      rw [touchesOnly_segment parse]
      simp [AsksFile, contentSeg, known, blank]

/-- The numbers of a request and the rows decide what is touched. -/
theorem touchesOnly_iff (environment : Environment) (state : State) (name : Name) :
    server.TouchesOnly property environment state name ↔
      ∀ version seg, server.Accepted name version seg →
        server.fsPrefix.length ≤ (plainText name).length →
          (server.AsksFile state name version seg →
            property (server.filePath (server.cutPath name))) ∧
          (server.AsksDirectory state name version seg →
            property (server.filePath (queryPath (server.cutPath name)))) := by
  by_cases passes : server.Passes name
  · obtain ⟨⟨version, seg, accepted⟩, enough⟩ := passes
    rw [touchesOnly_accepted accepted enough]
    constructor
    · intro kept other otherSeg accepted' _
      obtain ⟨rfl, rfl⟩ := accepted.numbers
      obtain ⟨rfl, rfl⟩ := accepted'.numbers
      exact kept
    · intro kept
      exact kept version seg accepted enough
  · exact iff_of_true (touchesOnly_of_not_passes passes) fun version seg accepted enough =>
      absurd ⟨⟨version, seg, accepted⟩, enough⟩ passes

end Server

end Ndnfs

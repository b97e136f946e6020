import Ndnfs.Fs.Content
import Ndnfs.Proof.CurrentVersion
import Ndnfs.Server.Along
import Ndnfs.Server.Scan

namespace Ndnfs
open Effect Program MachineInteger KeyedTable

/-- Every row belongs to a segment whose offset is an int. -/
def SegmentsSmall (db : Database) : Prop :=
  ∀ path version seg, db.fileSegments.Has (path, version, seg) → 0 ≤ seg ∧ seg < 2 ^ 18

namespace SegmentsSmall

variable {db db' : Database}

theorem of_subset (small : SegmentsSmall db)
    (subset : ∀ key, db'.fileSegments.Has key → db.fileSegments.Has key) : SegmentsSmall db' :=
  fun path version seg present => small path version seg (subset (path, version, seg) present)

theorem signSegments (small : SegmentsSmall db) (fs : FileSystem) (path : Bytes) (ver : Int)
    (content : Bytes) {count : Nat} (bound : count ≤ FileSystem.lastRound) :
    SegmentsSmall (fs.signSegments path ver content db count) := by
  intro other version seg present
  rw [Has, fs.lookup_signSegments] at present
  split at present
  · rename_i signed
    unfold FileSystem.lastRound at bound
    omega
  · exact small other version seg present

/-- A rename gives the rows of the source to the target. -/
theorem renameAll (small : SegmentsSmall db) (source target : Bytes) :
    SegmentsSmall (db.renameAll source target) := by
  by_cases same : source = target
  · rw [same, Database.renameAll_same]
    exact small
  · intro path version seg present
    obtain ⟨signature, found⟩ := has_iff.mp present
    rcases Database.segment_of_renameAll db same found with stays | ⟨-, -, moved⟩
    · exact small path version seg (has_iff.mpr ⟨signature, stays⟩)
    · exact small source version seg (has_iff.mpr ⟨signature, moved⟩)

end SegmentsSmall

namespace FileSystem

variable (fs : FileSystem)

/-- The signing loop stops in the round whose offset is negative. -/
theorem segmentsSmall_release {db : Database} (path : Bytes) (flags : OpenFlags)
    (environment : Environment) (state : State) (small : SegmentsSmall state.db)
    (same : (exec (fs.ndnfsRelease path flags) environment state).2.db = db) :
    SegmentsSmall db := by
  subst same
  by_cases present : state.db.fileSystem.Has path
  · by_cases reading : flags.access = .readOnly
    · rw [fs.exec_ndnfsRelease_reading path environment state present reading]
      exact small
    · have recorded : SegmentsSmall (releaseRows path environment.now state.db) := by
        apply small.of_subset
        intro key row
        rwa [releaseRows, Database.fileSegments_insertFileVersion,
          Database.fileSegments_updateCurrentVersion] at row
      rcases fs.exec_ndnfsRelease_writing path environment state present reading with
        ⟨error, run, -⟩ | ⟨location, content, count, result, -, bound, -, -, run⟩
      · rw [run]
        exact recorded
      · rw [run]
        exact recorded.signSegments fs path _ content bound
  · rw [fs.exec_ndnfsRelease_absent path environment state _ present]
    exact small

theorem segmentsSmall_step {history : History} {request : Request}
    (small : SegmentsSmall history.state.db) :
    SegmentsSmall (fs.step history request).state.db := by
  obtain ⟨operation, environment⟩ := request
  by_cases changes : ChangesVersions operation
  · cases operation with
    | mknod path mode =>
        simp only [step, Operation.program, db_ndnfsMknod]
        split
        · exact small
        · apply small.of_subset
          intro key row
          rwa [mknodRows, Database.fileSegments_insertFileSystem,
            Database.fileSegments_insertFileVersion] at row
    | release path access =>
        exact fs.segmentsSmall_release path.text { access } environment history.state small rfl
    | unlink path =>
        simp only [step, Operation.program, db_ndnfsUnlink]
        exact small
    | rename source target =>
        simp only [step, Operation.program, db_ndnfsRename]
        exact small.renameAll source.text target.text
    | _ => exact changes.elim
  · rw [step, fs.db_of_not_changesVersions changes]
    exact small

/-- From an empty database every run keeps the segments small. -/
theorem segmentsSmall_run (disk : Disk) (sent : List Data) (clock : Int)
    (requests : List Request) :
    SegmentsSmall (Run.after fs.step ⟨⟨.empty, disk, sent⟩, clock⟩ requests).state.db := by
  have holds : Run.Holds fs.step (fun history => SegmentsSmall history.state.db)
      ⟨⟨.empty, disk, sent⟩, clock⟩ requests := by
    apply Run.invariant _ (Run.steps_true fs.step requests)
    · intro path version seg present
      cases present rfl
    · intro history request small _
      exact fs.segmentsSmall_step small
  exact holds.after_prefix (List.prefix_refl requests)

end FileSystem

/-- The offset of the segment is the product, which is in the range of int. -/
def OffsetExact (seg : Int) : Prop :=
  0 ≤ seg ∧ seg < 2 ^ 18 ∧ shiftLeft seg segSizeShift = 8192 * seg

theorem offsetExact_of_small {seg : Int} (nonneg : 0 ≤ seg) (small : seg < 2 ^ 18) :
    OffsetExact seg := by
  obtain ⟨number, rfl⟩ := Int.eq_ofNat_of_zero_le nonneg
  refine ⟨nonneg, small, ?_⟩
  rw [FileSystem.offset_eq (by unfold FileSystem.lastRound; omega), segSize]
  omega

/-- Each pread reads at the exact offset of this segment. -/
def ReadsExactly (seg : Int) : (call : Call Cursor Location) → call.Reply → Prop
  | .pread _ _ offset, _ => OffsetExact seg ∧ offset = shiftLeft seg segSizeShift
  | .time, _ | .uninitialised, _ | .prepare _, _ | .step _, _ | .columnInt .., _
  | .columnText .., _ | .columnBlob .., _ | .readBlob _, _ | .finalize _, _ | .openFile .., _
  | .close _, _ | .pwrite .., _ | .truncate .., _ | .unlink _, _ | .mkfifo .., _ | .mknod .., _
  | .mkdir .., _ | .rmdir _, _ | .rename .., _ | .stat _, _ | .lstat _, _ | .opendir _, _
  | .putData _, _ => True

theorem ignoresRows_readsExactly (seg : Int) : IgnoresRows (ReadsExactly seg) :=
  ⟨fun _ _ => trivial, fun _ _ => trivial, fun _ _ _ => trivial, fun _ _ _ => trivial,
    fun _ => trivial⟩

namespace Server

variable (server : Server)

theorem readsExactly_readFileSize (path : Bytes) (seg : Int) (world : World) :
    (server.readFileSize path : Source Cursor Location _).Along handle (ReadsExactly seg) world := by
  simp only [readFileSize, along_bind, along_perform, run_perform, handle, World.inspect,
    ReadsExactly, true_and]
  cases world.environment.outcome (world.state.disk.statText (server.filePath path)) with
  | ok st => trivial
  | error error => exact ⟨trivial, trivial⟩

/-- The row that sendFileContent finds bounds the segment that it reads. -/
theorem readsExactly_sendFileContent (interestName : Name) (path : Bytes) (version seg : Int)
    (world : World) (small : SegmentsSmall world.state.db) :
    (server.sendFileContent interestName path version seg : Source Cursor Location _).Along handle
      (ReadsExactly (contentSeg seg)) world := by
  simp only [sendFileContent, along_bind, along_perform, run_perform, handle, Database.execute,
    code_select_lookup, ReadsExactly, true_and]
  by_cases row : world.state.db.fileSegments.Has (path, version, contentSeg seg)
  · obtain ⟨nonneg, bound⟩ := small path version (contentSeg seg) row
    simp only [row, ne_eq, not_true_eq_false, if_false, if_true, along_bind, along_perform,
      run_perform, handle, ReadsExactly, true_and, run_readFileSize,
      server.readsExactly_readFileSize path (contentSeg seg)]
    split
    · trivial
    · simp only [along_bind, along_perform, ReadsExactly, true_and]
      refine ⟨⟨offsetExact_of_small nonneg bound, trivial⟩, ?_⟩
      split
      · trivial
      · split
        · exact ⟨trivial, trivial⟩
        · trivial
  · simp only [row, ne_eq, done_ne_row, not_false_eq_true, if_true, if_false, along_bind,
      along_perform, along_pure, and_true, ReadsExactly]

theorem readsExactly_sendFileMeta (path mimeType : Bytes) (version type seg : Int) (world : World) :
    (server.sendFileMeta path mimeType version type : Source Cursor Location _).Along handle
      (ReadsExactly seg) world := by
  have query : (executeOnce (.selectFileVersion path version) : Source Cursor Location Int).Along
      handle (ReadsExactly seg) world := ⟨trivial, trivial, trivial, trivial⟩
  simp only [sendFileMeta, along_bind, query, true_and]
  split
  · trivial
  · split
    · simp only [along_bind, along_perform, along_pure, ReadsExactly, and_true,
        server.readsExactly_readFileSize path seg]
    · exact ⟨trivial, trivial⟩

theorem readsExactly_sendDirMeta (path : Bytes) (seg : Int) (world : World) :
    (server.sendDirMetaBrowserFriendly path : Source Cursor Location _).Along handle
      (ReadsExactly seg) world := by
  simp only [sendDirMetaBrowserFriendly, along_bind, along_perform, run_perform, handle,
    World.inspect, ReadsExactly, true_and]
  split
  · trivial
  · simp only [along_bind, along_perform, run_perform, handle, World.inspect, ReadsExactly,
      true_and]
    split
    · exact ⟨trivial, trivial⟩
    · exact ⟨trivial, trivial, trivial⟩

/-- A version without a segment number leaves the number blank. -/
theorem seg_of_version {name : Name} {version seg : Int} {path : Bytes}
    (parse : server.parseName name = .ok ⟨2, version, seg, path⟩) : seg = -1 := by
  obtain ⟨scan, -, finished⟩ := server.parseName_ok parse (show (2 : Int) ≠ -1 by decide)
  obtain ⟨-, same⟩ := server.finish_eq_ok finished
  obtain ⟨kind, -, rfl, -⟩ := Parsed.mk.inj same
  by_contra known
  have other : Scan.ret scan ≠ 2 := by
    unfold Scan.ret
    split
    · decide
    · rename_i either
      rw [if_neg fun two => either ⟨two.1, known⟩]
      decide
  exact other kind.symm

/-- The segment that the server reads for the Interest has an exact offset. -/
def ReadsInRange (environment : Environment) (state : State) (name : Name) : Prop :=
  match server.parseName name with
  | .error _ => True
  | .ok parsed =>
      (server.onInterestCallback name : Source Cursor Location _).Along handle
        (ReadsExactly (contentSeg parsed.seg)) ⟨state, environment⟩

theorem readsInRange_of_small (environment : Environment) {state : State}
    (small : SegmentsSmall state.db) (name : Name) :
    server.ReadsInRange environment state name := by
  unfold ReadsInRange
  cases parse : server.parseName name with
  | error exception => trivial
  | ok parsed =>
      obtain ⟨ret, version, seg, path⟩ := parsed
      change (server.onInterestCallback name : Source Cursor Location _).Along handle
        (ReadsExactly (contentSeg seg)) ⟨state, environment⟩
      by_cases three : ret = 3
      · subst three
        rw [along_segment_iff state environment parse]
        exact server.readsExactly_sendFileContent name path version seg _ small
      by_cases two : ret = 2
      · subst two
        rw [along_version_iff (ignoresRows_readsExactly _) state environment parse]
        intro _
        obtain rfl := server.seg_of_version parse
        exact server.readsExactly_sendFileContent name path version (-1) _ small
      by_cases one : ret = 1
      · subst one
        rw [along_path_iff (ignoresRows_readsExactly _) state environment parse]
        constructor
        · intro row _
          exact server.readsExactly_sendFileMeta path _ _ _ _ _
        · intro _
          exact server.readsExactly_sendDirMeta path _ _
      · rw [along_parsed_iff state environment parse, onParsedName, if_neg three, if_neg two,
          if_neg one]
        trivial

/-- Whatever the file system has done, the server reads only at exact offsets. -/
theorem readsInRange_run (server : Server) (fs : FileSystem) (disk : Disk) (sent : List Data)
    (clock : Int) (requests : List Request) (environment : Environment) (name : Name) :
    server.ReadsInRange environment
      (Run.after fs.step ⟨⟨.empty, disk, sent⟩, clock⟩ requests).state name :=
  server.readsInRange_of_small environment (fs.segmentsSmall_run disk sent clock requests) name

end Server

end Ndnfs

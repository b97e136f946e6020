import Ndnfs.Proof.CrashSafety
import Ndnfs.Proof.FileContents

namespace Ndnfs
open Effect Program MachineInteger KeyedTable

/-- The path has a row and no object. -/
structure Orphan (root path : Path) (state : State) : Prop where
  row : state.db.fileSystem.Has path.text
  vacant : state.disk.entry (root.locate path) = none

instance (root path : Path) (state : State) : Decidable (Orphan root path state) :=
  decidable_of_iff (state.db.fileSystem.Has path.text ∧
      state.disk.entry (root.locate path) = none)
    ⟨fun ⟨row, vacant⟩ => ⟨row, vacant⟩, fun orphan => ⟨orphan.row, orphan.vacant⟩⟩

namespace Operation

/-- The operation neither removes the row of the path nor puts an object there; a mknod of the path
may run. -/
def LeavesOrphan (path : Path) : Operation → Prop
  | .unlink other => other ≠ path
  | .mkdir other _ => other ≠ path
  | .rename source target => source = target ∨ source ≠ path ∧ ¬ target.names <+: path.names
  | _ => True

instance (path : Path) : DecidablePred (LeavesOrphan path)
  | .unlink other => inferInstanceAs (Decidable (other ≠ path))
  | .mkdir other _ => inferInstanceAs (Decidable (other ≠ path))
  | .rename source target =>
      inferInstanceAs (Decidable (source = target ∨ source ≠ path ∧ ¬ target.names <+: path.names))
  | .mknod .. | .openFile .. | .read .. | .write .. | .truncate .. | .release .. | .rmdir _ =>
      .isTrue trivial

/-- No single change of another operation ends the orphan. -/
theorem Change.orphan {root path : Path} {now : Int} {operation : Operation} {state state' : State}
    (change : operation.Change root now state state') (leaves : operation.LeavesOrphan path)
    (other : ∀ mode, operation ≠ .mknod path mode) (orphan : Orphan root path state) :
    Orphan root path state' := by
  obtain ⟨row, vacant⟩ := orphan
  have apart {third : Path} (different : third ≠ path) : root.locate path ≠ root.locate third :=
    fun same => different (Path.locate_inj.mp same).symm
  have rewritten {third : Path} (rewrite : Bytes → Bytes) :
      (state.disk.modify (root.locate third) rewrite now).entry (root.locate path) = none := by
    rw [Disk.entry_modify]
    split
    · rw [vacant]
      rfl
    · exact vacant
  have removed {third : Path} (below : root.locate third ≠ [])
      (empty : state.disk.NoChildren (root.locate third)) :
      (state.disk.remove (root.locate third) now).entry (root.locate path) = none := by
    rw [state.disk.entry_remove below empty]
    split
    · rfl
    · exact vacant
  cases change with
  | mknodVersion third mode state =>
      exact ⟨by rwa [Database.fileSystem_insertFileVersion], vacant⟩
  | mknodRow third mode state inserted =>
      refine ⟨?_, vacant⟩
      by_cases known : state.db.fileSystem.Has third.text
      · rwa [Database.insertFileSystem, if_pos known]
      · rw [Has, Database.lookup_insertFileSystem known]
        split
        · exact Option.some_ne_none _
        · exact row
  | mknodObject third mode state kind file free =>
      have different : third ≠ path := by
        rintro rfl
        exact other mode rfl
      exact ⟨row, by rw [state.disk.entry_create free, if_neg (apart different), vacant]⟩
  | mkdirObject third mode state free =>
      exact ⟨row, by rw [state.disk.entry_create free, if_neg (apart leaves), vacant]⟩
  | openContent third access state regular => exact ⟨row, rewritten _⟩
  | writeContent third data offset state regular => exact ⟨row, rewritten _⟩
  | truncateContent third length state regular => exact ⟨row, rewritten _⟩
  | releaseRow third access state writing =>
      exact ⟨(Database.has_updateCurrentVersion ..).mpr row, vacant⟩
  | releaseVersion third access state writing =>
      exact ⟨by rwa [Database.fileSystem_insertFileVersion], vacant⟩
  | releaseSegment third access state writing seg signature => exact ⟨row, vacant⟩
  | unlinkRow third state =>
      refine ⟨?_, vacant⟩
      rw [Has, Database.lookup_deleteFileSystem, if_neg (mt Path.text_injective leaves.symm)]
      exact row
  | unlinkObject third state file =>
      exact ⟨row, removed (ne_nil_of_isFile file)
        (state.disk.noChildren_of_not_directory file.2)⟩
  | rmdirObject third state below found empty =>
      have inside : root.locate third ≠ [] := by
        simpa [Path.locate] using fun _ => below
      exact ⟨row, removed inside empty⟩
  | renameRow source target state =>
      refine ⟨?_, vacant⟩
      by_cases same : source = target
      · rw [Database.renameFileSystem, same, slideTo_of_fixed fun key _ => movePath_same key]
        exact row
      · obtain ⟨stays, above⟩ := leaves.resolve_left same
        have onto : path ≠ target := by
          rintro rfl
          exact above (List.prefix_refl _)
        refine (state.db.has_renameAll_fileSystem (mt Path.text_injective same) path.text).mpr ?_
        rw [if_neg (mt Path.text_injective stays.symm), if_neg (mt Path.text_injective onto)]
        exact row
  | renameVersions source target state => exact ⟨row, vacant⟩
  | renameSegments source target state => exact ⟨row, vacant⟩
  | renameObject source target state different safe =>
      have above : ¬ root.locate target <+: root.locate path :=
        fun inside => (leaves.resolve_left different).2 ((List.prefix_append_right_inj _).mp inside)
      refine ⟨row, ?_⟩
      rw [state.disk.entry_move safe, if_neg above]
      split
      · rfl
      · exact vacant

end Operation

namespace Disk

variable (disk : Disk) {root path : Path}

theorem find_of_free (free : disk.Free (root.locate path)) :
    disk.find (root.rootText ++ path.text) = .ok (root.locate path) := by
  obtain ⟨vacant, below, directory⟩ := free
  have shape := List.dropLast_append_getLast below
  have valid := root.locate_valid path
  rw [← shape] at valid
  have present : disk.entry ([] ++ (root.locate path).dropLast) ≠ none := by
    intro absent
    rw [List.nil_append] at absent
    simp [IsDirectory, absent] at directory
  have upper := disk.walk_of_entry (fun name member => valid name (List.mem_append_left _ member))
    [] present
  rw [find_path, ← shape, walk_append, upper, List.nil_append]
  dsimp only
  rw [disk.walk_name (valid _ (by simp)) directory, walk]

theorem createText_of_free (free : disk.Free (root.locate path)) (kind : NodeKind) (now : Int) :
    disk.createText (root.rootText ++ path.text) kind now =
      .ok (disk.create (root.locate path) kind now) := by
  simp only [createText, disk.find_of_free free, free.1, ne_eq, not_true_eq_false, if_false,
    if_pos free]

end Disk

namespace FileSystem

variable {fs : FileSystem} {root path : Path} (rooted : fs.rootPath = root.rootText) {state : State}

/-- The row check stops a mknod before its first change. -/
theorem always_mknod_known (known : state.db.fileSystem.Has path.text) (mode : Nat)
    (environment : Environment) :
    (fs.ndnfsMknod path.text mode).Always handle (fun world => world.state = state)
      ⟨state, environment⟩ := by
  have quiet : (executeOnce (.selectFileSystem path.text) : Source Cursor Location Int).Always handle
      (fun world => world.state = state) ⟨state, environment⟩ := ⟨rfl, rfl, rfl, rfl⟩
  rw [ndnfsMknod, always_bind, run_selectFileSystem, if_pos known, if_pos rfl]
  exact ⟨quiet, rfl⟩

include rooted

theorem outcome_open_vacant (vacant : state.disk.entry (root.locate path) = none)
    (access : AccessMode) (trunc : Bool) (environment : Environment) :
    (exec (fs.ndnfsOpen path.text { access, truncate := trunc }) environment state).1 < 0 := by
  rw [exec_ndnfsOpen, fullPath_text rooted]
  split
  · exact Errno.negative_lt _
  · rename_i location disk opened
    obtain ⟨rfl, present, -⟩ := state.disk.open_ok access trunc (Environment.outcome_ok opened)
    exact absurd vacant present

/-- The unlink of an orphan fails and deletes the row. -/
theorem exec_unlink_vacant (vacant : state.disk.entry (root.locate path) = none)
    (environment : Environment) : ∃ error : Errno,
    exec (fs.ndnfsUnlink path.text) environment state =
      (error.negative, { state with db := state.db.deleteFileSystem path.text }) := by
  obtain ⟨error, failed⟩ := state.disk.lookupText_none vacant
  rw [exec_ndnfsUnlink, fullPath_text rooted, Disk.unlinkText, failed]
  obtain ⟨other, same⟩ := environment.outcome_error (A := Disk) error
  exact ⟨other, by rw [same]⟩

theorem exec_mknod_free (absent : ¬ state.db.fileSystem.Has path.text)
    (free : state.disk.Free (root.locate path)) {mode : Nat} (regular : S_ISREG mode = true)
    {environment : Environment} (calm : environment.faults = []) :
    (exec (fs.ndnfsMknod path.text mode) environment state).1 = 0 ∧
      Stored root path [] (exec (fs.ndnfsMknod path.text mode) environment state).2 := by
  have made : state.disk.createMode (root.rootText ++ path.text) mode environment.now =
      .ok (state.disk.create (root.locate path) .regular environment.now) := by
    rw [Disk.createMode, Disk.mknodKind_regular regular]
    exact state.disk.createText_of_free free _ _
  have next : environment.next.faults = [] := congrArg List.tail calm
  rw [exec_ndnfsMknod, if_neg absent, fullPath_text rooted, made,
    environment.outcome_of_nil calm, environment.next.outcome_of_nil next]
  dsimp only
  rw [if_pos regular]
  refine ⟨rfl, ?_, ?_⟩
  · rw [state.disk.entry_create free, if_pos rfl]
  · rw [mknodRows, Has, Database.lookup_insertFileSystem, if_pos rfl]
    · exact Option.some_ne_none _
    · rwa [Database.fileSystem_insertFileVersion]

end FileSystem

/-- No mknod and no open of the path gets through until an unlink, which fails itself, has deleted its
row. -/
structure Blocked (fs : FileSystem) (root path : Path) (state : State) : Prop where
  mknod : ∀ mode environment, exec (fs.ndnfsMknod path.text mode) environment state =
    (Errno.ENOENT.negative, state)
  openFile : ∀ access truncate environment,
    (exec (fs.ndnfsOpen path.text { access, truncate }) environment state).1 < 0
  unlink : ∀ environment, (exec (fs.ndnfsUnlink path.text) environment state).1 < 0
  again : ∀ mode, S_ISREG mode = true → ∀ environment later, later.faults = [] →
    IsDirectory (state.disk.entry (root.locate path).dropLast) →
      (exec (fs.ndnfsMknod path.text mode) later
        (exec (fs.ndnfsUnlink path.text) environment state).2).1 = 0

theorem Orphan.blocked {fs : FileSystem} {root path : Path}
    (rooted : fs.rootPath = root.rootText) {state : State} (orphan : Orphan root path state) :
    Blocked fs root path state := by
  constructor
  · intro mode environment
    rw [FileSystem.exec_ndnfsMknod, if_pos orphan.row]
  · intro access truncate environment
    exact FileSystem.outcome_open_vacant rooted orphan.vacant access truncate environment
  · intro environment
    obtain ⟨error, unlinked⟩ := FileSystem.exec_unlink_vacant rooted orphan.vacant environment
    rw [unlinked]
    exact Errno.negative_lt error
  · intro mode regular environment later calm directory
    obtain ⟨error, unlinked⟩ := FileSystem.exec_unlink_vacant rooted orphan.vacant environment
    have absent : ¬ ({ state with db := state.db.deleteFileSystem path.text } : State).db.fileSystem.Has
        path.text := by
      rw [Has, Database.lookup_deleteFileSystem, if_pos rfl]
      exact fun found => found rfl
    have below : root.locate path ≠ [] := by
      intro top
      have vacant := orphan.vacant
      rw [top] at vacant
      exact absurd state.disk.root_directory (by simp [vacant, IsDirectory])
    rw [unlinked]
    exact (FileSystem.exec_mknod_free rooted absent ⟨orphan.vacant, below, directory⟩ regular
      calm).1

namespace Deployment

variable {deployment : Deployment} {root path : Path}

/-- Nothing but the mknod of the path could end the orphan, and its row check stops that one. -/
theorem orphan_step (rooted : deployment.rootPath = root.rootText) {history : History}
    {event : HostEvent} (orphan : Orphan root path history.state)
    (leaves : event.Starts fun request => request.operation.LeavesOrphan path) :
    Orphan root path (deployment.crashStep history event).state := by
  have others (apart : event.Starts fun request => ∀ mode, request.operation ≠ .mknod path mode) :
      Orphan root path (deployment.crashStep history event).state := by
    refine crashStep_keeps (Orphan root path) rooted
      (fun state sent orphan => ⟨orphan.row, orphan.vacant⟩) ?_ orphan
    cases event with
    | interest interest => trivial
    | operation request => exact fun _ _ orphan change => change.orphan leaves apart orphan
    | crash request calls => exact fun _ _ orphan change => change.orphan leaves apart orphan
  have stopped (mode : Nat) (environment : Environment) :
      (deployment.fs.ndnfsMknod path.text mode).Always handle
        (fun world => world.state = history.state) ⟨history.state, environment⟩ :=
    FileSystem.always_mknod_known orphan.row mode environment
  cases event with
  | interest interest => exact others trivial
  | operation request =>
      obtain ⟨operation, environment⟩ := request
      by_cases here : ∃ mode, operation = .mknod path mode
      · obtain ⟨mode, rfl⟩ := here
        have same : (deployment.crashStep history
            (.operation ⟨.mknod path mode, environment⟩)).state = history.state :=
          (stopped mode environment).last
        exact same ▸ orphan
      · exact others (not_exists.mp here)
  | crash request calls =>
      obtain ⟨operation, environment⟩ := request
      by_cases here : ∃ mode, operation = .mknod path mode
      · obtain ⟨mode, rfl⟩ := here
        have same : (deployment.crashStep history
            (.crash ⟨.mknod path mode, environment⟩ calls)).state = history.state :=
          (always_iff_cut _ _).mp (stopped mode environment) calls
        exact same ▸ orphan
      · exact others (not_exists.mp here)

/-- The row that a failed or cut off operation leaves without an object blocks its path for good. -/
theorem blocked_run (deployment : Deployment) {root path : Path}
    (rooted : deployment.rootPath = root.rootText) {history : History}
    (orphan : Orphan root path history.state) {events : List HostEvent}
    (leaves : ∀ event ∈ events, event.Starts fun request => request.operation.LeavesOrphan path) :
    Run.Holds deployment.crashStep (fun now => Blocked deployment.fs root path now.state)
      history events := by
  have preserved : ∀ (now : History) (event : HostEvent), Orphan root path now.state →
      (event.Starts fun request => request.operation.LeavesOrphan path) →
        Orphan root path (deployment.crashStep now event).state :=
    fun now event kept allowed => orphan_step rooted kept allowed
  apply (Run.invariant preserved (Run.steps_of_forall deployment.crashStep leaves) orphan).imp
  exact fun now kept => kept.blocked rooted

/-- A mknod stops between its row and its object, and later mknods, releases and renames of other
files do not help. -/
theorem blocked_run_cut : Run.Holds Reference.deployment.crashStep
    (fun now => Blocked Reference.deployment.fs Reference.root Reference.fileA now.state)
    (Reference.deployment.crashStep ⟨Reference.newState, 0⟩
      (.crash ⟨.mknod Reference.fileA Reference.regularMode, Reference.calm 1⟩ 10))
    [.operation ⟨.mknod Reference.fileA Reference.regularMode, Reference.calm 2⟩,
      .operation ⟨.mknod Reference.fileB Reference.regularMode, Reference.calm 3⟩,
      .operation ⟨.release Reference.fileA .readWrite, Reference.calm 4⟩,
      .operation ⟨.rename Reference.fileB ⟨[ascii "c"], by decide⟩, Reference.calm 5⟩] :=
  blocked_run Reference.deployment
    (show Reference.deployment.rootPath = Reference.root.rootText from rfl)
    (by decide +kernel) (by decide)

end Deployment

end Ndnfs

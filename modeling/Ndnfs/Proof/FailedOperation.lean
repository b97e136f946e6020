import Ndnfs.Fs.Operation
import Ndnfs.System.Tables

namespace Ndnfs
open MachineInteger KeyedTable

/-- The operations that change names; a path is any byte string. -/
inductive NamespaceOperation where
  | mknod (path : Bytes) (mode : Nat)
  | unlink (path : Bytes)
  | rename (source target : Bytes)

namespace NamespaceOperation

def program {Stmt Fd : Type} (fs : FileSystem) : NamespaceOperation → Source Stmt Fd Int
  | .mknod path mode => fs.ndnfsMknod path mode
  | .unlink path => fs.ndnfsUnlink path
  | .rename source target => fs.ndnfsRename source target

/-- A negative result leaves the three tables and the disk as they were. -/
def FailureIsClean (fs : FileSystem) (operation : NamespaceOperation) (environment : Environment)
    (state : State) : Prop :=
  (exec (operation.program fs) environment state).1 < 0 →
    (exec (operation.program fs) environment state).2 = state

/-- No row of the source can move to the target. -/
def RowsStay (db : Database) (source target : Bytes) : Prop :=
  ¬ (db.fileSystem.Has source ∧ ¬ db.fileSystem.Has target) ∧
  ((∀ version, ¬ db.fileVersions.Has (source, version)) ∨
    ∃ version, db.fileVersions.Has (source, version) ∧ db.fileVersions.Has (target, version)) ∧
  ((∀ key, ¬ db.fileSegments.Has (source, key)) ∨
    ∃ key, db.fileSegments.Has (source, key) ∧ db.fileSegments.Has (target, key))

/-- The operation fails before it changes a row, or its system calls succeed. -/
def CleanWhen (fs : FileSystem) (operation : NamespaceOperation) (environment : Environment)
    (state : State) : Prop :=
  match operation with
  | .mknod path mode => state.db.fileSystem.Has path ∨ ∃ disk,
      environment.outcome (state.disk.createMode (fs.fullPath path) mode environment.now) = .ok disk ∧
      (S_ISREG mode = true → environment.next.outcome (.ok ()) = .ok ())
  | .unlink path => ¬ state.db.fileSystem.Has path ∨ ∃ disk,
      environment.outcome (state.disk.unlinkText (fs.fullPath path) environment.now) = .ok disk
  | .rename source target => source = target ∨ RowsStay state.db source target ∨ ∃ disk,
      environment.outcome
        (state.disk.renameText (fs.fullPath source) (fs.fullPath target) environment.now) = .ok disk

theorem mknodRows_ne {path : Bytes} (mode : Nat) (now : Int) {db : Database}
    (absent : ¬ db.fileSystem.Has path) : FileSystem.mknodRows path mode now db ≠ db := by
  intro same
  have present : (FileSystem.mknodRows path mode now db).fileSystem.Has path := by
    rw [Has, FileSystem.mknodRows, Database.lookup_insertFileSystem (by simpa using absent),
      if_pos rfl]
    simp
  rw [same] at present
  exact absent present

theorem deleteFileSystem_eq_iff (db : Database) (path : Bytes) :
    db.deleteFileSystem path = db ↔ ¬ db.fileSystem.Has path := by
  constructor
  · intro same present
    rw [← same, Has, Database.lookup_deleteFileSystem, if_pos rfl] at present
    exact present rfl
  · intro absent
    rw [Database.deleteFileSystem, erase_of_not_has absent]

/-- The three UPDATEs change nothing exactly when the rows stay. -/
theorem renameAll_eq_iff (db : Database) {source target : Bytes} (different : source ≠ target) :
    db.renameAll source target = db ↔ RowsStay db source target := by
  rw [RowsStay, ← slideTo_path_eq_iff different, ← slideTo_key_eq_iff different,
    ← slideTo_key_eq_iff different]
  constructor
  · intro same
    exact ⟨congrArg Database.fileSystem same, congrArg Database.fileVersions same,
      congrArg Database.fileSegments same⟩
  · rintro ⟨files, versions, segments⟩
    obtain ⟨fileSystem, fileVersions, fileSegments⟩ := db
    simp only [Database.renameAll, Database.renameFileSystem, Database.renameFileVersions,
      Database.renameFileSegments, files, versions, segments]

/-- Only the rows can tell whether a failed operation changed the state. -/
theorem with_db_eq_iff (state : State) (db : Database) :
    { state with db := db } = state ↔ db = state.db := by
  constructor
  · intro same
    exact congrArg State.db same
  · rintro rfl
    rfl

/-- A failed operation is clean exactly when it fails before its first statement or when its system
calls succeed. -/
theorem failureIsClean_iff (fs : FileSystem) (operation : NamespaceOperation)
    (environment : Environment) (state : State) :
    FailureIsClean fs operation environment state ↔ CleanWhen fs operation environment state := by
  cases operation with
  | mknod path mode =>
      rw [FailureIsClean, program, FileSystem.exec_ndnfsMknod, CleanWhen]
      by_cases present : state.db.fileSystem.Has path
      · simp [present]
      · have changed := mknodRows_ne mode environment.now present
        have dirty (disk : Disk) : ({ state with
            db := FileSystem.mknodRows path mode environment.now state.db, disk } : State) ≠ state :=
          fun same => changed (congrArg State.db same)
        rw [if_neg present]
        cases environment.outcome
          (state.disk.createMode (fs.fullPath path) mode environment.now) with
        | error error => simp [present, dirty, error.negative_lt]
        | ok disk =>
            by_cases regular : S_ISREG mode = true
            · simp only [present, false_or, Except.ok.injEq, exists_eq_left', regular,
                forall_const]
              cases environment.next.outcome (.ok ()) with
              | error error => simp [dirty, error.negative_lt]
              | ok value => simp
            · simp [regular]
  | unlink path =>
      rw [FailureIsClean, program, FileSystem.exec_ndnfsUnlink, CleanWhen]
      cases environment.outcome
        (state.disk.unlinkText (fs.fullPath path) environment.now) with
      | error error =>
          simp only [error.negative_lt, forall_const, with_db_eq_iff, deleteFileSystem_eq_iff,
            reduceCtorEq, exists_false, or_false]
      | ok disk => simp
  | rename source target =>
      rw [FailureIsClean, program, FileSystem.exec_ndnfsRename, CleanWhen]
      cases environment.outcome
        (state.disk.renameText (fs.fullPath source) (fs.fullPath target) environment.now) with
      | error error =>
          simp only [error.negative_lt, forall_const, with_db_eq_iff, reduceCtorEq, exists_false,
            or_false]
          by_cases same : source = target
          · simp [same]
          · rw [renameAll_eq_iff state.db same]
            simp [same]
      | ok disk => simp

/-- An unreachable parent directory leaves the rows of a file that does not exist. -/
theorem failureIsClean_fails : ¬ ∀ (fs : FileSystem) (operation : NamespaceOperation)
    (environment : Environment) (state : State),
      FailureIsClean fs operation environment state := by
  intro claim
  have clean := claim Reference.fileSystem (.mknod (ascii "/a/b") Reference.regularMode)
    (Reference.calm 1) Reference.newState (by decide)
  have present := congrArg (fun state => decide (state.db.fileSystem.Has (ascii "/a/b"))) clean
  revert present
  decide

end NamespaceOperation

end Ndnfs

import Ndnfs.Server.Session

namespace Ndnfs

/-- A rename moves the paths at and below its source. -/
def Path.moved (source target path : Path) : Path :=
  if below : source.names <+: path.names then
    { names := target.names ++ path.names.drop source.names.length
      valid := by
        intro name member
        rcases List.mem_append.mp member with upper | lower
        · exact target.valid name upper
        · exact path.valid name (List.mem_of_mem_drop lower) }
  else path

namespace Path

theorem moved_source (source target : Path) : source.moved target source = target := by
  apply ext_names
  rw [moved, dif_pos (List.prefix_refl _)]
  simp

theorem moved_same (source path : Path) : source.moved source path = path := by
  unfold moved
  split
  · rename_i below
    obtain ⟨rest, same⟩ := below
    apply ext_names
    simp [← same]
  · rfl

theorem moved_other {source target path : Path} (other : ¬ source.names <+: path.names) :
    source.moved target path = path := dif_neg other

end Path

/-- The kernel keeps the paths of the handles that are open for writing. -/
structure Mount where
  history : History
  writers : List Path

/-- The handles after an operation with this result. -/
def Operation.writersAfter (result : Int) (writers : List Path) : Operation → List Path
  | .openFile path access _ =>
      if access ≠ .readOnly ∧ result = 0 then path :: writers else writers
  | .release path access => if access ≠ .readOnly then writers.erase path else writers
  | .rename source target => if result = 0 then writers.map (source.moved target) else writers
  | _ => writers

/-- An open keeps the other handles. -/
theorem mem_writersAfter_openFile {writers : List Path} {other : Path} (member : other ∈ writers)
    (result : Int) (path : Path) (access : AccessMode) (trunc : Bool) :
    other ∈ (Operation.openFile path access trunc).writersAfter result writers := by
  rw [Operation.writersAfter]
  split
  · exact List.mem_cons_of_mem path member
  · exact member

/-- A release closes at most a handle of its path. -/
theorem mem_writersAfter_release {writers : List Path} {other path : Path}
    (member : other ∈ writers) (different : other ≠ path) (result : Int) (access : AccessMode) :
    other ∈ (Operation.release path access).writersAfter result writers := by
  rw [Operation.writersAfter]
  split
  · exact (List.mem_erase_of_ne different).mpr member
  · exact member

/-- Each row of file_system belongs to a path of the kernel. -/
def RowsHavePaths (db : Database) : Prop :=
  ∀ text, db.fileSystem.Has text → ∃ path : Path, path.text = text

namespace FileSystem

variable {fs : FileSystem} {history : History}

/-- No operation inserts a row for another text. -/
theorem rowsHavePaths_step (request : Request) (rows : RowsHavePaths history.state.db) :
    RowsHavePaths (fs.step history request).state.db := by
  obtain ⟨operation, environment⟩ := request
  obtain ⟨state, clock⟩ := history
  cases operation with
  | mknod path mode =>
      intro text present
      simp only [step, Operation.program, db_ndnfsMknod] at present
      split at present
      · exact rows text present
      · rename_i absent
        rw [KeyedTable.Has, mknodRows, Database.lookup_insertFileSystem (by simpa using absent)]
          at present
        split at present
        · rename_i here
          exact ⟨path, here.symm⟩
        · rw [Database.fileSystem_insertFileVersion] at present
          exact rows text present
  | release path access =>
      simp only [step, Operation.program]
      rcases fs.state_ndnfsRelease path.text environment state { access } with
        failed | ⟨content, count, released⟩
      · rw [failed]
        exact rows
      · intro text present
        rw [released, fileSystem_signSegments, releaseRows, Database.fileSystem_insertFileVersion,
          Database.has_updateCurrentVersion] at present
        exact rows text present
  | unlink path =>
      intro text present
      simp only [step, Operation.program, db_ndnfsUnlink] at present
      rw [KeyedTable.Has, Database.lookup_deleteFileSystem] at present
      split at present
      · exact absurd rfl present
      · exact rows text present
  | rename source target =>
      intro text present
      simp only [step, Operation.program, db_ndnfsRename] at present
      by_cases different : source.text = target.text
      · rw [different, Database.renameAll_same] at present
        exact rows text present
      · rw [Database.has_renameAll_fileSystem _ different] at present
        split at present
        · rename_i here
          exact ⟨source, here.symm⟩
        · split at present
          · rename_i there
            exact ⟨target, there.symm⟩
          · exact rows text present
  | _ =>
      rw [step, fs.db_of_not_changesVersions id]
      exact rows

end FileSystem

namespace Deployment

variable (deployment : Deployment)

def mountStep (mount : Mount) (event : Event) : Mount where
  history := deployment.step mount.history event
  writers := match event with
    | .operation request => request.operation.writersAfter
        (exec (request.operation.program deployment.fs) request.environment
          mount.history.state).1 mount.writers
    | .interest _ => mount.writers

theorem rowsHavePaths_mountStep (mount : Mount) (event : Event)
    (rows : RowsHavePaths mount.history.state.db) :
    RowsHavePaths (deployment.mountStep mount event).history.state.db := by
  cases event with
  | operation request => exact FileSystem.rowsHavePaths_step request rows
  | interest interest =>
      rw [mountStep, deployment.step_interest]
      exact rows

end Deployment

end Ndnfs

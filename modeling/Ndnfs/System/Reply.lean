import Ndnfs.Foundation.Ensures
import Ndnfs.System.Execution

namespace Ndnfs
open Effect Program

/-- These codes of sqlite3_step report a failure. -/
def IsErrorCode (code : Int) : Prop := 0 < code ∧ code ≠ SQLITE_ROW ∧ code ≠ SQLITE_DONE

instance (code : Int) : Decidable (IsErrorCode code) := inferInstanceAs (Decidable (_ ∧ _))

@[simp] theorem not_isErrorCode_row : ¬ IsErrorCode SQLITE_ROW := by decide

@[simp] theorem not_isErrorCode_done : ¬ IsErrorCode SQLITE_DONE := by decide

/-- Only a SELECT gives rows. -/
def Statement.isSelect : Statement → Bool
  | .selectCurrentVersion _ | .selectFileSystem _ | .selectMimeType _ | .selectFileMeta _
  | .selectFileSegment .. | .selectFileVersion .. => true
  | .insertFileVersion .. | .insertFileSystem .. | .updateCurrentVersion .. | .deleteFileSystem _
  | .renameFileSystem .. | .renameFileVersions .. | .renameFileSegments ..
  | .replaceFileSegment .. | .deleteFileSegment .. => false

/-- A statement can give this code; a statement that could not be prepared gives an error code. -/
def Statement.Gives (statement : Statement) (code : Int) : Prop :=
  statement.isSelect = true ∧ code = SQLITE_ROW ∨ code = SQLITE_DONE ∨ IsErrorCode code

/-- A statement without rows is done unless it fails. -/
theorem Statement.Gives.done_iff {statement : Statement} {code : Int} (gives : statement.Gives code)
    (modifies : statement.isSelect = false) : SQLITE_DONE = code ↔ ¬ IsErrorCode code := by
  constructor
  · rintro rfl
    decide
  · intro success
    obtain ⟨select, -⟩ | done | failed := gives
    · rw [modifies] at select
      cases select
    · exact done.symm
    · exact absurd failed success

/-- The file system relies only on this of the replies. -/
def Allowed {Fd : Type} : (call : Call Cursor Fd) → call.Reply → Prop
  | .prepare statement, stmt => stmt.statement = statement
  | .step stmt, reply => reply.2.statement = stmt.statement ∧ stmt.statement.Gives reply.1
  | .pread _ _ offset, reply => offset < 0 → reply.isOk = false
  | .time, _ | .uninitialised, _ | .columnInt .., _ | .columnText .., _ | .columnBlob .., _
  | .readBlob _, _ | .finalize _, _ | .openFile .., _ | .close _, _ | .pwrite .., _
  | .truncate .., _ | .unlink _, _ | .mkfifo .., _ | .mknod .., _ | .mkdir .., _ | .rmdir _, _
  | .rename .., _ | .stat _, _ | .lstat _, _ | .opendir _, _ | .putData _, _ => True

theorem gives_insertCode (statement : Statement) (clash : Prop) [Decidable clash] :
    statement.Gives (Database.insertCode clash).code := by
  unfold Database.insertCode
  split
  · exact .inr (.inr (by decide))
  · exact .inr (.inl rfl)

theorem gives_select {statement : Statement} (select : statement.isSelect = true)
    (row : Option Row) : statement.Gives (StepResult.select row).code := by
  cases row with
  | none => exact .inr (.inl rfl)
  | some row => exact .inl ⟨select, rfl⟩

theorem gives_execute (db : Database) (statement : Statement) :
    statement.Gives (db.execute statement).1.code := by
  cases statement with
  | selectCurrentVersion | selectFileSystem | selectMimeType | selectFileMeta | selectFileSegment
  | selectFileVersion => exact gives_select rfl _
  | insertFileVersion | insertFileSystem | renameFileSystem | renameFileVersions
  | renameFileSegments => exact gives_insertCode _ _
  | updateCurrentVersion | deleteFileSystem | replaceFileSegment | deleteFileSegment =>
      exact .inr (.inl rfl)

/-- The host gives only allowed replies. -/
theorem allowed_handle (call : Call Cursor Location) (world : World) :
    Allowed call (handle call world).1 := by
  cases call with
  | prepare statement => rfl
  | step stmt => exact ⟨rfl, gives_execute _ _⟩
  | pread fd count offset =>
      intro negative
      have refused : ∃ error, world.state.disk.pread fd count offset = .error error := by
        unfold Disk.pread
        split
        · exact ⟨_, if_pos negative⟩
        · exact ⟨_, rfl⟩
      obtain ⟨error, refused⟩ := refused
      obtain ⟨other, failed⟩ := world.environment.outcome_error (A := Bytes) error
      have reply : (handle (.pread fd count offset) world).1 = .error other := by
        show world.environment.outcome (world.state.disk.pread fd count offset) = .error other
        rw [refused, failed]
      rw [reply]
      rfl
  | _ => trivial

/-- A statement with its code, the bytes of a read, or a call that succeeded. -/
inductive Mark (Fd : Type) where
  | stepped (statement : Statement) (code : Int)
  | read (offset : Int) (buf : Bytes)
  | called (call : Call Cursor Fd)

variable {Fd : Type}

/-- This is left of a call for the effects of an operation. -/
def mark : (call : Call Cursor Fd) → call.Reply → Option (Mark Fd)
  | .step stmt, reply => some (.stepped stmt.statement reply.1)
  | .pread _ _ offset, .ok buf => some (.read offset buf)
  | .openFile path flags, .ok _ => some (.called (.openFile path flags))
  | .close fd, .ok _ => some (.called (.close fd))
  | .truncate path length, .ok _ => some (.called (.truncate path length))
  | .unlink path, .ok _ => some (.called (.unlink path))
  | .mkfifo path mode, .ok _ => some (.called (.mkfifo path mode))
  | .mknod path mode, .ok _ => some (.called (.mknod path mode))
  | .rename source target, .ok _ => some (.called (.rename source target))
  | _, _ => none

/-- A prepared statement gives one of its codes. -/
theorem ensures_step {A : Type} {statement : Statement}
    {f : Cursor → Int × Cursor → Source Cursor Fd A} {post : List (Mark Fd) → A → Prop}
    (rest : ∀ prepared code stmt, statement.Gives code →
      (f prepared (code, stmt)).Ensures Allowed mark
        fun marks value => post (.stepped statement code :: marks) value) :
    (do
      let stmt ← invoke (.prepare statement)
      let result ← invoke (.step stmt)
      f stmt result : Source Cursor Fd A).Ensures Allowed mark post := by
  simp only [ensures_bind, ensures_perform]
  intro stmt same reply permitted
  dsimp only [Allowed] at same permitted
  rw [same] at permitted
  have ensures := rest stmt reply.1 reply.2 permitted.2
  rw [← same] at ensures
  exact ensures

/-- A statement that is executed once gives one of its codes. -/
theorem ensures_executeOnce {statement : Statement} {post : List (Mark Fd) → Int → Prop}
    (holds : ∀ code, statement.Gives code → post [.stepped statement code] code) :
    (executeOnce statement : Source Cursor Fd Int).Ensures Allowed mark post := by
  unfold executeOnce
  apply ensures_step
  intro _ code stmt gives
  dsimp only
  rw [ensures_bind, ensures_perform]
  intro _ _
  exact holds code gives

end Ndnfs

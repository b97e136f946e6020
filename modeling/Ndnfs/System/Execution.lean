import Ndnfs.System.Call

namespace Ndnfs
open Effect Program

namespace Environment

variable {A B : Type} (environment : Environment)

@[simp] theorem next_now : environment.next.now = environment.now := rfl

@[simp] theorem next_written (data : Bytes) :
    environment.next.written data = environment.written data := rfl

theorem outcome_map (effect : Except Errno A) (f : A → B) :
    environment.outcome (effect.map f) = (environment.outcome effect).map f := by
  unfold outcome
  split <;> rfl

/-- Without a fault the call does what the disk allows. -/
theorem outcome_eq (quiet : environment.faults.head?.join = none) (effect : Except Errno A) :
    environment.outcome effect = effect := by
  unfold outcome
  rw [quiet]

/-- A call that succeeds meets no fault. -/
theorem quiet_of_outcome {environment : Environment} {effect : Except Errno A} {value : A}
    (success : environment.outcome effect = .ok value) : environment.faults.head?.join = none := by
  unfold outcome at success
  split at success
  · cases success
  · assumption

/-- An environment without faults has none after a call. -/
theorem faults_next (calm : environment.faults = []) : environment.next.faults = [] := by
  rw [next, calm]
  rfl

/-- The next system calls, so many, meet no fault. -/
def Quiet (environment : Environment) (calls : Nat) : Prop :=
  ∀ call < calls, environment.faults[call]?.join = none

instance (environment : Environment) (calls : Nat) : Decidable (environment.Quiet calls) :=
  inferInstanceAs (Decidable (∀ call < calls, _))

theorem quiet_succ_iff (calls : Nat) : environment.Quiet (calls + 1) ↔
    environment.faults.head?.join = none ∧ environment.next.Quiet calls := by
  have shifted (call : Nat) : environment.next.faults[call]? = environment.faults[call + 1]? := by
    rw [next, List.getElem?_tail]
  rw [Quiet, Nat.forall_lt_succ_left, ← List.head?_eq_getElem?, Quiet]
  simp only [shifted]

theorem quiet_of_nil (calm : environment.faults = []) (calls : Nat) : environment.Quiet calls := by
  intro call _
  rw [calm]
  rfl

theorem outcome_of_nil (quiet : environment.faults = []) (effect : Except Errno A) :
    environment.outcome effect = effect :=
  environment.outcome_eq (by rw [quiet]; rfl) effect

end Environment

namespace World

variable {A : Type} (world : World)

theorem change_eq (effect : Disk → Except Errno Disk) : world.change effect =
    match world.environment.outcome (effect world.state.disk) with
    | .error error => (.error error, ⟨world.state, world.environment.next⟩)
    | .ok disk => (.ok (), ⟨{ world.state with disk }, world.environment.next⟩) := by
  simp only [change, attempt, Environment.outcome_map]
  cases world.environment.outcome (effect world.state.disk) <;> rfl

end World

theorem run_executeOnce (statement : Statement) (world : World) :
    (executeOnce statement : Source Cursor Location Int).run handle world =
      ((world.state.db.execute statement).1.code,
        { world with state.db := (world.state.db.execute statement).2 }) := rfl

theorem done_ne_row : SQLITE_DONE ≠ SQLITE_ROW := by decide

/-- A select by key gives a row exactly when the table has the key. -/
theorem code_select_lookup {Key A : Type} [DecidableEq Key] (table : KeyedTable Key A) (key : Key)
    (f : A → Row) : (StepResult.select ((table.lookup key).map f)).code =
      if table.Has key then SQLITE_ROW else SQLITE_DONE := by
  by_cases present : table.Has key
  · obtain ⟨row, found⟩ := KeyedTable.has_iff.mp present
    rw [if_pos present, found]
    rfl
  · rw [if_neg present, KeyedTable.not_has_iff.mp present]
    rfl

/-- The programs ask in this way whether a path has a row. -/
theorem run_selectCurrentVersion (path : Bytes) (world : World) :
    (executeOnce (.selectCurrentVersion path) : Source Cursor Location Int).run handle world =
      (if world.state.db.fileSystem.Has path then SQLITE_ROW else SQLITE_DONE, world) := by
  simp only [run_executeOnce, Database.execute, code_select_lookup]

theorem run_selectFileSystem (path : Bytes) (world : World) :
    (executeOnce (.selectFileSystem path) : Source Cursor Location Int).run handle world =
      (if world.state.db.fileSystem.Has path then SQLITE_ROW else SQLITE_DONE, world) := by
  simp only [run_executeOnce, Database.execute, code_select_lookup]

namespace Database

variable (db : Database)

/-- A deleted row cannot be deleted again. -/
@[simp] theorem deleteFileSystem_twice (path : Bytes) :
    (db.deleteFileSystem path).deleteFileSystem path = db.deleteFileSystem path := by
  have absent : ¬ KeyedTable.Has (db.fileSystem.erase path) path := by
    rw [KeyedTable.not_has_iff]
    exact AList.lookup_erase _ _
  simp only [deleteFileSystem, KeyedTable.erase_of_not_has absent]

end Database

namespace Disk

variable (disk : Disk)

/-- The flags of ndnfs_mknod make open(2) create a regular file. -/
theorem openText_create (text : Bytes) (now : Int) : ∃ location,
    disk.openText text { access := .writeOnly, create := true, exclusive := true } now =
      (disk.createText text .regular now).map (location, ·) := by
  unfold openText createText
  cases disk.find text with
  | error error => exact ⟨[], rfl⟩
  | ok location =>
      refine ⟨location, ?_⟩
      cases present : disk.entry location with
      | some entry => simp [present, Except.map]
      | none =>
          by_cases free : disk.Free location
          · simp [present, free, Except.map]
          · simp [present, free, Except.map]

/-- An open for reading leaves the disk as it is. -/
theorem openText_readOnly (text : Bytes) (now : Int) :
    disk.openText text O_RDONLY now = (disk.lookupText text).map fun found => (found.1, disk) := by
  unfold openText lookupText O_RDONLY
  cases disk.find text with
  | error error => rfl
  | ok location =>
      cases present : disk.entry location with
      | some entry => simp [present, Except.map]
      | none => simp [present, Except.map]

end Disk

end Ndnfs

import Mathlib.Logic.Relation
import Ndnfs.Foundation.Crash
import Ndnfs.Fs.Calls

namespace Ndnfs
open Effect Program MachineInteger

namespace Operation

/-- One call of an operation changes a table or the disk in one of these ways. -/
inductive Change (root : Path) (now : Int) : Operation → State → State → Prop
  | mknodVersion (path : Path) (mode : Nat) (state : State) :
      Change root now (.mknod path mode) state
        { state with db := state.db.insertFileVersion path.text (toInt now) }
  | mknodRow (path : Path) (mode : Nat) (state : State) (row : FileSystemRow) :
      Change root now (.mknod path mode) state
        { state with db := state.db.insertFileSystem path.text row }
  | mknodObject (path : Path) (mode : Nat) (state : State) (kind : NodeKind)
      (file : kind ≠ .directory) (free : state.disk.Free (root.locate path)) :
      Change root now (.mknod path mode) state
        { state with disk := state.disk.create (root.locate path) kind now }
  | mkdirObject (path : Path) (mode : Nat) (state : State)
      (free : state.disk.Free (root.locate path)) :
      Change root now (.mkdir path mode) state
        { state with disk := state.disk.create (root.locate path) .directory now }
  | openContent (path : Path) (access : AccessMode) (state : State)
      (regular : ∃ content, state.disk.entry (root.locate path) = some ⟨.regular, content⟩) :
      Change root now (.openFile path access true) state
        { state with disk := state.disk.modify (root.locate path) (fun _ => []) now }
  /-- A write may be short. -/
  | writeContent (path : Path) (data : Bytes) (offset : Int) (count : Nat) (state : State)
      (regular : ∃ content, state.disk.entry (root.locate path) = some ⟨.regular, content⟩) :
      Change root now (.write path data offset) state
        { state with
          disk := state.disk.modify (root.locate path)
            (fun content => spliceAt content (data.take count) offset.toNat) now }
  | truncateContent (path : Path) (length : Int) (state : State)
      (regular : ∃ content, state.disk.entry (root.locate path) = some ⟨.regular, content⟩) :
      Change root now (.truncate path length) state
        { state with
          disk := state.disk.modify (root.locate path)
            (fun content => resize content length.toNat) now }
  | releaseRow (path : Path) (access : AccessMode) (state : State) (writing : access ≠ .readOnly) :
      Change root now (.release path access) state
        { state with db := state.db.updateCurrentVersion (toInt now) path.text }
  | releaseVersion (path : Path) (access : AccessMode) (state : State)
      (writing : access ≠ .readOnly) :
      Change root now (.release path access) state
        { state with db := state.db.insertFileVersion path.text (toInt now) }
  | releaseSegment (path : Path) (access : AccessMode) (state : State)
      (writing : access ≠ .readOnly) (seg : Int) (signature : SignatureBits) :
      Change root now (.release path access) state
        { state with db := state.db.replaceFileSegment path.text (toInt now) seg signature }
  | unlinkRow (path : Path) (state : State) :
      Change root now (.unlink path) state
        { state with db := state.db.deleteFileSystem path.text }
  | unlinkObject (path : Path) (state : State)
      (file : IsFile (state.disk.entry (root.locate path))) :
      Change root now (.unlink path) state
        { state with disk := state.disk.remove (root.locate path) now }
  | rmdirObject (path : Path) (state : State) (below : path.names ≠ [])
      (directory : IsDirectory (state.disk.entry (root.locate path)))
      (empty : state.disk.NoChildren (root.locate path)) :
      Change root now (.rmdir path) state
        { state with disk := state.disk.remove (root.locate path) now }
  | renameRow (source target : Path) (state : State) :
      Change root now (.rename source target) state
        { state with db := state.db.renameFileSystem source.text target.text }
  | renameVersions (source target : Path) (state : State) :
      Change root now (.rename source target) state
        { state with db := state.db.renameFileVersions source.text target.text }
  | renameSegments (source target : Path) (state : State) :
      Change root now (.rename source target) state
        { state with db := state.db.renameFileSegments source.text target.text }
  | renameObject (source target : Path) (state : State) (different : source ≠ target)
      (safe : state.disk.MoveSafe (root.locate source) (root.locate target)) :
      Change root now (.rename source target) state
        { state with disk := state.disk.move (root.locate source) (root.locate target) now }

/-- The call leaves the state as it is or makes one of the changes. -/
def Makes (root : Path) (now : Int) (operation : Operation) (call : Call Cursor Location) : Prop :=
  ∀ world : World, world.environment.now = now → (handle call world).2.state = world.state ∨
    operation.Change root now world.state (handle call world).2.state

end Operation

section Calls

variable {root : Path} {now : Int} {operation : Operation}

/-- A statement makes its change of the tables. -/
theorem makes_step {stmt : Cursor}
    (change : ∀ state : State, (state.db.execute stmt.statement).2 = state.db ∨
      operation.Change root now state
        { state with db := (state.db.execute stmt.statement).2 }) :
    operation.Makes root now (.step stmt) := by
  intro world _
  rcases change world.state with same | changed
  · exact .inl (by simp only [handle, same])
  · exact .inr changed

/-- A system call makes its change of the disk or none. -/
theorem makes_change {call : Call Cursor Location} {effect : World → Disk → Except Errno Disk}
    (acts : ∀ world, (handle call world).2 = (world.change (effect world)).2)
    (change : ∀ (world : World) (disk : Disk), world.environment.now = now →
      effect world world.state.disk = .ok disk →
        operation.Change root now world.state { world.state with disk }) :
    operation.Makes root now call := by
  intro world clock
  rw [acts, World.change_eq]
  cases result : world.environment.outcome (effect world world.state.disk) with
  | error error => exact .inl rfl
  | ok disk => exact .inr (change world disk clock (Environment.outcome_ok result))

/-- These calls change neither a table nor the disk. -/
theorem makes_nothing {call : Call Cursor Location}
    (quiet : ∀ world, (handle call world).2.state = world.state) :
    operation.Makes root now call := fun world _ => .inl (quiet world)

theorem openText_plain {disk disk' : Disk} {text : Bytes} {access : AccessMode} {time : Int}
    {location : Location} (success : disk.openText text { access } time = .ok (location, disk')) :
    disk' = disk := by
  unfold Disk.openText at success
  repeat' split at success
  all_goals simp_all

/-- An open without creation and truncation changes nothing. -/
theorem makes_open (text : Bytes) (access : AccessMode) :
    operation.Makes root now (.openFile text { access }) := by
  refine makes_nothing fun world => ?_
  simp only [handle, World.attempt]
  split
  · rfl
  · rename_i location disk opened
    rw [openText_plain (Environment.outcome_ok opened)]

/-- A call that creates an object creates it for the path. -/
theorem makes_create {path : Path} {mode : Nat} {call : Call Cursor Location} {kind : NodeKind}
    (file : kind ≠ .directory)
    (acts : ∀ world, (handle call world).2 = (world.change fun disk =>
      disk.createText (root.rootText ++ path.text) kind world.environment.now).2) :
    (Operation.mknod path mode).Makes root now call := by
  refine makes_change acts fun world disk clock made => ?_
  obtain ⟨free, rfl⟩ := world.state.disk.create_ok made
  exact clock ▸ .mknodObject path mode world.state kind file free

theorem Operation.Executes.makes {statement : Statement}
    (executes : operation.Executes now statement) (row : Row) :
    operation.Makes root now (.step ⟨statement, row⟩) := by
  apply makes_step
  intro state
  cases executes with
  | select _ path member => exact .inl rfl
  | mknodSelect path mode => exact .inl rfl
  | mknodVersion path mode => exact .inr (.mknodVersion path mode state)
  | mknodRow path mode mimeType readySigned type => exact .inr (.mknodRow path mode state _)
  | releaseRow path access writing => exact .inr (.releaseRow path access state writing)
  | releaseVersion path access writing => exact .inr (.releaseVersion path access state writing)
  | releaseSegment path access writing seg signature =>
      exact .inr (.releaseSegment path access state writing seg signature)
  | unlinkRow path => exact .inr (.unlinkRow path state)
  | renameRow source target => exact .inr (.renameRow source target state)
  | renameVersions source target => exact .inr (.renameVersions source target state)
  | renameSegments source target => exact .inr (.renameSegments source target state)

/-- A call of an operation makes at most one of its changes. -/
theorem Operation.Calls.makes {call : Call Cursor Location}
    (calls : operation.Calls root now call) : operation.Makes root now call := by
  cases calls with
  | idle _ quiet =>
      refine makes_nothing fun world => ?_
      cases quiet <;> rfl
  | step _ row executes => exact executes.makes row
  | openPlain _ path access member => exact makes_open _ access
  | openFile path access trunc =>
      intro world clock
      simp only [handle, World.attempt]
      split
      · exact .inl rfl
      · rename_i location disk opened
        obtain ⟨rfl, -, rfl | ⟨rfl, regular, rfl⟩⟩ :=
          world.state.disk.open_ok access trunc (Environment.outcome_ok opened)
        · exact .inl rfl
        · exact .inr (clock ▸ .openContent path access world.state regular)
  | mknodOpen path mode =>
      refine makes_create (show NodeKind.regular ≠ .directory by simp) fun world => ?_
      obtain ⟨location, opened⟩ := world.state.disk.openText_create (root.rootText ++ path.text)
        world.environment.now
      rw [World.change_eq]
      simp only [handle, World.attempt, opened, Environment.outcome_map]
      cases world.environment.outcome (world.state.disk.createText (root.rootText ++ path.text)
        .regular world.environment.now) <;> rfl
  | mkfifo path mode =>
      exact makes_create (show NodeKind.fifo ≠ .directory by simp) fun world => rfl
  | mknod path mode =>
      refine makes_change (fun world => rfl) fun world disk clock made => ?_
      obtain ⟨kind, known, free, rfl⟩ := FileSystem.createMode_ok made
      exact clock ▸ .mknodObject path mode world.state kind (Disk.mknodKind_ne_directory known) free
  | mkdir path mode =>
      refine makes_change (fun world => rfl) fun world disk clock made => ?_
      obtain ⟨free, rfl⟩ := world.state.disk.create_ok made
      exact clock ▸ .mkdirObject path mode world.state free
  | pread _ path count offset member => exact makes_nothing fun world => rfl
  | pwrite path data offset =>
      intro world clock
      simp only [handle, World.attempt]
      rw [Environment.outcome_map]
      cases written : world.environment.outcome (world.state.disk.pwrite (root.locate path)
          (world.environment.written data) offset world.environment.now) with
      | error error => exact .inl rfl
      | ok disk =>
          obtain ⟨regular, rfl⟩ := world.state.disk.pwrite_ok (Environment.outcome_ok written)
          rw [world.environment.written_eq_take data]
          exact .inr (clock ▸ .writeContent path data offset _ world.state regular)
  | truncate path length =>
      refine makes_change (fun world => rfl) fun world disk clock made => ?_
      obtain ⟨regular, rfl⟩ := world.state.disk.truncate_ok made
      exact clock ▸ .truncateContent path length world.state regular
  | unlink path =>
      refine makes_change (fun world => rfl) fun world disk clock made => ?_
      obtain ⟨file, rfl⟩ := world.state.disk.unlink_ok made
      exact clock ▸ .unlinkObject path world.state file
  | rmdir path below =>
      refine makes_change (fun world => rfl) fun world disk clock made => ?_
      obtain ⟨directory, -, empty, rfl⟩ := world.state.disk.rmdir_ok made
      exact clock ▸ .rmdirObject path world.state below directory empty
  | rename source target =>
      intro world clock
      simp only [handle]
      rw [World.change_eq]
      split
      · exact .inl rfl
      · rename_i disk moved
        rcases world.state.disk.rename_ok (Environment.outcome_ok moved) with
          ⟨-, rfl⟩ | ⟨different, safe, -, -, rfl⟩
        · exact .inl rfl
        · exact .inr (clock ▸ .renameObject source target world.state different safe)

end Calls

namespace FileSystem

variable {fs : FileSystem} {root : Path} (rooted : fs.rootPath = root.rootText) (world : World)

include rooted

/-- Each state of an operation came about by some of its changes. -/
theorem changes_always (operation : Operation) :
    (operation.program fs).Always handle (fun later =>
      later.environment.now = world.environment.now ∧
        Relation.ReflTransGen (operation.Change root world.environment.now) world.state
          later.state) world := by
  refine always_of_along ?_ (along_calls rooted world operation) ⟨rfl, .refl⟩
  rintro call later ⟨clock, changes⟩ calls
  refine ⟨(now_handle call later).trans clock, ?_⟩
  rcases calls.makes later clock with same | changed
  · rw [same]
    exact changes
  · exact changes.tail changed

theorem changes_cut (operation : Operation) (count : Nat) :
    Relation.ReflTransGen (operation.Change root world.environment.now) world.state
      ((operation.program fs).cut handle count world).state :=
  ((always_iff_cut _ _).mp (changes_always rooted world operation) count).2

theorem changes_exec (operation : Operation) (environment : Environment) (state : State) :
    Relation.ReflTransGen (operation.Change root environment.now) state
      (exec (operation.program fs) environment state).2 :=
  (changes_always rooted ⟨state, environment⟩ operation).last.2

end FileSystem

end Ndnfs

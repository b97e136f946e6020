import Ndnfs.Foundation.MachineInteger
import Ndnfs.Foundation.Program
import Ndnfs.System.Database
import Ndnfs.System.FileCalls

namespace Ndnfs
open Effect

/-- The calls of the two programs to SQLite, to the kernel and to the face; the handles of
statements and of open files are left open. -/
inductive Call (Stmt Fd : Type) where
  | time
  /-- An object that no initializer and no successful call has set. -/
  | uninitialised
  /-- The statement is prepared and its values are bound. -/
  | prepare (statement : Statement)
  | step (stmt : Stmt)
  | columnInt (stmt : Stmt) (index : Nat)
  | columnText (stmt : Stmt) (index : Nat)
  /-- The result points into the memory of the statement. -/
  | columnBlob (stmt : Stmt) (index : Nat)
  /-- The only read of a blob comes after its statement has been finalized. -/
  | readBlob (pointer : Stmt × Nat)
  | finalize (stmt : Stmt)
  | openFile (path : Bytes) (flags : OpenFlags)
  | close (fd : Fd)
  | pread (fd : Fd) (count : Nat) (offset : Int)
  | pwrite (fd : Fd) (data : Bytes) (offset : Int)
  | truncate (path : Bytes) (length : Int)
  | unlink (path : Bytes)
  | mkfifo (path : Bytes) (mode : Nat)
  | mknod (path : Bytes) (mode : Nat)
  | mkdir (path : Bytes) (mode : Nat)
  | rmdir (path : Bytes)
  | rename (source target : Bytes)
  | stat (path : Bytes)
  | lstat (path : Bytes)
  /-- The entries come in the order of readdir(3). -/
  | opendir (path : Bytes)
  | putData (data : Data)

/-- A system call that returns -1 leaves an error number. -/
@[reducible] def Call.Reply {Stmt Fd : Type} : Call Stmt Fd → Type
  | .time | .uninitialised => Int
  | .prepare _ => Stmt
  | .step _ => Int × Stmt
  | .columnInt .. => Int
  | .columnText .. => Option Bytes
  | .columnBlob .. => Stmt × Nat
  | .readBlob _ => Option SignatureBits
  | .finalize _ | .putData _ => Unit
  | .openFile .. => Except Errno Fd
  | .pread .. => Except Errno Bytes
  | .pwrite .. => Except Errno Nat
  | .stat _ | .lstat _ => Except Errno Stat
  | .opendir _ => Except Errno (List Bytes)
  | .close _ | .truncate .. | .unlink _ | .mkfifo .. | .mknod .. | .mkdir .. | .rmdir _
  | .rename .. => Except Errno Unit

/-- Only a system call can fail. -/
def Call.Succeeds {Stmt Fd : Type} : (call : Call Stmt Fd) → call.Reply → Prop
  | .openFile .., reply => reply.isOk
  | .pread .., reply => reply.isOk
  | .pwrite .., reply => reply.isOk
  | .stat _, reply | .lstat _, reply => reply.isOk
  | .opendir _, reply => reply.isOk
  | .close _, reply | .truncate .., reply | .unlink _, reply | .mkfifo .., reply
  | .mknod .., reply | .mkdir .., reply | .rmdir _, reply | .rename .., reply => reply.isOk
  | .time, _ | .uninitialised, _ | .prepare _, _ | .step _, _ | .columnInt .., _
  | .columnText .., _ | .columnBlob .., _ | .readBlob _, _ | .finalize _, _ | .putData _, _ => True

instance {Stmt Fd : Type} (call : Call Stmt Fd) (reply : call.Reply) :
    Decidable (call.Succeeds reply) := by
  cases call <;> unfold Call.Succeeds <;> infer_instance

/-- The programs of the file system and of the server. -/
abbrev Source (Stmt Fd A : Type) := Program (Call Stmt Fd) Call.Reply A

abbrev invoke {Stmt Fd : Type} (call : Call Stmt Fd) : Source Stmt Fd call.Reply := .perform call

/-- The statement is prepared, stepped once and finalized. -/
def executeOnce {Stmt Fd : Type} (statement : Statement) : Source Stmt Fd Int := do
  let stmt ← invoke (.prepare statement)
  let (res, stmt) ← invoke (.step stmt)
  invoke (.finalize stmt)
  return res

/-- The file system and the server share the database, the disk and the network; a packet is sent
when it is given to the face. -/
structure State where
  db : Database
  disk : Disk
  sent : List Data

/-- A fault makes the next system call fail without effect. A write has room for so many bytes at
most, and the memory of a finalized statement holds anything. -/
structure Environment where
  now : Int
  faults : List (Option Errno)
  uninitialised : Int
  room : Option Nat
  freed : Option SignatureBits → Option SignatureBits

namespace Environment

variable {A : Type}

/-- A write that is short puts only the first bytes. -/
def written (environment : Environment) (data : Bytes) : Bytes :=
  match environment.room with
  | none => data
  | some room => data.take room

theorem written_eq_take (environment : Environment) (data : Bytes) :
    environment.written data = data.take (environment.written data).length := by
  unfold written
  split
  · exact (List.take_length).symm
  · rw [List.length_take, List.take_eq_take_min]

theorem length_written_le (environment : Environment) (data : Bytes) :
    (environment.written data).length ≤ data.length := by
  rw [written_eq_take]
  exact List.length_take_le' _ _

/-- This is the outcome of the next system call, given what the disk allows. -/
def outcome (environment : Environment) (effect : Except Errno A) : Except Errno A :=
  match environment.faults.head?.join with
  | some error => .error error
  | none => effect

/-- This environment is left for the calls after the next one. -/
def next (environment : Environment) : Environment :=
  { environment with faults := environment.faults.tail }

theorem outcome_error (environment : Environment) (error : Errno) :
    ∃ other, environment.outcome (.error error : Except Errno A) = .error other := by
  unfold outcome
  split
  · exact ⟨_, rfl⟩
  · exact ⟨_, rfl⟩

/-- A call succeeds only with an effect that the disk allows. -/
theorem outcome_ok {environment : Environment} {effect : Except Errno A} {value : A}
    (success : environment.outcome effect = .ok value) : effect = .ok value := by
  unfold outcome at success
  split at success
  · cases success
  · exact success

end Environment

namespace Reference

/-- The system calls of this environment meet no fault, and freed memory keeps its bytes. -/
def calm (now : Int) : Environment := ⟨now, [], 0, none, id⟩

end Reference

structure World where
  state : State
  environment : Environment

/-- A statement in use holds its current row. -/
structure Cursor where
  statement : Statement
  row : Row

namespace World

variable {A : Type}

def attempt (world : World) (effect : Disk → Except Errno (A × Disk)) : Except Errno A × World :=
  match world.environment.outcome (effect world.state.disk) with
  | .error error => (.error error, ⟨world.state, world.environment.next⟩)
  | .ok (value, disk) => (.ok value, ⟨{ world.state with disk }, world.environment.next⟩)

/-- This call changes the disk and returns nothing. -/
def change (world : World) (effect : Disk → Except Errno Disk) : Except Errno Unit × World :=
  world.attempt fun disk => (effect disk).map ((), ·)

/-- This call reads the disk. -/
def inspect (world : World) (effect : Disk → Except Errno A) : Except Errno A × World :=
  (world.environment.outcome (effect world.state.disk), ⟨world.state, world.environment.next⟩)

end World

def Column.toInt : Column → Int
  | .integer value => MachineInteger.toInt value
  | _ => 0

def Column.toText : Column → Option Bytes
  | .text value => some value
  | _ => none

def Column.toBlob : Column → Option SignatureBits
  | .blob value => some value
  | _ => none

/-- The host executes one call. No statement finds the database locked, and the face takes each
packet. -/
def handle : (call : Call Cursor Location) → World → call.Reply × World
  | .time, world => (world.environment.now, world)
  | .uninitialised, world => (world.environment.uninitialised, world)
  | .prepare statement, world => (⟨statement, []⟩, world)
  | .step stmt, world =>
      let result := world.state.db.execute stmt.statement
      ((result.1.code, ⟨stmt.statement, result.1.row⟩), { world with state.db := result.2 })
  | .columnInt stmt index, world => ((stmt.row.column index).toInt, world)
  | .columnText stmt index, world => ((stmt.row.column index).toText, world)
  | .columnBlob stmt index, world => ((stmt, index), world)
  | .readBlob pointer, world =>
      (world.environment.freed (pointer.1.row.column pointer.2).toBlob, world)
  | .finalize _, world => ((), world)
  | .openFile path flags, world => world.attempt fun disk =>
      disk.openText path flags world.environment.now
  | .close _, world => world.inspect fun _ => .ok ()
  | .pread fd count offset, world => world.inspect fun disk => disk.pread fd count offset
  | .pwrite fd data offset, world =>
      let data := world.environment.written data
      world.attempt fun disk =>
        (disk.pwrite fd data offset world.environment.now).map (data.length, ·)
  | .truncate path length, world => world.change fun disk =>
      disk.truncateText path length world.environment.now
  | .unlink path, world => world.change fun disk => disk.unlinkText path world.environment.now
  | .mkfifo path _, world => world.change fun disk =>
      disk.createText path .fifo world.environment.now
  | .mknod path mode, world => world.change fun disk =>
      (Disk.mknodKind mode).bind fun kind => disk.createText path kind world.environment.now
  | .mkdir path _, world => world.change fun disk =>
      disk.createText path .directory world.environment.now
  | .rmdir path, world => world.change fun disk => disk.rmdirText path world.environment.now
  | .rename source target, world => world.change fun disk =>
      disk.renameText source target world.environment.now
  | .stat path, world | .lstat path, world => world.inspect fun disk => disk.statText path
  | .opendir path, world => world.inspect fun disk => disk.listText path
  | .putData data, world => ((), { world with state.sent := world.state.sent ++ [data] })

/-- The program runs in one environment from the shared state. -/
def exec {A : Type} (program : Source Cursor Location A) (environment : Environment)
    (state : State) : A × State :=
  let result := program.run handle ⟨state, environment⟩
  (result.1, result.2.state)

end Ndnfs

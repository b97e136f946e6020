import Ndnfs.Foundation.Run
import Ndnfs.Fs.Execution
import Ndnfs.Ndn.Reference

namespace Ndnfs

/-- These requests of the kernel work on objects without links; link, symlink, readlink and those
that only look at an object or change its attributes are not among them. -/
inductive Operation where
  | mknod (path : Path) (mode : Nat)
  | mkdir (path : Path) (mode : Nat)
  | openFile (path : Path) (access : AccessMode) (trunc : Bool)
  | read (path : Path) (size : Nat) (offset : Int)
  | write (path : Path) (data : Bytes) (offset : Int)
  | truncate (path : Path) (length : Int)
  | release (path : Path) (access : AccessMode)
  | unlink (path : Path)
  | rmdir (path : Path)
  | rename (source target : Path)

def Operation.program {Stmt Fd : Type} (fs : FileSystem) : Operation → Source Stmt Fd Int
  | .mknod path mode => fs.ndnfsMknod path.text mode
  | .mkdir path mode => fs.ndnfsMkdir path.text mode
  | .openFile path access trunc => fs.ndnfsOpen path.text { access, truncate := trunc }
  | .read path size offset => do
      let (readLen, _) ← fs.ndnfsRead path.text size offset
      return readLen
  | .write path data offset => fs.ndnfsWrite path.text data offset
  | .truncate path length => fs.ndnfsTruncate path.text length
  | .release path access => fs.ndnfsRelease path.text { access }
  | .unlink path => fs.ndnfsUnlink path.text
  | .rmdir path => fs.ndnfsRmdir path.text
  | .rename source target => fs.ndnfsRename source.text target.text

/-- The operations that change the two tables of versions. -/
def ChangesVersions : Operation → Prop
  | .mknod .. | .release .. | .unlink _ | .rename .. => True
  | _ => False

/-- Each operation runs in its own environment. -/
structure Request where
  operation : Operation
  environment : Environment

/-- The clock shows the time of the last request. -/
structure History where
  state : State
  clock : Int

namespace FileSystem

/-- A read changes nothing. -/
theorem exec_read (fs : FileSystem) (path : Path) (size : Nat) (offset : Int)
    (environment : Environment) (state : State) :
    (exec ((Operation.read path size offset).program fs) environment state).2 = state := by
  simp only [Operation.program, exec, Effect.Program.run_bind]
  exact fs.exec_ndnfsRead path.text environment state size offset

/-- The other operations leave the database as it is. -/
theorem db_of_not_changesVersions (fs : FileSystem) {operation : Operation}
    (other : ¬ ChangesVersions operation) (environment : Environment) (state : State) :
    (exec (operation.program fs) environment state).2.db = state.db := by
  cases operation with
  | mkdir path mode =>
      simp only [Operation.program, exec_ndnfsMkdir]
      split <;> rfl
  | openFile path access trunc =>
      simp only [Operation.program, exec_ndnfsOpen]
      split <;> rfl
  | read path size offset => rw [fs.exec_read]
  | write path data offset =>
      simp only [Operation.program, exec_ndnfsWrite]
      split
      · split
        · rfl
        · split <;> rfl
      · rfl
  | truncate path length =>
      simp only [Operation.program, exec_ndnfsTruncate]
      split
      · split <;> rfl
      · rfl
  | rmdir path =>
      by_cases top : path.text = ascii "/"
      · simp only [Operation.program, top, exec_ndnfsRmdir_root]
      · simp only [Operation.program, exec_ndnfsRmdir fs path.text environment state top]
        split <;> rfl
  | _ => exact absurd trivial other

def step (fs : FileSystem) (history : History) (request : Request) : History :=
  ⟨(exec (request.operation.program fs) request.environment history.state).2,
    request.environment.now⟩

end FileSystem

/-- The clock never goes backwards and stays in the range of int. -/
def ClockAdvances (history : History) (request : Request) : Prop :=
  history.clock ≤ request.environment.now ∧ MachineInteger.IsInt request.environment.now

instance (history : History) (request : Request) : Decidable (ClockAdvances history request) :=
  inferInstanceAs (Decidable (_ ∧ _))

namespace Reference

/-- The default configuration with the root directory of the disk as the root path. -/
def fileSystem : FileSystem where
  ndn := ndn
  globalPrefix := ascii "/ndn/broadcast/ndnfs"
  rootPath := []
  certificateName := certificateName

def root : Path := ⟨[], by decide⟩
def fileA : Path := ⟨[ascii "a"], by decide⟩
def fileB : Path := ⟨[ascii "b"], by decide⟩

/-- The mode of a regular file. -/
def regularMode : Nat := S_IFREG + 0o644

/-- A new system has an empty database, an empty root directory and has sent nothing. -/
def newState : State := ⟨.empty, .bare, []⟩

/-- A first file was created at time 1. -/
def createdState : State := (fileSystem.step ⟨newState, 0⟩ ⟨.mknod fileA regularMode, calm 1⟩).state

/-- An open file is released with these flags. -/
def writingFlags : OpenFlags := { access := .readWrite }

/-- The created file has another content. -/
def filledState (content : Bytes) : State :=
  { createdState with disk := createdState.disk.modify [ascii "a"] (fun _ => content) 1 }

/-- The file with one byte was released at time 2. -/
def releasedState : State :=
  (exec (fileSystem.ndnfsRelease (ascii "/a") writingFlags) (calm 2) (filledState (ascii "x"))).2

end Reference

end Ndnfs

import Ndnfs.Foundation.Guards
import Ndnfs.Fs.Effect

namespace Ndnfs
open Effect Program MachineInteger

namespace Operation

/-- The paths that the kernel hands to the operation. -/
def paths : Operation → List Path
  | .mknod path _ | .mkdir path _ | .openFile path .. | .read path .. | .write path ..
  | .truncate path _ | .release path _ | .unlink path | .rmdir path => [path]
  | .rename source target => [source, target]

/-- The statements that an operation steps. -/
inductive Executes (now : Int) : Operation → Statement → Prop
  | select (operation : Operation) (path : Path) (member : path ∈ operation.paths) :
      Executes now operation (.selectCurrentVersion path.text)
  | mknodSelect (path : Path) (mode : Nat) :
      Executes now (.mknod path mode) (.selectFileSystem path.text)
  | mknodVersion (path : Path) (mode : Nat) :
      Executes now (.mknod path mode) (.insertFileVersion path.text (toInt now))
  | mknodRow (path : Path) (mode : Nat) (mimeType : Bytes) (readySigned type : Int) :
      Executes now (.mknod path mode)
        (.insertFileSystem path.text (toInt now) mimeType readySigned type)
  | releaseRow (path : Path) (access : AccessMode) (writing : access ≠ .readOnly) :
      Executes now (.release path access) (.updateCurrentVersion (toInt now) path.text)
  | releaseVersion (path : Path) (access : AccessMode) (writing : access ≠ .readOnly) :
      Executes now (.release path access) (.insertFileVersion path.text (toInt now))
  | releaseSegment (path : Path) (access : AccessMode) (writing : access ≠ .readOnly) (seg : Int)
      (signature : SignatureBits) :
      Executes now (.release path access) (.replaceFileSegment path.text (toInt now) seg signature)
  | unlinkRow (path : Path) : Executes now (.unlink path) (.deleteFileSystem path.text)
  | renameRow (source target : Path) :
      Executes now (.rename source target) (.renameFileSystem target.text source.text)
  | renameVersions (source target : Path) :
      Executes now (.rename source target) (.renameFileVersions target.text source.text)
  | renameSegments (source target : Path) :
      Executes now (.rename source target) (.renameFileSegments target.text source.text)

/-- These calls neither read nor change the tables and the disk. -/
inductive Idle : Call Cursor Location → Prop
  | time : Idle .time
  | prepare (statement : Statement) : Idle (.prepare statement)
  | columnInt (stmt : Cursor) (index : Nat) : Idle (.columnInt stmt index)
  | finalize (stmt : Cursor) : Idle (.finalize stmt)
  | close (location : Location) : Idle (.close location)

/-- The calls that an operation makes; a path stands for the text behind the root path. -/
inductive Calls (root : Path) (now : Int) : Operation → Call Cursor Location → Prop
  | idle (operation : Operation) {call : Call Cursor Location} (idle : Idle call) :
      Calls root now operation call
  | step (operation : Operation) {statement : Statement} (row : Row)
      (executes : operation.Executes now statement) :
      Calls root now operation (.step ⟨statement, row⟩)
  | openPlain (operation : Operation) (path : Path) (access : AccessMode)
      (member : path ∈ operation.paths) :
      Calls root now operation (.openFile (root.rootText ++ path.text) { access })
  | openFile (path : Path) (access : AccessMode) (trunc : Bool) :
      Calls root now (.openFile path access trunc)
        (.openFile (root.rootText ++ path.text) { access, truncate := trunc })
  | mknodOpen (path : Path) (mode : Nat) :
      Calls root now (.mknod path mode) (.openFile (root.rootText ++ path.text)
        { access := .writeOnly, create := true, exclusive := true })
  | mkfifo (path : Path) (mode : Nat) :
      Calls root now (.mknod path mode) (.mkfifo (root.rootText ++ path.text) mode)
  | mknod (path : Path) (mode : Nat) :
      Calls root now (.mknod path mode) (.mknod (root.rootText ++ path.text) mode)
  | mkdir (path : Path) (mode : Nat) :
      Calls root now (.mkdir path mode) (.mkdir (root.rootText ++ path.text) mode)
  | pread (operation : Operation) (path : Path) (count : Nat) (offset : Int)
      (member : path ∈ operation.paths) :
      Calls root now operation (.pread (root.locate path) count offset)
  | pwrite (path : Path) (data : Bytes) (offset : Int) :
      Calls root now (.write path data offset) (.pwrite (root.locate path) data offset)
  | truncate (path : Path) (length : Int) :
      Calls root now (.truncate path length) (.truncate (root.rootText ++ path.text) length)
  | unlink (path : Path) : Calls root now (.unlink path) (.unlink (root.rootText ++ path.text))
  | rmdir (path : Path) (below : path.names ≠ []) :
      Calls root now (.rmdir path) (.rmdir (root.rootText ++ path.text))
  | rename (source target : Path) :
      Calls root now (.rename source target)
        (.rename (root.rootText ++ source.text) (root.rootText ++ target.text))

end Operation

open Operation

/-- A call may get this reply while the clock shows this time. -/
def Possible (now : Int) (call : Call Cursor Location) (reply : call.Reply) : Prop :=
  ∃ world : World, world.environment.now = now ∧ (handle call world).1 = reply

theorem now_handle (call : Call Cursor Location) (world : World) :
    (handle call world).2.environment.now = world.environment.now := by
  cases call <;> simp only [handle, World.attempt, World.change, World.inspect,
    Environment.next_now] <;> split <;> rfl

section Success

variable {A : Type} {world : World}

theorem attempt_ok {effect : Disk → Except Errno (A × Disk)} {value : A}
    (success : (world.attempt effect).1 = .ok value) : ∃ disk,
      effect world.state.disk = .ok (value, disk) ∧
        (world.attempt effect).2.state = { world.state with disk } := by
  unfold World.attempt at success ⊢
  split at success
  · cases success
  · rename_i found disk made
    cases success
    exact ⟨disk, Environment.outcome_ok made, rfl⟩

theorem change_ok {effect : Disk → Except Errno Disk}
    (success : (world.change effect).1 = .ok ()) : ∃ disk,
      effect world.state.disk = .ok disk ∧
        (world.change effect).2.state = { world.state with disk } := by
  obtain ⟨disk, made, state⟩ := attempt_ok success
  refine ⟨disk, ?_, state⟩
  cases found : effect world.state.disk with
  | error error =>
      rw [found] at made
      cases made
  | ok other =>
      rw [found] at made
      cases made
      rfl

end Success

section Replies

variable {now : Int}

theorem possible_prepare {statement : Statement} {stmt : Cursor}
    (came : Possible now (.prepare statement) stmt) : stmt = ⟨statement, []⟩ := by
  obtain ⟨world, -, reply⟩ := came
  exact reply.symm

theorem possible_time {time : Int} (came : Possible now .time time) : time = now := by
  obtain ⟨world, clock, reply⟩ := came
  exact reply.symm.trans clock

/-- An open without creation gives the location of the path. -/
theorem opened_location {root path : Path} {text : Bytes} (place : text = root.rootText ++ path.text)
    (access : AccessMode) {location : Location} {world : World}
    (opened : (handle (.openFile text { access }) world).1 = .ok location) :
    location = root.locate path := by
  subst place
  simp only [handle, World.attempt] at opened
  split at opened
  · cases opened
  · rename_i found disk success
    cases opened
    exact (Disk.open_ok _ access false (Environment.outcome_ok success)).1

theorem possible_open {root path : Path} {text : Bytes} (place : text = root.rootText ++ path.text)
    {access : AccessMode} {location : Location}
    (came : Possible now (.openFile text { access }) (.ok location)) :
    location = root.locate path := by
  obtain ⟨world, -, opened⟩ := came
  exact opened_location place access opened

end Replies

/-- Whatever replies are possible, the program makes only calls of the operation. -/
abbrev Operation.Guarded {A : Type} (root : Path) (now : Int) (operation : Operation)
    (program : Source Cursor Location A) : Prop :=
  program.Guards (Possible now) (operation.Calls root now) fun _ => True

section Guarded

variable {root : Path} {now : Int} {operation : Operation}

theorem guards_executes {statement : Statement} (executes : operation.Executes now statement)
    {post : Int → Prop} (all : ∀ res, post res) :
    (executeOnce statement : Source Cursor Location Int).Guards (Possible now)
      (operation.Calls root now) post := by
  simp only [executeOnce, guards_bind, guards_perform]
  refine ⟨.idle _ (.prepare _), fun stmt came => ?_⟩
  obtain rfl := possible_prepare came
  refine ⟨.step _ _ executes, fun stepped _ => ?_⟩
  exact ⟨.idle _ (.finalize _), fun _ _ => all _⟩

end Guarded

/-- A read also fills the buffer of its caller. -/
def Operation.answer {Stmt Fd : Type} (fs : FileSystem) : Operation → Source Stmt Fd (Int × Bytes)
  | .read path size offset => fs.ndnfsRead path.text size offset
  | operation => do
      let res ← operation.program fs
      return (res, [])

namespace FileSystem

variable {fs : FileSystem} {root : Path} (rooted : fs.rootPath = root.rootText) (now : Int)

include rooted

theorem calls_mkdir (path : Path) (mode : Nat) :
    (Operation.mkdir path mode).Guarded root now (fs.ndnfsMkdir path.text mode) := by
  simp only [Guarded, ndnfsMkdir, guards_bind, guards_perform, fullPath_text rooted]
  refine ⟨.mkdir path mode, fun reply _ => ?_⟩
  cases reply <;> trivial

theorem calls_rmdir (path : Path) :
    (Operation.rmdir path).Guarded root now (fs.ndnfsRmdir path.text) := by
  unfold Guarded ndnfsRmdir
  split
  · trivial
  · rename_i top
    have below : path.names ≠ [] := by
      intro empty
      rw [Path.text, Path.parts, if_pos empty] at top
      exact top rfl
    simp only [guards_bind, guards_perform, fullPath_text rooted]
    refine ⟨.rmdir path below, fun reply _ => ?_⟩
    cases reply <;> trivial

theorem calls_open (path : Path) (access : AccessMode) (trunc : Bool) :
    (Operation.openFile path access trunc).Guarded root now
      (fs.ndnfsOpen path.text { access, truncate := trunc }) := by
  simp only [Guarded, ndnfsOpen, guards_bind, guards_perform, fullPath_text rooted]
  refine ⟨.openFile path access trunc, fun opened _ => ?_⟩
  cases opened with
  | error error => trivial
  | ok location =>
      simp only [guards_bind, guards_perform]
      refine ⟨.idle _ (.close _), fun _ _ => ⟨.idle _ (.prepare _), fun stmt came => ?_⟩⟩
      obtain rfl := possible_prepare came
      refine ⟨.step _ _ (.select _ path (List.mem_singleton_self path)), fun stepped _ => ?_⟩
      split
      · exact ⟨.idle _ (.finalize _), fun _ _ => trivial⟩
      · simp only [guards_bind, guards_perform]
        refine ⟨.idle _ (.columnInt _ _), fun _ _ => ⟨.idle _ (.finalize _), fun _ _ =>
          ⟨.idle _ .time, fun _ _ => ?_⟩⟩⟩
        cases access with
        | readOnly => trivial
        | writeOnly | readWrite =>
            dsimp only
            split <;> trivial

theorem calls_read (path : Path) (size : Nat) (offset : Int) :
    (Operation.read path size offset).Guarded root now (fs.ndnfsRead path.text size offset) := by
  have member : path ∈ (Operation.read path size offset).paths := List.mem_singleton_self path
  simp only [Guarded, ndnfsRead, guards_bind]
  refine guards_executes (.select _ path member) fun res => ?_
  split
  · trivial
  · simp only [guards_bind, guards_perform, fullPath_text rooted]
    refine ⟨.openPlain _ path .readOnly member, fun opened came => ?_⟩
    cases opened with
    | error error => trivial
    | ok location =>
        obtain rfl := possible_open (fullPath_text rooted path) came
        simp only [guards_bind, guards_perform]
        refine ⟨.pread _ path size offset member, fun read _ => ?_⟩
        cases read with
        | error error => trivial
        | ok buf => exact ⟨.idle _ (.close _), fun _ _ => trivial⟩

theorem calls_write (path : Path) (data : Bytes) (offset : Int) :
    (Operation.write path data offset).Guarded root now (fs.ndnfsWrite path.text data offset) := by
  have member : path ∈ (Operation.write path data offset).paths := List.mem_singleton_self path
  simp only [Guarded, ndnfsWrite, guards_bind]
  refine guards_executes (.select _ path member) fun res => ?_
  split
  · trivial
  · simp only [guards_bind, guards_perform, fullPath_text rooted]
    refine ⟨.openPlain _ path .readWrite member, fun opened came => ?_⟩
    cases opened with
    | error error => trivial
    | ok location =>
        obtain rfl := possible_open (fullPath_text rooted path) came
        simp only [guards_bind, guards_perform]
        refine ⟨.pwrite path data offset, fun written _ => ?_⟩
        cases written with
        | error error => trivial
        | ok writeLen => exact ⟨.idle _ (.close _), fun _ _ => trivial⟩

theorem calls_truncate (path : Path) (length : Int) :
    (Operation.truncate path length).Guarded root now (fs.ndnfsTruncate path.text length) := by
  have member : path ∈ (Operation.truncate path length).paths := List.mem_singleton_self path
  simp only [Guarded, ndnfsTruncate, guards_bind]
  refine guards_executes (.select _ path member) fun res => ?_
  split
  · trivial
  · simp only [guards_bind, guards_perform, fullPath_text rooted]
    refine ⟨.truncate path length, fun reply _ => ?_⟩
    cases reply <;> trivial

theorem calls_unlink (path : Path) :
    (Operation.unlink path).Guarded root now (fs.ndnfsUnlink path.text) := by
  simp only [Guarded, ndnfsUnlink, removeFileEntry, guards_bind, guards_perform, guards_pure,
    fullPath_text rooted]
  refine guards_executes (.unlinkRow path) fun _ => guards_executes (.unlinkRow path) fun _ => ?_
  refine ⟨.unlink path, fun reply _ => ?_⟩
  cases reply <;> trivial

theorem calls_rename (source target : Path) :
    (Operation.rename source target).Guarded root now
      (fs.ndnfsRename source.text target.text) := by
  have unassigned : ¬ ((0 : Int) ≠ SQLITE_OK ∧ (0 : Int) ≠ SQLITE_DONE) := by decide
  simp only [Guarded, ndnfsRename, if_neg unassigned, guards_bind, guards_perform,
    fullPath_text rooted]
  refine ⟨.idle _ (.prepare _), fun first came => ?_⟩
  obtain rfl := possible_prepare came
  refine ⟨.step _ _ (.renameRow source target), fun _ _ => ⟨.idle _ (.finalize _), fun _ _ =>
    ⟨.idle _ (.prepare _), fun second came => ?_⟩⟩⟩
  obtain rfl := possible_prepare came
  refine ⟨.step _ _ (.renameVersions source target), fun _ _ => ⟨.idle _ (.finalize _), fun _ _ =>
    ⟨.idle _ (.prepare _), fun third came => ?_⟩⟩⟩
  obtain rfl := possible_prepare came
  refine ⟨.step _ _ (.renameSegments source target), fun _ _ => ⟨.idle _ (.finalize _), fun _ _ =>
    ⟨.rename source target, fun reply _ => ?_⟩⟩⟩
  cases reply <;> trivial

theorem calls_createObject (path : Path) (mode : Nat) :
    (Operation.mknod path mode).Guarded root now (fs.createObject path.text mode) := by
  unfold Guarded createObject
  rw [fullPath_text rooted]
  split
  · simp only [guards_bind, guards_perform]
    refine ⟨.mknodOpen path mode, fun opened _ => ?_⟩
    cases opened with
    | error error => trivial
    | ok location => exact ⟨.idle _ (.close _), fun _ _ => trivial⟩
  · split
    · exact ⟨.mkfifo path mode, fun _ _ => trivial⟩
    · exact ⟨.mknod path mode, fun _ _ => trivial⟩

theorem calls_mknod (path : Path) (mode : Nat) :
    (Operation.mknod path mode).Guarded root now (fs.ndnfsMknod path.text mode) := by
  simp only [Guarded, ndnfsMknod, guards_bind]
  refine guards_executes (.mknodSelect path mode) fun res => ?_
  split
  · trivial
  · simp only [guards_bind, guards_perform]
    refine ⟨.idle _ .time, fun time came => ?_⟩
    obtain rfl := possible_time came
    refine guards_executes (.mknodVersion path mode) fun _ =>
      guards_executes (.mknodRow path mode _ _ _) fun _ => ?_
    refine (calls_createObject rooted time path mode).mono fun created _ => ?_
    cases created <;> trivial

omit rooted in
theorem calls_signLoop (path : Path) {access : AccessMode} (writing : access ≠ .readOnly)
    (rounds : Nat) (seg : Int) :
    (Operation.release path access).Guarded root now
      (fs.signLoop path.text (toInt now) (root.locate path) rounds seg) := by
  induction rounds generalizing seg with
  | zero => trivial
  | succ rounds ih =>
      simp only [Guarded, signLoop, guards_bind, guards_perform]
      refine ⟨.pread _ path _ _ (List.mem_singleton_self path), fun read _ => ?_⟩
      cases read with
      | error error => trivial
      | ok buf =>
          have later : (if buf.length = segSize then
                signLoop fs path.text (toInt now) (root.locate path) rounds (seg + 1)
              else return .ok ()).Guards (Possible now)
              ((Operation.release path access).Calls root now) fun _ => True := by
            split
            · exact ih _
            · trivial
          simp only [guards_bind]
          unfold signSegment
          dsimp only
          split
          · exact later
          · rename_i signature signed
            simp only [guards_bind, guards_pure]
            exact guards_executes (.releaseSegment path access writing seg signature) fun _ => later

theorem calls_release (path : Path) (access : AccessMode) :
    (Operation.release path access).Guarded root now
      (fs.ndnfsRelease path.text { access }) := by
  have member : path ∈ (Operation.release path access).paths := List.mem_singleton_self path
  simp only [Guarded, ndnfsRelease, guards_bind, guards_perform]
  refine ⟨.idle _ .time, fun time came => ?_⟩
  obtain rfl := possible_time came
  refine guards_executes (.select _ path member) fun res => ?_
  split
  · trivial
  · split
    · trivial
    · rename_i writing
      simp only [guards_bind, guards_perform]
      refine ⟨.idle _ (.prepare _), fun stmt came => ?_⟩
      obtain rfl := possible_prepare came
      refine ⟨.step _ _ (.releaseRow path access writing), fun stepped _ => ?_⟩
      split
      · trivial
      · simp only [guards_bind, guards_perform]
        refine ⟨.idle _ (.finalize _), fun _ _ =>
          guards_executes (.releaseVersion path access writing) fun _ => ?_⟩
        refine ⟨fullPath_text rooted path ▸ .openPlain _ path .readOnly member,
          fun opened came => ?_⟩
        cases opened with
        | error error => trivial
        | ok location =>
            obtain rfl := possible_open (fullPath_text rooted path) came
            simp only [guards_bind]
            refine (calls_signLoop time path writing _ _).mono fun signed _ => ?_
            cases signed with
            | error error => trivial
            | ok _ => exact ⟨.idle _ (.close _), fun _ _ => trivial⟩

/-- An operation makes only its calls. -/
theorem calls_program (operation : Operation) :
    operation.Guarded root now (operation.program fs) := by
  cases operation with
  | mknod path mode => exact calls_mknod rooted now path mode
  | mkdir path mode => exact calls_mkdir rooted now path mode
  | openFile path access trunc => exact calls_open rooted now path access trunc
  | read path size offset =>
      simp only [Guarded, Operation.program, guards_bind, guards_pure]
      exact calls_read rooted now path size offset
  | write path data offset => exact calls_write rooted now path data offset
  | truncate path length => exact calls_truncate rooted now path length
  | release path access => exact calls_release rooted now path access
  | unlink path => exact calls_unlink rooted now path
  | rmdir path => exact calls_rmdir rooted now path
  | rename source target => exact calls_rename rooted now source target

theorem calls_answer (operation : Operation) :
    operation.Guarded root now (operation.answer fs) := by
  cases operation with
  | read path size offset => exact calls_read rooted now path size offset
  | _ =>
      simp only [Guarded, Operation.answer, guards_bind, guards_pure]
      exact calls_program rooted now _

theorem along_calls (world : World) (operation : Operation) :
    (operation.program fs).Along handle
      (fun call _ => operation.Calls root world.environment.now call) world := by
  have gives : ∀ (call : Call Cursor Location) (later : World),
      later.environment.now = world.environment.now →
      Possible world.environment.now call (handle call later).1 ∧
        (handle call later).2.environment.now = world.environment.now :=
    fun call later clock => ⟨⟨later, clock, rfl⟩, (now_handle call later).trans clock⟩
  exact (calls_program rooted world.environment.now operation).along gives rfl

end FileSystem

end Ndnfs

import Ndnfs.Fs.Effect

namespace Ndnfs
open Effect Program KeyedTable

/-- A path has a row exactly when an object other than a directory stands there. -/
def Agree (root : Path) (state : State) : Prop :=
  ∀ path : Path, state.db.fileSystem.Has path.text ↔ IsFile (state.disk.entry (root.locate path))

/-- Every system call of the request succeeds. -/
def CallsSucceed (fs : FileSystem) (history : History) (request : Request) : Prop :=
  (request.operation.program fs).Along handle Call.Succeeds ⟨history.state, request.environment⟩

instance (fs : FileSystem) (history : History) (request : Request) :
    Decidable (CallsSucceed fs history request) := inferInstanceAs (Decidable (Program.Along ..))

/-- No object other than a directory stands at or below the path. -/
def OnlyDirectories (root : Path) (disk : Disk) (path : Path) : Prop :=
  ∀ below : Path, path.names <+: below.names → ¬ IsFile (disk.entry (root.locate below))

/-- A rename moves one file to a free place or directories only. -/
def RenameAgrees (root : Path) (disk : Disk) (source target : Path) : Prop :=
  source = target ∨
    (IsFile (disk.entry (root.locate source)) ∧ ¬ IsFile (disk.entry (root.locate target))) ∨
    (IsDirectory (disk.entry (root.locate source)) ∧ OnlyDirectories root disk source)

def KeepsAgreement (root : Path) (history : History) (request : Request) : Prop :=
  match request.operation with
  | .rename source target => RenameAgrees root history.state.disk source target
  | _ => True

section Step

variable {root : Path} {state : State}

theorem isDirectory_not_isFile {entry : Option Entry} (directory : IsDirectory entry) :
    ¬ IsFile entry := fun file => file.2 directory

/-- Equal rows and equal kinds of objects keep the agreement. -/
theorem agree_of_same {state' : State} (agree : Agree root state)
    (rows : ∀ path : Path,
      state'.db.fileSystem.Has path.text ↔ state.db.fileSystem.Has path.text)
    (objects : ∀ path : Path, IsFile (state'.disk.entry (root.locate path)) ↔
      IsFile (state.disk.entry (root.locate path))) : Agree root state' := by
  intro path
  rw [rows, objects]
  exact agree path

theorem agree_rewrites {disk' : Disk} {location : Location} {change : Bytes → Bytes}
    (agree : Agree root state) (rewrites : state.disk.Rewrites location change disk') :
    Agree root { state with disk := disk' } :=
  agree_of_same agree (fun _ => Iff.rfl) fun path => rewrites.isFile_iff (root.locate path)

/-- A new directory and a removed directory are no files. -/
theorem agree_createDirectory {path : Path} {now : Int} (agree : Agree root state)
    (free : state.disk.Free (root.locate path)) :
    Agree root { state with disk := state.disk.create (root.locate path) .directory now } := by
  refine agree_of_same agree (fun _ => Iff.rfl) fun other => ?_
  dsimp only
  rw [state.disk.entry_create free]
  split
  · rename_i same
    rw [same, free.1, isFile_some]
    simp [isFile_none]
  · exact Iff.rfl

theorem agree_removeDirectory {path : Path} {now : Int} (agree : Agree root state)
    (directory : IsDirectory (state.disk.entry (root.locate path))) (below : root.locate path ≠ [])
    (empty : state.disk.NoChildren (root.locate path)) :
    Agree root { state with disk := state.disk.remove (root.locate path) now } := by
  refine agree_of_same agree (fun _ => Iff.rfl) fun other => ?_
  dsimp only
  rw [state.disk.entry_remove below empty]
  split
  · rename_i same
    rw [same]
    simp [isFile_none, isDirectory_not_isFile directory]
  · exact Iff.rfl

theorem agree_mknod {path : Path} (mode : Nat) {kind : NodeKind} (now : Int)
    (agree : Agree root state) (absent : ¬ state.db.fileSystem.Has path.text)
    (known : Disk.mknodKind mode = .ok kind) (free : state.disk.Free (root.locate path)) :
    Agree root { state with
      db := FileSystem.mknodRows path.text mode now state.db
      disk := state.disk.create (root.locate path) kind now } := by
  intro other
  dsimp only
  rw [state.disk.entry_create free, Has, FileSystem.mknodRows,
    Database.lookup_insertFileSystem (by simpa using absent)]
  by_cases same : other = path
  · subst other
    simp [isFile_some, Disk.mknodKind_ne_directory known]
  · rw [if_neg (mt Path.text_injective same), if_neg (mt Path.locate_inj.mp same)]
    simpa [Has] using agree other

theorem agree_unlink {path : Path} {now : Int} (agree : Agree root state)
    (file : IsFile (state.disk.entry (root.locate path))) :
    Agree root { state with
      db := state.db.deleteFileSystem path.text
      disk := state.disk.remove (root.locate path) now } := by
  intro other
  dsimp only
  rw [state.disk.entry_remove (ne_nil_of_isFile file) (state.disk.noChildren_of_not_directory file.2), Has,
    Database.lookup_deleteFileSystem]
  by_cases same : other = path
  · subst other
    simp [isFile_none]
  · rw [if_neg (mt Path.text_injective same), if_neg (mt Path.locate_inj.mp same)]
    exact agree other

end Step

section Rename

variable {root source target : Path} {state : State} {now : Int}

/-- A moved directory keeps the agreement when nothing but directories moves. -/
theorem isFile_move_directory {disk : Disk}
    (safe : disk.MoveSafe (root.locate source) (root.locate target))
    (free : ¬ IsFile (disk.entry (root.locate target)))
    (only : OnlyDirectories root disk source) (path : Path) :
    IsFile ((disk.move (root.locate source) (root.locate target) now).entry (root.locate path)) ↔
      IsFile (disk.entry (root.locate path)) := by
  rw [disk.entry_move safe]
  split
  · rename_i inside
    obtain ⟨rest, same⟩ := inside
    have names : target.names ++ rest = path.names := by
      simpa [Path.locate, List.append_assoc] using same
    have origin : ∀ name ∈ source.names ++ rest, ValidName name := by
      intro name member
      rcases List.mem_append.mp member with upper | lower
      · exact source.valid name upper
      · exact path.valid name (by simp [← names, lower])
    have gone : ¬ IsFile (disk.entry (root.locate path)) := by
      by_cases last : rest = []
      · rwa [← same, last, List.append_nil]
      · rw [← same, disk.none_below safe.empty last]
        exact isFile_none
    have moved := only ⟨source.names ++ rest, origin⟩ (List.prefix_append _ _)
    rw [← same, List.drop_left]
    rw [← same] at gone
    rw [Path.locate, ← List.append_assoc] at moved
    exact iff_of_false moved gone
  · split
    · rename_i below
      have inside : source.names <+: path.names := (List.prefix_append_right_inj _).mp below
      exact iff_of_false isFile_none (only path inside)
    · exact Iff.rfl

/-- A moved file takes nothing with it. -/
theorem isFile_move_file {disk : Disk}
    (safe : disk.MoveSafe (root.locate source) (root.locate target))
    (file : IsFile (disk.entry (root.locate source))) {path : Path} (here : path ≠ source)
    (there : path ≠ target) :
    IsFile ((disk.move (root.locate source) (root.locate target) now).entry (root.locate path)) ↔
      IsFile (disk.entry (root.locate path)) := by
  have childless := disk.noChildren_of_not_directory file.2
  rw [disk.entry_move safe]
  split
  · rename_i inside
    obtain ⟨rest, same⟩ := inside
    have proper : rest ≠ [] := by
      rintro rfl
      exact there (Path.locate_inj.mp (by rw [← same, List.append_nil]))
    rw [← same, List.drop_left, disk.none_below childless proper,
      disk.none_below safe.empty proper]
  · split
    · rename_i below
      obtain ⟨rest, same⟩ := below
      have proper : rest ≠ [] := by
        rintro rfl
        exact here (Path.locate_inj.mp (by rw [← same, List.append_nil]))
      rw [← same, disk.none_below childless proper]
    · exact Iff.rfl

theorem isFile_move_source {disk : Disk} (path : Path)
    (safe : disk.MoveSafe (root.locate source) (root.locate target))
    (below : source.names <+: path.names) :
    ¬ IsFile ((disk.move (root.locate source) (root.locate target) now).entry
      (root.locate path)) := by
  have inside : root.locate source <+: root.locate path :=
    (List.prefix_append_right_inj _).mpr below
  rw [disk.entry_move safe, if_neg (safe.disjoint inside), if_pos inside]
  exact isFile_none

theorem isFile_move_target {disk : Disk}
    (safe : disk.MoveSafe (root.locate source) (root.locate target)) :
    IsFile ((disk.move (root.locate source) (root.locate target) now).entry
      (root.locate target)) ↔ IsFile (disk.entry (root.locate source)) := by
  rw [disk.entry_move safe, if_pos (List.prefix_refl _), List.drop_length, List.append_nil]

/-- A rename that moves a file keeps the agreement exactly when its target is free. -/
theorem agree_rename_file_iff (agree : Agree root state) (different : source ≠ target)
    (safe : state.disk.MoveSafe (root.locate source) (root.locate target))
    (file : IsFile (state.disk.entry (root.locate source))) :
    Agree root { state with
      db := state.db.renameAll source.text target.text
      disk := state.disk.move (root.locate source) (root.locate target) now } ↔
      ¬ IsFile (state.disk.entry (root.locate target)) := by
  have texts : source.text ≠ target.text := mt Path.text_injective different
  have row := (agree source).mpr file
  constructor
  · intro after occupied
    have kept := (after source).mp (by
      rw [Database.has_renameAll_fileSystem _ texts, if_pos rfl]
      exact ⟨row, (agree target).mpr occupied⟩)
    exact isFile_move_source source safe (List.prefix_refl _) kept
  · intro free path
    have vacant : ¬ state.db.fileSystem.Has target.text := mt (agree target).mp free
    dsimp only
    rw [Database.has_renameAll_fileSystem _ texts]
    by_cases here : path = source
    · subst path
      rw [if_pos rfl]
      exact iff_of_false (fun both => vacant both.2)
        (isFile_move_source source safe (List.prefix_refl _))
    · rw [if_neg (mt Path.text_injective here)]
      by_cases there : path = target
      · subst path
        rw [if_pos rfl, isFile_move_target safe]
        exact iff_of_true (.inr row) file
      · rw [if_neg (mt Path.text_injective there), isFile_move_file safe file here there]
        exact agree path

/-- A rename that moves a directory keeps the agreement exactly when it moves no file. -/
theorem agree_rename_directory_iff (agree : Agree root state) (different : source ≠ target)
    (safe : state.disk.MoveSafe (root.locate source) (root.locate target))
    (directory : IsDirectory (state.disk.entry (root.locate source)))
    (free : ¬ IsFile (state.disk.entry (root.locate target))) :
    Agree root { state with
      db := state.db.renameAll source.text target.text
      disk := state.disk.move (root.locate source) (root.locate target) now } ↔
      OnlyDirectories root state.disk source := by
  have texts : source.text ≠ target.text := mt Path.text_injective different
  have noRow : ¬ state.db.fileSystem.Has source.text :=
    mt (agree source).mp (isDirectory_not_isFile directory)
  have vacant : ¬ state.db.fileSystem.Has target.text := mt (agree target).mp free
  have rows (path : Bytes) :
      (state.db.renameAll source.text target.text).fileSystem.Has path ↔
        state.db.fileSystem.Has path := by
    rw [Database.has_renameAll_fileSystem _ texts]
    split
    · rename_i same
      simp [same, noRow]
    · split
      · rename_i same
        simp [same, noRow, vacant]
      · exact Iff.rfl
  constructor
  · intro after path below file
    have kept := (after path).mp ((rows path.text).mpr ((agree path).mpr file))
    exact isFile_move_source path safe below kept
  · intro only
    exact agree_of_same agree (fun path => rows path.text) (isFile_move_directory safe free only)

/-- After a successful rename the table and the disk agree exactly when it was a harmless one. -/
theorem agree_rename_iff {disk : Disk} (agree : Agree root state)
    (success : state.disk.renameText (root.rootText ++ source.text) (root.rootText ++ target.text)
      now = .ok disk) :
    Agree root { state with db := state.db.renameAll source.text target.text, disk } ↔
      RenameAgrees root state.disk source target := by
  rcases state.disk.rename_ok success with
    ⟨rfl, rfl⟩ | ⟨different, safe, onto_directory, onto_file, rfl⟩
  · simp only [Database.renameAll_same, RenameAgrees, true_or, iff_true]
    exact agree
  · rw [RenameAgrees, or_iff_right different]
    by_cases file : IsFile (state.disk.entry (root.locate source))
    · rw [agree_rename_file_iff agree different safe file]
      simp [file, file.2]
    · have directory : IsDirectory (state.disk.entry (root.locate source)) :=
        not_not.mp fun other => file ⟨safe.present, other⟩
      rw [agree_rename_directory_iff agree different safe directory (onto_file directory)]
      simp [file, directory]

end Rename

namespace FileSystem

section Calls

variable (fs : FileSystem) {path : Bytes} {environment : Environment} {state : State}

theorem change_isOk {world : World} {effect : Disk → Except Errno Disk}
    (success : (world.change effect).1.isOk = true) :
    ∃ disk, world.environment.outcome (effect world.state.disk) = .ok disk := by
  rw [World.change_eq] at success
  cases outcome : world.environment.outcome (effect world.state.disk) with
  | error error =>
      rw [outcome] at success
      cases success
  | ok disk => exact ⟨disk, rfl⟩

theorem along_ndnfsUnlink
    (success : (fs.ndnfsUnlink path).Along handle Call.Succeeds ⟨state, environment⟩) :
    ∃ disk, environment.outcome
      (state.disk.unlinkText (fs.fullPath path) environment.now) = .ok disk := by
  simp only [ndnfsUnlink, along_bind, along_perform] at success
  exact change_isOk success.2.2.1

theorem along_ndnfsRename {target : Bytes}
    (success : (fs.ndnfsRename path target).Along handle Call.Succeeds ⟨state, environment⟩) :
    ∃ disk, environment.outcome
      (state.disk.renameText (fs.fullPath path) (fs.fullPath target) environment.now) =
        .ok disk := by
  have unassigned : ¬ ((0 : Int) ≠ SQLITE_OK ∧ (0 : Int) ≠ SQLITE_DONE) := by decide
  simp only [ndnfsRename, if_neg unassigned, along_bind, along_perform] at success
  exact change_isOk success.2.2.2.2.2.2.2.2.2.1

theorem along_createObject {mode : Nat} {world : World}
    (success : (fs.createObject path mode).Along handle Call.Succeeds world) :
    ∃ disk, world.environment.outcome
      (world.state.disk.createMode (fs.fullPath path) mode world.environment.now) = .ok disk := by
  unfold createObject at success
  by_cases regular : S_ISREG mode = true
  · obtain ⟨location, opened⟩ := world.state.disk.openText_create (fs.fullPath path)
      world.environment.now
    simp only [if_pos regular, along_bind, along_perform, Call.Succeeds, handle, World.attempt,
      opened, Environment.outcome_map] at success
    rw [Disk.createMode, Disk.mknodKind_regular regular]
    cases outcome : world.environment.outcome
      (world.state.disk.createText (fs.fullPath path) .regular world.environment.now) with
    | error error =>
        rw [outcome] at success
        cases success.1
    | ok disk => exact ⟨disk, outcome⟩
  · by_cases fifo : S_ISFIFO mode = true
    · simp only [if_neg regular, if_pos fifo, along_perform] at success
      rw [Disk.createMode, Disk.mknodKind_fifo fifo]
      exact change_isOk success
    · simp only [if_neg regular, if_neg fifo, along_perform] at success
      exact change_isOk success

theorem along_ndnfsMknod {mode : Nat} (absent : ¬ state.db.fileSystem.Has path)
    (success : (fs.ndnfsMknod path mode).Along handle Call.Succeeds ⟨state, environment⟩) :
    ∃ disk, environment.outcome
      (state.disk.createMode (fs.fullPath path) mode environment.now) = .ok disk := by
  simp only [ndnfsMknod, along_bind, run_selectFileSystem, if_neg absent, if_neg done_ne_row] at success
  exact fs.along_createObject success.2.2.2.2.1

end Calls

section Run

variable {root : Path} (fs : FileSystem) (rooted : fs.rootPath = root.rootText)

include rooted

/-- A request whose system calls succeed keeps the agreement exactly when it is no harmful rename. -/
theorem agree_step_iff {history : History} {request : Request}
    (success : CallsSucceed fs history request) (agree : Agree root history.state) :
    Agree root (fs.step history request).state ↔ KeepsAgreement root history request := by
  obtain ⟨operation, environment⟩ := request
  unfold CallsSucceed at success
  cases operation with
  | mknod path mode =>
      simp only [step, Operation.program, KeepsAgreement, iff_true] at success ⊢
      rw [exec_ndnfsMknod, fullPath_text rooted]
      by_cases present : history.state.db.fileSystem.Has path.text
      · rw [if_pos present]
        exact agree
      · obtain ⟨disk, made⟩ := fs.along_ndnfsMknod present success
        rw [fullPath_text rooted] at made
        obtain ⟨kind, known, free, rfl⟩ := createMode_ok (Environment.outcome_ok made)
        rw [if_neg present, made]
        have new := agree_mknod mode environment.now agree present known free
        dsimp only
        split
        · split <;> exact new
        · exact new
  | unlink path =>
      simp only [step, Operation.program, KeepsAgreement, iff_true] at success ⊢
      obtain ⟨disk, gone⟩ := fs.along_ndnfsUnlink success
      rw [fullPath_text rooted] at gone
      obtain ⟨file, rfl⟩ := history.state.disk.unlink_ok (Environment.outcome_ok gone)
      rw [exec_ndnfsUnlink, fullPath_text rooted, gone]
      exact agree_unlink agree file
  | rename source target =>
      simp only [step, Operation.program, KeepsAgreement] at success ⊢
      obtain ⟨disk, moved⟩ := fs.along_ndnfsRename success
      rw [fullPath_text rooted, fullPath_text rooted] at moved
      rw [exec_ndnfsRename, fullPath_text rooted, fullPath_text rooted, moved]
      exact agree_rename_iff agree (Environment.outcome_ok moved)
  | mkdir path mode =>
      simp only [step, Operation.program, KeepsAgreement, iff_true]
      rcases effect_mkdir path environment history.state rooted mode with
        same | ⟨free, made⟩
      · rw [same]
        exact agree
      · rw [made]
        exact agree_createDirectory agree free
  | rmdir path =>
      simp only [step, Operation.program, KeepsAgreement, iff_true]
      rcases effect_rmdir path environment history.state rooted with
        same | ⟨directory, below, empty, gone⟩
      · rw [same]
        exact agree
      · rw [gone]
        exact agree_removeDirectory agree directory below empty
  | openFile path access trunc =>
      simp only [step, Operation.program, KeepsAgreement, iff_true]
      rcases effect_open path environment history.state rooted access trunc with
        same | ⟨-, disk, rewrites, opened⟩
      · rw [same]
        exact agree
      · rw [opened]
        exact agree_rewrites agree rewrites
  | read path size offset =>
      simp only [step, exec_read, KeepsAgreement, iff_true]
      exact agree
  | write path data offset =>
      simp only [step, Operation.program, KeepsAgreement, iff_true]
      rcases effect_write path environment history.state rooted data offset with
        same | ⟨-, disk, rewrites, written⟩
      · rw [same]
        exact agree
      · rw [written]
        exact agree_rewrites agree rewrites
  | truncate path length =>
      simp only [step, Operation.program, KeepsAgreement, iff_true]
      rcases effect_truncate path environment history.state rooted length with
        same | ⟨-, disk, rewrites, cut⟩
      · rw [same]
        exact agree
      · rw [cut]
        exact agree_rewrites agree rewrites
  | release path access =>
      simp only [step, Operation.program, KeepsAgreement, iff_true]
      rcases fs.state_ndnfsRelease path.text environment history.state { access } with
        same | ⟨content, count, released⟩
      · rw [same]
        exact agree
      · rw [released]
        refine agree_of_same agree (fun other => ?_) fun _ => Iff.rfl
        simp only [fileSystem_signSegments, releaseRows, Database.fileSystem_insertFileVersion,
          Database.has_updateCurrentVersion]

/-- From an empty root directory and an empty database, the rows agree with the disk throughout
exactly those runs in which every rename keeps the agreement. -/
theorem agree_run_iff (disk : Disk) (sent : List Data) (clock : Int) (requests : List Request)
    (directory : IsDirectory (disk.entry root.names)) (empty : disk.NoChildren root.names)
    (success : Run.Steps fs.step (CallsSucceed fs) ⟨⟨.empty, disk, sent⟩, clock⟩ requests) :
    Run.Holds fs.step (fun history => Agree root history.state) ⟨⟨.empty, disk, sent⟩, clock⟩
        requests ↔
      Run.Steps fs.step (KeepsAgreement root) ⟨⟨.empty, disk, sent⟩, clock⟩ requests := by
  apply Run.holds_iff_steps (CallsSucceed fs) (fun _ => True)
  · intros
    trivial
  · intro history request success _ agree
    exact fs.agree_step_iff rooted success agree
  · exact success
  · trivial
  · intro path
    refine iff_of_false (fun present => present rfl) ?_
    dsimp only [Path.locate]
    by_cases top : path.names = []
    · rw [top, List.append_nil]
      exact isDirectory_not_isFile directory
    · rw [disk.none_below empty top]
      exact isFile_none

end Run

/-- The agreement holds in a run that renames a new file to a new name. -/
theorem agree_run_iff_renamed : Run.Holds Reference.fileSystem.step
    (fun history => Agree Reference.root history.state) ⟨Reference.newState, 0⟩
      [⟨.mknod Reference.fileA Reference.regularMode, Reference.calm 1⟩,
        ⟨.rename Reference.fileA Reference.fileB, Reference.calm 2⟩] ↔
    Run.Steps Reference.fileSystem.step (KeepsAgreement Reference.root) ⟨Reference.newState, 0⟩
      [⟨.mknod Reference.fileA Reference.regularMode, Reference.calm 1⟩,
        ⟨.rename Reference.fileA Reference.fileB, Reference.calm 2⟩] :=
  agree_run_iff Reference.fileSystem rfl .bare [] 0 _ (by decide) (by decide)
    ⟨by decide, by decide, trivial⟩

/-- After a rename onto an existing file, the old name keeps its row. -/
theorem agree_run_fails : ¬ ∀ (fs : FileSystem) (root : Path) (disk : Disk) (sent : List Data)
    (clock : Int) (requests : List Request), fs.rootPath = root.rootText →
      IsDirectory (disk.entry root.names) → disk.NoChildren root.names →
      Run.Steps fs.step (CallsSucceed fs) ⟨⟨.empty, disk, sent⟩, clock⟩ requests →
        Run.Holds fs.step (fun history => Agree root history.state)
          ⟨⟨.empty, disk, sent⟩, clock⟩ requests := by
  intro claim
  have holds := claim Reference.fileSystem Reference.root .bare [] 0
    [⟨.mknod Reference.fileA Reference.regularMode, Reference.calm 1⟩,
      ⟨.mknod Reference.fileB Reference.regularMode, Reference.calm 2⟩,
      ⟨.rename Reference.fileA Reference.fileB, Reference.calm 3⟩]
    rfl (by decide) (by decide) ⟨by decide, by decide, by decide, trivial⟩
  have agree := holds.after_prefix (List.prefix_refl _)
  have file := (agree Reference.fileA).mp (by decide)
  revert file
  decide

end FileSystem

end Ndnfs

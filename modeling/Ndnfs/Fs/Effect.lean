import Ndnfs.Fs.Operation
import Ndnfs.System.PathCalls
import Ndnfs.System.Tables

namespace Ndnfs
open Effect MachineInteger

namespace Disk

/-- The content of the regular file at this location changes. -/
def Rewrites (disk : Disk) (location : Location) (change : Bytes → Bytes) (disk' : Disk) : Prop :=
  ∃ content, disk.entry location = some ⟨.regular, content⟩ ∧
    ∀ other, disk'.entry other =
      if other = location then some ⟨.regular, change content⟩ else disk.entry other

theorem rewrites_modify {disk : Disk} {location : Location} {change : Bytes → Bytes} {now : Int}
    (regular : ∃ content, disk.entry location = some ⟨.regular, content⟩) :
    disk.Rewrites location change (disk.modify location change now) := by
  obtain ⟨content, present⟩ := regular
  refine ⟨content, present, fun other => ?_⟩
  rw [entry_modify]
  split
  · subst other
    rw [present]
    rfl
  · rfl

/-- A new content does not turn a file into a directory. -/
theorem Rewrites.isFile_iff {disk disk' : Disk} {location : Location} {change : Bytes → Bytes}
    (rewrites : disk.Rewrites location change disk') (other : Location) :
    IsFile (disk'.entry other) ↔ IsFile (disk.entry other) := by
  obtain ⟨content, present, entries⟩ := rewrites
  rw [entries]
  split
  · subst other
    rw [present, isFile_some, isFile_some]
  · exact Iff.rfl

theorem mknodKind_ne_directory {mode : Nat} {kind : NodeKind} (known : mknodKind mode = .ok kind) :
    kind ≠ .directory := by
  unfold mknodKind at known
  repeat' split at known
  all_goals first
    | cases known
      simp
    | cases known

end Disk

namespace FileSystem

variable {fs : FileSystem} {root : Path} (path : Path) (environment : Environment) (state : State)
  (rooted : fs.rootPath = root.rootText)

theorem fullPath_text (rooted : fs.rootPath = root.rootText) (path : Path) :
    fs.fullPath path.text = root.rootText ++ path.text := by
  rw [fullPath, absPath, rooted]

theorem createMode_ok {path : Path} {mode : Nat} {now : Int} {disk disk' : Disk}
    (success : disk.createMode (root.rootText ++ path.text) mode now = .ok disk') :
    ∃ kind, Disk.mknodKind mode = .ok kind ∧ disk.Free (root.locate path) ∧
      disk' = disk.create (root.locate path) kind now := by
  unfold Disk.createMode at success
  cases known : Disk.mknodKind mode with
  | error error =>
      rw [known] at success
      cases success
  | ok kind =>
      rw [known] at success
      exact ⟨kind, rfl, disk.create_ok success⟩

include rooted

theorem effect_open (access : AccessMode) (trunc : Bool) :
    (exec (fs.ndnfsOpen path.text { access, truncate := trunc }) environment state).2 = state ∨
      trunc = true ∧ ∃ disk', state.disk.Rewrites (root.locate path) (fun _ => []) disk' ∧
        (exec (fs.ndnfsOpen path.text { access, truncate := trunc }) environment state).2 =
          { state with disk := disk' } := by
  rw [exec_ndnfsOpen, fullPath_text rooted]
  split
  · exact .inl rfl
  · rename_i location disk' opened
    obtain ⟨rfl, -, rfl | ⟨cut, regular, rfl⟩⟩ :=
      state.disk.open_ok access trunc (Environment.outcome_ok opened)
    · exact .inl rfl
    · exact .inr ⟨cut, _, Disk.rewrites_modify regular, rfl⟩

/-- A write changes the file only when its open and its write meet no fault. -/
theorem effect_write (data : Bytes) (offset : Int) :
    (exec (fs.ndnfsWrite path.text data offset) environment state).2 = state ∨
      (state.db.fileSystem.Has path.text ∧ 0 ≤ offset ∧ environment.Quiet 2) ∧
        ∃ disk', state.disk.Rewrites (root.locate path)
            (fun content => spliceAt content (environment.written data) offset.toNat) disk' ∧
          (exec (fs.ndnfsWrite path.text data offset) environment state).2 =
            { state with disk := disk' } := by
  rw [exec_ndnfsWrite, fullPath_text rooted]
  split
  · rename_i present
    split
    · exact .inl rfl
    · rename_i location disk opened
      obtain ⟨rfl, -, rfl | ⟨cut, -⟩⟩ :=
        state.disk.open_ok .readWrite false (Environment.outcome_ok opened)
      · split
        · exact .inl rfl
        · rename_i disk' written
          have success := Environment.outcome_ok written
          obtain ⟨regular, rfl⟩ := state.disk.pwrite_ok success
          have quiet : environment.Quiet 2 := by
            rw [environment.quiet_succ_iff, environment.next.quiet_succ_iff]
            exact ⟨Environment.quiet_of_outcome opened, Environment.quiet_of_outcome written,
              fun call none => absurd none (Nat.not_lt_zero call)⟩
          exact .inr ⟨⟨present, state.disk.pwrite_nonneg success, quiet⟩, _,
            Disk.rewrites_modify regular, rfl⟩
      · cases cut
  · exact .inl rfl

theorem effect_truncate (length : Int) :
    (exec (fs.ndnfsTruncate path.text length) environment state).2 = state ∨
      (state.db.fileSystem.Has path.text ∧ 0 ≤ length ∧ environment.Quiet 1) ∧
        ∃ disk', state.disk.Rewrites (root.locate path)
            (fun content => resize content length.toNat) disk' ∧
          (exec (fs.ndnfsTruncate path.text length) environment state).2 =
            { state with disk := disk' } := by
  rw [exec_ndnfsTruncate, fullPath_text rooted]
  split
  · rename_i present
    split
    · exact .inl rfl
    · rename_i disk' cut
      have success := Environment.outcome_ok cut
      obtain ⟨regular, rfl⟩ := state.disk.truncate_ok success
      have quiet : environment.Quiet 1 := by
        rw [environment.quiet_succ_iff]
        exact ⟨Environment.quiet_of_outcome cut,
          fun call none => absurd none (Nat.not_lt_zero call)⟩
      exact .inr ⟨⟨present, state.disk.truncate_nonneg success, quiet⟩, _,
        Disk.rewrites_modify regular, rfl⟩
  · exact .inl rfl

theorem effect_mkdir (mode : Nat) :
    (exec (fs.ndnfsMkdir path.text mode) environment state).2 = state ∨
      state.disk.Free (root.locate path) ∧
        (exec (fs.ndnfsMkdir path.text mode) environment state).2 =
          { state with
            disk := state.disk.create (root.locate path) .directory environment.now } := by
  rw [exec_ndnfsMkdir, fullPath_text rooted]
  split
  · exact .inl rfl
  · rename_i disk' made
    obtain ⟨free, rfl⟩ := state.disk.create_ok (Environment.outcome_ok made)
    exact .inr ⟨free, rfl⟩

theorem effect_rmdir :
    (exec (fs.ndnfsRmdir path.text) environment state).2 = state ∨
      IsDirectory (state.disk.entry (root.locate path)) ∧ root.locate path ≠ [] ∧
        state.disk.NoChildren (root.locate path) ∧
        (exec (fs.ndnfsRmdir path.text) environment state).2 =
          { state with disk := state.disk.remove (root.locate path) environment.now } := by
  by_cases top : path.text = ascii "/"
  · left
    rw [top, exec_ndnfsRmdir_root]
  · rw [exec_ndnfsRmdir fs path.text environment state top, fullPath_text rooted]
    split
    · exact .inl rfl
    · rename_i disk' gone
      obtain ⟨directory, below, empty, rfl⟩ := state.disk.rmdir_ok (Environment.outcome_ok gone)
      exact .inr ⟨directory, below, empty, rfl⟩

theorem effect_unlink :
    (exec (fs.ndnfsUnlink path.text) environment state).2 =
        { state with db := state.db.deleteFileSystem path.text } ∨
      IsFile (state.disk.entry (root.locate path)) ∧
        (exec (fs.ndnfsUnlink path.text) environment state).2 =
          { state with
            db := state.db.deleteFileSystem path.text
            disk := state.disk.remove (root.locate path) environment.now } := by
  rw [exec_ndnfsUnlink, fullPath_text rooted]
  split
  · exact .inl rfl
  · rename_i disk' gone
    obtain ⟨file, rfl⟩ := state.disk.unlink_ok (Environment.outcome_ok gone)
    exact .inr ⟨file, rfl⟩

theorem effect_mknod (mode : Nat) (absent : ¬ state.db.fileSystem.Has path.text) :
    (exec (fs.ndnfsMknod path.text mode) environment state).2 =
        { state with db := mknodRows path.text mode environment.now state.db } ∨
      ∃ kind, Disk.mknodKind mode = .ok kind ∧ state.disk.Free (root.locate path) ∧
        (exec (fs.ndnfsMknod path.text mode) environment state).2 =
          { state with
            db := mknodRows path.text mode environment.now state.db
            disk := state.disk.create (root.locate path) kind environment.now } := by
  rw [exec_ndnfsMknod, if_neg absent, fullPath_text rooted]
  cases made : environment.outcome
    (state.disk.createMode (root.rootText ++ path.text) mode environment.now) with
  | error error => exact .inl rfl
  | ok disk' =>
      right
      obtain ⟨kind, known, free, rfl⟩ := createMode_ok (Environment.outcome_ok made)
      refine ⟨kind, known, free, ?_⟩
      dsimp only
      split
      · split <;> rfl
      · rfl

theorem effect_rename (target : Path) :
    (exec (fs.ndnfsRename path.text target.text) environment state).2 =
        { state with db := state.db.renameAll path.text target.text } ∨
      path ≠ target ∧ state.disk.MoveSafe (root.locate path) (root.locate target) ∧
        (IsFile (state.disk.entry (root.locate path)) →
          ¬ IsDirectory (state.disk.entry (root.locate target))) ∧
        (IsDirectory (state.disk.entry (root.locate path)) →
          ¬ IsFile (state.disk.entry (root.locate target))) ∧
        (exec (fs.ndnfsRename path.text target.text) environment state).2 =
          { state with
            db := state.db.renameAll path.text target.text
            disk := state.disk.move (root.locate path) (root.locate target) environment.now } := by
  rw [exec_ndnfsRename, fullPath_text rooted, fullPath_text rooted]
  split
  · exact .inl rfl
  · rename_i disk' moved
    rcases state.disk.rename_ok (Environment.outcome_ok moved) with
      ⟨rfl, rfl⟩ | ⟨different, safe, onto_directory, onto_file, rfl⟩
    · exact .inl rfl
    · exact .inr ⟨different, safe, onto_directory, onto_file, rfl⟩

end FileSystem

end Ndnfs

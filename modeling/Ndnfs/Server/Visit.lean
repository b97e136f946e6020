import Ndnfs.Foundation.Moments
import Ndnfs.Server.Host

namespace Ndnfs
open Effect Program

/-- These statements change a table. -/
def Statement.Writes : Statement → Bool
  | .insertFileVersion .. | .insertFileSystem .. | .updateCurrentVersion .. | .deleteFileSystem _
  | .renameFileSystem .. | .renameFileVersions .. | .renameFileSegments ..
  | .replaceFileSegment .. | .deleteFileSegment .. => true
  | .selectCurrentVersion _ | .selectFileSystem _ | .selectMimeType _ | .selectFileMeta _
  | .selectFileSegment .. | .selectFileVersion .. => false

namespace Call

/-- The call changes neither a table nor the disk. -/
def Reads : Call Cursor Location → Prop
  | .step stmt => stmt.statement.Writes = false
  | .openFile _ flags => flags = O_RDONLY
  | .pwrite .. | .truncate .. | .unlink _ | .mkfifo .. | .mknod .. | .mkdir .. | .rmdir _
  | .rename .. => False
  | .time | .uninitialised | .prepare _ | .columnInt .. | .columnText .. | .columnBlob ..
  | .readBlob _ | .finalize _ | .close _ | .pread .. | .stat _ | .lstat _ | .opendir _
  | .putData _ => True

/-- This reply comes from some state of the host. -/
def Comes (call : Call Cursor Location) (reply : call.Reply) : Prop :=
  ∃ world, (handle call world).1 = reply

theorem Reads.keeps {call : Call Cursor Location} (reads : call.Reads) (world : World) :
    (handle call world).2.state.db = world.state.db ∧
      (handle call world).2.state.disk = world.state.disk := by
  cases call with
  | step stmt =>
      obtain ⟨statement, row⟩ := stmt
      refine ⟨?_, rfl⟩
      cases statement with
      | selectCurrentVersion path => rfl
      | selectFileSystem path => rfl
      | selectMimeType path => rfl
      | selectFileMeta path => rfl
      | selectFileSegment path version seg => rfl
      | selectFileVersion path version => rfl
      | _ => cases reads
  | openFile path flags =>
      obtain rfl : flags = O_RDONLY := reads
      simp only [handle, World.attempt, Disk.openText_readOnly, Environment.outcome_map]
      cases world.environment.outcome (world.state.disk.lookupText path) <;> exact ⟨rfl, rfl⟩
  | pwrite | truncate | unlink | mkfifo | mknod | mkdir | rmdir | rename => exact reads.elim
  | _ => exact ⟨rfl, rfl⟩

end Call

namespace Server

open Call

variable (server : Server)

section Reads

variable {post : Int → Prop} (all : ∀ value, post value)

include all

theorem onlyReads_executeOnce {statement : Statement} (reads : statement.Writes = false) :
    (executeOnce statement : Source Cursor Location Int).Guards Comes Reads post := by
  simp only [executeOnce, guards_bind, guards_perform, guards_pure]
  refine ⟨trivial, fun stmt came => ?_⟩
  obtain ⟨world, rfl⟩ := came
  exact ⟨reads, fun result _ => ⟨trivial, fun _ _ => all _⟩⟩

omit all in
theorem onlyReads_readFileSize (path : Bytes) {post : Int × Int → Prop} (all : ∀ value, post value) :
    (server.readFileSize path : Source Cursor Location _).Guards Comes Reads post := by
  simp only [readFileSize, guards_bind, guards_perform]
  refine ⟨trivial, fun stat _ => ?_⟩
  cases stat with
  | ok st => exact all _
  | error error => exact ⟨trivial, fun _ _ => all _⟩

theorem onlyReads_sendFileContent (interestName : Name) (path : Bytes) (version seg : Int) :
    (server.sendFileContent interestName path version seg : Source Cursor Location _).Guards Comes
      Reads post := by
  simp only [sendFileContent, guards_bind, guards_perform]
  refine ⟨trivial, fun stmt came => ?_⟩
  obtain ⟨world, rfl⟩ := came
  refine ⟨rfl, fun result _ => ?_⟩
  split
  · exact ⟨trivial, fun _ _ => all _⟩
  · simp only [guards_bind, guards_perform]
    refine ⟨trivial, fun _ _ => ⟨trivial, fun _ _ => ⟨trivial, fun _ _ => ?_⟩⟩⟩
    refine server.onlyReads_readFileSize path fun size => ⟨rfl, fun opened _ => ?_⟩
    cases opened with
    | error error => exact all _
    | ok fd =>
        simp only [guards_bind, guards_perform]
        refine ⟨trivial, fun output _ => ⟨trivial, fun _ _ => ?_⟩⟩
        cases output with
        | error error => exact all _
        | ok output =>
            dsimp only
            split
            · exact ⟨trivial, fun _ _ => all _⟩
            · exact all _

theorem onlyReads_sendFileMeta (path mimeType : Bytes) (version type : Int) :
    (server.sendFileMeta path mimeType version type : Source Cursor Location _).Guards Comes
      Reads post := by
  simp only [sendFileMeta, guards_bind]
  refine onlyReads_executeOnce (fun res => ?_) rfl
  split
  · exact all _
  · split
    · rw [guards_bind]
      exact server.onlyReads_readFileSize path fun size => ⟨trivial, fun _ _ => all _⟩
    · exact ⟨trivial, fun _ _ => all _⟩

theorem onlyReads_sendDirMetaBrowserFriendly (path : Bytes) :
    (server.sendDirMetaBrowserFriendly path : Source Cursor Location _).Guards Comes Reads post := by
  simp only [sendDirMetaBrowserFriendly, guards_bind, guards_perform]
  refine ⟨trivial, fun names _ => ?_⟩
  cases names with
  | error error => exact all _
  | ok names =>
      simp only [guards_bind, guards_perform]
      refine ⟨trivial, fun stat _ => ?_⟩
      cases stat with
      | ok st => exact ⟨trivial, fun _ _ => all _⟩
      | error error => exact ⟨trivial, fun _ _ => ⟨trivial, fun _ _ => all _⟩⟩

end Reads

/-- The server only reads the tables and the disk. -/
theorem onlyReads_onInterestCallback (name : Name) :
    (server.onInterestCallback name : Source Cursor Location _).Guards Comes Reads
      fun _ => True := by
  rw [onInterestCallback]
  cases server.parseName name with
  | error exception => trivial
  | ok parsed =>
      obtain ⟨ret, version, seg, path⟩ := parsed
      simp only [onParsedName, guards_bind]
      split
      · rw [guards_bind]
        exact server.onlyReads_sendFileContent (fun _ => trivial) name path version seg
      · split
        · simp only [guards_bind, guards_perform]
          refine ⟨trivial, fun stmt came => ?_⟩
          obtain ⟨world, rfl⟩ := came
          refine ⟨rfl, fun result _ => ?_⟩
          split
          · exact ⟨trivial, fun _ _ => trivial⟩
          · simp only [guards_bind, guards_perform]
            refine ⟨trivial, fun _ _ => ⟨trivial, fun _ _ => ⟨trivial, fun _ _ => ?_⟩⟩⟩
            exact server.onlyReads_sendFileContent (fun _ => trivial) name path version (-1)
        · split
          · simp only [guards_bind, guards_perform]
            refine ⟨trivial, fun stmt came => ?_⟩
            obtain ⟨world, rfl⟩ := came
            refine ⟨rfl, fun result _ => ?_⟩
            split
            · simp only [guards_bind, guards_perform]
              refine ⟨trivial, fun _ _ => ?_⟩
              exact server.onlyReads_sendDirMetaBrowserFriendly (fun _ => trivial) path
            · simp only [guards_bind, guards_perform]
              refine ⟨trivial, fun version _ => ⟨trivial, fun column _ => ?_⟩⟩
              cases column with
              | none =>
                  simp only [guards_bind, guards_perform, guards_pure]
                  refine ⟨trivial, fun type _ => ⟨trivial, fun _ _ => ?_⟩⟩
                  exact server.onlyReads_sendFileMeta (fun _ => trivial) path _ version type
              | some text =>
                  simp only [guards_bind, guards_perform, guards_pure]
                  refine ⟨trivial, fun mime _ => ⟨trivial, fun type _ => ⟨trivial, fun _ _ => ?_⟩⟩⟩
                  exact server.onlyReads_sendFileMeta (fun _ => trivial) path _ version type
          · trivial

end Server

end Ndnfs

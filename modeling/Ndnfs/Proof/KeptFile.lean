import Ndnfs.Foundation.Refinement
import Ndnfs.Proof.Fetch

namespace Ndnfs
open MachineInteger KeyedTable

/-- Both states have the same object at the path and the same rows for it. -/
structure SameFile (root path : Path) (state state' : State) : Prop where
  entry : state'.disk.entry (root.locate path) = state.disk.entry (root.locate path)
  row : state'.db.fileSystem.lookup path.text = state.db.fileSystem.lookup path.text
  versions : ∀ version, state'.db.fileVersions.Has (path.text, version) ↔
    state.db.fileVersions.Has (path.text, version)
  segments : ∀ segment, state'.db.fileSegments.lookup (path.text, segment) =
    state.db.fileSegments.lookup (path.text, segment)

/-- A file with a row that the operation neither writes nor releases nor moves. -/
def Operation.Leaves (path : Path) : Operation → Prop
  | .openFile other _ trunc => trunc = true → other ≠ path
  | .release other access => access ≠ .readOnly → other ≠ path
  | .write other _ _ | .truncate other _ | .unlink other => other ≠ path
  | .rename source target => source = target ∨ target ≠ path ∧ ¬ source.names <+: path.names
  | .mknod .. | .mkdir .. | .read .. | .rmdir _ => True

instance (path : Path) (operation : Operation) : Decidable (operation.Leaves path) := by
  unfold Operation.Leaves
  split <;> infer_instance

def Event.Leaves (path : Path) : Event → Prop
  | .operation request => request.operation.Leaves path
  | .interest _ => True

instance (path : Path) (event : Event) : Decidable (event.Leaves path) := by
  unfold Event.Leaves
  split <;> infer_instance

/-- The operation leaves the file, and the Interest does not end the server. -/
def Event.LeavesServed (server : Server) (path : Path) : Event → Prop
  | .operation request => request.operation.Leaves path
  | .interest asked => server.Survives asked.name

instance (server : Server) (path : Path) (event : Event) :
    Decidable (event.LeavesServed server path) := by
  unfold Event.LeavesServed
  split <;> infer_instance

theorem Event.LeavesServed.leaves {server : Server} {path : Path} {event : Event}
    (served : event.LeavesServed server path) : event.Leaves path := by
  cases event with
  | operation request => exact served
  | interest interest => trivial

section SameFile

variable {root path other : Path} {state state' state'' : State}

theorem SameFile.refl (root path : Path) (state : State) : SameFile root path state state :=
  ⟨rfl, rfl, fun _ => Iff.rfl, fun _ => rfl⟩

theorem SameFile.trans (first : SameFile root path state state')
    (second : SameFile root path state' state'') : SameFile root path state state'' where
  entry := second.entry.trans first.entry
  row := second.row.trans first.row
  versions version := (second.versions version).trans (first.versions version)
  segments segment := (second.segments segment).trans (first.segments segment)

/-- A change of the disk that spares the object changes no row. -/
theorem SameFile.of_disk {disk : Disk}
    (entry : disk.entry (root.locate path) = state.disk.entry (root.locate path)) :
    SameFile root path state { state with disk := disk } :=
  ⟨entry, rfl, fun _ => Iff.rfl, fun _ => rfl⟩

theorem SameFile.of_rewrites {disk : Disk} {change : Bytes → Bytes}
    (rewrites : state.disk.Rewrites (root.locate other) change disk) (elsewhere : other ≠ path) :
    SameFile root path state { state with disk := disk } := by
  obtain ⟨content, -, entries⟩ := rewrites
  exact .of_disk (by rw [entries, if_neg (mt Path.locate_inj.mp elsewhere.symm)])

/-- A new object does not take the place of a file. -/
theorem entry_create_other {disk : Disk} (file : IsFile (disk.entry (root.locate path)))
    (free : disk.Free (root.locate other)) (kind : NodeKind) (now : Int) :
    (disk.create (root.locate other) kind now).entry (root.locate path) =
      disk.entry (root.locate path) := by
  rw [disk.entry_create free, if_neg]
  intro same
  rw [same, free.1] at file
  exact isFile_none file

theorem SameFile.of_rows {db : Database} (row : db.fileSystem.lookup path.text =
      state.db.fileSystem.lookup path.text)
    (versions : ∀ version, db.fileVersions.Has (path.text, version) ↔
      state.db.fileVersions.Has (path.text, version))
    (segments : ∀ segment, db.fileSegments.lookup (path.text, segment) =
      state.db.fileSegments.lookup (path.text, segment)) :
    SameFile root path state { state with db := db } := ⟨rfl, row, versions, segments⟩

theorem SameFile.of_mknodRows {mode : Nat} {now : Int} (elsewhere : other ≠ path)
    (absent : ¬ state.db.fileSystem.Has other.text) :
    SameFile root path state
      { state with db := FileSystem.mknodRows other.text mode now state.db } := by
  have texts : path.text ≠ other.text := mt Path.text_injective elsewhere.symm
  refine .of_rows ?_ (fun version => ?_) (fun segment => by simp [FileSystem.mknodRows])
  · rw [FileSystem.mknodRows, Database.lookup_insertFileSystem (by simpa using absent),
      if_neg texts, Database.fileSystem_insertFileVersion]
  · rw [FileSystem.mknodRows, Database.fileVersions_insertFileSystem,
      Database.has_insertFileVersion]
    exact or_iff_right fun same => texts (Prod.mk.inj same).1

/-- A release of another file leaves the rows of this one. -/
theorem SameFile.of_release {fs : FileSystem} {now : Int} {content : Bytes} {count : Nat}
    (elsewhere : other ≠ path) : SameFile root path state { state with
      db := fs.signSegments other.text (toInt now) content
        (FileSystem.releaseRows other.text now state.db) count } := by
  have texts : path.text ≠ other.text := mt Path.text_injective elsewhere.symm
  refine .of_rows ?_ (fun version => ?_) (fun segment => ?_)
  · rw [FileSystem.fileSystem_signSegments, FileSystem.releaseRows,
      Database.fileSystem_insertFileVersion, Database.lookup_updateCurrentVersion]
    simp only [if_neg texts, Option.map_id']
  · rw [FileSystem.fileVersions_signSegments, FileSystem.releaseRows,
      Database.has_insertFileVersion, Database.fileVersions_updateCurrentVersion]
    exact or_iff_right fun same => texts (Prod.mk.inj same).1
  · rw [fs.lookup_signSegments, if_neg fun same => texts same.1, FileSystem.releaseRows,
      Database.fileSegments_insertFileVersion, Database.fileSegments_updateCurrentVersion]

theorem SameFile.of_delete (elsewhere : other ≠ path) : SameFile root path state
    { state with db := state.db.deleteFileSystem other.text } :=
  .of_rows (by rw [Database.lookup_deleteFileSystem,
    if_neg (mt Path.text_injective elsewhere.symm)]) (fun _ => Iff.rfl) fun _ => rfl

theorem SameFile.of_rename {source target : Path} (here : path ≠ source) (there : path ≠ target) :
    SameFile root path state
      { state with db := state.db.renameAll source.text target.text } := by
  have texts := mt Path.text_injective here
  have texts' := mt Path.text_injective there
  exact .of_rows (state.db.lookup_renameAll_other texts texts')
    (state.db.has_renameAll_other texts texts')
    (state.db.lookup_segments_renameAll_other texts texts')

end SameFile

namespace FileSystem

/-- The file system sends nothing. -/
theorem sent_exec (fs : FileSystem) (operation : Operation) (environment : Environment)
    (state : State) : (exec (operation.program fs) environment state).2.sent = state.sent := by
  cases operation with
  | mknod path mode =>
      simp only [Operation.program, exec_ndnfsMknod]
      split
      · rfl
      · split
        · rfl
        · split
          · split <;> rfl
          · rfl
  | mkdir path mode =>
      simp only [Operation.program, exec_ndnfsMkdir]
      split <;> rfl
  | openFile path access trunc =>
      simp only [Operation.program, exec_ndnfsOpen]
      split <;> rfl
  | read path size offset => rw [fs.exec_read]
  | write path data offset =>
      simp only [Operation.program, exec_ndnfsWrite]
      split
      · split
        · rfl
        · split <;> rfl
      · rfl
  | truncate path length =>
      simp only [Operation.program, exec_ndnfsTruncate]
      split
      · split <;> rfl
      · rfl
  | release path access =>
      simp only [Operation.program]
      rcases fs.state_ndnfsRelease path.text environment state { access } with
        same | ⟨content, count, same⟩
      · rw [same]
      · rw [same]
  | unlink path =>
      simp only [Operation.program, exec_ndnfsUnlink]
      split <;> rfl
  | rmdir path =>
      by_cases top : path.text = ascii "/"
      · simp only [Operation.program, top, exec_ndnfsRmdir_root]
      · simp only [Operation.program, exec_ndnfsRmdir fs path.text environment state top]
        split <;> rfl
  | rename source target =>
      simp only [Operation.program, exec_ndnfsRename]
      split <;> rfl

variable {fs : FileSystem} {root path : Path} (rooted : fs.rootPath = root.rootText)
  {state : State}

include rooted

section Operations

variable {other : Path} (environment : Environment)

theorem sameFile_mknod (mode : Nat) (known : state.db.fileSystem.Has path.text)
    (file : IsFile (state.disk.entry (root.locate path))) :
    SameFile root path state (exec (fs.ndnfsMknod other.text mode) environment state).2 := by
  by_cases present : state.db.fileSystem.Has other.text
  · rw [exec_ndnfsMknod, if_pos present]
    exact .refl root path state
  · have elsewhere : other ≠ path := fun same => present (same ▸ known)
    have rows : SameFile root path state
        { state with db := mknodRows other.text mode environment.now state.db } :=
      .of_mknodRows elsewhere present
    rcases effect_mknod other environment state rooted mode present with
      same | ⟨kind, -, free, same⟩
    · rw [same]
      exact rows
    · rw [same]
      exact rows.trans (.of_disk (entry_create_other file free kind environment.now))

theorem sameFile_mkdir (mode : Nat) (file : IsFile (state.disk.entry (root.locate path))) :
    SameFile root path state (exec (fs.ndnfsMkdir other.text mode) environment state).2 := by
  rcases effect_mkdir other environment state rooted mode with same | ⟨free, same⟩
  · rw [same]
    exact .refl root path state
  · rw [same]
    exact .of_disk (entry_create_other file free .directory environment.now)

theorem sameFile_open (access : AccessMode) (trunc : Bool) (leaves : trunc = true → other ≠ path) :
    SameFile root path state
      (exec (fs.ndnfsOpen other.text { access, truncate := trunc }) environment state).2 := by
  rcases effect_open other environment state rooted access trunc with
    same | ⟨cut, disk', rewrites, same⟩
  · rw [same]
    exact .refl root path state
  · rw [same]
    exact .of_rewrites rewrites (leaves cut)

theorem sameFile_write (data : Bytes) (offset : Int) (elsewhere : other ≠ path) :
    SameFile root path state
      (exec (fs.ndnfsWrite other.text data offset) environment state).2 := by
  rcases effect_write other environment state rooted data offset with
    same | ⟨-, disk', rewrites, same⟩
  · rw [same]
    exact .refl root path state
  · rw [same]
    exact .of_rewrites rewrites elsewhere

theorem sameFile_truncate (length : Int) (elsewhere : other ≠ path) :
    SameFile root path state (exec (fs.ndnfsTruncate other.text length) environment state).2 := by
  rcases effect_truncate other environment state rooted length with
    same | ⟨-, disk', rewrites, same⟩
  · rw [same]
    exact .refl root path state
  · rw [same]
    exact .of_rewrites rewrites elsewhere

theorem sameFile_release (access : AccessMode) (leaves : access ≠ .readOnly → other ≠ path) :
    SameFile root path state
      (exec (fs.ndnfsRelease other.text { access }) environment state).2 := by
  rcases effect_release other environment state rooted access with
    ⟨-, same⟩ | ⟨-, writing, content, count, -, -, -, same⟩
  · rw [same]
    exact .refl root path state
  · rw [same]
    exact .of_release (leaves writing)

theorem sameFile_unlink (elsewhere : other ≠ path) :
    SameFile root path state (exec (fs.ndnfsUnlink other.text) environment state).2 := by
  have rows : SameFile root path state
      { state with db := state.db.deleteFileSystem other.text } := .of_delete elsewhere
  rcases effect_unlink other environment state rooted with same | ⟨object, same⟩
  · rw [same]
    exact rows
  · rw [same]
    refine rows.trans (.of_disk ?_)
    have empty := state.disk.noChildren_of_not_directory object.2
    rw [state.disk.entry_remove (ne_nil_of_isFile object) empty,
      if_neg (mt Path.locate_inj.mp elsewhere.symm)]

theorem sameFile_rmdir (file : IsFile (state.disk.entry (root.locate path))) :
    SameFile root path state (exec (fs.ndnfsRmdir other.text) environment state).2 := by
  rcases effect_rmdir other environment state rooted with same | ⟨directory, below, empty, same⟩
  · rw [same]
    exact .refl root path state
  · rw [same]
    refine .of_disk ?_
    rw [state.disk.entry_remove below empty, if_neg]
    intro here
    exact file.2 (here ▸ directory)

theorem sameFile_rename {source target : Path}
    (leaves : source = target ∨ target ≠ path ∧ ¬ source.names <+: path.names)
    (file : IsFile (state.disk.entry (root.locate path))) :
    SameFile root path state
      (exec (fs.ndnfsRename source.text target.text) environment state).2 := by
  rcases leaves with rfl | ⟨there, outside⟩
  · rcases effect_rename source environment state rooted source with same | ⟨different, -⟩
    · rw [same, Database.renameAll_same]
      exact .refl root path state
    · exact absurd rfl different
  · have here : path ≠ source := fun same => outside (same ▸ List.prefix_refl _)
    have rows : SameFile root path state
        { state with db := state.db.renameAll source.text target.text } :=
      .of_rename here there.symm
    rcases effect_rename source environment state rooted target with
      same | ⟨-, safe, -, -, same⟩
    · rw [same]
      exact rows
    · rw [same]
      exact rows.trans (.of_disk (entry_move_other safe file there.symm outside))

end Operations

/-- An operation that leaves a file with a row keeps its object and its rows. -/
theorem sameFile_step {operation : Operation} (leaves : operation.Leaves path)
    (environment : Environment) (known : state.db.fileSystem.Has path.text)
    (file : IsFile (state.disk.entry (root.locate path))) :
    SameFile root path state (exec (operation.program fs) environment state).2 := by
  cases operation with
  | mknod other mode => exact sameFile_mknod rooted environment mode known file
  | mkdir other mode => exact sameFile_mkdir rooted environment mode file
  | openFile other access trunc => exact sameFile_open rooted environment access trunc leaves
  | read other size offset =>
      rw [fs.exec_read]
      exact .refl root path state
  | write other data offset => exact sameFile_write rooted environment data offset leaves
  | truncate other length => exact sameFile_truncate rooted environment length leaves
  | release other access => exact sameFile_release rooted environment access leaves
  | unlink other => exact sameFile_unlink rooted environment leaves
  | rmdir other => exact sameFile_rmdir rooted environment file
  | rename source target => exact sameFile_rename rooted environment leaves file

end FileSystem

namespace Deployment

variable {deployment : Deployment} {root path : Path}
  (rooted : deployment.rootPath = root.rootText)

include rooted

theorem sameFile_step {event : Event} (leaves : event.Leaves path) (history : History)
    (known : history.state.db.fileSystem.Has path.text)
    (file : IsFile (history.state.disk.entry (root.locate path))) :
    SameFile root path history.state (deployment.step history event).state := by
  cases event with
  | operation request =>
      exact FileSystem.sameFile_step rooted leaves request.environment known file
  | interest interest =>
      rw [deployment.step_interest]
      exact ⟨rfl, rfl, fun _ => Iff.rfl, fun _ => rfl⟩

end Deployment

section Reply

variable {server : Server} {root path : Path} (rooted : server.fsPath = root.rootText)
  {state state' : State} (same : SameFile root path state state')
  (file : IsFile (state.disk.entry (root.locate path)))

include rooted same file

theorem SameFile.lookupText : state'.disk.lookupText (server.filePath path.text) =
    state.disk.lookupText (server.filePath path.text) := by
  obtain ⟨entry, present⟩ := Option.ne_none_iff_exists'.mp file.1
  rw [server.filePath_text rooted, state.disk.lookupText_some present,
    state'.disk.lookupText_some (same.entry.trans present)]

theorem SameFile.fileSize (environment : Environment) :
    server.fileSize environment state'.disk path.text =
      server.fileSize environment state.disk path.text := by
  obtain ⟨entry, present⟩ := Option.ne_none_iff_exists'.mp file.1
  obtain ⟨mtime, stat⟩ := state.disk.statText_of_lookupText (state.disk.lookupText_some present)
  obtain ⟨mtime', stat'⟩ :=
    state'.disk.statText_of_lookupText (state'.disk.lookupText_some (same.entry.trans present))
  rw [Server.fileSize, Server.fileSize, server.filePath_text rooted, stat, stat']
  cases fault : environment.faults.head?.join with
  | none => simp only [Environment.outcome, fault]
  | some error => simp only [Environment.outcome, fault]

theorem SameFile.readContent (environment : Environment) (seg : Int) :
    server.readContent environment state'.disk path.text seg =
      server.readContent environment state.disk path.text seg := by
  obtain ⟨entry, present⟩ := Option.ne_none_iff_exists'.mp file.1
  rw [Server.readContent, Server.readContent, same.lookupText rooted file,
    server.filePath_text rooted, state.disk.lookupText_some present]
  unfold Disk.pread
  cases opened : environment.next.outcome
    (Except.ok (root.locate path, entry) : Except Errno _) with
  | error error => rfl
  | ok found =>
      obtain rfl := Except.ok.inj (Environment.outcome_ok opened)
      dsimp only
      rw [same.entry]

theorem SameFile.contentReply (environment : Environment) (name : Name) (version seg : Int) :
    server.contentReply path.text environment state' name version seg =
      server.contentReply path.text environment state name version seg := by
  rw [Server.contentReply, Server.contentReply, same.segments, same.readContent rooted file,
    same.fileSize rooted file]

theorem SameFile.metaReply (environment : Environment) (mimeType : Bytes) (version type : Int) :
    server.metaReply path.text environment state' mimeType version type =
      server.metaReply path.text environment state mimeType version type := by
  simp only [Server.metaReply, same.versions, Server.fileInfo, same.fileSize rooted file]

/-- The reply to a request for a file with a row depends on this file alone. -/
theorem SameFile.reply (known : state.db.fileSystem.Has path.text) (environment : Environment)
    {name : Name} {parsed : Parsed} (parse : server.parseName name = .ok parsed)
    (names : parsed.path = path.text) :
    server.reply environment state' name = server.reply environment state name := by
  obtain ⟨ret, version, seg, text⟩ := parsed
  obtain rfl : text = path.text := names
  have has : state'.db.fileSystem.Has path.text ↔ state.db.fileSystem.Has path.text := by
    rw [Has, Has, same.row]
  obtain ⟨row, found⟩ := has_iff.mp known
  simp only [Server.reply, parse, same.contentReply rooted file, has, Server.pathReply, same.row,
    found, same.metaReply rooted file]

end Reply

namespace Deployment

end Deployment

end Ndnfs

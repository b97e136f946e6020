import Ndnfs.Proof.PublishedName
import Ndnfs.Server.Mount

namespace Ndnfs
open MachineInteger KeyedTable

/-- The file of a row has a row for each segment with bytes as soon as it is closed. -/
structure Covered (root : Path) (state : State) (path : Path) (row : FileSystemRow)
    (closed : Prop) : Prop where
  version : toInt row.currentVersion ≠ -1
  file : IsFile (state.disk.entry (root.locate path))
  empty : ∀ entry, state.disk.entry (root.locate path) = some entry →
    entry.kind ≠ .regular → entry.content = []
  segments : closed → ∀ content, state.disk.entry (root.locate path) = some ⟨.regular, content⟩ →
    ∀ seg : Nat, seg < FileSystem.lastRound → segSize * seg < content.length →
      state.db.fileSegments.Has (path.text, toInt row.currentVersion, (seg : Int))

/-- Every row of a file is covered. -/
def AllCovered (root : Path) (state : State) (writers : List Path) : Prop :=
  ∀ (path : Path) row, state.db.fileSystem.lookup path.text = some row →
    Covered root state path row (path ∉ writers)

/-- A truncate without an open handle leaves only bytes that have rows. -/
def TruncateCovered (state : State) (path : Path) (length : Int) : Prop :=
  ∀ row, state.db.fileSystem.lookup path.text = some row →
    ∀ seg : Nat, seg < FileSystem.lastRound → segSize * seg < length.toNat →
      state.db.fileSegments.Has (path.text, toInt row.currentVersion, (seg : Int))

/-- A rename moves a file with its rows to a free path, an object without rows to such a path, or
neither an object nor a row. -/
def RenameCovered (state : State) (source target : Path) (moves : Prop) : Prop :=
  (state.db.fileSystem.Has source.text ∧ moves ∧ ¬ state.db.fileSystem.Has target.text ∧
    ¬ state.db.SharedSegment source.text target.text) ∨
  (¬ state.db.fileSystem.Has source.text ∧ (moves → ¬ state.db.fileSystem.Has target.text ∧
    ∀ path : Path, source.names <+: path.names → ¬ state.db.fileSystem.Has path.text)) ∨
  (¬ moves ∧ state.db.fileSystem.Has target.text ∧
    (state.db.SharedSegment source.text target.text ∨
      ∀ segment, ¬ state.db.fileSegments.Has (source.text, segment)))

namespace Deployment

/-- Each segment with bytes is opened and read without a fault. -/
def ReadsAll (deployment : Deployment) (disk : Disk) (path : Path) (environment : Environment) :
    Prop :=
  ∀ location content, disk.lookupText (deployment.fs.fullPath path.text) =
      .ok (location, ⟨.regular, content⟩) →
    ∀ seg : Nat, seg < FileSystem.lastRound → segSize * seg < content.length →
      environment.Quiet (seg + 2)

/-- The conditions on each event: a file that has been written gets rows for all its segments. -/
def KeepsCovered (deployment : Deployment) (mount : Mount) : Event → Prop
  | .operation ⟨.mknod path mode, environment⟩ =>
      mount.history.state.db.fileSystem.Has path.text ∨
        toInt environment.now ≠ -1 ∧ ∃ disk, environment.outcome
          (mount.history.state.disk.createMode (deployment.fs.fullPath path.text) mode
            environment.now) = .ok disk
  | .operation ⟨.write path _ _, environment⟩ =>
      mount.history.state.db.fileSystem.Has path.text → environment.Quiet 2 → path ∈ mount.writers
  | .operation ⟨.truncate path length, environment⟩ =>
      0 ≤ length → environment.Quiet 1 →
        path ∈ mount.writers ∨ TruncateCovered mount.history.state path length
  | .operation ⟨.release path access, environment⟩ =>
      mount.history.state.db.fileSystem.Has path.text → access ≠ .readOnly →
        toInt environment.now ≠ -1 ∧
          deployment.ReadsAll mount.history.state.disk path environment
  | .operation ⟨.rename source target, environment⟩ => source = target ∨
      RenameCovered mount.history.state source target
        (∃ disk, environment.outcome (mount.history.state.disk.renameText
          (deployment.fs.fullPath source.text) (deployment.fs.fullPath target.text)
          environment.now) = .ok disk)
  | .operation _ => True
  | .interest _ => True

end Deployment

section Covered

variable {root : Path} {state state' : State} {path : Path} {row : FileSystemRow}
  {closed closed' : Prop}

theorem Covered.mono (covered : Covered root state path row closed)
    (same : state'.disk.entry (root.locate path) = state.disk.entry (root.locate path))
    (more : ∀ segment, state.db.fileSegments.Has (path.text, segment) →
      state'.db.fileSegments.Has (path.text, segment))
    (before : closed' → closed) : Covered root state' path row closed' where
  version := covered.version
  file := by
    rw [same]
    exact covered.file
  empty := by
    rw [same]
    exact covered.empty
  segments shut content regular seg early inside :=
    more _ (covered.segments (before shut) content (same ▸ regular) seg early inside)

/-- A new object has no bytes to cover. -/
theorem covered_create {kind : NodeKind} (known : kind ≠ .directory)
    (version : toInt row.currentVersion ≠ -1)
    (made : state.disk.entry (root.locate path) = some ⟨kind, []⟩) :
    Covered root state path row closed where
  version := version
  file := by
    rw [made]
    exact isFile_some.mpr known
  empty entry present _ := by
    rw [made] at present
    obtain rfl := Option.some.inj present
    rfl
  segments _ content regular seg _ inside := by
    rw [made] at regular
    obtain ⟨-, rfl⟩ := Entry.mk.inj (Option.some.inj regular)
    exact absurd inside (Nat.not_lt_zero _)

theorem AllCovered.of_same {writers writers' : List Path} (covered : AllCovered root state writers)
    (rows : ∀ (path : Path) row, state'.db.fileSystem.lookup path.text = some row →
      state.db.fileSystem.lookup path.text = some row)
    (same : ∀ path : Path, state'.db.fileSystem.Has path.text →
      state'.disk.entry (root.locate path) = state.disk.entry (root.locate path))
    (more : ∀ segment, state.db.fileSegments.Has segment → state'.db.fileSegments.Has segment)
    (handles : ∀ path ∈ writers, path ∈ writers') : AllCovered root state' writers' :=
  fun path row present => (covered path row (rows path row present)).mono
    (same path (has_iff.mpr ⟨row, present⟩)) (fun _ => more _)
    fun shut inside => shut (handles path inside)

/-- A change of a file keeps its cover when the file is open or the new bytes have rows. -/
theorem AllCovered.rewrites {writers : List Path} {change : Bytes → Bytes} {disk : Disk}
    (covered : AllCovered root state writers)
    (rewrites : state.disk.Rewrites (root.locate path) change disk)
    (bytes : path ∈ writers ∨ ∀ row, state.db.fileSystem.lookup path.text = some row →
      ∀ content (seg : Nat), seg < FileSystem.lastRound → segSize * seg < (change content).length →
        state.db.fileSegments.Has (path.text, toInt row.currentVersion, (seg : Int))) :
    AllCovered root { state with disk := disk } writers := by
  intro other row present
  have before := covered other row present
  obtain ⟨content, regular, entries⟩ := id rewrites
  by_cases here : other = path
  · subst other
    have entry : disk.entry (root.locate path) = some ⟨.regular, change content⟩ := by
      rw [entries, if_pos rfl]
    refine ⟨before.version, (rewrites.isFile_iff _).mpr before.file, ?_, ?_⟩
    · intro other present irregular
      rw [entry] at present
      exact absurd (Option.some.inj present ▸ rfl) irregular
    · intro shut bytes' regular' seg early inside
      rw [entry] at regular'
      obtain ⟨-, rfl⟩ := Entry.mk.inj (Option.some.inj regular')
      exact (bytes.resolve_left shut) row present content seg early inside
  · refine before.mono ?_ (fun _ => id) id
    rw [entries, if_neg (mt Path.locate_inj.mp here)]

theorem AllCovered.mknod {writers : List Path} {mode : Nat} {kind : NodeKind} {now : Int}
    (covered : AllCovered root state writers) (absent : ¬ state.db.fileSystem.Has path.text)
    (version : toInt now ≠ -1) (known : Disk.mknodKind mode = .ok kind)
    (free : state.disk.Free (root.locate path)) : AllCovered root { state with
      db := FileSystem.mknodRows path.text mode now state.db
      disk := state.disk.create (root.locate path) kind now } writers := by
  intro other row present
  rw [FileSystem.mknodRows, Database.lookup_insertFileSystem (by simpa using absent)] at present
  have entry := state.disk.entry_create free kind now (root.locate other)
  by_cases here : other = path
  · subst other
    rw [if_pos rfl] at present entry
    obtain rfl := Option.some.inj present
    exact covered_create (Disk.mknodKind_ne_directory known) (by rwa [toInt_toInt]) entry
  · rw [if_neg (mt Path.text_injective here), Database.fileSystem_insertFileVersion] at present
    rw [if_neg (mt Path.locate_inj.mp here)] at entry
    exact (covered other row present).mono entry (fun _ => by simp [FileSystem.mknodRows]) id

theorem AllCovered.create {writers : List Path} {kind : NodeKind} {now : Int}
    (covered : AllCovered root state writers) (free : state.disk.Free (root.locate path)) :
    AllCovered root { state with disk := state.disk.create (root.locate path) kind now } writers := by
  intro other row present
  have before := covered other row present
  refine before.mono ?_ (fun _ => id) id
  dsimp only
  rw [state.disk.entry_create free, if_neg]
  intro same
  have file := before.file
  rw [same, free.1] at file
  exact isFile_none file

/-- A removed directory has no row. -/
theorem AllCovered.rmdir {writers : List Path} {now : Int}
    (covered : AllCovered root state writers)
    (directory : IsDirectory (state.disk.entry (root.locate path))) (below : root.locate path ≠ [])
    (empty : state.disk.NoChildren (root.locate path)) :
    AllCovered root { state with disk := state.disk.remove (root.locate path) now } writers := by
  intro other row present
  have before := covered other row present
  refine before.mono ?_ (fun _ => id) id
  dsimp only
  rw [state.disk.entry_remove below empty, if_neg]
  intro same
  exact before.file.2 (same ▸ directory)

theorem AllCovered.unlink {writers : List Path} {disk : Disk}
    (covered : AllCovered root state writers)
    (same : ∀ other, other ≠ root.locate path → disk.entry other = state.disk.entry other) :
    AllCovered root { state with db := state.db.deleteFileSystem path.text, disk } writers := by
  intro other row present
  rw [Database.lookup_deleteFileSystem] at present
  split at present
  · cases present
  · rename_i different
    have elsewhere : other ≠ path := mt (congrArg Path.text) different
    exact (covered other row present).mono (same _ (mt Path.locate_inj.mp elsewhere))
      (fun _ => id) id

theorem AllCovered.release {writers writers' : List Path} {fs : FileSystem} {now : Int}
    {content : Bytes} {count : Nat} (covered : AllCovered root state writers)
    (version : toInt now ≠ -1)
    (complete : ∀ file, state.disk.entry (root.locate path) = some ⟨.regular, file⟩ →
      ∀ seg, seg < FileSystem.lastRound → segSize * seg < file.length → seg < count)
    (handles : ∀ other ∈ writers, other ≠ path → other ∈ writers') : AllCovered root { state with
      db := fs.signSegments path.text (toInt now) content
        (FileSystem.releaseRows path.text now state.db) count } writers' := by
  have more {segment : Bytes × Int × Int} (present : state.db.fileSegments.Has segment) :
      (fs.signSegments path.text (toInt now) content
        (FileSystem.releaseRows path.text now state.db) count).fileSegments.Has segment := by
    obtain ⟨file, version, seg⟩ := segment
    rw [Has, fs.lookup_signSegments]
    split
    · simp
    · rw [FileSystem.releaseRows, Database.fileSegments_insertFileVersion,
        Database.fileSegments_updateCurrentVersion]
      exact present
  intro other row present
  dsimp only at present
  rw [FileSystem.fileSystem_signSegments, FileSystem.releaseRows,
    Database.fileSystem_insertFileVersion, Database.lookup_updateCurrentVersion,
    Option.map_eq_some_iff] at present
  obtain ⟨old, found, rfl⟩ := present
  have before := covered other old found
  by_cases here : other = path
  · subst other
    rw [if_pos rfl]
    refine ⟨by rwa [toInt_toInt], before.file, before.empty, fun _ file regular seg early inside => ?_⟩
    have signed := complete file regular seg early inside
    rw [Has, fs.lookup_signSegments, if_pos ⟨rfl, toInt_toInt now, by omega, by omega⟩]
    simp
  · rw [if_neg (mt Path.text_injective here)]
    exact before.mono rfl (fun _ => more) fun shut inside => shut (handles other inside here)

section Rename

variable {writers : List Path} {source target : Path} {now : Int}

/-- A file outside the moved objects stays where it is. -/
theorem entry_move_other {disk : Disk} {other : Path}
    (safe : disk.MoveSafe (root.locate source) (root.locate target))
    (file : IsFile (disk.entry (root.locate other))) (there : other ≠ target)
    (outside : ¬ source.names <+: other.names) :
    (disk.move (root.locate source) (root.locate target) now).entry (root.locate other) =
      disk.entry (root.locate other) := by
  rw [disk.entry_move safe, if_neg, if_neg]
  · exact mt (List.prefix_append_right_inj root.names).mp outside
  · rintro ⟨rest, same⟩
    have proper : rest ≠ [] := by
      rintro rfl
      exact there (Path.locate_inj.mp (by rw [← same, List.append_nil]))
    rw [← same, disk.none_below safe.empty proper] at file
    exact isFile_none file

/-- The rows of the other files keep their cover. -/
theorem AllCovered.rename_other {disk : Disk} {writers' : List Path} {other : Path}
    (covered : AllCovered root state writers) (different : source ≠ target)
    (present : state.db.fileSystem.lookup other.text = some row) (here : other ≠ source)
    (same : disk.entry (root.locate other) = state.disk.entry (root.locate other))
    (handles : other ∈ writers → other ∈ writers') :
    Covered root { state with db := state.db.renameAll source.text target.text, disk } other row
      (other ∉ writers') :=
  (covered other row present).mono same (fun _ member =>
    state.db.has_segment_renameAll (mt Path.text_injective different) member
      fun inside => absurd (Path.text_injective inside) here) fun shut inside => shut (handles inside)

/-- A file takes its row, its segments and its handles to a free path. -/
theorem AllCovered.rename_file (covered : AllCovered root state writers) (different : source ≠ target)
    (safe : state.disk.MoveSafe (root.locate source) (root.locate target))
    (has : state.db.fileSystem.Has source.text) (vacant : ¬ state.db.fileSystem.Has target.text)
    (free : ¬ state.db.SharedSegment source.text target.text) : AllCovered root { state with
      db := state.db.renameAll source.text target.text
      disk := state.disk.move (root.locate source) (root.locate target) now }
      (writers.map (source.moved target)) := by
  have texts : source.text ≠ target.text := mt Path.text_injective different
  obtain ⟨moved, found⟩ := has_iff.mp has
  have before := covered source moved found
  intro other row present
  by_cases here : other = source
  · subst other
    rw [Database.lookup_renameAll_source _ texts, if_neg vacant] at present
    cases present
  · by_cases there : other = target
    · subst other
      rw [Database.lookup_renameAll_target _ texts, not_has_iff.mp vacant, Option.none_or, found]
        at present
      obtain rfl := Option.some.inj present
      have entry := state.disk.entry_move safe now (root.locate target)
      rw [if_pos (List.prefix_refl _), List.drop_length, List.append_nil] at entry
      refine ⟨before.version, ?_, ?_, fun shut content regular seg early inside => ?_⟩
      · dsimp only
        rw [entry]
        exact before.file
      · dsimp only
        rw [entry]
        exact before.empty
      · dsimp only at regular
        rw [entry] at regular
        have closed : source ∉ writers := fun member =>
          shut (List.mem_map.mpr ⟨source, member, Path.moved_source source target⟩)
        have row := before.segments closed content regular seg early inside
        dsimp only
        rw [Has, Database.lookup_segments_renameAll _ texts free, if_neg texts.symm, if_pos rfl]
        exact fun absent => row (Option.or_eq_none_iff.mp absent).1
    · rw [Database.lookup_renameAll_other _ (mt Path.text_injective here)
        (mt Path.text_injective there)] at present
      have file := (covered other row present).file
      have outside : ¬ source.names <+: other.names := by
        rintro ⟨rest, same⟩
        have proper : rest ≠ [] := by
          rintro rfl
          exact here (Path.ext_names (by rw [← same, List.append_nil]))
        have childless := state.disk.noChildren_of_not_directory before.file.2
        rw [Path.locate, ← same, ← List.append_assoc] at file
        exact isFile_none (state.disk.none_below childless proper ▸ file)
      exact covered.rename_other different present here (entry_move_other safe file there outside)
        fun member => List.mem_map.mpr ⟨other, member, Path.moved_other outside⟩

/-- An object without rows goes to a path without a row. -/
theorem AllCovered.rename_bare (covered : AllCovered root state writers) (different : source ≠ target)
    (safe : state.disk.MoveSafe (root.locate source) (root.locate target))
    (vacant : ¬ state.db.fileSystem.Has target.text)
    (bare : ∀ path : Path, source.names <+: path.names → ¬ state.db.fileSystem.Has path.text) :
    AllCovered root { state with
      db := state.db.renameAll source.text target.text
      disk := state.disk.move (root.locate source) (root.locate target) now }
      (writers.map (source.moved target)) := by
  have texts : source.text ≠ target.text := mt Path.text_injective different
  have absent := bare source (List.prefix_refl _)
  intro other row present
  by_cases here : other = source
  · subst other
    rw [Database.lookup_renameAll_source _ texts, if_neg vacant] at present
    cases present
  · by_cases there : other = target
    · subst other
      rw [Database.lookup_renameAll_target _ texts, not_has_iff.mp vacant, not_has_iff.mp absent]
        at present
      cases present
    · rw [Database.lookup_renameAll_other _ (mt Path.text_injective here)
        (mt Path.text_injective there)] at present
      have file := (covered other row present).file
      have outside : ¬ source.names <+: other.names := fun below =>
        bare other below (has_iff.mpr ⟨row, present⟩)
      exact covered.rename_other different present here (entry_move_other safe file there outside)
        fun member => List.mem_map.mpr ⟨other, member, Path.moved_other outside⟩

/-- A failed rename keeps the rows of a file unless they move away from it. -/
theorem AllCovered.rename_left (covered : AllCovered root state writers) (different : source ≠ target)
    (stays : ¬ state.db.fileSystem.Has source.text ∨ state.db.fileSystem.Has target.text ∧
      (state.db.SharedSegment source.text target.text ∨
        ∀ segment, ¬ state.db.fileSegments.Has (source.text, segment))) :
    AllCovered root { state with db := state.db.renameAll source.text target.text } writers := by
  have texts : source.text ≠ target.text := mt Path.text_injective different
  intro other row present
  have old : state.db.fileSystem.lookup other.text = some row := by
    by_cases here : other = source
    · subst other
      rw [Database.lookup_renameAll_source _ texts] at present
      split at present
      · exact present
      · cases present
    · by_cases there : other = target
      · subst other
        rw [Database.lookup_renameAll_target _ texts, Option.or_eq_some_iff] at present
        rcases present with here | ⟨vacant, moved⟩
        · exact here
        · rcases stays with absent | ⟨occupied, -⟩
          · exact absurd (has_iff.mpr ⟨row, moved⟩) absent
          · exact absurd vacant occupied
      · rwa [Database.lookup_renameAll_other _ (mt Path.text_injective here)
          (mt Path.text_injective there)] at present
  refine (covered other row old).mono rfl (fun segment member => ?_) id
  apply state.db.has_segment_renameAll texts member
  intro same
  rw [same] at old member
  rcases stays with absent | ⟨-, shared | none⟩
  · exact absurd (has_iff.mpr ⟨row, old⟩) absent
  · exact shared
  · exact absurd member (none segment)

end Rename

end Covered

namespace Deployment

variable (deployment : Deployment)

section Step

variable {root : Path} {mount : Mount} (rooted : deployment.rootPath = root.rootText)

include rooted

/-- A new row has the first version and a file without segments. -/
theorem covered_mknod {state : State} {clock : Int} {writers : List Path} (path : Path) (mode : Nat)
    (environment : Environment) (covered : AllCovered root state writers)
    (keeps : deployment.KeepsCovered ⟨⟨state, clock⟩, writers⟩
      (.operation ⟨.mknod path mode, environment⟩)) :
    let after := deployment.mountStep ⟨⟨state, clock⟩, writers⟩
      (.operation ⟨.mknod path mode, environment⟩)
    AllCovered root after.history.state after.writers := by
  have fsRooted : deployment.fs.rootPath = root.rootText := rooted
  simp only [mountStep, step, FileSystem.step, Operation.program, Operation.writersAfter]
  rw [FileSystem.exec_ndnfsMknod]
  by_cases present : state.db.fileSystem.Has path.text
  · rw [if_pos present]
    exact covered
  · obtain ⟨version, disk, made⟩ := Or.resolve_left keeps present
    rw [FileSystem.fullPath_text fsRooted] at made
    rw [if_neg present, FileSystem.fullPath_text fsRooted, made]
    obtain ⟨kind, known, free, rfl⟩ :=
      FileSystem.createMode_ok (Environment.outcome_ok made)
    have new := covered.mknod present version known free
    dsimp only
    split
    · split <;> exact new
    · exact new

/-- A release covers the file with the segments that it has read. -/
theorem covered_release {state : State} {clock : Int} {writers : List Path}
    (path : Path) (access : AccessMode) (environment : Environment)
    (covered : AllCovered root state writers)
    (keeps : deployment.KeepsCovered ⟨⟨state, clock⟩, writers⟩
      (.operation ⟨.release path access, environment⟩)) :
    let after := deployment.mountStep ⟨⟨state, clock⟩, writers⟩
      (.operation ⟨.release path access, environment⟩)
    AllCovered root after.history.state after.writers := by
  have fsRooted : deployment.fs.rootPath = root.rootText := rooted
  simp only [mountStep, step, FileSystem.step, Operation.program]
  rcases FileSystem.effect_release path environment state fsRooted access with
    ⟨idle, failed⟩ | ⟨present, writing, content, count, -, -, complete, released⟩
  · rw [failed]
    rcases idle with rfl | absent
    · exact covered
    · intro other row present
      refine (covered other row present).mono rfl (fun _ => id) fun shut member => ?_
      have different : other ≠ path := by
        rintro rfl
        exact absent (has_iff.mpr ⟨row, present⟩)
      exact shut (mem_writersAfter_release member different _ access)
  · obtain ⟨version, reads⟩ := keeps present writing
    rw [released]
    refine covered.release version ?_ fun other member different =>
      mem_writersAfter_release member different _ access
    intro file regular seg early inside
    have found : state.disk.lookupText (deployment.fs.fullPath path.text) =
        .ok (root.locate path, ⟨.regular, file⟩) := by
      rw [FileSystem.fullPath_text fsRooted]
      exact state.disk.lookupText_some regular
    have quiet := reads _ file found seg early inside
    exact complete file regular seg early (Nat.le_of_lt inside) quiet

/-- A rename moves a file to a path without a row, or it moves no row. -/
theorem covered_rename {state : State} {clock : Int} {writers : List Path}
    (source target : Path) (environment : Environment)
    (covered : AllCovered root state writers)
    (keeps : deployment.KeepsCovered ⟨⟨state, clock⟩, writers⟩
      (.operation ⟨.rename source target, environment⟩)) :
    let after := deployment.mountStep ⟨⟨state, clock⟩, writers⟩
      (.operation ⟨.rename source target, environment⟩)
    AllCovered root after.history.state after.writers := by
  have fsRooted : deployment.fs.rootPath = root.rootText := rooted
  simp only [mountStep, step, FileSystem.step, Operation.program]
  have keeps : source = target ∨ RenameCovered state source target
      (∃ disk, environment.outcome (state.disk.renameText
        (deployment.fs.fullPath source.text) (deployment.fs.fullPath target.text)
        environment.now) = .ok disk) := keeps
  rw [FileSystem.exec_ndnfsRename]
  rw [FileSystem.fullPath_text fsRooted, FileSystem.fullPath_text fsRooted] at keeps ⊢
  cases moved : environment.outcome (state.disk.renameText (root.rootText ++ source.text)
      (root.rootText ++ target.text) environment.now) with
  | error error =>
      have failed : error.negative ≠ 0 := Int.ne_of_lt error.negative_lt
      dsimp only
      rw [Operation.writersAfter, if_neg failed]
      by_cases different : source = target
      · subst target
        rw [Database.renameAll_same]
        exact covered
      · simp only [moved, reduceCtorEq, exists_false] at keeps
        rcases keeps.resolve_left different with
          ⟨-, moves, -⟩ | ⟨absent, -⟩ | ⟨-, occupied, stays⟩
        · exact moves.elim
        · exact covered.rename_left different (.inl absent)
        · exact covered.rename_left different (.inr ⟨occupied, stays⟩)
  | ok disk =>
      dsimp only
      rw [Operation.writersAfter, if_pos rfl]
      rcases state.disk.rename_ok (Environment.outcome_ok moved) with
        ⟨rfl, rfl⟩ | ⟨different, safe, -, -, rfl⟩
      · have handles : writers.map (source.moved source) = writers :=
          (List.map_congr_left fun path _ => source.moved_same path).trans writers.map_id'
        rw [Database.renameAll_same, handles]
        exact covered
      · rcases keeps.resolve_left different with
          ⟨has, -, vacant, free⟩ | ⟨-, bare⟩ | ⟨still, -⟩
        · exact covered.rename_file different safe has vacant free
        · obtain ⟨vacant, bare⟩ := bare ⟨_, moved⟩
          exact covered.rename_bare different safe vacant bare
        · exact absurd ⟨_, moved⟩ still

theorem covered_step {event : Event}
    (covered : AllCovered root mount.history.state mount.writers)
    (keeps : deployment.KeepsCovered mount event) :
    AllCovered root (deployment.mountStep mount event).history.state
      (deployment.mountStep mount event).writers := by
  have fsRooted : deployment.fs.rootPath = root.rootText := rooted
  obtain ⟨⟨state, clock⟩, writers⟩ := mount
  cases event with
  | interest interest =>
      simp only [mountStep]
      rw [deployment.step_interest]
      exact covered.of_same (fun _ _ => id) (fun _ _ => rfl) (fun _ => id) fun _ => id
  | operation request =>
      obtain ⟨operation, environment⟩ := request
      cases operation with
      | mknod path mode => exact deployment.covered_mknod rooted path mode environment covered keeps
      | mkdir path mode =>
          simp only [mountStep, step, FileSystem.step, Operation.program, Operation.writersAfter]
          rcases FileSystem.effect_mkdir path environment state fsRooted mode with
            failed | ⟨free, made⟩
          · rw [failed]
            exact covered
          · rw [made]
            exact covered.create free
      | openFile path access trunc =>
          simp only [mountStep, step, FileSystem.step, Operation.program]
          have after : AllCovered root
              (exec (deployment.fs.ndnfsOpen path.text { access, truncate := trunc }) environment
                state).2 writers := by
            rcases FileSystem.effect_open path environment state fsRooted access trunc with
              failed | ⟨-, disk, rewrites, opened⟩
            · rw [failed]
              exact covered
            · rw [opened]
              exact covered.rewrites rewrites (.inr fun _ _ _ seg _ inside =>
                absurd inside (Nat.not_lt_zero _))
          exact after.of_same (fun _ _ => id) (fun _ _ => rfl) (fun _ => id) fun other member =>
            mem_writersAfter_openFile member _ path access trunc
      | read path size offset =>
          simp only [mountStep, step, FileSystem.step, Operation.writersAfter]
          rw [deployment.fs.exec_read]
          exact covered
      | write path data offset =>
          simp only [mountStep, step, FileSystem.step, Operation.program, Operation.writersAfter]
          rcases FileSystem.effect_write path environment state fsRooted data offset with
            failed | ⟨⟨present, -, quiet⟩, disk, rewrites, written⟩
          · rw [failed]
            exact covered
          · rw [written]
            exact covered.rewrites rewrites (.inl (keeps present quiet))
      | truncate path length =>
          simp only [mountStep, step, FileSystem.step, Operation.program, Operation.writersAfter]
          rcases FileSystem.effect_truncate path environment state fsRooted length with
            failed | ⟨⟨-, nonneg, quiet⟩, disk, rewrites, cut⟩
          · rw [failed]
            exact covered
          · rw [cut]
            refine covered.rewrites rewrites (Or.imp_right ?_ (keeps nonneg quiet))
            intro kept row present content seg early inside
            rw [length_resize] at inside
            exact kept row present seg early inside
      | release path access =>
          exact deployment.covered_release rooted path access environment covered keeps
      | unlink path =>
          simp only [mountStep, step, FileSystem.step, Operation.program, Operation.writersAfter]
          rcases FileSystem.effect_unlink path environment state fsRooted with failed | ⟨file, gone⟩
          · rw [failed]
            exact covered.unlink fun _ _ => rfl
          · rw [gone]
            refine covered.unlink fun other different => ?_
            rw [state.disk.entry_remove (ne_nil_of_isFile file)
              (state.disk.noChildren_of_not_directory file.2), if_neg different]
      | rmdir path =>
          simp only [mountStep, step, FileSystem.step, Operation.program, Operation.writersAfter]
          rcases FileSystem.effect_rmdir path environment state fsRooted with
            failed | ⟨directory, below, empty, gone⟩
          · rw [failed]
            exact covered
          · rw [gone]
            exact covered.rmdir directory below empty
      | rename source target =>
          exact deployment.covered_rename rooted source target environment covered keeps
end Step

/-- The packets that sendFileMeta puts for a row. -/
def announcements (environment : Environment) (state : State) (path : Path) (row : FileSystemRow)
    (mimeType : Bytes) : List Data :=
  (exec (deployment.server.sendFileMeta path.text mimeType (toInt row.currentVersion)
    (toInt row.type)) environment state).2.sent.drop state.sent.length

/-- The packets that onInterestCallback puts for a segment of a row. -/
def segmentReplies (environment : Environment) (state : State) (path : Path) (row : FileSystemRow)
    (seg : Nat) : List Data :=
  (exec (deployment.server.onInterestCallback
    (deployment.fs.segName path.text (toInt row.currentVersion) seg)) environment
      state).2.sent.drop state.sent.length

/-- The name encoding carries the path unchanged. -/
def CarriesPath (path : Path) : Prop :=
  ∀ version seg, IsInt version → version ≠ -1 → IsInt seg → 0 ≤ seg →
    deployment.NamesAgree path version seg

/-- Each segment that is announced for the row is sent with its bytes. -/
def Fetchable (root : Path) (state : State) (path : Path) (row : FileSystemRow) : Prop :=
  ∀ environment : Environment, environment.faults = [] → ∀ mimeType,
    ∀ data ∈ deployment.announcements environment state path row mimeType,
      ∀ infof, deployment.protobuf.parse data.content = some infof →
        ∀ seg : Nat, (seg : Int) < infof.totalseg →
          ∀ later : Environment, later.faults = [] → ∃ reply content,
            deployment.segmentReplies later state path row seg = [reply] ∧
              state.disk.entry (root.locate path) = some ⟨.regular, content⟩ ∧
              reply.content = segmentBytes content seg

/-- A row of a regular file whose path the names carry. -/
structure CarriedRow (state : State) (path : Path) (row : FileSystemRow) : Prop where
  present : state.db.fileSystem.lookup path.text = some row
  regular : toInt row.type = FileType.regular.code
  carried : deployment.CarriesPath path

/-- No announced segment is empty. -/
def SizeFits (size : Nat) : Prop := 2 ^ 31 ≤ size ∨ size % segSize ≠ 0

instance (size : Nat) : Decidable (SizeFits size) := inferInstanceAs (Decidable (_ ∨ _))

/-- The version of the row is not recorded, or the size of the file fits. -/
def SizeFitsRow (root : Path) (state : State) (path : Path) (row : FileSystemRow) : Prop :=
  state.db.fileVersions.Has (path.text, toInt row.currentVersion) →
    ∀ entry, state.disk.entry (root.locate path) = some entry → SizeFits entry.content.length

theorem sizeFits_iff (size : Nat) : SizeFits size ↔
    ∀ seg : Nat, (seg : Int) < Server.totalSeg (toInt size) → segSize * seg < size := by
  have range := toInt_isInt size
  unfold IsInt at range
  unfold SizeFits Server.totalSeg shiftRight segSizeShift segSize
  constructor
  · rintro (long | rest) seg announced
    · omega
    · by_cases long : 2 ^ 31 ≤ size
      · omega
      · rw [toInt_natCast (by omega)] at announced
        omega
  · intro inside
    by_contra fails
    have last := inside (size / 8192) (by
      rw [toInt_natCast (by omega)]
      omega)
    omega

section Row

variable {deployment} {root : Path} {state : State} {path : Path} {row : FileSystemRow}

theorem announcements_eq (environment : Environment) (mimeType : Bytes) :
    deployment.announcements environment state path row mimeType =
      (deployment.server.metaReply path.text environment state mimeType (toInt row.currentVersion)
        (toInt row.type)).toList := by
  have replied := deployment.server.exec_sendFileMeta path.text environment state mimeType
    (toInt row.currentVersion) (toInt row.type)
  rw [announcements, replied, Server.sendReply, List.drop_left]

theorem segmentReplies_eq (carries : deployment.CarriesPath path)
    (known : toInt row.currentVersion ≠ -1) {seg : Nat} (early : seg < FileSystem.lastRound)
    (environment : Environment) :
    deployment.segmentReplies environment state path row seg =
      (deployment.server.contentReply path.text environment state
        (deployment.fs.segName path.text (toInt row.currentVersion) seg)
        (toInt row.currentVersion) seg).toList := by
  have range : IsInt (seg : Int) := by
    unfold FileSystem.lastRound at early
    unfold IsInt
    omega
  have parse := carries _ _ (toInt_isInt row.currentVersion) known range (Int.natCast_nonneg seg)
  have replied := deployment.server.exec_onInterestCallback environment state
    (deployment.fs.segName path.text (toInt row.currentVersion) seg)
  rw [NamesAgree] at parse
  rw [segmentReplies, replied, Server.sendReply, List.drop_left, Server.reply, parse]
  rfl

/-- The announced segments are among those that a release signs. -/
theorem early_of_announced {size seg : Nat}
    (announced : (seg : Int) < Server.totalSeg (toInt size)) : seg < FileSystem.lastRound := by
  have range := toInt_isInt size
  unfold IsInt at range
  unfold Server.totalSeg shiftRight segSizeShift at announced
  unfold FileSystem.lastRound
  omega

/-- Without a fault the row of a regular file announces the segments up to its size. -/
theorem totalseg_announced (rooted : deployment.rootPath = root.rootText)
    (regular : toInt row.type = FileType.regular.code) {entry : Entry}
    (present : state.disk.entry (root.locate path) = some entry) {environment : Environment}
    (calm : environment.faults = []) {mimeType : Bytes} {data : Data}
    (sent : data ∈ deployment.announcements environment state path row mimeType)
    {infof : FileInfo} (parsed : deployment.protobuf.parse data.content = some infof) :
    state.db.fileVersions.Has (path.text, toInt row.currentVersion) ∧
      infof.totalseg = Server.totalSeg (toInt entry.content.length) := by
  have serverRooted : deployment.server.fsPath = root.rootText := rooted
  rw [announcements_eq, Server.metaReply] at sent
  split at sent
  · rename_i recorded
    obtain rfl := List.mem_singleton.mp sent
    have valid := deployment.server.fileInfo_valid environment state.disk path.text mimeType
      row.currentVersion row.type
    obtain rfl := Option.some.inj ((deployment.protobuf.parse_serialize _ valid).symm.trans parsed)
    refine ⟨recorded, ?_⟩
    rw [← deployment.server.fileSize_calm serverRooted present calm, Server.fileInfo]
    exact if_pos regular
  · cases sent

/-- A recorded version is announced. -/
theorem exists_announced (recorded : state.db.fileVersions.Has (path.text, toInt row.currentVersion))
    (environment : Environment) (mimeType : Bytes) :
    ∃ data ∈ deployment.announcements environment state path row mimeType,
      ∃ infof, deployment.protobuf.parse data.content = some infof := by
  have valid := deployment.server.fileInfo_valid environment state.disk path.text mimeType
    row.currentVersion row.type
  refine ⟨deployment.server.metaPacket path.text (deployment.server.fileInfo environment state.disk
    path.text mimeType (toInt row.currentVersion) (toInt row.type)), ?_, _,
    deployment.protobuf.parse_serialize _ valid⟩
  rw [announcements_eq, Server.metaReply, if_pos recorded]
  exact List.mem_singleton_self _

/-- A covered row is served exactly when its version is not recorded or its size fits. -/
theorem fetchable_iff (rooted : deployment.rootPath = root.rootText)
    (covered : Covered root state path row True) (carried : deployment.CarriedRow state path row) :
    deployment.Fetchable root state path row ↔ SizeFitsRow root state path row := by
  obtain ⟨-, regular, carries⟩ := carried
  have serverRooted : deployment.server.fsPath = root.rootText := rooted
  constructor
  · intro fetchable recorded entry present
    rw [sizeFits_iff]
    intro seg announced
    have calm : (Reference.calm 0).faults = [] := rfl
    obtain ⟨data, sent, infof, parsed⟩ := deployment.exists_announced recorded (Reference.calm 0) []
    have total := totalseg_announced rooted regular present calm sent parsed
    obtain ⟨reply, content, replies, file, bytes⟩ :=
      fetchable _ calm [] data sent infof parsed seg (total.2 ▸ announced) _ calm
    rw [segmentReplies_eq carries covered.version (early_of_announced announced)] at replies
    have replied := Option.mem_toList.mp (replies ▸ List.mem_singleton_self reply)
    obtain ⟨signature, read, -, -, nonempty, rfl⟩ := deployment.server.contentReply_some replied
    obtain rfl := Option.some.inj (present.symm.trans file)
    have length : (segmentBytes content seg).length ≠ 0 := by
      rw [← bytes]
      exact mt List.length_eq_zero_iff.mp nonempty
    rw [segmentBytes_length] at length
    dsimp only
    unfold segSize at length ⊢
    omega
  · intro fits environment calm mimeType data sent infof parsed seg announced later quiet
    obtain ⟨entry, present⟩ := Option.ne_none_iff_exists'.mp covered.file.1
    obtain ⟨recorded, total⟩ := totalseg_announced rooted regular present calm sent parsed
    rw [total] at announced
    have early := early_of_announced announced
    have inside := (sizeFits_iff _).mp (fits recorded entry present) seg announced
    have file : entry.kind = .regular := by
      by_contra irregular
      rw [covered.empty entry present irregular] at inside
      exact absurd inside (Nat.not_lt_zero _)
    obtain ⟨kind, content⟩ := entry
    obtain rfl : kind = .regular := file
    have signed := covered.segments trivial content present seg early inside
    obtain ⟨reply, replied, bytes⟩ := deployment.server.contentReply_calm serverRooted present quiet
      signed early inside (deployment.fs.segName path.text (toInt row.currentVersion) seg)
    refine ⟨reply, content, ?_, present, bytes⟩
    rw [segmentReplies_eq carries covered.version early, replied]
    rfl

end Row

/-- From an empty database, in each run whose events all meet their conditions, every row belongs to
a path, and while no file is open for writing the announced segments of exactly the rows of a fitting
size are sent with their bytes. -/
theorem fetchable_run {root : Path} (rooted : deployment.rootPath = root.rootText) (disk : Disk)
    (clock : Int) (events : List Event)
    (keeps : Run.Steps deployment.mountStep deployment.KeepsCovered
      ⟨⟨⟨.empty, disk, []⟩, clock⟩, []⟩ events) :
    Run.Holds deployment.mountStep (fun mount => RowsHavePaths mount.history.state.db ∧
      (mount.writers = [] → ∀ path row, deployment.CarriedRow mount.history.state path row →
        (deployment.Fetchable root mount.history.state path row ↔
          SizeFitsRow root mount.history.state path row)))
      ⟨⟨⟨.empty, disk, []⟩, clock⟩, []⟩ events := by
  have step (mount : Mount) (event : Event)
      (good : RowsHavePaths mount.history.state.db ∧
        AllCovered root mount.history.state mount.writers)
      (keeps : deployment.KeepsCovered mount event) :
      RowsHavePaths (deployment.mountStep mount event).history.state.db ∧
        AllCovered root (deployment.mountStep mount event).history.state
          (deployment.mountStep mount event).writers :=
    ⟨deployment.rowsHavePaths_mountStep mount event good.1,
      deployment.covered_step rooted good.2 keeps⟩
  have holds := Run.invariant step keeps
    ⟨fun text present => absurd rfl present, fun path row present => by cases present⟩
  apply holds.imp
  intro mount good
  obtain ⟨rows, covered⟩ := good
  refine ⟨rows, fun closed path row carried => ?_⟩
  have shut : path ∉ mount.writers := by
    rw [closed]
    exact List.not_mem_nil
  apply fetchable_iff rooted _ carried
  exact (covered path row carried.present).mono rfl (fun _ => id) fun _ => shut

/-- A file of one byte is released. -/
theorem fetchable_run_released : Run.Holds Reference.deployment.mountStep
    (fun mount => RowsHavePaths mount.history.state.db ∧
      (mount.writers = [] → ∀ path row,
        Reference.deployment.CarriedRow mount.history.state path row →
          (Reference.deployment.Fetchable Reference.root mount.history.state path row ↔
            SizeFitsRow Reference.root mount.history.state path row)))
    ⟨⟨Reference.newState, 0⟩, []⟩
      [.operation ⟨.mknod Reference.fileA Reference.regularMode, Reference.calm 1⟩,
        .operation ⟨.openFile Reference.fileA .readWrite false, Reference.calm 1⟩,
        .operation ⟨.write Reference.fileA (ascii "x") 0, Reference.calm 1⟩,
        .operation ⟨.release Reference.fileA .readWrite, Reference.calm 2⟩] := by
  have rooted : Reference.deployment.rootPath = Reference.root.rootText := rfl
  refine Reference.deployment.fetchable_run rooted .bare 0 _
    ⟨.inr ⟨by decide, _, rfl⟩, trivial, fun _ _ => List.mem_singleton_self Reference.fileA,
      fun _ _ => ⟨by decide, fun _ _ _ seg _ _ => Environment.quiet_of_nil _ rfl (seg + 2)⟩,
      trivial⟩

/-- The kernel writes only through open handles, and its clock advances. -/
def KernelEvent (mount : Mount) (event : Event) : Prop :=
  event.ClockAdvances mount.history ∧
    match event with
    | .operation ⟨.write path _ _, _⟩ => path ∈ mount.writers
    | _ => True

/-- An empty file announces one segment, and no packet is sent for it. -/
theorem fetchable_run_fails : ¬ ∀ (deployment : Deployment) (root : Path) (disk : Disk)
    (clock : Int) (events : List Event), deployment.rootPath = root.rootText →
      IsDirectory (disk.entry root.names) → disk.NoChildren root.names →
      Run.Steps deployment.mountStep KernelEvent ⟨⟨⟨.empty, disk, []⟩, clock⟩, []⟩ events →
        Run.Holds deployment.mountStep (fun mount => mount.writers = [] → ∀ path row,
          deployment.CarriedRow mount.history.state path row →
            deployment.Fetchable root mount.history.state path row)
          ⟨⟨⟨.empty, disk, []⟩, clock⟩, []⟩ events := by
  intro claim
  have holds := claim Reference.deployment Reference.root .bare 0
    [.operation ⟨.mknod Reference.fileA Reference.regularMode, Reference.calm 1⟩,
      .operation ⟨.openFile Reference.fileA .readWrite false, Reference.calm 1⟩,
      .operation ⟨.release Reference.fileA .readWrite, Reference.calm 2⟩]
    rfl (by decide) (by decide) ⟨⟨⟨by decide, by decide⟩, trivial⟩, ⟨⟨by decide, by decide⟩, trivial⟩,
      ⟨⟨by decide, by decide⟩, trivial⟩, trivial⟩
  have carried : Reference.deployment.CarriesPath Reference.fileA :=
    fun version seg range known rangeSeg positive =>
      Reference.deployment.namesAgree_of_carried Reference.canonical range rangeSeg known
        (by omega) (by decide)
  have fetchable := holds.after_prefix (List.prefix_refl _) (by decide) Reference.fileA
    ⟨2, [], SignatureState.notReady.code, FileType.regular.code⟩ ⟨by decide, by decide, carried⟩
  obtain ⟨reply, content, sent, -⟩ := fetchable (Reference.calm 3) rfl []
    (Reference.server.metaPacket (ascii "/a") ⟨0, 1, 2, none, some 7⟩) (by decide +kernel)
    ⟨0, 1, 2, none, some 7⟩ (by decide +kernel) 0 (by decide) (Reference.calm 4) rfl
  have count := congrArg List.length sent
  rw [List.length_singleton] at count
  revert count
  decide +kernel

end Deployment

end Ndnfs

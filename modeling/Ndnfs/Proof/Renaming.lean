import Ndnfs.Fs.Operation
import Ndnfs.System.Tables

namespace Ndnfs
open KeyedTable

section Slide

variable {A Row : Type} [DecidableEq A] {source target : Bytes}

/-- The rows of the target are the old rows of the source exactly when it had none before. -/
theorem slideTo_path_moves_iff (different : source ≠ target) (table : KeyedTable Bytes Row) :
    ((table.slideTo (movePath source target)).lookup target = table.lookup source ∧
      ¬ (table.slideTo (movePath source target)).Has source) ↔ ¬ table.Has target := by
  by_cases clash : table.Has source ∧ table.Has target
  · have stays := slideTo_of_clash (movePath_slide source target)
      ((clash_path_iff different table).mpr clash)
    rw [stays]
    exact iff_of_false (fun moved => moved.2 clash.1) fun free => free clash.2
  · have rows := lookup_slideTo_path different clash
    rw [Has, rows, rows, if_neg different.symm, if_pos rfl, if_pos rfl]
    constructor
    · intro moved occupied
      have absent := not_has_iff.mp fun present => clash ⟨present, occupied⟩
      have same := moved.1
      rw [absent, Option.none_or] at same
      exact occupied same
    · intro free
      rw [not_has_iff.mp free, Option.or_none]
      exact ⟨rfl, fun present => present rfl⟩

theorem slideTo_key_moves_iff (different : source ≠ target) (table : KeyedTable (Bytes × A) Row) :
    ((∀ value, (table.slideTo (moveKey source target)).lookup (target, value) =
        table.lookup (source, value)) ∧
      ∀ value, ¬ (table.slideTo (moveKey source target)).Has (source, value)) ↔
        ∀ value, ¬ table.Has (target, value) := by
  by_cases clash : ∃ value, table.Has (source, value) ∧ table.Has (target, value)
  · have stays := slideTo_of_clash (moveKey_slide source target)
      ((clash_key_iff different table).mpr clash)
    rw [stays]
    obtain ⟨value, present, occupied⟩ := clash
    exact iff_of_false (fun moved => moved.2 value present) fun free => free value occupied
  · have rows := lookup_slideTo_key different clash
    constructor
    · intro moved value occupied
      have absent := not_has_iff.mp fun present => clash ⟨value, present, occupied⟩
      have same := moved.1 value
      rw [rows, if_neg different.symm, if_pos rfl, absent, Option.none_or] at same
      exact occupied same
    · intro free
      constructor
      · intro value
        rw [rows, if_neg different.symm, if_pos rfl, not_has_iff.mp (free value), Option.or_none]
      · intro value present
        rw [Has, rows, if_pos rfl] at present
        exact present rfl

end Slide

/-- The target has the rows that the source had, and no row names the source. -/
structure MovedTogether (before after : Database) (source target : Bytes) : Prop where
  row : after.fileSystem.lookup target = before.fileSystem.lookup source
  versions : ∀ version,
    after.fileVersions.lookup (target, version) = before.fileVersions.lookup (source, version)
  segments : ∀ segment,
    after.fileSegments.lookup (target, segment) = before.fileSegments.lookup (source, segment)
  noRow : ¬ after.fileSystem.Has source
  noVersion : ∀ version, ¬ after.fileVersions.Has (source, version)
  noSegment : ∀ segment, ¬ after.fileSegments.Has (source, segment)

/-- No row of the three tables names the path. -/
structure Unnamed (db : Database) (path : Bytes) : Prop where
  row : ¬ db.fileSystem.Has path
  version : ∀ version, ¬ db.fileVersions.Has (path, version)
  segment : ∀ segment, ¬ db.fileSegments.Has (path, segment)

/-- The three UPDATEs move all rows together exactly when no row names the target. -/
theorem movedTogether_renameAll_iff {source target : Bytes} (different : source ≠ target)
    (db : Database) :
    MovedTogether db (db.renameAll source target) source target ↔ Unnamed db target := by
  have rows := slideTo_path_moves_iff different db.fileSystem
  have versions := slideTo_key_moves_iff different db.fileVersions
  have segments := slideTo_key_moves_iff different db.fileSegments
  constructor
  · intro moved
    exact {
      row := rows.mp ⟨moved.row, moved.noRow⟩
      version := versions.mp ⟨moved.versions, moved.noVersion⟩
      segment := segments.mp ⟨moved.segments, moved.noSegment⟩ }
  · intro unnamed
    obtain ⟨row, noRow⟩ := rows.mpr unnamed.row
    obtain ⟨version, noVersion⟩ := versions.mpr unnamed.version
    obtain ⟨segment, noSegment⟩ := segments.mpr unnamed.segment
    exact ⟨row, version, segment, noRow, noVersion, noSegment⟩

namespace FileSystem

variable (fs : FileSystem)

/-- A successful rename moves all metadata of a file together exactly when no row named the target
before. -/
theorem movedTogether_iff {source target : Bytes} (different : source ≠ target)
    (environment : Environment) (state : State)
    (_success : (exec (fs.ndnfsRename source target) environment state).1 = 0) :
    MovedTogether state.db (exec (fs.ndnfsRename source target) environment state).2.db source
      target ↔ Unnamed state.db target := by
  rw [fs.db_ndnfsRename]
  exact movedTogether_renameAll_iff different state.db

/-- A new file is renamed to a new name. -/
theorem movedTogether_iff_new :
    MovedTogether
        (Reference.fileSystem.step ⟨Reference.newState, 0⟩
          ⟨.mknod Reference.fileA Reference.regularMode, Reference.calm 1⟩).state.db
        (exec (Reference.fileSystem.ndnfsRename (ascii "/a") (ascii "/b")) (Reference.calm 2)
          (Reference.fileSystem.step ⟨Reference.newState, 0⟩
            ⟨.mknod Reference.fileA Reference.regularMode, Reference.calm 1⟩).state).2.db
        (ascii "/a") (ascii "/b") ↔
      Unnamed
        (Reference.fileSystem.step ⟨Reference.newState, 0⟩
          ⟨.mknod Reference.fileA Reference.regularMode, Reference.calm 1⟩).state.db (ascii "/b") :=
  Reference.fileSystem.movedTogether_iff (by decide) _ _ (by decide)

/-- An unlinked file leaves the version that it had. -/
theorem movedTogether_fails : ¬ ∀ (fs : FileSystem) (disk : Disk) (clock : Int)
    (requests : List Request) (source target : Path) (environment : Environment),
      Run.Steps fs.step ClockAdvances ⟨⟨.empty, disk, []⟩, clock⟩ requests →
      let state := (Run.after fs.step ⟨⟨.empty, disk, []⟩, clock⟩ requests).state
      source ≠ target → (exec (fs.ndnfsRename source.text target.text) environment state).1 = 0 →
        MovedTogether state.db
          (exec (fs.ndnfsRename source.text target.text) environment state).2.db
          source.text target.text := by
  intro claim
  have moved := claim Reference.fileSystem .bare 0
    [⟨.mknod Reference.fileB Reference.regularMode, Reference.calm 1⟩,
      ⟨.unlink Reference.fileB, Reference.calm 2⟩,
      ⟨.mknod Reference.fileA Reference.regularMode, Reference.calm 3⟩]
    Reference.fileA Reference.fileB (Reference.calm 4)
    ⟨⟨by decide, by decide⟩, ⟨by decide, by decide⟩, ⟨by decide, by decide⟩, trivial⟩
    (by decide) (by decide)
  have version := moved.versions 1
  revert version
  decide

end FileSystem

end Ndnfs

import Ndnfs.Proof.Segmentation

namespace Ndnfs
open MachineInteger KeyedTable

/-- The announced versions and the rows of versions and segments are the same. -/
structure SamePublication (before after : Database) : Prop where
  currentVersion : ∀ path, (after.fileSystem.lookup path).map FileSystemRow.currentVersion =
    (before.fileSystem.lookup path).map FileSystemRow.currentVersion
  fileVersions : ∀ key, after.fileVersions.lookup key = before.fileVersions.lookup key
  fileSegments : ∀ key, after.fileSegments.lookup key = before.fileSegments.lookup key

theorem SamePublication.refl (db : Database) : SamePublication db db :=
  ⟨fun _ => rfl, fun _ => rfl, fun _ => rfl⟩

/-- The UPDATE of a release keeps the announced versions when it writes the old one. -/
theorem currentVersion_updateCurrentVersion_iff {db : Database} {path : Bytes}
    {row : FileSystemRow} (present : db.fileSystem.lookup path = some row) (version : Int) :
    (∀ other, ((db.updateCurrentVersion version path).fileSystem.lookup other).map
        FileSystemRow.currentVersion =
      (db.fileSystem.lookup other).map FileSystemRow.currentVersion) ↔
        row.currentVersion = version := by
  constructor
  · intro same
    have here := same path
    rw [Database.lookup_updateCurrentVersion, present, Option.map_some, Option.map_some,
      if_pos rfl] at here
    exact (Option.some.inj here).symm
  · intro same other
    rw [Database.lookup_updateCurrentVersion, Option.map_map]
    by_cases here : other = path
    · subst other
      rw [present, Option.map_some, Option.map_some, Function.comp_apply, if_pos rfl, same]
    · congr 1
      funext row
      rw [Function.comp_apply, if_neg here]

/-- The INSERT of a release keeps the versions when the new one is recorded already. -/
theorem fileVersions_insertFileVersion_iff (db : Database) (path : Bytes) (version : Int) :
    (∀ key, (db.insertFileVersion path version).fileVersions.lookup key =
      db.fileVersions.lookup key) ↔ db.fileVersions.Has (path, version) := by
  constructor
  · intro same
    rw [Has, ← same]
    exact (db.has_insertFileVersion path version (path, version)).mpr (.inl rfl)
  · intro present key
    rw [Database.insertFileVersion, if_pos present]

namespace FileSystem

variable (fs : FileSystem) (path : Bytes) (environment : Environment) (state : State)

/-- The rows of the path and the version are those of the segments of the content. -/
def HoldsExactly (db : Database) (version : Int) (content : Bytes) : Prop :=
  ∀ seg : Int, db.fileSegments.lookup (path, version, seg) =
    if 0 ≤ seg ∧ seg ≤ content.length / segSize then
      some ⟨fs.signedPortion path version seg (segmentBytes content seg.toNat)⟩
    else none

/-- A successful release leaves exactly the segments of the file when no other segment of the
version had a row before. -/
theorem holdsExactly_iff {flags : OpenFlags} {location : Location} {content : Bytes}
    (writing : flags.access ≠ .readOnly)
    (found : state.disk.lookupText (fs.fullPath path) = .ok (location, ⟨.regular, content⟩))
    (success : (exec (fs.ndnfsRelease path flags) environment state).1 = 0) :
    fs.HoldsExactly path (exec (fs.ndnfsRelease path flags) environment state).2.db
        (toInt environment.now) content ↔
      ∀ seg, state.db.fileSegments.Has (path, toInt environment.now, seg) →
        0 ≤ seg ∧ seg ≤ content.length / segSize := by
  have present : state.db.fileSystem.Has path := by
    by_contra absent
    rw [fs.exec_ndnfsRelease_absent path environment state flags absent] at success
    cases success
  rcases fs.exec_ndnfsRelease_writing path environment state present writing with
    ⟨error, run, -⟩ | ⟨place, file, count, result, opened, -, outcome, -, run⟩
  · rw [run] at success
    have negative := error.negative_lt
    omega
  · have same := Environment.outcome_ok opened
    rw [found] at same
    obtain ⟨rfl, rfl⟩ : location = place ∧ content = file := by simpa using same
    rw [run] at success ⊢
    cases result with
    | error error =>
        have negative := error.negative_lt
        exact absurd success (Int.ne_of_lt negative)
    | ok value =>
        obtain rfl : count = content.length / segSize + 1 := outcome
        have rows (seg : Int) := fs.lookup_signSegments path (toInt environment.now) content
          (releaseRows path environment.now state.db) (content.length / segSize + 1) path
          (toInt environment.now) seg
        have earlier : (releaseRows path environment.now state.db).fileSegments =
            state.db.fileSegments := by simp [releaseRows]
        have inside (seg : Int) : 0 ≤ seg ∧ seg < ((content.length / segSize + 1 : Nat) : Int) ↔
            0 ≤ seg ∧ seg ≤ content.length / segSize := by omega
        simp only [true_and, earlier, inside] at rows
        simp only [HoldsExactly, rows]
        constructor
        · intro holds seg
          have row := holds seg
          by_cases segment : 0 ≤ seg ∧ seg ≤ content.length / segSize
          · exact fun _ => segment
          · rw [if_neg segment, if_neg segment] at row
            exact fun present => absurd row present
        · intro outside seg
          by_cases segment : 0 ≤ seg ∧ seg ≤ content.length / segSize
          · rw [if_pos segment, if_pos segment]
          · rw [if_neg segment, if_neg segment]
            exact not_has_iff.mp fun present => segment (outside seg present)

/-- Version 2 has rows for three segments, and the file has two segments now. -/
def shortened : State := { Reference.filledState (List.replicate 9000 120) with
  db := Reference.fileSystem.signSegments (ascii "/a") 2 (List.replicate 20000 120)
    (releaseRows (ascii "/a") 2 Reference.createdState.db) 3 }

theorem holdsExactly_iff_shortened :
    Reference.fileSystem.HoldsExactly (ascii "/a")
        (exec (Reference.fileSystem.ndnfsRelease (ascii "/a") Reference.writingFlags)
          (Reference.calm 2) shortened).2.db 2 (List.replicate 9000 120) ↔
      ∀ seg, shortened.db.fileSegments.Has (ascii "/a", 2, seg) →
        0 ≤ seg ∧ seg ≤ ((List.replicate 9000 120 : Bytes).length / segSize : Nat) := by
  have found (content : Bytes) : (Reference.filledState content).disk.lookupText
      (Reference.fileSystem.fullPath (ascii "/a")) = .ok ([ascii "a"], ⟨.regular, content⟩) := rfl
  have present : shortened.db.fileSystem.Has (ascii "/a") := by
    rw [shortened, fileSystem_signSegments]
    decide
  have success := congrArg Prod.fst (Reference.fileSystem.release_succeeds (ascii "/a") present
    (by decide : Reference.writingFlags.access ≠ .readOnly) (found (List.replicate 9000 120))
    (by rw [List.length_replicate]; decide) (rfl : (Reference.calm 2).faults = []))
  exact Reference.fileSystem.holdsExactly_iff (ascii "/a") (Reference.calm 2) shortened (by decide)
    (found _) success

/-- A second release in the same second keeps a segment of the longer file before it. -/
theorem holdsExactly_fails : ¬ ∀ (fs : FileSystem) (path : Bytes) (environment : Environment)
    (state : State) (flags : OpenFlags) (location : Location) (content : Bytes),
      flags.access ≠ .readOnly → content.length < 2 ^ 31 →
      state.disk.lookupText (fs.fullPath path) = .ok (location, ⟨.regular, content⟩) →
      (exec (fs.ndnfsRelease path flags) environment state).1 = 0 →
        fs.HoldsExactly path (exec (fs.ndnfsRelease path flags) environment state).2.db
          (MachineInteger.toInt environment.now) content := by
  intro claim
  have rows := claim Reference.fileSystem (ascii "/a") (Reference.calm 2)
    (exec (Reference.fileSystem.signSegment (ascii "/a") 2 1 (ascii "x")) (Reference.calm 2)
      Reference.createdState).2
    Reference.writingFlags [ascii "a"] [] (by decide) (by decide) (by decide) (by decide) 1
  revert rows
  decide

/-- The release finds everything that it writes in the tables already. -/
structure AlreadyPublished : Prop where
  announced : ∀ row ∈ state.db.fileSystem.lookup path,
    row.currentVersion = toInt environment.now
  recorded : state.db.fileVersions.Has (path, toInt environment.now)
  signed : ∀ location content,
    environment.outcome (state.disk.lookupText (fs.fullPath path)) =
      .ok (location, ⟨.regular, content⟩) →
    ∀ seg, ReadsSegment content environment.next.faults seg →
      state.db.fileSegments.lookup (path, toInt environment.now, (seg : Int)) =
        some ⟨fs.signedPortion path (toInt environment.now) seg (segmentBytes content seg)⟩

/-- The first statements and the signatures of a release change nothing exactly when the tables
hold all of it already. -/
theorem samePublication_signSegments_iff (version : Int) (content : Bytes) (db : Database)
    {row : FileSystemRow} (present : db.fileSystem.lookup path = some row) (count : Nat) :
    SamePublication db (fs.signSegments path version content
        ((db.updateCurrentVersion version path).insertFileVersion path version) count) ↔
      row.currentVersion = version ∧ db.fileVersions.Has (path, version) ∧
        ∀ seg < count, db.fileSegments.lookup (path, version, (seg : Int)) =
          some ⟨fs.signedPortion path version seg (segmentBytes content seg)⟩ := by
  have announced := currentVersion_updateCurrentVersion_iff present version
  have recorded := fileVersions_insertFileVersion_iff (db.updateCurrentVersion version path) path
    version
  rw [Database.fileVersions_updateCurrentVersion] at recorded
  constructor
  · rintro ⟨currentVersion, fileVersions, fileSegments⟩
    rw [fileSystem_signSegments, Database.fileSystem_insertFileVersion] at currentVersion
    rw [fileVersions_signSegments] at fileVersions
    refine ⟨announced.mp currentVersion, recorded.mp fileVersions, fun seg before => ?_⟩
    rw [← fileSegments, lookup_signSegments, if_pos ⟨rfl, rfl, by omega, by omega⟩]
    rw [Int.toNat_natCast]
  · rintro ⟨current, known, signed⟩
    refine ⟨?_, ?_, ?_⟩
    · rw [fileSystem_signSegments, Database.fileSystem_insertFileVersion]
      exact announced.mpr current
    · rw [fileVersions_signSegments]
      exact recorded.mpr known
    · rintro ⟨file, number, seg⟩
      rw [lookup_signSegments, Database.fileSegments_insertFileVersion,
        Database.fileSegments_updateCurrentVersion]
      split
      · rename_i segment
        obtain ⟨rfl, rfl, nonneg, before⟩ := segment
        have row := signed seg.toNat (by omega)
        rw [Int.toNat_of_nonneg nonneg] at row
        exact row.symm
      · rfl

/-- A failed release publishes nothing exactly when the path has no row or the tables held
everything that it wrote before the failure. -/
theorem samePublication_iff (flags : OpenFlags)
    (failed : (exec (fs.ndnfsRelease path flags) environment state).1 ≠ 0) :
    SamePublication state.db (exec (fs.ndnfsRelease path flags) environment state).2.db ↔
      ¬ state.db.fileSystem.Has path ∨ fs.AlreadyPublished path environment state := by
  by_cases present : state.db.fileSystem.Has path
  · have writing : flags.access ≠ .readOnly := by
      intro reading
      rw [fs.exec_ndnfsRelease_reading path environment state present reading] at failed
      exact failed rfl
    obtain ⟨row, known⟩ := has_iff.mp present
    have published (content : Bytes) (count : Nat) := fs.samePublication_signSegments_iff path
      (toInt environment.now) content state.db known count
    have announced : (∀ other ∈ state.db.fileSystem.lookup path,
        other.currentVersion = toInt environment.now) ↔
          row.currentVersion = toInt environment.now := by simp [known]
    rw [or_iff_right (not_not.mpr present)]
    rcases fs.exec_ndnfsRelease_writing path environment state present writing with
      ⟨error, run, unopened⟩ | ⟨location, content, count, result, opened, -, -, reads, run⟩
    · have rows := published [] 0
      rw [run]
      refine rows.trans ⟨?_, ?_⟩
      · rintro ⟨current, recorded, -⟩
        exact ⟨announced.mpr current, recorded,
          fun location content opened => absurd opened (unopened location content)⟩
      · intro already
        exact ⟨announced.mp already.announced, already.recorded,
          fun seg before => absurd before (Nat.not_lt_zero seg)⟩
    · have rows := published content count
      rw [run]
      refine rows.trans ⟨?_, ?_⟩
      · rintro ⟨current, recorded, signed⟩
        refine ⟨announced.mpr current, recorded, fun place file same seg read => ?_⟩
        rw [opened] at same
        obtain ⟨rfl, rfl⟩ : location = place ∧ content = file := by simpa using same
        exact signed seg ((reads seg).mpr read)
      · intro already
        exact ⟨announced.mp already.announced, already.recorded,
          fun seg before => already.signed location content opened seg ((reads seg).mp before)⟩
  · rw [fs.exec_ndnfsRelease_absent path environment state flags present]
    exact iff_of_true (.refl state.db) (.inl present)

/-- The file cannot be opened for reading after the version was switched. -/
def unreadable : Environment := { Reference.calm 2 with faults := [some .EACCES] }

theorem samePublication_iff_unreadable :
    SamePublication Reference.createdState.db
        (exec (Reference.fileSystem.ndnfsRelease (ascii "/a") Reference.writingFlags) unreadable
          Reference.createdState).2.db ↔
      ¬ Reference.createdState.db.fileSystem.Has (ascii "/a") ∨
        Reference.fileSystem.AlreadyPublished (ascii "/a") unreadable Reference.createdState :=
  Reference.fileSystem.samePublication_iff (ascii "/a") unreadable Reference.createdState
    Reference.writingFlags (by decide)

/-- The new version is announced although the release fails. -/
theorem samePublication_fails : ¬ ∀ (fs : FileSystem) (path : Bytes) (environment : Environment)
    (state : State) (flags : OpenFlags),
      (exec (fs.ndnfsRelease path flags) environment state).1 ≠ 0 →
        SamePublication state.db (exec (fs.ndnfsRelease path flags) environment state).2.db := by
  intro claim
  have same := claim Reference.fileSystem (ascii "/a") unreadable Reference.createdState
    Reference.writingFlags (by decide)
  have announced := same.currentVersion (ascii "/a")
  revert announced
  decide

end FileSystem

end Ndnfs

import Ndnfs.System.Database

namespace Ndnfs
open KeyedTable

section Move

variable {A Row : Type} [DecidableEq A] {source target : Bytes}

theorem movePath_source : movePath source target source = target := if_pos rfl

theorem movePath_other {path : Bytes} (other : path ≠ source) :
    movePath source target path = path := if_neg other

theorem movePath_same (path : Bytes) : movePath source source path = path := by
  unfold movePath
  split
  · rename_i same
    exact same.symm
  · rfl

omit [DecidableEq A] in
theorem moveKey_same (key : Bytes × A) : moveKey source source key = key := by
  rw [moveKey, movePath_same]

theorem movePath_eq_self_iff (different : source ≠ target) (path : Bytes) :
    movePath source target path = path ↔ path ≠ source := by
  constructor
  · rintro rests rfl
    rw [movePath_source] at rests
    exact different rests.symm
  · exact movePath_other

omit [DecidableEq A] in
theorem moveKey_eq_self_iff (different : source ≠ target) (key : Bytes × A) :
    moveKey source target key = key ↔ key.1 ≠ source := by
  rw [← movePath_eq_self_iff different, moveKey, Prod.ext_iff]
  exact and_iff_left rfl

theorem clash_path_iff (different : source ≠ target) (table : KeyedTable Bytes Row) :
    table.Clash (movePath source target) ↔ table.Has source ∧ table.Has target := by
  constructor
  · rintro ⟨path, present, moves, occupied⟩
    by_cases here : path = source
    · subst path
      rw [movePath_source] at occupied
      exact ⟨present, occupied⟩
    · exact absurd (movePath_other here) moves
  · rintro ⟨present, occupied⟩
    exact ⟨source, present, by rw [movePath_source]; exact different.symm,
      by rw [movePath_source]; exact occupied⟩

theorem clash_key_iff (different : source ≠ target) (table : KeyedTable (Bytes × A) Row) :
    table.Clash (moveKey source target) ↔
      ∃ value, table.Has (source, value) ∧ table.Has (target, value) := by
  constructor
  · rintro ⟨⟨path, value⟩, present, moves, occupied⟩
    by_cases here : path = source
    · subst path
      rw [moveKey, movePath_source] at occupied
      exact ⟨value, present, occupied⟩
    · exact absurd (by rw [moveKey, movePath_other here]) moves
  · rintro ⟨value, present, occupied⟩
    refine ⟨(source, value), present, ?_, by rw [moveKey, movePath_source]; exact occupied⟩
    rw [moveKey, movePath_source]
    intro same
    exact different (Prod.mk.inj same).1.symm

/-- Without a clash the target gets the rows of the source. -/
theorem lookup_slideTo_path (different : source ≠ target) {table : KeyedTable Bytes Row}
    (free : ¬ (table.Has source ∧ table.Has target)) (path : Bytes) :
    (table.slideTo (movePath source target)).lookup path =
      if path = source then none
      else if path = target then (table.lookup source).or (table.lookup target)
      else table.lookup path := by
  rw [lookup_slideTo_back (movePath_slide source target)
    (fun path => if path = target then some source else none) ?_
    (mt (clash_path_iff different table).mp free)]
  · simp only [movePath_eq_self_iff different]
    by_cases here : path = source
    · simp [here]
    · by_cases there : path = target
      · subst path
        simp [here]
      · simp [here, there]
  · intro old path
    unfold movePath
    by_cases there : path = target
    · subst path
      by_cases here : old = source
      · simp [here, different]
      · simp +contextual [here, Ne.symm here]
    · by_cases here : old = source <;> simp [here, there, Ne.symm there]

theorem lookup_slideTo_key (different : source ≠ target) {table : KeyedTable (Bytes × A) Row}
    (free : ¬ ∃ value, table.Has (source, value) ∧ table.Has (target, value)) (path : Bytes)
    (value : A) :
    (table.slideTo (moveKey source target)).lookup (path, value) =
      if path = source then none
      else if path = target then (table.lookup (source, value)).or (table.lookup (target, value))
      else table.lookup (path, value) := by
  rw [lookup_slideTo_back (moveKey_slide source target)
    (fun key => if key.1 = target then some (source, key.2) else none) ?_
    (mt (clash_key_iff different table).mp free)]
  · simp only [moveKey_eq_self_iff different]
    by_cases here : path = source
    · simp [here]
    · by_cases there : path = target
      · subst path
        simp [here]
      · simp [here, there]
  · rintro ⟨old, value⟩ ⟨path, value'⟩
    unfold moveKey movePath
    by_cases there : path = target
    · subst path
      by_cases here : old = source
      · simp [here, different, eq_comm]
      · simp +contextual [here, Ne.symm here]
    · by_cases here : old = source <;> simp [here, there, Ne.symm there]

/-- The table of files stays when the source has no row or the target has one. -/
theorem slideTo_path_eq_iff (different : source ≠ target) (table : KeyedTable Bytes Row) :
    table.slideTo (movePath source target) = table ↔ ¬ (table.Has source ∧ ¬ table.Has target) := by
  rw [slideTo_eq_self_iff (movePath_slide source target), clash_path_iff different]
  simp only [movePath_eq_self_iff different]
  constructor
  · rintro (absent | ⟨-, occupied⟩) ⟨present, free⟩
    · exact absent source present rfl
    · exact free occupied
  · intro stays
    by_cases present : table.Has source
    · exact .inr ⟨present, not_not.mp fun free => stays ⟨present, free⟩⟩
    · exact .inl fun path there same => present (same ▸ there)

theorem slideTo_key_eq_iff (different : source ≠ target) (table : KeyedTable (Bytes × A) Row) :
    table.slideTo (moveKey source target) = table ↔
      (∀ value, ¬ table.Has (source, value)) ∨
        ∃ value, table.Has (source, value) ∧ table.Has (target, value) := by
  rw [slideTo_eq_self_iff (moveKey_slide source target), clash_key_iff different]
  simp only [moveKey_eq_self_iff different, Prod.forall]
  apply or_congr_left
  constructor
  · intro absent value present
    exact absent source value present rfl
  · rintro absent path value present rfl
    exact absent value present

end Move

namespace Database

variable (db : Database) (path : Bytes) (version : Int)

@[simp] theorem fileSystem_insertFileVersion :
    (db.insertFileVersion path version).fileSystem = db.fileSystem := by
  unfold insertFileVersion
  split <;> rfl

@[simp] theorem fileSegments_insertFileVersion :
    (db.insertFileVersion path version).fileSegments = db.fileSegments := by
  unfold insertFileVersion
  split <;> rfl

theorem has_insertFileVersion (key : Bytes × Int) :
    (db.insertFileVersion path version).fileVersions.Has key ↔
      key = (path, version) ∨ db.fileVersions.Has key := by
  unfold insertFileVersion
  split
  · rename_i present
    constructor
    · exact .inr
    · rintro (rfl | there)
      · exact present
      · exact there
  · simp only [Has, lookup_insert_eq]
    split <;> simp [*]

@[simp] theorem fileVersions_insertFileSystem (row : FileSystemRow) :
    (db.insertFileSystem path row).fileVersions = db.fileVersions := by
  unfold insertFileSystem
  split <;> rfl

@[simp] theorem fileSegments_insertFileSystem (row : FileSystemRow) :
    (db.insertFileSystem path row).fileSegments = db.fileSegments := by
  unfold insertFileSystem
  split <;> rfl

theorem lookup_insertFileSystem {db : Database} {path : Bytes} (absent : ¬ db.fileSystem.Has path)
    (row : FileSystemRow) (other : Bytes) :
    (db.insertFileSystem path row).fileSystem.lookup other =
      if other = path then some row else db.fileSystem.lookup other := by
  rw [insertFileSystem, if_neg absent]
  exact lookup_insert_eq _ _ _ _

@[simp] theorem fileVersions_updateCurrentVersion :
    (db.updateCurrentVersion version path).fileVersions = db.fileVersions := by
  unfold updateCurrentVersion
  split <;> rfl

@[simp] theorem fileSegments_updateCurrentVersion :
    (db.updateCurrentVersion version path).fileSegments = db.fileSegments := by
  unfold updateCurrentVersion
  split <;> rfl

theorem lookup_updateCurrentVersion (other : Bytes) :
    (db.updateCurrentVersion version path).fileSystem.lookup other =
      (db.fileSystem.lookup other).map fun row =>
        if other = path then { row with currentVersion := version } else row := by
  unfold updateCurrentVersion
  split
  · rename_i row present
    rw [lookup_insert_eq]
    split
    · subst other
      rw [present]
      rfl
    · simp
  · rename_i absent
    split
    · subst other
      rw [absent]
      rfl
    · simp

theorem has_updateCurrentVersion (other : Bytes) :
    (db.updateCurrentVersion version path).fileSystem.Has other ↔ db.fileSystem.Has other := by
  simp only [Has, lookup_updateCurrentVersion, ne_eq, Option.map_eq_none_iff]

@[simp] theorem fileVersions_deleteFileSystem :
    (db.deleteFileSystem path).fileVersions = db.fileVersions := rfl

@[simp] theorem fileSegments_deleteFileSystem :
    (db.deleteFileSystem path).fileSegments = db.fileSegments := rfl

theorem lookup_deleteFileSystem (other : Bytes) :
    (db.deleteFileSystem path).fileSystem.lookup other =
      if other = path then none else db.fileSystem.lookup other :=
  lookup_erase_eq _ _ _

@[simp] theorem fileSystem_replaceFileSegment (segment : Int) (signature : SignatureBits) :
    (db.replaceFileSegment path version segment signature).fileSystem = db.fileSystem := rfl

@[simp] theorem fileVersions_replaceFileSegment (segment : Int) (signature : SignatureBits) :
    (db.replaceFileSegment path version segment signature).fileVersions = db.fileVersions := rfl

theorem lookup_replaceFileSegment (segment : Int) (signature : SignatureBits)
    (key : Bytes × Int × Int) :
    (db.replaceFileSegment path version segment signature).fileSegments.lookup key =
      if key = (path, version, segment) then some signature else db.fileSegments.lookup key :=
  lookup_insert_eq _ _ _ _

@[simp] theorem fileSystem_renameAll (target : Bytes) :
    (db.renameAll path target).fileSystem = db.fileSystem.slideTo (movePath path target) := rfl

@[simp] theorem fileVersions_renameAll (target : Bytes) :
    (db.renameAll path target).fileVersions = db.fileVersions.slideTo (moveKey path target) := rfl

@[simp] theorem fileSegments_renameAll (target : Bytes) :
    (db.renameAll path target).fileSegments = db.fileSegments.slideTo (moveKey path target) := rfl

/-- A rename to the same name changes no row. -/
@[simp] theorem renameAll_same : db.renameAll path path = db := by
  simp only [renameAll, renameFileSystem, renameFileVersions, renameFileSegments,
    slideTo_of_fixed fun key _ => movePath_same key, slideTo_of_fixed fun key _ => moveKey_same key]

/-- Some version is recorded for both paths, so that the versions cannot move. -/
def SharedVersion (source target : Bytes) : Prop :=
  ∃ version, db.fileVersions.Has (source, version) ∧ db.fileVersions.Has (target, version)

/-- Some segment has a row for both paths, so that the segments cannot move. -/
def SharedSegment (source target : Bytes) : Prop :=
  ∃ segment, db.fileSegments.Has (source, segment) ∧ db.fileSegments.Has (target, segment)

section Rename

variable {source target : Bytes}

theorem lookup_renameAll_other {path : Bytes} (here : path ≠ source) (there : path ≠ target) :
    (db.renameAll source target).fileSystem.lookup path = db.fileSystem.lookup path := by
  by_cases same : source = target
  · subst target
    rw [renameAll_same]
  · by_cases clash : db.fileSystem.Has source ∧ db.fileSystem.Has target
    · rw [fileSystem_renameAll, slideTo_of_clash (movePath_slide _ _) ((clash_path_iff same _).mpr clash)]
    · rw [fileSystem_renameAll, lookup_slideTo_path same clash, if_neg here, if_neg there]

theorem has_renameAll_other {path : Bytes} (here : path ≠ source) (there : path ≠ target)
    (version : Int) : (db.renameAll source target).fileVersions.Has (path, version) ↔
      db.fileVersions.Has (path, version) := by
  by_cases same : source = target
  · subst target
    rw [renameAll_same]
  · by_cases clash : db.SharedVersion source target
    · rw [fileVersions_renameAll, slideTo_of_clash (moveKey_slide _ _) ((clash_key_iff same _).mpr clash)]
    · rw [fileVersions_renameAll, Has, lookup_slideTo_key same clash, if_neg here, if_neg there, Has]

variable (different : source ≠ target)

include different

/-- The row of the source stays only where the target already has one. -/
theorem lookup_renameAll_source : (db.renameAll source target).fileSystem.lookup source =
    if db.fileSystem.Has target then db.fileSystem.lookup source else none := by
  by_cases clash : db.fileSystem.Has source ∧ db.fileSystem.Has target
  · rw [fileSystem_renameAll, slideTo_of_clash (movePath_slide _ _)
      ((clash_path_iff different _).mpr clash), if_pos clash.2]
  · rw [fileSystem_renameAll, lookup_slideTo_path different clash, if_pos rfl]
    split
    · rename_i occupied
      exact (not_has_iff.mp fun present => clash ⟨present, occupied⟩).symm
    · rfl

theorem lookup_renameAll_target : (db.renameAll source target).fileSystem.lookup target =
    (db.fileSystem.lookup target).or (db.fileSystem.lookup source) := by
  by_cases clash : db.fileSystem.Has source ∧ db.fileSystem.Has target
  · rw [fileSystem_renameAll, slideTo_of_clash (movePath_slide _ _)
      ((clash_path_iff different _).mpr clash)]
    obtain ⟨row, present⟩ := has_iff.mp clash.2
    rw [present, Option.some_or]
  · rw [fileSystem_renameAll, lookup_slideTo_path different clash, if_neg different.symm, if_pos rfl]
    by_cases present : db.fileSystem.Has source
    · rw [not_has_iff.mp fun occupied => clash ⟨present, occupied⟩, Option.none_or, Option.or_none]
    · rw [not_has_iff.mp present, Option.none_or, Option.or_none]

theorem has_renameAll_fileSystem (path : Bytes) :
    (db.renameAll source target).fileSystem.Has path ↔
      if path = source then db.fileSystem.Has source ∧ db.fileSystem.Has target
      else if path = target then db.fileSystem.Has target ∨ db.fileSystem.Has source
      else db.fileSystem.Has path := by
  by_cases here : path = source
  · subst path
    rw [if_pos rfl, Has, lookup_renameAll_source db different]
    split
    · rename_i occupied
      exact (and_iff_left occupied).symm
    · rename_i free
      simp [free]
  · by_cases there : path = target
    · subst path
      rw [if_neg here, if_pos rfl, Has, lookup_renameAll_target db different, Ne,
        Option.or_eq_none_iff]
      exact not_and_or
    · rw [if_neg here, if_neg there, Has, lookup_renameAll_other db here there, Has]

/-- The versions of the source stay only where one of them is also a version of the target. -/
theorem has_renameAll_source (version : Int) :
    (db.renameAll source target).fileVersions.Has (source, version) ↔
      db.SharedVersion source target ∧ db.fileVersions.Has (source, version) := by
  by_cases clash : db.SharedVersion source target
  · rw [fileVersions_renameAll, slideTo_of_clash (moveKey_slide _ _)
      ((clash_key_iff different _).mpr clash)]
    exact (and_iff_right clash).symm
  · rw [fileVersions_renameAll, Has, lookup_slideTo_key different clash, if_pos rfl]
    simp [clash]

theorem has_renameAll_target (version : Int) :
    (db.renameAll source target).fileVersions.Has (target, version) ↔
      db.fileVersions.Has (target, version) ∨
        ¬ db.SharedVersion source target ∧ db.fileVersions.Has (source, version) := by
  by_cases clash : db.SharedVersion source target
  · rw [fileVersions_renameAll, slideTo_of_clash (moveKey_slide _ _)
      ((clash_key_iff different _).mpr clash)]
    simp [clash]
  · rw [fileVersions_renameAll, Has, lookup_slideTo_key different clash, if_neg different.symm,
      if_pos rfl]
    simp only [and_iff_right clash]
    simp only [Has, ne_eq, Option.or_eq_none_iff]
    exact Classical.not_and_iff_not_or_not.trans or_comm

theorem segments_renameAll_of_shared (clash : db.SharedSegment source target) :
    (db.renameAll source target).fileSegments = db.fileSegments := by
  rw [fileSegments_renameAll]
  exact slideTo_of_clash (moveKey_slide _ _) ((clash_key_iff different _).mpr clash)

/-- Without a shared segment the target gets the segments of the source. -/
theorem lookup_segments_renameAll (free : ¬ db.SharedSegment source target) (path : Bytes)
    (segment : Int × Int) :
    (db.renameAll source target).fileSegments.lookup (path, segment) =
      if path = source then none
      else if path = target then
        (db.fileSegments.lookup (source, segment)).or (db.fileSegments.lookup (target, segment))
      else db.fileSegments.lookup (path, segment) := by
  rw [fileSegments_renameAll]
  exact lookup_slideTo_key different free path segment

/-- A row of a segment stays unless it moves away from the source. -/
theorem has_segment_renameAll {path : Bytes} {segment : Int × Int}
    (present : db.fileSegments.Has (path, segment))
    (stays : path = source → db.SharedSegment source target) :
    (db.renameAll source target).fileSegments.Has (path, segment) := by
  by_cases shared : db.SharedSegment source target
  · rw [db.segments_renameAll_of_shared different shared]
    exact present
  · rw [Has, db.lookup_segments_renameAll different shared, if_neg (mt stays shared)]
    split
    · rename_i there
      rw [there] at present
      intro absent
      exact present (Option.or_eq_none_iff.mp absent).2
    · exact present

/-- A row of a segment was there before the rename or comes from the source. -/
theorem segment_of_renameAll {path : Bytes} {segment : Int × Int} {signature : SignatureBits}
    (found : (db.renameAll source target).fileSegments.lookup (path, segment) = some signature) :
    db.fileSegments.lookup (path, segment) = some signature ∨
      ¬ db.SharedSegment source target ∧ path = target ∧
        db.fileSegments.lookup (source, segment) = some signature := by
  by_cases shared : db.SharedSegment source target
  · rw [db.segments_renameAll_of_shared different shared] at found
    exact .inl found
  · rw [db.lookup_segments_renameAll different shared] at found
    split at found
    · cases found
    · split at found
      · rename_i there
        rcases Option.or_eq_some_iff.mp found with moved | ⟨-, stays⟩
        · exact .inr ⟨shared, there, moved⟩
        · exact .inl (there ▸ stays)
      · exact .inl found

end Rename

/-- The segments of another path stay where they are. -/
theorem lookup_segments_renameAll_other {source target path : Bytes} (here : path ≠ source)
    (there : path ≠ target) (segment : Int × Int) :
    (db.renameAll source target).fileSegments.lookup (path, segment) =
      db.fileSegments.lookup (path, segment) := by
  by_cases same : source = target
  · subst target
    rw [renameAll_same]
  · by_cases shared : db.SharedSegment source target
    · rw [db.segments_renameAll_of_shared same shared]
    · rw [db.lookup_segments_renameAll same shared, if_neg here, if_neg there]

end Database

end Ndnfs

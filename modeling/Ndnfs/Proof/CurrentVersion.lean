import Ndnfs.Fs.Operation
import Ndnfs.System.Tables

namespace Ndnfs
open MachineInteger KeyedTable

/-- The current version of a path is recorded and is the newest. -/
def CurrentAt (db : Database) (path : Bytes) : Prop :=
  ∀ row, db.fileSystem.lookup path = some row →
    db.fileVersions.Has (path, row.currentVersion) ∧
      ∀ version, db.fileVersions.Has (path, version) → version ≤ row.currentVersion

def Current (db : Database) : Prop := ∀ path, CurrentAt db path

/-- No version lies in the future. -/
def VersionsPast (db : Database) (clock : Int) : Prop :=
  ∀ path version, db.fileVersions.Has (path, version) → version ≤ clock

/-- This condition on the rows of two different paths keeps the current versions. -/
def RenameKeeps (db : Database) (source target : Bytes) : Prop :=
  match db.fileSystem.lookup source, db.fileSystem.lookup target with
  | none, none => True
  | some row, none =>
      (∀ version, db.fileVersions.Has (target, version) → version ≤ row.currentVersion) ∧
        (db.SharedVersion source target → db.fileVersions.Has (target, row.currentVersion))
  | none, some row => db.SharedVersion source target ∨
      ∀ version, db.fileVersions.Has (source, version) → version ≤ row.currentVersion
  | some _, some _ => db.SharedVersion source target

theorem currentAt_of_same {db db' : Database} {path : Bytes} (current : CurrentAt db path)
    (row : db'.fileSystem.lookup path = db.fileSystem.lookup path)
    (versions : ∀ version, db'.fileVersions.Has (path, version) ↔
      db.fileVersions.Has (path, version)) : CurrentAt db' path := by
  intro here present
  rw [row] at present
  simp only [versions]
  exact current here present

/-- A new file starts with one version. -/
theorem current_mknodRows {db : Database} {path : Bytes} {mode : Nat} {now : Int}
    (range : IsInt now) (past : VersionsPast db now) (absent : ¬ db.fileSystem.Has path)
    (current : Current db) : Current (FileSystem.mknodRows path mode now db) := by
  intro other row present
  have absent' : ¬ (db.insertFileVersion path (toInt now)).fileSystem.Has path := by
    rwa [Database.fileSystem_insertFileVersion]
  rw [FileSystem.mknodRows, Database.lookup_insertFileSystem absent',
    Database.fileSystem_insertFileVersion] at present
  simp only [FileSystem.mknodRows, Database.fileVersions_insertFileSystem,
    Database.has_insertFileVersion, toInt_of_isInt range, Prod.mk.injEq]
  by_cases same : other = path
  · rw [if_pos same] at present
    obtain rfl := Option.some.inj present
    subst other
    simp only [toInt_of_isInt range, and_self, true_or, true_and]
    rintro version (rfl | recorded)
    · exact Int.le_refl _
    · exact past path version recorded
  · rw [if_neg same] at present
    simp only [same, false_and, false_or]
    exact current other row present

theorem current_releaseRows {db : Database} (path : Bytes) {now : Int} (range : IsInt now)
    (past : VersionsPast db now) (current : Current db) :
    Current (FileSystem.releaseRows path now db) := by
  intro other row present
  rw [FileSystem.releaseRows, Database.fileSystem_insertFileVersion,
    Database.lookup_updateCurrentVersion] at present
  simp only [FileSystem.releaseRows, Database.has_insertFileVersion,
    Database.fileVersions_updateCurrentVersion, toInt_of_isInt range, Prod.mk.injEq]
  rw [toInt_of_isInt range] at present
  obtain ⟨old, there, rfl⟩ := Option.map_eq_some_iff.mp present
  by_cases same : other = path
  · subst other
    simp only [if_true, and_self, true_or, true_and]
    rintro version (rfl | recorded)
    · exact Int.le_refl _
    · exact past path version recorded
  · simp only [same, if_false, false_and, false_or]
    exact current other old there

theorem current_deleteFileSystem {db : Database} {path : Bytes} (current : Current db) :
    Current (db.deleteFileSystem path) := by
  intro other row present
  rw [Database.lookup_deleteFileSystem] at present
  split at present
  · cases present
  · exact current other row present

/-- A rename touches no other path. -/
theorem current_renameAll_split {db : Database} {source target : Bytes} (current : Current db) :
    Current (db.renameAll source target) ↔
      CurrentAt (db.renameAll source target) source ∧
        CurrentAt (db.renameAll source target) target := by
  constructor
  · intro all
    exact ⟨all source, all target⟩
  · rintro ⟨first, second⟩ path
    by_cases here : path = source
    · exact here ▸ first
    · by_cases there : path = target
      · exact there ▸ second
      · apply currentAt_of_same (current path)
        · exact Database.lookup_renameAll_other db here there
        · intro version
          exact Database.has_renameAll_other db here there version

/-- A rename keeps the current versions exactly under this condition on the two paths. -/
theorem current_renameAll_iff {db : Database} {source target : Bytes}
    (different : source ≠ target) (current : Current db) :
    Current (db.renameAll source target) ↔ RenameKeeps db source target := by
  rw [current_renameAll_split current]
  have old_source := current source
  have old_target := current target
  unfold CurrentAt at old_source old_target
  simp only [CurrentAt, Database.lookup_renameAll_source db different,
    Database.lookup_renameAll_target db different, Database.has_renameAll_source db different,
    Database.has_renameAll_target db different]
  unfold RenameKeeps
  cases first : db.fileSystem.lookup source with
  | none =>
      cases second : db.fileSystem.lookup target with
      | none => simp
      | some row =>
          have here := old_target row second
          have occupied : db.fileSystem.Has target := has_iff.mpr ⟨row, second⟩
          simp only [if_pos occupied, Option.or_none, reduceCtorEq, false_imp_iff, implies_true,
            true_and, Option.some.injEq, forall_eq']
          by_cases shared : db.SharedVersion source target
          · simpa [shared] using here
          · simpa [shared, here.1, or_imp, forall_and] using fun _ => here.2
  | some row =>
      have here := old_source row first
      cases second : db.fileSystem.lookup target with
      | none =>
          have free : ¬ db.fileSystem.Has target := not_has_iff.mpr second
          simp only [if_neg free, Option.none_or, reduceCtorEq, false_imp_iff, implies_true,
            true_and, Option.some.injEq, forall_eq']
          by_cases shared : db.SharedVersion source target
          · simp [shared, and_comm]
          · simpa [shared, here.1, or_imp, forall_and] using fun _ => here.2
      | some other =>
          have there := old_target other second
          have occupied : db.fileSystem.Has target := has_iff.mpr ⟨other, second⟩
          simp only [if_pos occupied, Option.some_or, Option.some.injEq, forall_eq']
          by_cases shared : db.SharedVersion source target
          · simp only [shared, true_and, not_true_eq_false, false_and, or_false, iff_true]
            exact ⟨here, there⟩
          · simp [shared]

/-- Only a rename to another path can break the current versions. -/
def KeepsCurrent (history : History) (request : Request) : Prop :=
  match request.operation with
  | .rename source target => source = target ∨
      RenameKeeps history.state.db source.text target.text
  | _ => True

/-- These are the runs of the four operations with a good clock. -/
def VersionRequest (history : History) (request : Request) : Prop :=
  ChangesVersions request.operation ∧ ClockAdvances history request

namespace FileSystem

variable (fs : FileSystem)

/-- No operation records a version of the future. -/
theorem versionsPast_step {history : History} {request : Request}
    (claimed : VersionRequest history request) (past : VersionsPast history.state.db history.clock) :
    VersionsPast (fs.step history request).state.db (fs.step history request).clock := by
  obtain ⟨changes, advances, range⟩ := claimed
  have now : (fs.step history request).clock = request.environment.now := rfl
  have later : VersionsPast history.state.db request.environment.now :=
    fun path version recorded => Int.le_trans (past path version recorded) advances
  rw [now]
  obtain ⟨operation, environment⟩ := request
  cases operation with
  | mknod path mode =>
      simp only [step, Operation.program, db_ndnfsMknod]
      split
      · exact later
      · intro other version recorded
        simp only [mknodRows, Database.fileVersions_insertFileSystem, Database.has_insertFileVersion,
          toInt_of_isInt range, Prod.mk.injEq] at recorded
        rcases recorded with ⟨-, rfl⟩ | recorded
        · exact Int.le_refl _
        · exact later other version recorded
  | release path access =>
      intro other version recorded
      rcases fs.state_ndnfsRelease path.text environment history.state { access } with
        same | ⟨content, count, signed⟩
      · simp only [step, Operation.program, same] at recorded
        exact later other version recorded
      · simp only [step, Operation.program, signed, fileVersions_signSegments, releaseRows,
          Database.has_insertFileVersion, Database.fileVersions_updateCurrentVersion,
          toInt_of_isInt range, Prod.mk.injEq] at recorded
        rcases recorded with ⟨-, rfl⟩ | recorded
        · exact Int.le_refl _
        · exact later other version recorded
  | unlink path =>
      simp only [step, Operation.program, db_ndnfsUnlink]
      exact later
  | rename source target =>
      simp only [step, Operation.program, db_ndnfsRename]
      intro other version recorded
      by_cases same : source.text = target.text
      · rw [same, Database.renameAll_same] at recorded
        exact later other version recorded
      · by_cases here : other = source.text
        · subst other
          rw [Database.has_renameAll_source _ same] at recorded
          exact later _ version recorded.2
        · by_cases there : other = target.text
          · subst other
            rw [Database.has_renameAll_target _ same] at recorded
            rcases recorded with recorded | ⟨-, recorded⟩
            · exact later _ version recorded
            · exact later _ version recorded
          · rw [Database.has_renameAll_other _ here there] at recorded
            exact later other version recorded
  | _ => exact changes.elim

/-- An operation keeps the current versions exactly when it is no harmful rename. -/
theorem current_step_iff {history : History} {request : Request}
    (claimed : VersionRequest history request) (past : VersionsPast history.state.db history.clock)
    (current : Current history.state.db) :
    Current (fs.step history request).state.db ↔ KeepsCurrent history request := by
  obtain ⟨changes, advances, range⟩ := claimed
  have later : VersionsPast history.state.db request.environment.now :=
    fun path version recorded => Int.le_trans (past path version recorded) advances
  obtain ⟨operation, environment⟩ := request
  cases operation with
  | mknod path mode =>
      simp only [step, Operation.program, db_ndnfsMknod, KeepsCurrent, iff_true]
      split
      · exact current
      · exact current_mknodRows range later ‹_› current
  | release path access =>
      simp only [step, Operation.program, KeepsCurrent, iff_true]
      rcases fs.state_ndnfsRelease path.text environment history.state { access } with
        same | ⟨content, count, signed⟩
      · rw [same]
        exact current
      · have released := current_releaseRows path.text range later current
        rw [signed]
        unfold Current CurrentAt at released ⊢
        simpa only [fileSystem_signSegments, fileVersions_signSegments] using released
  | unlink path =>
      simp only [step, Operation.program, db_ndnfsUnlink, KeepsCurrent, iff_true]
      exact current_deleteFileSystem current
  | rename source target =>
      simp only [step, Operation.program, db_ndnfsRename, KeepsCurrent]
      by_cases same : source = target
      · simp only [same, Database.renameAll_same, true_or, iff_true]
        exact current
      · simp only [same, false_or]
        exact current_renameAll_iff (mt Path.text_injective same) current
  | _ => exact changes.elim

/-- From an empty database, the current versions are recorded and the newest throughout exactly
those runs in which every rename keeps them. -/
theorem current_run_iff (disk : Disk) (sent : List Data) (clock : Int) (requests : List Request)
    (claimed : Run.Steps fs.step VersionRequest ⟨⟨.empty, disk, sent⟩, clock⟩ requests) :
    Run.Holds fs.step (fun history => Current history.state.db) ⟨⟨.empty, disk, sent⟩, clock⟩
        requests ↔
      Run.Steps fs.step KeepsCurrent ⟨⟨.empty, disk, sent⟩, clock⟩ requests := by
  apply Run.holds_iff_steps VersionRequest
    (fun history => VersionsPast history.state.db history.clock)
  · intro history request claimed past
    exact fs.versionsPast_step claimed past
  · intro history request claimed past current
    exact fs.current_step_iff claimed past current
  · exact claimed
  · intro path version recorded
    cases recorded rfl
  · intro path row present
    cases present

/-- The rename condition holds in a run that renames a new file to a new name. -/
theorem current_run_iff_renamed : Run.Holds Reference.fileSystem.step
    (fun history => Current history.state.db) ⟨Reference.newState, 0⟩
      [⟨.mknod Reference.fileA Reference.regularMode, Reference.calm 1⟩,
        ⟨.rename Reference.fileA Reference.fileB, Reference.calm 2⟩] ↔
    Run.Steps Reference.fileSystem.step KeepsCurrent ⟨Reference.newState, 0⟩
      [⟨.mknod Reference.fileA Reference.regularMode, Reference.calm 1⟩,
        ⟨.rename Reference.fileA Reference.fileB, Reference.calm 2⟩] :=
  current_run_iff Reference.fileSystem .bare [] 0 _
    ⟨⟨trivial, by decide, by decide⟩, ⟨trivial, by decide, by decide⟩, trivial⟩

/-- A file that takes the name of a deleted newer file is older than a version of its path. -/
theorem current_run_fails : ¬ ∀ (fs : FileSystem) (disk : Disk) (sent : List Data) (clock : Int)
    (requests : List Request),
      Run.Steps fs.step VersionRequest ⟨⟨.empty, disk, sent⟩, clock⟩ requests →
        Run.Holds fs.step (fun history => Current history.state.db)
          ⟨⟨.empty, disk, sent⟩, clock⟩ requests := by
  intro claim
  have holds := claim Reference.fileSystem .bare [] 0
    [⟨.mknod Reference.fileA Reference.regularMode, Reference.calm 1⟩,
      ⟨.mknod Reference.fileB Reference.regularMode, Reference.calm 2⟩,
      ⟨.unlink Reference.fileB, Reference.calm 3⟩,
      ⟨.rename Reference.fileA Reference.fileB, Reference.calm 4⟩]
    ⟨⟨trivial, by decide, by decide⟩, ⟨trivial, by decide, by decide⟩,
      ⟨trivial, by decide, by decide⟩, ⟨trivial, by decide, by decide⟩, trivial⟩
  have current := holds.after_prefix (List.prefix_refl _)
  have newest := (current Reference.fileB.text ⟨1, [], SignatureState.notReady.code,
    FileType.regular.code⟩ (by decide)).2 2 (by decide)
  revert newest
  decide

end FileSystem

end Ndnfs

import Ndnfs.Foundation.Refinement
import Ndnfs.Proof.SameObject
import Ndnfs.Server.Crash
import Ndnfs.Server.Host

namespace Ndnfs
open MachineInteger KeyedTable Effect Client

/-- The rows of a version of a path that are there stay as they are. -/
structure KeepsPublication (path : Bytes) (version : Int) (db db' : Database) : Prop where
  recorded : db.fileVersions.Has (path, version) → db'.fileVersions.Has (path, version)
  signed : ∀ seg signature, db.fileSegments.lookup (path, version, seg) = some signature →
    db'.fileSegments.lookup (path, version, seg) = some signature

namespace Operation

/-- The operation does not move the path away. -/
def KeepsPath (path : Path) : Operation → Prop
  | .rename source _ => source ≠ path
  | _ => True

instance (path : Path) : DecidablePred (KeepsPath path)
  | .rename source _ => inferInstanceAs (Decidable (source ≠ path))
  | .mknod .. | .mkdir .. | .openFile .. | .read .. | .write .. | .truncate .. | .release ..
  | .unlink _ | .rmdir _ => .isTrue trivial

section Change

variable {root path : Path} {now : Int} {operation : Operation} {state state' : State}

/-- Of a version that lies in the past no change touches a row unless the path moves away. -/
theorem Change.keepsPublication (change : operation.Change root now state state') {version : Int}
    (keeps : operation.KeepsPath path) (past : toInt now ≠ version) :
    KeepsPublication path.text version state.db state'.db := by
  have rests {source target : Path} {A : Type} (stays : source ≠ path) (rest : A) :
      moveKey source.text target.text (path.text, rest) = (path.text, rest) := by
    rw [moveKey, movePath_other (mt Path.text_injective stays.symm)]
  cases change with
  | mknodVersion other mode state =>
      refine ⟨fun recorded => ?_, fun seg signature signed => ?_⟩
      · exact (Database.has_insertFileVersion ..).mpr (.inr recorded)
      · rw [Database.fileSegments_insertFileVersion]
        exact signed
  | releaseVersion other access state writing =>
      refine ⟨fun recorded => ?_, fun seg signature signed => ?_⟩
      · exact (Database.has_insertFileVersion ..).mpr (.inr recorded)
      · rw [Database.fileSegments_insertFileVersion]
        exact signed
  | mknodRow other mode state row =>
      exact ⟨fun recorded => by rwa [Database.fileVersions_insertFileSystem],
        fun seg signature signed => by rwa [Database.fileSegments_insertFileSystem]⟩
  | releaseRow other access state writing =>
      exact ⟨fun recorded => by rwa [Database.fileVersions_updateCurrentVersion],
        fun seg signature signed => by rwa [Database.fileSegments_updateCurrentVersion]⟩
  | releaseSegment other access state writing number bits =>
      refine ⟨id, fun seg signature signed => ?_⟩
      rw [Database.lookup_replaceFileSegment, if_neg]
      · exact signed
      · intro same
        exact past (Prod.mk.inj (Prod.mk.inj same).2).1.symm
  | renameVersions source target state =>
      refine ⟨fun recorded => ?_, fun seg signature signed => signed⟩
      obtain ⟨row, found⟩ := has_iff.mp recorded
      exact has_iff.mpr ⟨row, lookup_slideTo_rests (moveKey_slide _ _) (rests keeps _) found⟩
  | renameSegments source target state =>
      exact ⟨id, fun seg signature signed =>
        lookup_slideTo_rests (moveKey_slide _ _) (rests keeps _) signed⟩
  | _ => exact ⟨id, fun seg signature signed => signed⟩

end Change

end Operation

theorem KeepsPublication.trans {path : Bytes} {version : Int} {first second third : Database}
    (keeps : KeepsPublication path version first second)
    (keeps' : KeepsPublication path version second third) :
    KeepsPublication path version first third where
  recorded recorded := keeps'.recorded (keeps.recorded recorded)
  signed seg signature signed := keeps'.signed seg signature (keeps.signed seg signature signed)

/-- A new row stands for the path of a mknod or for the target of a rename. -/
theorem Operation.Change.has_row {root : Path} {now : Int} {operation : Operation}
    {state state' : State} (change : operation.Change root now state state') {text : Bytes}
    (present : state'.db.fileSystem.Has text) :
    state.db.fileSystem.Has text ∨ (∃ path mode, operation = .mknod path mode ∧ text = path.text) ∨
      ∃ source target, operation = .rename source target ∧ source ≠ target ∧
        text = target.text := by
  cases change with
  | mknodVersion path mode state =>
      rw [Database.fileSystem_insertFileVersion] at present
      exact .inl present
  | releaseVersion path access state writing =>
      rw [Database.fileSystem_insertFileVersion] at present
      exact .inl present
  | mknodRow path mode state row =>
      by_cases known : state.db.fileSystem.Has path.text
      · rw [Database.insertFileSystem, if_pos known] at present
        exact .inl present
      · rw [Has, Database.lookup_insertFileSystem known] at present
        split at present
        · exact .inr (.inl ⟨path, mode, rfl, ‹text = path.text›⟩)
        · exact .inl present
  | releaseRow path access state writing =>
      exact .inl ((Database.has_updateCurrentVersion ..).mp present)
  | unlinkRow path state =>
      rw [Has, Database.lookup_deleteFileSystem] at present
      split at present
      · exact absurd rfl present
      · exact .inl present
  | renameRow source target state =>
      by_cases same : source = target
      · rw [Database.renameFileSystem, same, slideTo_of_fixed fun key _ => movePath_same key]
          at present
        exact .inl present
      · have split := (state.db.has_renameAll_fileSystem (mt Path.text_injective same) text).mp
          present
        split at split
        · rename_i here
          exact .inl (here ▸ split.1)
        · split at split
          · exact .inr (.inr ⟨source, target, rfl, same, ‹text = target.text›⟩)
          · exact .inl split
  | _ => exact .inl present

/-- A published file stays published when a change avoids it. -/
theorem Served.change {root path : Path} {content : Bytes} {version now : Int}
    {operation : Operation} {state state' : State}
    (served : Served root path content version state) (avoids : operation.Avoids path)
    (change : operation.Change root now state state') :
    Served root path content version state' := by
  have same := change.sameObject avoids served.file
  refine ⟨same.entry.trans served.entry, ?_, ?_, fun seg inside => ?_, fun text present => ?_,
    fun below inside other present => ?_⟩
  · obtain ⟨row, found, known⟩ := served.row
    exact ⟨row, (same.rows.rows path.text rfl).trans found, known⟩
  · rw [Has, same.rows.versions (path.text, version) rfl]
    exact served.recorded
  · rw [Has, same.rows.segments (path.text, version, (seg : Int)) rfl]
    exact served.segments seg inside
  · rcases change.has_row present with
      before | ⟨made, mode, -, here⟩ | ⟨source, target, -, -, there⟩
    · exact served.rows text before
    · exact ⟨made, here.symm⟩
    · exact ⟨target, there.symm⟩
  · rcases change.has_row present with
      before | ⟨made, mode, rfl, here⟩ | ⟨source, target, rfl, different, there⟩
    · exact served.alone below inside other before
    · exact avoids (Path.text_injective here ▸ inside)
    · exact (avoids.resolve_left different).1 (Path.text_injective there ▸ inside)

namespace Deployment

variable {deployment : Deployment} {root : Path}

/-- No operation, done or stopped midway, touches a version of the past whose path is not moved. -/
theorem publicationKept_run {Id : Type} [DecidableEq Id] (deployment : Deployment) {root : Path}
    (rooted : deployment.rootPath = root.rootText) (path : Path) {version : Int} {state : State}
    {turns : List (Turn Id Request Interest)}
    (later : ∀ turn ∈ turns, turn.Allows (fun _ request => version < request.environment.now ∧
      IsInt request.environment.now ∧ request.operation.KeepsPath path) fun _ => True) :
    Run.Holds deployment.hostStep
      (fun host => KeepsPublication path.text version state.db host.shared.db)
      (Host.idle state) turns := by
  refine hostStep_keeps (fun now => KeepsPublication path.text version state.db now.db) rooted
    (fun now sent kept => kept) (fun request allows first second kept change => ?_)
    ⟨id, fun _ _ signed => signed⟩ later
  obtain ⟨future, range, keeps⟩ := allows
  refine kept.trans (change.keepsPublication keeps ?_)
  rw [toInt_of_isInt range]
  exact future.ne'

/-- A second release is stopped midway, another one overtakes it, and the first version stays. -/
theorem publicationKept_run_two : Run.Holds Reference.deployment.hostStep
    (fun host => KeepsPublication Reference.fileA.text 1 Reference.createdState.db host.shared.db)
    (Host.idle Reference.createdState)
    [.start 0 ⟨.release Reference.fileA .readWrite, Reference.calm 2⟩, .advance 0, .advance 0,
      .start 1 ⟨.release Reference.fileA .readWrite, Reference.calm 3⟩, .advance 1, .advance 0,
      .advance 0, .advance 1, .advance 0, .advance 1, .advance 1, .advance 1] :=
  publicationKept_run Reference.deployment
    (show Reference.deployment.rootPath = Reference.root.rootText from rfl) Reference.fileA
    (by decide +kernel)

end Deployment

end Ndnfs

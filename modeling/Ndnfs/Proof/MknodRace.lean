import Ndnfs.Foundation.Tokens
import Ndnfs.Proof.ReturnCodes
import Ndnfs.Server.Host

namespace Ndnfs
open Effect Program MachineInteger

namespace Operation

/-- The operation neither removes the object of the path nor moves it away. -/
def KeepsObject (path : Path) : Operation → Prop
  | .unlink other | .rmdir other => other ≠ path
  | .rename source target => source = target ∨ ¬ source.names <+: path.names
  | _ => True

instance (path : Path) : DecidablePred (KeepsObject path)
  | .unlink other | .rmdir other => inferInstanceAs (Decidable (other ≠ path))
  | .rename source target =>
      inferInstanceAs (Decidable (source = target ∨ ¬ source.names <+: path.names))
  | .mknod .. | .mkdir .. | .openFile .. | .read .. | .write .. | .truncate .. | .release .. =>
      .isTrue trivial

/-- What stands at the path may be replaced, but something stays there. -/
theorem Change.present {root path : Path} {now : Int} {operation : Operation} {state state' : State}
    (change : operation.Change root now state state') (keeps : operation.KeepsObject path)
    (present : state.disk.entry (root.locate path) ≠ none) :
    state'.disk.entry (root.locate path) ≠ none := by
  have apart {other : Path} (different : other ≠ path) : root.locate path ≠ root.locate other :=
    fun same => different (Path.locate_inj.mp same).symm
  have created {location : Location} (free : state.disk.Free location) (kind : NodeKind) :
      (state.disk.create location kind now).entry (root.locate path) ≠ none := by
    rw [state.disk.entry_create free]
    split
    · exact Option.some_ne_none _
    · exact present
  have rewritten (location : Location) (rewrite : Bytes → Bytes) :
      (state.disk.modify location rewrite now).entry (root.locate path) ≠ none := by
    rw [Disk.entry_modify]
    split
    · rwa [Ne, Option.map_eq_none_iff]
    · exact present
  cases change with
  | mknodObject other mode state kind file free => exact created free kind
  | mkdirObject other mode state free => exact created free .directory
  | openContent other access state regular => exact rewritten _ _
  | writeContent other data offset count state regular => exact rewritten _ _
  | truncateContent other length state regular => exact rewritten _ _
  | unlinkObject other state file =>
      rw [state.disk.entry_remove (ne_nil_of_isFile file)
        (state.disk.noChildren_of_not_directory file.2), if_neg (apart keeps)]
      exact present
  | rmdirObject other state below found empty =>
      have inside : root.locate other ≠ [] := by
        simpa [Path.locate] using fun _ => below
      rw [state.disk.entry_remove inside empty, if_neg (apart keeps)]
      exact present
  | renameObject source target state different safe =>
      have stays : ¬ root.locate source <+: root.locate path :=
        fun inside => keeps.resolve_left different ((List.prefix_append_right_inj _).mp inside)
      rw [state.disk.entry_move safe, if_neg stays]
      split
      · rename_i inside
        obtain ⟨rest, below⟩ := inside
        by_cases top : rest = []
        · rw [← below, top, List.append_nil, List.drop_length, List.append_nil]
          exact safe.present
        · rw [← below] at present
          exact absurd (state.disk.none_below safe.empty top) present
      · exact present
  | _ => exact present

end Operation

theorem eq_of_called {call made : Call Cursor Location} {reply : call.Reply}
    (marked : mark call reply = some (.called made)) : call = made := by
  cases call with
  | openFile text flags =>
      cases reply with
      | error error => cases marked
      | ok location => exact Mark.called.inj (Option.some.inj marked)
  | pread fd count offset =>
      cases reply with
      | error error => cases marked
      | ok buf => cases marked
  | close _ | truncate _ _ | unlink _ | mkfifo _ _ | mknod _ _ | rename _ _ =>
      cases reply with
      | error error => cases marked
      | ok _ => exact Mark.called.inj (Option.some.inj marked)
  | _ => cases marked

namespace FileSystem

variable {fs : FileSystem} {root path : Path}

/-- A mknod succeeds only after it has created the object. -/
theorem mknod_creates (mode : Nat) :
    (fs.ndnfsMknod path.text mode : Source Cursor Location Int).Ensures Allowed mark
      fun marks value => value = 0 → .called (fs.creation path.text mode) ∈ marks := by
  unfold ndnfsMknod
  rw [ensures_bind]
  apply ensures_executeOnce
  intro code _
  split
  · rw [ensures_pure]
    intro wrong
    exact absurd wrong (Errno.negative_lt .ENOENT).ne
  · rw [ensures_bind, ensures_perform]
    intro time _
    rw [ensures_bind]
    apply ensures_executeOnce
    intro version _
    rw [ensures_bind]
    apply ensures_executeOnce
    intro file _
    rw [ensures_bind]
    have failed (errno : Errno) : ¬ errno.negative = 0 := (Errno.negative_lt errno).ne
    apply fs.ensures_createObject
    · intro errno
      rw [ensures_pure]
      exact fun wrong => absurd wrong (failed errno)
    · intro regular errno
      rw [ensures_pure]
      exact fun wrong => absurd wrong (failed errno)
    · intro regular fd
      rw [ensures_pure]
      simp
    · intro other
      rw [ensures_pure]
      simp

theorem answer_mknod_creates (mode : Nat) :
    ((Operation.mknod path mode).answer fs : Source Cursor Location (Int × Bytes)).Ensures Allowed
      mark fun marks value => value.1 = 0 → .called (fs.creation path.text mode) ∈ marks := by
  simp only [Operation.answer, Operation.program, ensures_bind, ensures_pure, List.append_nil]
  exact mknod_creates mode

variable (rooted : fs.rootPath = root.rootText)

include rooted

/-- The object of the path is there as soon as its creation has succeeded, and it was not there
before. -/
theorem creation_takes {mode : Nat} {call : Call Cursor Location} {world : World}
    (marked : mark call (handle call world).1 = some (.called (fs.creation path.text mode))) :
    world.state.disk.entry (root.locate path) = none ∧
      (handle call world).2.state.disk.entry (root.locate path) ≠ none := by
  have made {kind : NodeKind} {disk : Disk}
      (success : world.state.disk.createText (root.rootText ++ path.text) kind
        world.environment.now = .ok disk) :
      world.state.disk.entry (root.locate path) = none ∧ disk.entry (root.locate path) ≠ none := by
    obtain ⟨free, rfl⟩ := world.state.disk.create_ok success
    refine ⟨free.1, ?_⟩
    rw [world.state.disk.entry_create free, if_pos rfl]
    exact Option.some_ne_none _
  have here := eq_of_called marked
  rw [creation, fullPath_text rooted] at here
  split at here
  · subst call
    cases reply : (handle (.openFile (root.rootText ++ path.text)
        { access := .writeOnly, create := true, exclusive := true }) world).1 with
    | error error =>
        rw [reply] at marked
        cases marked
    | ok location =>
        obtain ⟨disk, success, state⟩ := attempt_ok reply
        obtain ⟨found, creates⟩ := world.state.disk.openText_create (root.rootText ++ path.text)
          world.environment.now
        rw [creates] at success
        cases result : world.state.disk.createText (root.rootText ++ path.text) .regular
            world.environment.now with
        | error error =>
            rw [result] at success
            cases success
        | ok disk' =>
            rw [result] at success
            cases success
            obtain ⟨free, present⟩ := made result
            exact ⟨free, state ▸ present⟩
  · split at here
    · subst call
      cases reply : (handle (.mkfifo (root.rootText ++ path.text) mode) world).1 with
      | error error =>
          rw [reply] at marked
          cases marked
      | ok _ =>
          obtain ⟨disk, success, state⟩ := change_ok reply
          obtain ⟨free, present⟩ := made success
          exact ⟨free, state ▸ present⟩
    · subst call
      cases reply : (handle (.mknod (root.rootText ++ path.text) mode) world).1 with
      | error error =>
          rw [reply] at marked
          cases marked
      | ok _ =>
          obtain ⟨disk, success, state⟩ := change_ok reply
          cases known : Disk.mknodKind mode with
          | error error =>
              rw [known] at success
              cases success
          | ok kind =>
              rw [known] at success
              obtain ⟨free, present⟩ := made success
              exact ⟨free, state ▸ present⟩

end FileSystem

namespace Deployment

/-- The mark of the call that creates the object of a mknod. -/
def creationMark (deployment : Deployment) (request : Request) : Mark Location :=
  match request.operation with
  | .mknod path mode => .called (deployment.fs.creation path.text mode)
  | _ => .called .time

/-- Threads with a mknod of one path race for its object. -/
def mknodRace {deployment : Deployment} {root : Path}
    (rooted : deployment.rootPath = root.rootText) (path : Path) :
    Pool.Race (contract rooted) (Mark Location) where
  runs request := ∃ mode, request.operation = .mknod path mode
  wins answer := answer.1 = 0
  taken state := state.disk.entry (root.locate path) ≠ none
  allowed := Allowed
  mark := mark
  token request _ := deployment.creationMark request
  replies call state environment := allowed_handle call ⟨state, environment⟩
  needs_token := by
    rintro ⟨operation, environment⟩ ⟨mode, rfl⟩
    exact FileSystem.answer_mknod_creates mode
  grants := by
    rintro ⟨operation, environment⟩ _ call state own ⟨mode, rfl⟩ _ granted
    obtain ⟨free, taken⟩ := FileSystem.creation_takes
      (show deployment.fs.rootPath = root.rootText from rooted) granted
    exact ⟨fun present => present free, taken⟩

/-- Of all the mknods of a path that run side by side, past their row checks, at most one reports
success, and then the object is there. -/
theorem madeOnce_run {Id : Type} [DecidableEq Id] (deployment : Deployment) {root : Path}
    (rooted : deployment.rootPath = root.rootText) (path : Path) {state : State}
    {turns : List (Turn Id Request Interest)}
    (keeps : ∀ turn ∈ turns,
      turn.Allows (fun _ request => request.operation.KeepsObject path) fun _ => True) :
    Run.Holds deployment.hostStep
      (fun host => ∀ id mode buf, host.Ended id (.mknod path mode) (0, buf) →
        host.shared.disk.entry (root.locate path) ≠ none ∧
          ∀ other mode' buf', host.Ended other (.mknod path mode') (0, buf') → other = id)
      (Host.idle state) turns := by
  have stays : ∀ (id : Id) request call state environment, request.operation.KeepsObject path →
      (contract rooted).linked request environment → (contract rooted).permitted request call →
        state.disk.entry (root.locate path) ≠ none →
          (callIn call (state, environment)).2.1.disk.entry (root.locate path) ≠ none := by
    intro id request call state environment known clock calls present
    rcases change_callIn clock calls state with same | change
    · rw [same]
      exact present
    · exact change.present known present
  have events : ∀ interest state, True → state.disk.entry (root.locate path) ≠ none →
      (deployment.sendReply state interest).disk.entry (root.locate path) ≠ none := by
    intro interest state _ present
    rw [sendReply, deployment.server.exec_onInterestCallback]
    exact present
  have fair : (mknodRace rooted path).Fair none (Host.idle state : Host Id) := by
    refine ⟨fun wrong => absurd rfl wrong, fun id thread found => ?_⟩
    cases found
  apply (Pool.Race.oneWinner_run stays events (sound_idle rooted _ state) fair keeps).imp
  intro host all id mode buf ended
  obtain ⟨thread, found, operation, answer⟩ := ended
  obtain ⟨present, single⟩ := all id thread found ⟨⟨mode, operation⟩, _, answer, rfl⟩
  refine ⟨present, fun other mode' buf' ended' => ?_⟩
  obtain ⟨thread', found', operation', answer'⟩ := ended'
  exact single other thread' found' ⟨⟨mode', operation'⟩, _, answer', rfl⟩

/-- Both mknods pass the row check before either of them inserts its row. -/
theorem madeOnce_run_two : Run.Holds Reference.deployment.hostStep
    (fun host => ∀ id mode buf, host.Ended id (.mknod Reference.fileA mode) (0, buf) →
      host.shared.disk.entry (Reference.root.locate Reference.fileA) ≠ none ∧
        ∀ other mode' buf',
          host.Ended other (.mknod Reference.fileA mode') (0, buf') → other = id)
    (Host.idle Reference.newState)
    (.start 0 ⟨.mknod Reference.fileA Reference.regularMode, Reference.calm 1⟩ ::
      .start 1 ⟨.mknod Reference.fileA Reference.regularMode, Reference.calm 1⟩ ::
        (List.replicate 14 [.advance 0, .advance 1]).flatten) :=
  madeOnce_run Reference.deployment
    (show Reference.deployment.rootPath = Reference.root.rootText from rfl) Reference.fileA
    (by decide)

end Deployment

end Ndnfs

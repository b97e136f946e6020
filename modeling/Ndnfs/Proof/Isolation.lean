import Ndnfs.Fs.AlikeRows
import Ndnfs.Proof.CrashSafety
import Ndnfs.Server.Host
import Ndnfs.System.Area

namespace Ndnfs
open Effect Program KeyedTable MachineInteger

/-- The text is that of a path in the area. -/
def InArea (area : Path) (text : Bytes) : Prop :=
  ∃ path : Path, area.names <+: path.names ∧ path.text = text

/-- Both states have the same rows and the same objects in the area. -/
structure SameArea (root area : Path) (state state' : State) : Prop where
  disk : AlikeNear (root.locate area) state.disk state'.disk
  db : AlikeRows (InArea area) state.db state'.db

/-- Two hosts in the same environment have the same area. -/
structure SameWorld (root area : Path) (world world' : World) : Prop where
  environment : world.environment = world'.environment
  state : SameArea root area world.state world'.state

section Calls

variable {root area : Path} {world world' : World} (same : SameWorld root area world world')

include same

theorem attempt_alike {A : Type} {effect effect' : Disk → Except Errno (A × Disk)}
    (fare : FareAlike (fun first second => first.1 = second.1 ∧
      AlikeNear (root.locate area) first.2 second.2)
      (effect world.state.disk) (effect' world'.state.disk)) :
    (world.attempt effect).1 = (world'.attempt effect').1 ∧
      SameWorld root area (world.attempt effect).2 (world'.attempt effect').2 := by
  have next : world.environment.next = world'.environment.next := congrArg _ same.environment
  unfold World.attempt Environment.outcome
  rw [same.environment]
  generalize effect world.state.disk = first, effect' world'.state.disk = second at fare ⊢
  cases world'.environment.faults.head?.join with
  | some error => exact ⟨rfl, rfl, same.state⟩
  | none =>
      dsimp only
      cases fare with
      | error error => exact ⟨rfl, rfl, same.state⟩
      | ok both =>
          obtain ⟨value, near⟩ := both
          dsimp only
          exact ⟨congrArg _ value, rfl, near, same.state.db⟩

theorem change_alike {effect effect' : Disk → Except Errno Disk}
    (fare : FareAlike (AlikeNear (root.locate area)) (effect world.state.disk)
      (effect' world'.state.disk)) :
    (world.change effect).1 = (world'.change effect').1 ∧
      SameWorld root area (world.change effect).2 (world'.change effect').2 :=
  attempt_alike same (fare.map fun _ _ near => ⟨rfl, near⟩)

omit same in
/-- The calls of an operation on paths of the area see and change only the area. -/
theorem Operation.Calls.respects {operation : Operation} {now : Int} {call : Call Cursor Location}
    (calls : operation.Calls root now call)
    (inside : ∀ path ∈ operation.paths, area.names <+: path.names) :
    Respects handle (SameWorld root area) call := by
  have below {path : Path} (member : path ∈ operation.paths) :
      root.locate area <+: root.locate path :=
    (List.prefix_append_right_inj _).mpr (inside path member)
  intro world world' same
  have clock : world.environment.now = world'.environment.now := congrArg _ same.environment
  cases calls with
  | idle _ quiet =>
      cases quiet with
      | time => exact ⟨clock, same⟩
      | prepare statement => exact ⟨rfl, same⟩
      | columnInt stmt index => exact ⟨rfl, same⟩
      | finalize stmt => exact ⟨rfl, same⟩
      | close location =>
          refine ⟨?_, congrArg Environment.next same.environment, same.state⟩
          simp only [handle, World.inspect, same.environment]
  | step _ row executes =>
      obtain ⟨reply, rows⟩ := executes.alike
        (fun path member => ⟨path, inside path member, rfl⟩) same.state.db
      refine ⟨?_, same.environment, same.state.disk, rows⟩
      simp only [handle, reply]
  | openPlain _ path access member =>
      simp only [handle, clock]
      exact attempt_alike same (openText_alike same.state.disk (below member) _ _)
  | openFile path access trunc =>
      simp only [handle, clock]
      exact attempt_alike same
        (openText_alike same.state.disk (below (List.mem_singleton_self path)) _ _)
  | mknodOpen path mode =>
      simp only [handle, clock]
      exact attempt_alike same
        (openText_alike same.state.disk (below (List.mem_singleton_self path)) _ _)
  | mkfifo path mode =>
      simp only [handle, clock]
      exact change_alike same
        (createText_alike same.state.disk (below (List.mem_singleton_self path)) _ _)
  | mknod path mode =>
      simp only [handle, clock]
      apply change_alike same
      cases Disk.mknodKind mode with
      | error error => exact .error error
      | ok kind =>
          exact createText_alike same.state.disk (below (List.mem_singleton_self path)) kind _
  | mkdir path mode =>
      simp only [handle, clock]
      exact change_alike same
        (createText_alike same.state.disk (below (List.mem_singleton_self path)) _ _)
  | pread _ path count offset member =>
      refine ⟨?_, congrArg Environment.next same.environment, same.state⟩
      simp only [handle, World.inspect, same.environment,
        pread_congr same.state.disk (below member)]
  | pwrite path data offset =>
      have written : world.environment.written data = world'.environment.written data := by
        rw [same.environment]
      simp only [handle, clock, written]
      refine attempt_alike same (FareAlike.map (fun _ _ near => ⟨rfl, near⟩)
        (pwrite_alike same.state.disk (below (List.mem_singleton_self path)) _ offset _))
  | truncate path length =>
      simp only [handle, clock]
      exact change_alike same
        (truncateText_alike same.state.disk (below (List.mem_singleton_self path)) _ _)
  | unlink path =>
      simp only [handle, clock]
      exact change_alike same
        (unlinkText_alike same.state.disk (below (List.mem_singleton_self path)) _)
  | rmdir path top =>
      simp only [handle, clock]
      exact change_alike same
        (rmdirText_alike same.state.disk (below (List.mem_singleton_self path)) _)
  | rename source target =>
      simp only [handle, clock]
      exact change_alike same (renameText_alike same.state.disk (below List.mem_cons_self)
        (below (List.mem_cons_of_mem _ (List.mem_singleton_self target))) _)

end Calls

section Others

variable {root area : Path}

/-- The path lies neither in the area nor on the way to it. -/
def Path.ApartFrom (path area : Path) : Prop :=
  ¬ area.names <+: path.names ∧ ¬ path.names <+: area.names

instance (path area : Path) : Decidable (path.ApartFrom area) := inferInstanceAs (Decidable (_ ∧ _))

theorem SameArea.refl (root area : Path) (state : State) : SameArea root area state state :=
  ⟨fun _ _ => rfl, .refl _ _⟩

theorem SameArea.trans {first second third : State} (same : SameArea root area first second)
    (same' : SameArea root area second third) : SameArea root area first third where
  disk location near := (same.disk location near).trans (same'.disk location near)
  db := same.db.trans same'.db

/-- Nothing below a path apart from the area is near it. -/
theorem Path.ApartFrom.not_below {path : Path} (apart : path.ApartFrom area)
    {location : Location} (near : Near (root.locate area) location) :
    ¬ root.locate path <+: location := by
  intro inside
  rcases near with way | within
  · exact apart.2 ((List.prefix_append_right_inj _).mp (inside.trans way))
  · rcases List.prefix_or_prefix_of_prefix within inside with up | down
    · exact apart.1 ((List.prefix_append_right_inj _).mp up)
    · exact apart.2 ((List.prefix_append_right_inj _).mp down)

theorem Path.ApartFrom.ne {path : Path} (apart : path.ApartFrom area) {location : Location}
    (near : Near (root.locate area) location) : location ≠ root.locate path := by
  rintro rfl
  exact apart.not_below near (List.prefix_refl _)

theorem Path.ApartFrom.not_inArea {path : Path} (apart : path.ApartFrom area) :
    ¬ InArea area path.text := by
  rintro ⟨other, inside, same⟩
  exact apart.1 (Path.text_injective same ▸ inside)

/-- A change apart from the area leaves the area as it is. -/
theorem Operation.Change.sameArea {now : Int} {operation : Operation} {state state' : State}
    (change : operation.Change root now state state')
    (apart : ∀ path ∈ operation.paths, path.ApartFrom area) : SameArea root area state' state := by
  have only {path : Path} (one : operation.paths = [path]) : path.ApartFrom area :=
    apart path (one ▸ List.mem_singleton_self path)
  have both {source target : Path} (two : operation.paths = [source, target]) :
      source.ApartFrom area ∧ target.ApartFrom area :=
    ⟨apart source (two ▸ List.mem_cons_self),
      apart target (two ▸ List.mem_cons_of_mem _ (List.mem_singleton_self target))⟩
  have rows : AlikeRows (InArea area) state'.db state.db :=
    change.alikeRows fun path member => (apart path (operation.rowPaths_subset member)).not_inArea
  refine ⟨fun location near => ?_, rows⟩
  cases change with
  | mknodObject path mode state kind file free =>
      rw [state.disk.entry_create free, if_neg ((only rfl).ne near)]
  | mkdirObject path mode state free =>
      rw [state.disk.entry_create free, if_neg ((only rfl).ne near)]
  | openContent path access state regular =>
      rw [state.disk.entry_modify, if_neg ((only rfl).ne near)]
  | writeContent path data offset count state regular =>
      rw [state.disk.entry_modify, if_neg ((only rfl).ne near)]
  | truncateContent path length state regular =>
      rw [state.disk.entry_modify, if_neg ((only rfl).ne near)]
  | unlinkObject path state file =>
      rw [state.disk.entry_remove (ne_nil_of_isFile file)
        (state.disk.noChildren_of_not_directory file.2), if_neg ((only rfl).ne near)]
  | rmdirObject path state top directory empty =>
      have inside : root.locate path ≠ [] := by
        simpa [Path.locate] using fun _ => top
      rw [state.disk.entry_remove inside empty, if_neg ((only rfl).ne near)]
  | renameObject source target state different safe =>
      obtain ⟨first, second⟩ := both rfl
      rw [state.disk.entry_move safe, if_neg (second.not_below near),
        if_neg (first.not_below near)]
  | _ => rfl

end Others

/-- Requests of the party stay in the area, and those of others stay apart from it. -/
def Separate {Id : Type} (area : Path) (mine : Id → Prop) (id : Id) (request : Request) : Prop :=
  (mine id → ∀ path ∈ request.operation.paths, area.names <+: path.names) ∧
    (¬ mine id → ∀ path ∈ request.operation.paths, path.ApartFrom area)

instance {Id : Type} (area : Path) (mine : Id → Prop) [DecidablePred mine] (id : Id)
    (request : Request) : Decidable (Separate area mine id request) :=
  inferInstanceAs (Decidable (_ ∧ _))

namespace Deployment

/-- Whatever threads of others do apart from the area, call by call, the threads of its user give the
answers and leave the files of a run without them. -/
theorem isolated_run {Id : Type} [DecidableEq Id] (deployment : Deployment) {root : Path}
    (rooted : deployment.rootPath = root.rootText) (area : Path) {mine : Id → Prop}
    [DecidablePred mine] {state state' : State} (same : SameArea root area state state')
    {turns : List (Turn Id Request Interest)}
    (separate : ∀ turn ∈ turns, turn.Allows (Separate area mine) fun _ => True) :
    (∀ id, mine id →
      (Run.after deployment.hostStep (Host.idle state) turns).answer? id =
        (Run.after deployment.hostStep (Host.idle state')
          (turns.filter fun turn => turn.Concerns mine)).answer? id) ∧
      SameArea root area (Run.after deployment.hostStep (Host.idle state) turns).shared
        (Run.after deployment.hostStep (Host.idle state')
          (turns.filter fun turn => turn.Concerns mine)).shared := by
  have sees : ∀ (id : Id) request call environment, mine id → Separate area mine id request →
      (contract rooted).linked request environment → (contract rooted).permitted request call →
        Pool.Contract.Sees callIn (SameArea root area) call environment := by
    intro id request call environment own known _ calls first second alike
    obtain ⟨reply, after⟩ := calls.respects (known.1 own) ⟨first, environment⟩
      ⟨second, environment⟩ ⟨rfl, alike⟩
    exact ⟨reply, after.environment, after.state⟩
  have unseen : ∀ (id : Id) request call first second environment, ¬ mine id →
      Separate area mine id request → (contract rooted).linked request environment →
        (contract rooted).permitted request call → SameArea root area first second →
          SameArea root area (callIn call (first, environment)).2.1 second := by
    intro id request call first second environment other known clock calls alike
    rcases change_callIn clock calls first with unchanged | change
    · rw [unchanged]
      exact alike
    · exact (change.sameArea (known.2 other)).trans alike
  have events : ∀ interest first second, True → SameArea root area first second →
      SameArea root area (deployment.sendReply first interest) second := by
    intro interest first second _ alike
    rw [sendReply, deployment.server.exec_onInterestCallback]
    exact ⟨alike.disk, alike.db⟩
  have alike := Pool.Contract.alike_run sees unseen events
    (sound_idle rooted (Separate area mine) state)
    (show Pool.Contract.Alike mine (SameArea root area) (Host.idle state) (Host.idle state') from
      ⟨same, fun _ _ => rfl⟩) separate
  refine ⟨fun id own => ?_, alike.shared⟩
  exact congrArg (fun thread : Option _ => thread.bind _) (alike.threads id own)

/-- Two threads make files below `/a` while a third one moves a file elsewhere. -/
theorem isolated_run_two :
    let turns : List (Turn Nat Request Interest) :=
      [.start 0 ⟨.mkdir Reference.fileA 0o755, Reference.calm 1⟩,
        .start 1 ⟨.rename Reference.fileB ⟨[ascii "c"], by decide⟩, Reference.calm 1⟩,
        .advance 1, .advance 0, .advance 1, .outside ⟨Reference.segmentName 2 0, Reference.calm 1⟩,
        .start 2 ⟨.mknod ⟨[ascii "a", ascii "x"], by decide⟩ Reference.regularMode,
          Reference.calm 2⟩,
        .advance 2, .advance 1, .advance 2, .advance 2, .advance 1, .advance 2]
    (∀ id, id % 2 = 0 →
      (Run.after Reference.deployment.hostStep (Host.idle Reference.newState) turns).answer? id =
        (Run.after Reference.deployment.hostStep (Host.idle Reference.newState)
          (turns.filter fun turn => turn.Concerns (· % 2 = 0))).answer? id) ∧
      SameArea Reference.root Reference.fileA
        (Run.after Reference.deployment.hostStep (Host.idle Reference.newState) turns).shared
        (Run.after Reference.deployment.hostStep (Host.idle Reference.newState)
          (turns.filter fun turn => turn.Concerns (· % 2 = 0))).shared :=
  isolated_run Reference.deployment
    (show Reference.deployment.rootPath = Reference.root.rootText from rfl) Reference.fileA
    (SameArea.refl Reference.root Reference.fileA Reference.newState) (by decide)

end Deployment

end Ndnfs

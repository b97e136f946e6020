import Ndnfs.Foundation.Pool
import Ndnfs.Fs.Change
import Ndnfs.Server.Session

namespace Ndnfs
open Effect Program

/-- Without the single-thread flag the operations run side by side, each in its own thread. A
descriptor stands for the location of its file, so a thread should not move a file that another one
has open. -/
abbrev Host (Id : Type) :=
  Pool Id State (Thread Request (Call Cursor Location) Call.Reply (Int × Bytes) Environment)

/-- A host without threads. -/
def Host.idle {Id : Type} (state : State) : Host Id := ⟨state, fun _ => none⟩

/-- The operation of the thread has ended with this answer. -/
def Host.Ended {Id : Type} (host : Host Id) (id : Id) (operation : Operation)
    (answer : Int × Bytes) : Prop :=
  ∃ thread, host.threads id = some thread ∧ thread.task.operation = operation ∧
    thread.program.value? = some answer

/-- A call is made in the environment of its thread. -/
def callIn (call : Call Cursor Location) (shared : State × Environment) :
    call.Reply × State × Environment :=
  let (reply, world) := handle call ⟨shared.1, shared.2⟩
  (reply, world.state, world.environment)

namespace Deployment

variable (deployment : Deployment)

/-- The server handles each Interest between two calls. -/
def sendReply (state : State) (interest : Interest) : State :=
  (exec (deployment.server.onInterestCallback interest.name) interest.environment state).2

def hostStep {Id : Type} [DecidableEq Id] : Host Id → Turn Id Request Interest → Host Id :=
  Pool.step callIn (fun request => request.operation.answer deployment.fs) Request.environment
    deployment.sendReply

/-- Each thread makes only the calls of its operation. -/
def contract {deployment : Deployment} {root : Path}
    (rooted : deployment.rootPath = root.rootText) :
    Pool.Contract callIn (fun request => request.operation.answer deployment.fs)
      Request.environment where
  linked request environment := environment.now = request.environment.now
  possible request := Possible request.environment.now
  permitted request call := request.operation.Calls root request.environment.now call
  linked_initial _ := rfl
  gives _ call state environment clock :=
    ⟨⟨⟨state, environment⟩, clock, rfl⟩, (now_handle call ⟨state, environment⟩).trans clock⟩
  code_guards request := FileSystem.calls_answer rooted request.environment.now request.operation

variable {deployment} {Id : Type} [DecidableEq Id] {root : Path}

omit [DecidableEq Id] in
theorem sound_idle (rooted : deployment.rootPath = root.rootText) (expected : Id → Request → Prop)
    (state : State) : (contract rooted).Sound expected (Host.idle state) := by
  intro id thread found
  cases found

/-- A call of a thread leaves the shared state as it is or makes a change of its operation. -/
theorem change_callIn {request : Request} {call : Call Cursor Location} {environment : Environment}
    (clock : environment.now = request.environment.now)
    (calls : request.operation.Calls root request.environment.now call) (state : State) :
    (callIn call (state, environment)).2.1 = state ∨
      request.operation.Change root request.environment.now state
        (callIn call (state, environment)).2.1 :=
  calls.makes ⟨state, environment⟩ clock

/-- What each change of the expected operations keeps holds in every interleaving. -/
theorem hostStep_keeps (property : State → Prop) (rooted : deployment.rootPath = root.rootText)
    (ignores : ∀ state sent, property state → property { state with sent })
    {expected : Request → Prop}
    (preserved : ∀ request, expected request → ∀ state state', property state →
      request.operation.Change root request.environment.now state state' → property state')
    {state : State} (start : property state) {turns : List (Turn Id Request Interest)}
    {allowed : Interest → Prop}
    (starts : ∀ turn ∈ turns, turn.Allows (fun _ => expected) allowed) :
    Run.Holds deployment.hostStep (fun host => property host.shared) (Host.idle state) turns := by
  have requests : ∀ (id : Id) request call state environment, expected request →
      (contract rooted).linked request environment → (contract rooted).permitted request call →
        property state → property (callIn call (state, environment)).2.1 := by
    intro id request call state environment known clock calls holds
    rcases change_callIn clock calls state with same | change
    · rw [same]
      exact holds
    · exact preserved request known _ _ holds change
  have events : ∀ interest state, allowed interest → property state →
      property (deployment.sendReply state interest) := by
    intro interest state _ holds
    rw [sendReply, deployment.server.exec_onInterestCallback]
    exact ignores _ _ holds
  exact (Pool.Contract.keeps_run property requests events (sound_idle rooted _ state) start starts).imp
    fun _ both => both.2

end Deployment

end Ndnfs

import Ndnfs.Fs.Change
import Ndnfs.Server.Session

namespace Ndnfs
open Effect Program

/-- The host may stop an operation after so many of its calls; the tables and the disk stay as they
are then. -/
inductive HostEvent where
  | interest (interest : Interest)
  | operation (request : Request)
  | crash (request : Request) (calls : Nat)

/-- The operation that an event starts has this property. -/
def HostEvent.Starts (property : Request → Prop) : HostEvent → Prop
  | .interest _ => True
  | .operation request | .crash request _ => property request

instance (property : Request → Prop) [DecidablePred property] : (event : HostEvent) →
    Decidable (event.Starts property)
  | .interest _ => .isTrue trivial
  | .operation request | .crash request _ => inferInstanceAs (Decidable (property request))

theorem HostEvent.Starts.imp {first second : Request → Prop} {event : HostEvent}
    (starts : event.Starts first) (imp : ∀ request, first request → second request) :
    event.Starts second := by
  cases event with
  | interest interest => trivial
  | operation request => exact imp request starts
  | crash request calls => exact imp request starts

namespace Deployment

variable (deployment : Deployment)

def crashStep (history : History) : HostEvent → History
  | .interest interest => deployment.step history (.interest interest)
  | .operation request => deployment.step history (.operation request)
  | .crash request calls =>
      ⟨((request.operation.program deployment.fs).cut handle calls
        ⟨history.state, request.environment⟩).state, request.environment.now⟩

variable {deployment} {root : Path}

/-- A property that each single change keeps is kept by the whole event, whatever is cut off. -/
theorem crashStep_keeps (property : State → Prop) (rooted : deployment.rootPath = root.rootText)
    (ignores : ∀ state sent, property state → property { state with sent })
    {event : HostEvent}
    (preserved : event.Starts fun request => ∀ state state', property state →
      request.operation.Change root request.environment.now state state' → property state')
    {history : History} (start : property history.state) :
    property (deployment.crashStep history event).state := by
  have chain {request : Request} {state : State}
      (preserved : ∀ state state', property state →
        request.operation.Change root request.environment.now state state' → property state')
      (changes : Relation.ReflTransGen (request.operation.Change root request.environment.now)
        history.state state) : property state := by
    induction changes with
    | refl => exact start
    | tail _ change kept => exact preserved _ _ kept change
  have rooted' : deployment.fs.rootPath = root.rootText := rooted
  cases event with
  | interest interest =>
      rw [crashStep, deployment.step_interest]
      exact ignores _ _ start
  | operation request =>
      exact chain preserved (FileSystem.changes_exec rooted' request.operation _ _)
  | crash request calls =>
      exact chain preserved (FileSystem.changes_cut rooted' ⟨_, _⟩ request.operation calls)

end Deployment

end Ndnfs

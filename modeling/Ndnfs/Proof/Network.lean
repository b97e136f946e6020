import Ndnfs.Proof.GenuineReply

namespace Ndnfs
open MachineInteger KeyedTable Client

/-- A client takes events; some of them can come after these packets were sent. -/
structure Client.Machine (Session ClientEvent : Type) where
  step : Session → ClientEvent → Session
  delivered : List Data → Session → ClientEvent → Prop

/-- The host of the file system and of its server, and a client with one session. -/
structure Network (Session : Type) where
  history : History
  session : Session

inductive NetworkEvent (ClientEvent : Type) where
  | host (event : Event)
  | client (event : ClientEvent)

/-- The file stays published, packets below its name are genuine, and segments have bytes. -/
structure Deployment.HostSound (deployment : Deployment) (served : Name) (root path : Path)
    (content : Bytes) (version : Int) (history : History) : Prop where
  published : Served root path content version history.state
  genuine : ∀ data ∈ history.state.sent, servedName served path <+: data.name →
    Genuine deployment.ndn deployment.protobuf (servedName served path) version (pieces content)
      data
  nonempty : ∀ data ∈ history.state.sent, ∀ seg,
    data.name = segmentName deployment.ndn (servedName served path) version seg →
      data.content ≠ []

namespace Deployment

section Host

variable {deployment : Deployment} {served : Name} {root path : Path} {content : Bytes}
  {version : Int} {history : History}

/-- A packet under the name of a segment has bytes. -/
theorem reply_nonempty {environment : Environment} {state : State} {name : Name} {data : Data}
    (replied : deployment.server.reply environment state name = some data) {base : Name} {seg : Nat}
    (segment : data.name = segmentName deployment.ndn base version seg) : data.content ≠ [] := by
  rcases deployment.server.reply_cases replied with
    ⟨text, ver, number, content, -⟩ | ⟨text, ver, number, -, answer⟩
  · obtain ⟨signature, bytes, -, -, some, rfl⟩ := deployment.server.contentReply_some content
    exact some
  · have shape := deployment.server.pathReply_name text environment state
    rw [answer, Option.map_some] at shape
    obtain ⟨announced, -, named⟩ := Option.map_eq_some_iff.mp shape.symm
    have last := congrArg List.getLast? (named.trans segment)
    simp only [Server.announcedName, segmentName, List.getLast?_append, List.getLast?_cons_cons,
      List.getLast?_singleton, Option.some_or, Option.some.injEq] at last
    have kind := deployment.server.componentKind_versionComponent announced.2
    have kind' := deployment.server.componentKind_segmentComponent (seg : Int)
    rw [last, show deployment.ndn = deployment.server.ndn from rfl, kind'] at kind
    cases kind

/-- What the host sends below the name of the file is genuine in every run. -/
theorem HostSound.step (rooted : deployment.rootPath = root.rootText)
    (addressed : deployment.Addressed served path) (fits : content.length < 2 ^ 31)
    (known : version ≠ -1)
    (sound : deployment.HostSound served root path content version history) {event : Event}
    (allowed : match event with
      | .operation request => request.operation.Avoids path
      | .interest interest => served <+: interest.name ∧ interest.environment.faults = []) :
    deployment.HostSound served root path content version (deployment.step history event) := by
  obtain ⟨published, genuine, nonempty⟩ := sound
  cases event with
  | operation request =>
      have sent : (deployment.fs.step history request).state.sent = history.state.sent :=
        deployment.fs.sent_exec request.operation request.environment history.state
      refine ⟨published.operation rooted allowed, ?_, ?_⟩
      · intro data member
        exact genuine data (sent ▸ member)
      · intro data member
        exact nonempty data (sent ▸ member)
  | interest interest =>
      have sent (data : Data)
          (member : data ∈ (deployment.step history (.interest interest)).state.sent) :
          data ∈ history.state.sent ∨ deployment.server.reply interest.environment history.state
            interest.name = some data := by
        simp only [deployment.step_interest, Server.sendReply] at member
        exact (List.mem_append.mp member).imp_right Option.mem_toList.mp
      refine ⟨published.interest interest, ?_, ?_⟩
      · intro data member under
        rcases sent data member with earlier | reply
        · exact genuine data earlier under
        · exact genuine_reply rooted addressed published fits known allowed.2 allowed.1 reply under
      · intro data member seg name
        rcases sent data member with earlier | reply
        · exact nonempty data earlier seg name
        · exact reply_nonempty reply name

/-- Nothing below the name of the file has been sent yet. -/
theorem HostSound.first (published : Served root path content version history.state)
    (unsent : ∀ data ∈ history.state.sent, ¬ servedName served path <+: data.name) :
    deployment.HostSound served root path content version history where
  published := published
  genuine data member under := absurd under (unsent data member)
  nonempty data member seg name := by
    refine absurd ?_ (unsent data member)
    rw [name]
    exact List.prefix_append _ _

end Host

section Network

variable {Session ClientEvent : Type}

/-- The host and the client take their steps in any order. -/
def networkStep (deployment : Deployment) (machine : Machine Session ClientEvent)
    (network : Network Session) : NetworkEvent ClientEvent → Network Session
  | .host event => { network with history := deployment.step network.history event }
  | .client event => { network with session := machine.step network.session event }

/-- Operations avoid the file, Interests come below the prefix of the server and meet no fault, and
the client gets packets that were sent. -/
def Allowed (machine : Machine Session ClientEvent) (served : Name) (path : Path)
    (network : Network Session) : NetworkEvent ClientEvent → Prop
  | .host (.operation request) => request.operation.Avoids path
  | .host (.interest interest) => served <+: interest.name ∧ interest.environment.faults = []
  | .client event => machine.delivered network.history.state.sent network.session event

instance (machine : Machine Session ClientEvent)
    [∀ sent session event, Decidable (machine.delivered sent session event)] (served : Name)
    (path : Path) (network : Network Session) (event : NetworkEvent ClientEvent) :
    Decidable (Allowed machine served path network event) := by
  unfold Allowed
  split <;> infer_instance

/-- An allowed event of the host keeps what it sends genuine. -/
theorem HostSound.allowed {deployment : Deployment} {machine : Machine Session ClientEvent}
    {served : Name} {root path : Path} {content : Bytes} {version : Int}
    (rooted : deployment.rootPath = root.rootText)
    (addressed : deployment.Addressed served path) (fits : content.length < 2 ^ 31)
    (known : version ≠ -1) {network : Network Session}
    (host : deployment.HostSound served root path content version network.history) {event : Event}
    (allowed : Allowed machine served path network (.host event)) :
    deployment.HostSound served root path content version
      (deployment.step network.history event) := by
  refine host.step rooted addressed fits known ?_
  cases event with
  | operation request => exact allowed
  | interest interest => exact allowed

/-- A client that genuine packets keep on its way stays on it next to the host. -/
theorem network_run {deployment : Deployment} {machine : Machine Session ClientEvent}
    {served : Name} {root path : Path} {content : Bytes} {version : Int}
    (rooted : deployment.rootPath = root.rootText)
    (addressed : deployment.Addressed served path) (fits : content.length < 2 ^ 31)
    (known : version ≠ -1) {tracks : Session → Prop}
    (keeps : ∀ history session event,
      deployment.HostSound served root path content version history → tracks session →
        machine.delivered history.state.sent session event → tracks (machine.step session event))
    {network : Network Session}
    (host : deployment.HostSound served root path content version network.history)
    (start : tracks network.session) {events : List (NetworkEvent ClientEvent)}
    (steps : Run.Steps (deployment.networkStep machine) (Allowed machine served path) network
      events) :
    Run.Holds (deployment.networkStep machine)
      (fun now => deployment.HostSound served root path content version now.history ∧
        tracks now.session) network events := by
  have preserved : ∀ (now : Network Session) (event : NetworkEvent ClientEvent),
      (deployment.HostSound served root path content version now.history ∧ tracks now.session) →
        Allowed machine served path now event →
        (deployment.HostSound served root path content version
            (deployment.networkStep machine now event).history ∧
          tracks (deployment.networkStep machine now event).session) := by
    rintro now event ⟨host, tracks⟩ allowed
    cases event with
    | client event => exact ⟨host, keeps now.history now.session event host tracks allowed⟩
    | host event => exact ⟨host.allowed rooted addressed fits known allowed, tracks⟩
  exact Run.invariant preserved steps ⟨host, start⟩

end Network

end Deployment

end Ndnfs

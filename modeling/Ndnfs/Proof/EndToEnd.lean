import Ndnfs.Proof.Network

namespace Ndnfs
open MachineInteger KeyedTable Client

/-- The console client is a machine of the network. -/
def Client.Handler.machine (handler : Handler) : Machine HandlerSession HandlerEvent :=
  ⟨handler.step, Handler.Arrives⟩

instance (handler : Handler) (sent : List Data) (session : HandlerSession) (event : HandlerEvent) :
    Decidable (handler.machine.delivered sent session event) :=
  inferInstanceAs (Decidable (Handler.Arrives sent session event))

namespace Deployment

/-- A session that has just asked for the file, and no packet below its name. -/
structure Begins (served : Name) (path : Path) (network : Network HandlerSession) : Prop where
  fresh : network.session.interests = ⟨[⟨servedName served path, .onAttrData⟩], []⟩
  total : network.session.totalSegment = 0
  current : network.session.currentSegment = 0
  unsent : ∀ data ∈ network.history.state.sent, ¬ servedName served path <+: data.name

/-- The handler reads the encodings of the server and saves a file. -/
structure Fetches (deployment : Deployment) (handler : Handler) : Prop where
  ndn : handler.ndn = deployment.ndn
  protobuf : handler.protobuf = deployment.protobuf
  fetch : handler.fetchFile = true
  named : handler.fileName ≠ []

/-- The host sends genuine packets, and the session is on its way. -/
def Sound (deployment : Deployment) (handler : Handler) (served : Name) (root path : Path)
    (content : Bytes) (version : Int) (before : Bytes) (network : Network HandlerSession) : Prop :=
  deployment.HostSound served root path content version network.history ∧
    handler.Tracks (servedName served path) version (pieces content) before network.session

theorem length_pieces_lt {content : Bytes} (fits : content.length < 2 ^ 31) :
    (pieces content).length < 2 ^ 31 := by
  rw [length_pieces]
  unfold segSize
  omega

theorem flatten_take_pieces (content : Bytes) (count : Nat) :
    ((pieces content).take count).flatten = content.take (segSize * count) := by
  rw [pieces, ← List.map_take, List.take_range, flatten_segmentBytes]
  rcases Nat.le_total count (content.length / segSize + 1) with short | long
  · rw [Nat.min_eq_left short]
  · have enough : content.length ≤ segSize * (content.length / segSize + 1) := by
      unfold segSize
      omega
    rw [Nat.min_eq_right long, List.take_of_length_le enough,
      List.take_of_length_le (Nat.le_trans enough (Nat.mul_le_mul_left segSize long))]

section Run

variable {deployment : Deployment} {handler : Handler} {served : Name} {root path : Path}
  {content before : Bytes} {version : Int} {network : Network HandlerSession}
  (rooted : deployment.rootPath = root.rootText) (addressed : deployment.Addressed served path)
  (fetches : deployment.Fetches handler) (fits : content.length < 2 ^ 31) (known : version ≠ -1)

theorem Begins.sound (begins : Begins served path network)
    (published : Served root path content version network.history.state) :
    Sound deployment handler served root path content version network.session.localFile network :=
  ⟨.first published begins.unsent, .asking (servedName served path) ⟨List.prefix_refl _,
    by rw [begins.fresh]; rfl, begins.total, begins.current, rfl⟩⟩

include rooted addressed fetches fits known

/-- Everything that an allowed run reaches is sound. -/
theorem Sound.run
    (sound : Sound deployment handler served root path content version before network)
    {events : List (NetworkEvent HandlerEvent)}
    (steps : Run.Steps (deployment.networkStep handler.machine)
      (Allowed handler.machine served path) network events) :
    Run.Holds (deployment.networkStep handler.machine)
      (Sound deployment handler served root path content version before) network events := by
  refine network_run rooted addressed fits known ?_ sound.1 sound.2 steps
  intro history session event host tracks delivered
  refine tracks.step fetches.fetch fetches.named (pieces_ne_nil content) (length_pieces_lt fits) ?_
    delivered
  rw [fetches.ndn, fetches.protobuf]
  exact host.genuine

end Run

end Deployment

namespace Reference

/-- The first file was released, and a client asks for it. -/
def asked : Network HandlerSession where
  history := ⟨releasedState, 2⟩
  session := { interests := ⟨[⟨fileName, .onAttrData⟩], []⟩, localFile := ascii "old" }

theorem fetches : deployment.Fetches Client.Reference.handler := ⟨rfl, rfl, rfl, by decide⟩

theorem published : Served root fileA (ascii "x") 2 releasedState :=
  .of_release (show deployment.rootPath = root.rootText from rfl) publishable (by decide)
    (show AccessMode.readWrite ≠ .readOnly by decide) (show (calm 2).faults = [] from rfl)

theorem begins : Deployment.Begins [ascii "ndn", ascii "broadcast", ascii "ndnfs"] fileA asked where
  fresh := by decide +kernel
  total := rfl
  current := rfl
  unsent := by decide +kernel

end Reference

namespace Deployment

/-- In every order of steps the local file has whole segments of the published content, and all of
it when the last segment has come. -/
theorem savesContent_run (deployment : Deployment) (handler : Handler) {served : Name}
    {root path : Path} {content : Bytes} {version : Int}
    (rooted : deployment.rootPath = root.rootText)
    (addressed : deployment.Addressed served path) (fetches : deployment.Fetches handler)
    (fits : content.length < 2 ^ 31) (known : version ≠ -1) {network : Network HandlerSession}
    (published : Served root path content version network.history.state)
    (begins : Begins served path network) {events : List (NetworkEvent HandlerEvent)}
    (steps : Run.Steps (deployment.networkStep handler.machine)
      (Allowed handler.machine served path) network events) :
    Run.Holds (deployment.networkStep handler.machine)
      (fun now =>
        (∃ count, now.session.localFile =
          network.session.localFile ++ content.take (segSize * count)) ∧
        (Handler.Finished now.session →
          now.session.localFile = network.session.localFile ++ content))
      network events := by
  apply (Sound.run rooted addressed fetches fits known (begins.sound published) steps).imp
  rintro now ⟨-, tracks⟩
  constructor
  · obtain ⟨count, written⟩ := tracks.written
    exact ⟨count, by rw [written, flatten_take_pieces]⟩
  · intro finished
    rw [tracks.finished finished, flatten_pieces]

/-- The segment comes while another file is made and removed. -/
theorem savesContent_run_file :
    Run.Holds (Reference.deployment.networkStep Client.Reference.handler.machine)
      (fun now =>
        (∃ count, now.session.localFile = ascii "old" ++ (ascii "x").take (segSize * count)) ∧
        (Handler.Finished now.session → now.session.localFile = ascii "old" ++ ascii "x"))
      Reference.asked
      [.host (.interest ⟨Reference.fileName, Reference.calm 3⟩),
        .host (.operation ⟨.mknod Reference.fileB Reference.regularMode, Reference.calm 4⟩),
        .client (.data ⟨Reference.fileName, .onAttrData⟩
          (Reference.server.metaPacket (ascii "/a") ⟨1, 1, 2, none, some 7⟩)),
        .host (.interest ⟨Reference.segmentName 2 0, Reference.calm 5⟩),
        .host (.operation ⟨.unlink Reference.fileB, Reference.calm 6⟩),
        .client (.data ⟨Reference.segmentName 2 0, .onFileData⟩
          (Reference.signedReply (ascii "x")))] :=
  savesContent_run Reference.deployment Client.Reference.handler
    (show Reference.deployment.rootPath = Reference.root.rootText from rfl) Reference.addressed
    Reference.fetches (by decide) (by decide) Reference.published Reference.begins
    (by decide +kernel)

/-- The event is allowed, and an Interest does not end the server. -/
def AllowedAlive (deployment : Deployment) (handler : Handler) (served : Name) (path : Path)
    (network : Network HandlerSession) (event : NetworkEvent HandlerEvent) : Prop :=
  Allowed handler.machine served path network event ∧
    match event with
    | .host (.interest interest) => deployment.server.Survives interest.name
    | .host (.operation _) | .client _ => True

instance (deployment : Deployment) (handler : Handler) (served : Name) (path : Path)
    (network : Network HandlerSession) (event : NetworkEvent HandlerEvent) :
    Decidable (deployment.AllowedAlive handler served path network event) := by
  unfold AllowedAlive
  refine @instDecidableAnd _ _ inferInstance ?_
  split <;> infer_instance

/-- Some such events lead to a session that has received its last segment. -/
def CanFinish (deployment : Deployment) (handler : Handler) (served : Name) (path : Path)
    (network : Network HandlerSession) : Prop :=
  ∃ events, Run.Steps (deployment.networkStep handler.machine)
      (deployment.AllowedAlive handler served path) network events ∧
    Handler.Finished (Run.after (deployment.networkStep handler.machine) network events).session

section Progress

variable {deployment : Deployment} {handler : Handler} {served : Name} {root path : Path}
  {content before : Bytes} {version : Int} {network : Network HandlerSession}
  (rooted : deployment.rootPath = root.rootText) (addressed : deployment.Addressed served path)
  (fetches : deployment.Fetches handler) (fits : content.length < 2 ^ 31) (known : version ≠ -1)

theorem AllowedAlive.allowed {events : List (NetworkEvent HandlerEvent)}
    (steps : Run.Steps (deployment.networkStep handler.machine)
      (deployment.AllowedAlive handler served path) network events) :
    Run.Steps (deployment.networkStep handler.machine) (Allowed handler.machine served path)
      network events :=
  steps.imp fun _ _ allowed => allowed.1

theorem CanFinish.after {events : List (NetworkEvent HandlerEvent)}
    (steps : Run.Steps (deployment.networkStep handler.machine)
      (deployment.AllowedAlive handler served path) network events)
    (finishes : CanFinish deployment handler served path
      (Run.after (deployment.networkStep handler.machine) network events)) :
    CanFinish deployment handler served path network := by
  obtain ⟨later, steps', finished⟩ := finishes
  exact ⟨events ++ later, steps.append steps', by rwa [Run.after_append]⟩

include rooted addressed fetches fits known

end Progress

end Deployment

end Ndnfs

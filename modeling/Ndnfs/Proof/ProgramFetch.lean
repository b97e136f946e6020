import Ndnfs.Proof.PipelinedFetch
import Ndnfs.Proof.EndToEnd
import Ndnfs.Proof.MetadataWait

namespace Ndnfs
open MachineInteger KeyedTable Client

namespace Client.CatFile

/-- Only packets that were sent and that satisfy the Interest come. -/
def Gets (sent : List Data) (session : CatSession) : CatEvent → Prop
  | .data interest data =>
      session.interests.Outstanding interest ∧ data ∈ sent ∧ interest.name <+: data.name
  | .timeout interest => session.interests.Outstanding interest
  | .verified data | .verifyFailed data => data ∈ session.verifying

instance (sent : List Data) (session : CatSession) : (event : CatEvent) →
    Decidable (Gets sent session event)
  | .data interest data => inferInstanceAs (Decidable (session.interests.Outstanding interest ∧
      data ∈ sent ∧ interest.name <+: data.name))
  | .timeout interest => inferInstanceAs (Decidable (session.interests.Outstanding interest))
  | .verified data | .verifyFailed data => inferInstanceAs (Decidable (data ∈ session.verifying))

/-- The program is a machine of the network. -/
def machine (client : CatFile) : Machine CatSession CatEvent := ⟨client.step, Gets⟩

instance (client : CatFile) (sent : List Data) (session : CatSession) (event : CatEvent) :
    Decidable (client.machine.delivered sent session event) :=
  inferInstanceAs (Decidable (Gets sent session event))

/-- The content of a packet that comes for a segment. -/
def content : CatEvent → Option Bytes
  | .data ⟨_, .onFileData⟩ data => some data.content
  | _ => none

/-- The contents that come in a run of the network. -/
def contents (events : List (NetworkEvent CatEvent)) : List Bytes :=
  events.filterMap fun
    | .client event => content event
    | .host _ => none

/-- No Interest times out. -/
def Untimed (events : List (NetworkEvent CatEvent)) : Prop :=
  ∀ interest, .client (.timeout interest) ∉ events

def segmentInterest (client : CatFile) (base : Name) (version : Int) (seg : Nat) :
    BoundInterest CatCallback :=
  ⟨segmentName client.ndn base version seg, .onFileData⟩

/-- The program waits for this segment. -/
structure Awaits (client : CatFile) (base : Name) (version : Int) (pieces : List Bytes) (seg : Nat)
    (session : CatSession) : Prop where
  known : seg < pieces.length
  next : session.interests.requested =
    session.interests.answered ++ [client.segmentInterest base version seg]
  fileName : session.fileName = base ++ [client.ndn.versionComponent version]
  total : session.totalSeg = pieces.length
  running : session.done = false
  alive : session.ended = false

/-- The program has nothing to wait for. -/
structure Rests (session : CatSession) : Prop where
  idle : session.interests.requested = session.interests.answered
  alive : session.ended = false

section Session

variable {client : CatFile} {base : Name} {version : Int} {pieces : List Bytes} {seg : Nat}
  {session : CatSession}

/-- These are the outcomes of an event while the program waits for a segment. -/
inductive Follows (client : CatFile) (base : Name) (version : Int) (pieces : List Bytes) (seg : Nat)
    (session : CatSession) (event : CatEvent) : Prop where
  | same (awaits : client.Awaits base version pieces seg session) (nothing : content event = none)
  | next (awaits : client.Awaits base version pieces (seg + 1) session)
      (piece : content event = pieces[seg]?)
  | last (rests : Rests session) (piece : content event = pieces[seg]?)
      (nonempty : pieces[seg]? ≠ some []) (all : seg + 1 = pieces.length)
  | lost (rests : Rests session) (interest : BoundInterest CatCallback)
      (timeout : event = .timeout interest)

/-- A genuine segment leads to the next one or to the end of the loop. -/
theorem Awaits.receive (fits : pieces.length < 2 ^ 31)
    (awaits : client.Awaits base version pieces seg session) {data : Data} {piece : Bytes}
    (known : pieces[seg]? = some piece)
    (genuine : Genuine client.ndn client.protobuf base version pieces data)
    (satisfied : segmentName client.ndn base version seg <+: data.name)
    (nonempty : data.content ≠ []) :
    client.Follows base version pieces seg
      (client.step session (.data (client.segmentInterest base version seg) data))
      (.data (client.segmentInterest base version seg) data) := by
  have inside := awaits.known
  obtain ⟨name, rfl⟩ := genuine.segment seg piece known satisfied
  have shape : data.name = (base ++ [client.ndn.versionComponent version]) ++
      [client.ndn.segmentComponent seg] := by
    rw [name, segmentName, List.append_assoc]
    rfl
  have run : client.step session (.data (client.segmentInterest base version seg) data) =
      client.onFileData data { session with
        interests := session.interests.answer (client.segmentInterest base version seg) } := rfl
  rw [run, client.onFileData_segment (Nat.lt_of_le_of_lt inside fits) shape
    (genuine.final seg _ known satisfied)]
  dsimp only
  rw [awaits.total]
  by_cases last : ((seg + 1 : Nat) : Int) = pieces.length
  · rw [if_pos last]
    refine .last ⟨awaits.next, awaits.alive⟩ known.symm ?_ (Int.ofNat_inj.mp last)
    rw [known]
    exact fun empty => nonempty (Option.some.inj empty)
  · rw [if_neg last, awaits.fileName]
    refine .next ⟨by omega, ?_, rfl, rfl, awaits.running, awaits.alive⟩ known.symm
    simp only [CatSession.expressInterest, CatSession.verifyData, Ledger.requested_request,
      Ledger.requested_answer, Ledger.answered_request, Ledger.answered_answer, awaits.next,
      segmentInterest, segmentName, List.append_assoc, List.cons_append, List.nil_append]

/-- Whatever the program gets while it waits for a segment has one of these outcomes. -/
theorem Awaits.step (fits : pieces.length < 2 ^ 31)
    (awaits : client.Awaits base version pieces seg session) {sent : List Data}
    (genuine : ∀ data ∈ sent, base <+: data.name →
      Genuine client.ndn client.protobuf base version pieces data)
    (nonempty : ∀ data ∈ sent, ∀ seg, data.name = segmentName client.ndn base version seg →
      data.content ≠ []) {event : CatEvent} (gets : Gets sent session event) :
    client.Follows base version pieces seg (client.step session event) event := by
  cases event with
  | verified data =>
      exact .same ⟨awaits.known, awaits.next, awaits.fileName, awaits.total, awaits.running,
        awaits.alive⟩ rfl
  | verifyFailed data =>
      exact .same ⟨awaits.known, awaits.next, awaits.fileName, awaits.total, awaits.running,
        awaits.alive⟩ rfl
  | timeout interest =>
      obtain rfl := (Ledger.outstanding_last_iff awaits.next).mp gets
      exact .lost ⟨awaits.next, awaits.alive⟩ _ rfl
  | data interest data =>
      obtain ⟨outstanding, member, satisfied⟩ := gets
      obtain rfl := (Ledger.outstanding_last_iff awaits.next).mp outstanding
      obtain ⟨piece, known⟩ : ∃ piece, pieces[seg]? = some piece :=
        ⟨_, List.getElem?_eq_getElem awaits.known⟩
      have below := genuine data member ((List.prefix_append _ _).trans satisfied)
      have named := (below.segment seg _ known satisfied).1
      exact awaits.receive fits known below satisfied (nonempty data member seg named)

/-- A packet for the metadata Interest leads to the first segment or is rejected. -/
theorem metadata_received (nonempty : pieces ≠ []) {text : Bytes} {data : Data}
    (genuine : Genuine client.ndn client.protobuf base version pieces data) :
    (Rests (client.step (client.main text false) (.data (client.metaInterest text) data)) ∧
        (client.step (client.main text false) (.data (client.metaInterest text) data)).done =
          false) ∨
      client.Awaits base version pieces 0
        (client.step (client.main text false) (.data (client.metaInterest text) data)) := by
  obtain ⟨front, marker, last, name, found⟩ := exists_marker genuine.long
  have run : client.step (client.main text false) (.data (client.metaInterest text) data) =
      client.onMetaData data { client.main text false with
        interests := ⟨[client.metaInterest text], [client.metaInterest text]⟩ } := rfl
  by_cases file : client.ndn.toEscapedString marker = fileComponentName
  · obtain ⟨totalSize, goes⟩ := client.onMetaData_announces
      (genuine.metadata front marker last name file) { client.main text false with
        interests := ⟨[client.metaInterest text], [client.metaInterest text]⟩ }
    rw [run, goes]
    refine .inr ⟨List.length_pos_iff.mpr nonempty, ?_, rfl, rfl, rfl, rfl⟩
    simp only [Ledger.requested_request, Ledger.answered_request, segmentInterest, segmentName,
      List.append_assoc]
    rfl
  · rw [run, client.onMetaData_other found file]
    exact .inl ⟨⟨rfl, rfl⟩, rfl⟩

end Session

end Client.CatFile

namespace Client.CatFilePipe

/-- Only packets that were sent and that satisfy the Interest come. -/
def Gets (sent : List Data) (session : PipeSession) : PipeEvent → Prop
  | .data interest data =>
      session.interests.Outstanding interest ∧ data ∈ sent ∧ interest.name <+: data.name
  | .timeout interest => session.interests.Outstanding interest

instance (sent : List Data) (session : PipeSession) : (event : PipeEvent) →
    Decidable (Gets sent session event)
  | .data interest data => inferInstanceAs (Decidable (session.interests.Outstanding interest ∧
      data ∈ sent ∧ interest.name <+: data.name))
  | .timeout interest => inferInstanceAs (Decidable (session.interests.Outstanding interest))

/-- The program is a machine of the network. -/
def machine (client : CatFilePipe) : Machine PipeSession PipeEvent := ⟨client.step, Gets⟩

instance (client : CatFilePipe) (sent : List Data) (session : PipeSession) (event : PipeEvent) :
    Decidable (client.machine.delivered sent session event) :=
  inferInstanceAs (Decidable (Gets sent session event))

/-- The Interest for the metadata is all that the program has. -/
inductive Unanswered (client : CatFilePipe) (text : Bytes) (session : PipeSession) : Prop where
  | waits (same : session = client.main text false)
  | timedOut (same : session = { client.main text false with
      done := true
      interests := ⟨[client.metaInterest text], [client.metaInterest text]⟩ })

end Client.CatFilePipe

namespace Deployment

open Client.CatFile

section Network

variable {deployment : Deployment} {client : CatFile} {served : Name} {root path : Path}
  {content : Bytes} {version : Int} {network : Network CatSession}

variable (deployment) in
/-- With nothing to wait for, no segment comes any more. -/
theorem Rests.run (rests : Rests network.session) {events : List (NetworkEvent CatEvent)}
    (steps : Run.Steps (deployment.networkStep client.machine)
      (Allowed client.machine served path) network events) :
    contents events = [] ∧
      (Run.after (deployment.networkStep client.machine) network events).session.ended = false ∧
      (Run.after (deployment.networkStep client.machine) network events).session.done =
        network.session.done := by
  induction events generalizing network with
  | nil => exact ⟨rfl, rests.alive, rfl⟩
  | cons event events ih =>
      obtain ⟨allowed, steps⟩ := steps
      cases event with
      | host event => exact ih rests steps
      | client event =>
          cases event with
          | data interest data =>
              exact absurd allowed.1 (Ledger.not_outstanding rests.idle interest)
          | timeout interest => exact absurd allowed (Ledger.not_outstanding rests.idle interest)
          | verified data => exact ih ⟨rests.idle, rests.alive⟩ steps
          | verifyFailed data => exact ih ⟨rests.idle, rests.alive⟩ steps

/-- The last piece has bytes when some are left over. -/
theorem partial_of_last {seg : Nat} (nonempty : (pieces content)[seg]? ≠ some [])
    (all : seg + 1 = (pieces content).length) : content.length % segSize ≠ 0 := by
  intro whole
  have count := length_pieces content
  refine nonempty (getElem?_pieces.mpr ⟨by omega, List.length_eq_zero_iff.mp ?_ |>.symm⟩)
  rw [segmentBytes_length]
  unfold segSize at whole count ⊢
  omega

/-- From the segment that is awaited on, the pieces come in order and each of them once. -/
theorem Awaits.run (rooted : deployment.rootPath = root.rootText)
    (addressed : deployment.Addressed served path) (ndn : client.ndn = deployment.ndn)
    (protobuf : client.protobuf = deployment.protobuf) (fits : content.length < 2 ^ 31)
    (known : version ≠ -1) {seg : Nat}
    (host : deployment.HostSound served root path content version network.history)
    (awaits : client.Awaits (servedName served path) version (pieces content) seg network.session)
    {events : List (NetworkEvent CatEvent)}
    (steps : Run.Steps (deployment.networkStep client.machine)
      (Allowed client.machine served path) network events) :
    (∃ count, contents events = ((pieces content).drop seg).take count) ∧
      (Run.after (deployment.networkStep client.machine) network events).session.ended = false ∧
      ((Run.after (deployment.networkStep client.machine) network events).session.done = true →
        Untimed events →
          contents events = (pieces content).drop seg ∧ content.length % segSize ≠ 0) := by
  induction events generalizing network seg with
  | nil =>
      refine ⟨⟨0, by simp [contents]⟩, awaits.alive, fun done => ?_⟩
      exact absurd (awaits.running.symm.trans done) Bool.false_ne_true
  | cons event events ih =>
      obtain ⟨allowed, steps⟩ := steps
      have later : Untimed (event :: events) → Untimed events :=
        fun untimed interest member => untimed interest (List.mem_cons_of_mem _ member)
      cases event with
      | host event =>
          obtain ⟨received, alive, finished⟩ :=
            @ih (deployment.networkStep client.machine network (.host event)) seg
              (host.allowed rooted addressed fits known allowed) awaits steps
          exact ⟨received, alive, fun done untimed => finished done (later untimed)⟩
      | client event =>
          have genuine := host.genuine
          have nonempty := host.nonempty
          rw [← ndn, ← protobuf] at genuine
          rw [← ndn] at nonempty
          obtain ⟨piece, found, split⟩ : ∃ piece, (pieces content)[seg]? = some piece ∧
              (pieces content).drop seg = piece :: (pieces content).drop (seg + 1) :=
            ⟨_, List.getElem?_eq_getElem awaits.known, List.drop_eq_getElem_cons awaits.known⟩
          cases awaits.step (length_pieces_lt fits) genuine nonempty allowed with
          | same next nothing =>
              obtain ⟨received, alive, finished⟩ :=
                @ih (deployment.networkStep client.machine network (.client event)) seg host next
                  steps
              have same : contents (.client event :: events) = contents events :=
                List.filterMap_cons_none nothing
              rw [same]
              exact ⟨received, alive, fun done untimed => finished done (later untimed)⟩
          | next next here =>
              obtain ⟨⟨count, received⟩, alive, finished⟩ :=
                @ih (deployment.networkStep client.machine network (.client event)) (seg + 1) host
                  next steps
              have longer : contents (.client event :: events) = piece :: contents events :=
                List.filterMap_cons_some (here.trans found)
              rw [longer, split]
              refine ⟨⟨count + 1, congrArg _ received⟩, alive, fun done untimed => ?_⟩
              exact (finished done (later untimed)).imp_left (congrArg _)
          | last rests here nonempty all =>
              obtain ⟨none, alive, -⟩ := Rests.run deployment rests steps
              have one : contents (.client event :: events) = piece :: contents events :=
                List.filterMap_cons_some (here.trans found)
              rw [one, none, split, List.drop_eq_nil_of_le (Nat.le_of_eq all.symm)]
              exact ⟨⟨1, rfl⟩, alive, fun _ _ => ⟨rfl, partial_of_last nonempty all⟩⟩
          | lost rests interest timeout =>
              obtain ⟨none, alive, -⟩ := Rests.run deployment rests steps
              subst timeout
              exact ⟨⟨0, none⟩, alive, fun _ untimed => absurd List.mem_cons_self (untimed _)⟩

end Network

end Deployment

namespace Reference

/-- The name of the file as a client gets it. -/
def uriText : Bytes := ascii "/ndn/broadcast/ndnfs/a"

theorem named_uriText : ndn.nameOfUri uriText =
    servedName [ascii "ndn", ascii "broadcast", ascii "ndnfs"] fileA := by decide +kernel

/-- The metadata and the only segment come, and another file is made. -/
def catEvents : List (NetworkEvent CatEvent) :=
  [.host (.interest ⟨(Client.Reference.catFile.metaInterest uriText).name, calm 3⟩),
    .client (.data (Client.Reference.catFile.metaInterest uriText)
      (server.metaPacket (ascii "/a") ⟨1, 1, 2, none, some 7⟩)),
    .host (.operation ⟨.mknod fileB regularMode, calm 4⟩),
    .host (.interest ⟨segmentName 2 0, calm 5⟩),
    .client (.data ⟨segmentName 2 0, .onFileData⟩ (signedReply (ascii "x"))),
    .client (.verified (signedReply (ascii "x")))]

end Reference

namespace Deployment

open Client.CatFile

/-- In every order of steps cat_file gets the pieces of the published content in order and each of
them once, and it ends by an exception in none; without a timeout its loop ends only with the whole
content, and only if the last segment has bytes. -/
theorem receivesContent_run (deployment : Deployment) (client : CatFile) {served : Name}
    {root path : Path} {content : Bytes} {version : Int}
    (rooted : deployment.rootPath = root.rootText)
    (addressed : deployment.Addressed served path) (ndn : client.ndn = deployment.ndn)
    (protobuf : client.protobuf = deployment.protobuf) (fits : content.length < 2 ^ 31)
    (known : version ≠ -1) {text : Bytes}
    (named : client.ndn.nameOfUri text = servedName served path)
    {history : History} (published : Served root path content version history.state)
    (unsent : ∀ data ∈ history.state.sent, ¬ servedName served path <+: data.name)
    {events : List (NetworkEvent CatEvent)}
    (steps : Run.Steps (deployment.networkStep client.machine)
      (Allowed client.machine served path) ⟨history, client.main text false⟩ events) :
    (∃ count, contents events = (pieces content).take count) ∧
      (Run.after (deployment.networkStep client.machine)
        ⟨history, client.main text false⟩ events).session.ended = false ∧
      ((Run.after (deployment.networkStep client.machine)
          ⟨history, client.main text false⟩ events).session.done = true → Untimed events →
        (contents events).flatten = content ∧ content.length % segSize ≠ 0) := by
  have asks : (client.main text false).interests = ⟨[client.metaInterest text], []⟩ := rfl
  have under : servedName served path <+: (client.metaInterest text).name := by
    rw [metaInterest, named]
    exact List.prefix_append _ _
  have host : deployment.HostSound served root path content version history :=
    .first published unsent
  clear published unsent
  induction events generalizing history with
  | nil => exact ⟨⟨0, rfl⟩, rfl, fun done => absurd done Bool.false_ne_true⟩
  | cons event events ih =>
      obtain ⟨allowed, steps⟩ := steps
      have later : Untimed (event :: events) → Untimed events :=
        fun untimed interest member => untimed interest (List.mem_cons_of_mem _ member)
      cases event with
      | host event =>
          obtain ⟨received, alive, finished⟩ := ih steps (host.allowed rooted addressed fits known
            allowed)
          exact ⟨received, alive, fun done untimed => finished done (later untimed)⟩
      | client event =>
          cases event with
          | verified data => exact absurd allowed List.not_mem_nil
          | verifyFailed data => exact absurd allowed List.not_mem_nil
          | timeout interest =>
              obtain rfl := (Ledger.outstanding_last_iff (congrArg Ledger.requested asks)).mp
                allowed
              obtain ⟨none, alive, -⟩ := Rests.run deployment
                (show Rests _ from ⟨rfl, rfl⟩) steps
              exact ⟨⟨0, none⟩, alive, fun _ untimed => absurd List.mem_cons_self (untimed _)⟩
          | data interest data =>
              obtain ⟨outstanding, member, satisfied⟩ := allowed
              obtain rfl := (Ledger.outstanding_last_iff (congrArg Ledger.requested asks)).mp
                outstanding
              have genuine := host.genuine data member (under.trans satisfied)
              rw [← ndn, ← protobuf] at genuine
              have nothing : contents (.client (.data (client.metaInterest text) data) :: events) =
                  contents events := List.filterMap_cons_none rfl
              rw [nothing]
              rcases metadata_received (pieces_ne_nil content) genuine with
                ⟨rests, running⟩ | awaits
              · obtain ⟨none, alive, kept⟩ := Rests.run deployment rests steps
                exact ⟨⟨0, none⟩, alive, fun done =>
                  absurd (running.symm.trans (kept.symm.trans done)) Bool.false_ne_true⟩
              · obtain ⟨received, alive, finished⟩ :=
                  Awaits.run rooted addressed ndn protobuf fits known host awaits steps
                refine ⟨received, alive, fun done untimed => ?_⟩
                obtain ⟨all, partial_last⟩ := finished done (later untimed)
                rw [all]
                exact ⟨flatten_pieces content, partial_last⟩

/-- The file with one byte is fetched while another one is made. -/
theorem receivesContent_run_file :
    (∃ count, contents Reference.catEvents = (pieces (ascii "x")).take count) ∧
      (Run.after (Reference.deployment.networkStep Client.Reference.catFile.machine)
        ⟨⟨Reference.releasedState, 2⟩, Client.Reference.catFile.main Reference.uriText false⟩
        Reference.catEvents).session.ended = false ∧
      ((Run.after (Reference.deployment.networkStep Client.Reference.catFile.machine)
          ⟨⟨Reference.releasedState, 2⟩, Client.Reference.catFile.main Reference.uriText false⟩
          Reference.catEvents).session.done = true → Untimed Reference.catEvents →
        (contents Reference.catEvents).flatten = ascii "x" ∧
          (ascii "x").length % segSize ≠ 0) :=
  receivesContent_run Reference.deployment Client.Reference.catFile
    (show Reference.deployment.rootPath = Reference.root.rootText from rfl) Reference.addressed
    rfl rfl (by decide) (by decide) Reference.named_uriText Reference.published
    (by decide +kernel) (by decide +kernel)

/-- cat_file_pipe never gets the metadata of a published file, so in no order of steps does it ask
for a segment. -/
theorem pipeUnanswered_run (deployment : Deployment) (client : CatFilePipe) {served : Name}
    {root path : Path} {content : Bytes} {version : Int}
    (rooted : deployment.rootPath = root.rootText)
    (addressed : deployment.Addressed served path) (fits : content.length < 2 ^ 31)
    (known : version ≠ -1) {text : Bytes}
    (named : client.ndn.nameOfUri text = servedName served path)
    {history : History} (published : Served root path content version history.state)
    (unsent : ∀ data ∈ history.state.sent, ¬ servedName served path <+: data.name)
    {events : List (NetworkEvent PipeEvent)}
    (steps : Run.Steps (deployment.networkStep client.machine)
      (Allowed client.machine served path) ⟨history, client.main text false⟩ events) :
    Run.Holds (deployment.networkStep client.machine)
      (fun now => client.Unanswered text now.session) ⟨history, client.main text false⟩ events := by
  have asks : (client.main text false).interests = ⟨[client.metaInterest text], []⟩ := rfl
  have plain : componentKind fileComponentName = .plain := by decide
  refine (network_run rooted addressed fits known ?_ (.first published unsent) (.waits rfl)
    steps).imp fun now sound => sound.2
  rintro now session event host unanswered gets
  have outstanding : session.interests.Outstanding event.interest := by
    cases event with
    | data interest data => exact gets.1
    | timeout interest => exact gets
  cases unanswered with
  | timedOut same =>
      rw [same] at outstanding
      exact absurd outstanding (Ledger.not_outstanding rfl event.interest)
  | waits same =>
      rw [same] at outstanding ⊢
      have here := (Ledger.outstanding_last_iff (congrArg Ledger.requested asks)).mp outstanding
      cases event with
      | timeout interest =>
          obtain rfl : interest = client.metaInterest text := here
          exact .timedOut rfl
      | data interest data =>
          obtain rfl : interest = client.metaInterest text := here
          obtain ⟨-, member, satisfied⟩ := gets
          rw [CatFilePipe.metaInterest, named] at satisfied
          have under : servedName served path <+: data.name :=
            (List.prefix_append _ _).trans satisfied
          exact absurd satisfied ((host.genuine data member under).behind fileComponentName plain)

/-- The server is asked by the program, another file is made, and the Interest times out. -/
theorem pipeUnanswered_run_timeout :
    Run.Holds (Reference.deployment.networkStep Client.Reference.catFilePipe.machine)
      (fun now => Client.Reference.catFilePipe.Unanswered Reference.uriText now.session)
      ⟨⟨Reference.releasedState, 2⟩, Client.Reference.catFilePipe.main Reference.uriText false⟩
      [.host (.interest ⟨Reference.fileName ++ [fileComponentName], Reference.calm 3⟩),
        .host (.operation ⟨.mknod Reference.fileB Reference.regularMode, Reference.calm 4⟩),
        .client (.timeout (Client.Reference.catFilePipe.metaInterest Reference.uriText))] :=
  pipeUnanswered_run Reference.deployment Client.Reference.catFilePipe
    (show Reference.deployment.rootPath = Reference.root.rootText from rfl) Reference.addressed
    (by decide) (by decide) Reference.named_uriText Reference.published (by decide +kernel)
    (by decide +kernel)

end Deployment

end Ndnfs

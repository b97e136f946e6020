import Ndnfs.Foundation.Noninterference
import Ndnfs.Proof.SameObject

namespace Ndnfs
open Effect Program KeyedTable MachineInteger

namespace Server

/-- The statements that the server steps for a path. -/
inductive Asks (path : Bytes) : Statement → Prop
  | mimeType : Asks path (.selectMimeType path)
  | fileMeta : Asks path (.selectFileMeta path)
  | fileSegment (version seg : Int) : Asks path (.selectFileSegment path version seg)
  | fileVersion (version : Int) : Asks path (.selectFileVersion path version)

/-- The calls that the server makes for a file. -/
inductive Calls (server : Server) (root path : Path) : Call Cursor Location → Prop
  | idle {call : Call Cursor Location} (idle : Operation.Idle call) : Calls server root path call
  | uninitialised : Calls server root path .uninitialised
  | columnText (stmt : Cursor) (index : Nat) : Calls server root path (.columnText stmt index)
  | columnBlob (stmt : Cursor) (index : Nat) : Calls server root path (.columnBlob stmt index)
  | readBlob (pointer : Cursor × Nat) : Calls server root path (.readBlob pointer)
  | step {statement : Statement} (asks : Asks path.text statement) (row : Row) :
      Calls server root path (.step ⟨statement, row⟩)
  | openFile : Calls server root path (.openFile (server.filePath path.text) O_RDONLY)
  | stat : Calls server root path (.stat (server.filePath path.text))
  | pread (count : Nat) (offset : Int) :
      Calls server root path (.pread (root.locate path) count offset)
  | putData (data : Data) : Calls server root path (.putData data)

section Along

variable {server : Server} {root path : Path} (rooted : server.fsPath = root.rootText)
  (world : World)

theorem calls_readFileSize : (server.readFileSize path.text).Along handle
    (fun call _ => server.Calls root path call) world := by
  simp only [readFileSize, along_bind, along_perform]
  refine ⟨.stat, ?_⟩
  split
  · trivial
  · simp only [along_bind, along_perform]
    exact ⟨.uninitialised, trivial⟩

theorem calls_sendFileMeta (mimeType : Bytes) (version type : Int) :
    (server.sendFileMeta path.text mimeType version type).Along handle
      (fun call _ => server.Calls root path call) world := by
  simp only [sendFileMeta, along_bind]
  refine ⟨⟨.idle (.prepare _), .step (.fileVersion version) _, .idle (.finalize _), trivial⟩, ?_⟩
  split
  · trivial
  · split
    · simp only [along_bind, along_perform, along_pure, and_true]
      exact ⟨calls_readFileSize _, .putData _⟩
    · exact ⟨.putData _, trivial⟩

include rooted

theorem calls_sendFileContent (interestName : Name) (version seg : Int) :
    (server.sendFileContent interestName path.text version seg).Along handle
      (fun call _ => server.Calls root path call) world := by
  simp only [sendFileContent, along_bind, along_perform]
  refine ⟨.idle (.prepare _), .step (.fileSegment version _) _, ?_⟩
  split
  · exact ⟨.idle (.finalize _), trivial⟩
  · simp only [along_bind, along_perform]
    refine ⟨.columnBlob _ _, .idle (.finalize _), .readBlob _, calls_readFileSize _, .openFile, ?_⟩
    split
    · trivial
    · rename_i location opened
      obtain rfl := opened_location (server.filePath_text rooted path) .readOnly opened
      simp only [along_bind, along_perform]
      refine ⟨.pread _ _, .idle (.close _), ?_⟩
      split
      · trivial
      · split
        · exact ⟨.putData _, trivial⟩
        · trivial

/-- For a file with a row the server makes only calls about this file. -/
theorem along_serverCalls {state : State} (environment : Environment)
    (known : state.db.fileSystem.Has path.text) {name : Name} {parsed : Parsed}
    (parse : server.parseName name = .ok parsed) (names : parsed.path = path.text) :
    (server.onInterestCallback name).Along handle (fun call _ => server.Calls root path call)
      ⟨state, environment⟩ := by
  obtain ⟨ret, version, seg, text⟩ := parsed
  obtain rfl : text = path.text := names
  rw [along_parsed_iff state environment parse, onParsedName]
  split
  · simp only [along_bind, along_pure, and_true]
    exact calls_sendFileContent rooted _ name version seg
  · split
    · simp only [along_bind, along_perform]
      refine ⟨.idle (.prepare _), .step .mimeType _, ?_⟩
      split
      · exact ⟨.idle (.finalize _), trivial⟩
      · simp only [along_bind, along_perform, along_pure, and_true]
        exact ⟨.columnText _ _, .idle (.columnInt _ _), .idle (.finalize _),
          calls_sendFileContent rooted _ name version (-1)⟩
    · split
      · simp only [along_bind, along_perform]
        refine ⟨.idle (.prepare _), .step .fileMeta _, ?_⟩
        split
        · rename_i other
          simp only [run_perform, handle, Database.execute, code_select_lookup, if_pos known,
            ne_eq, not_true_eq_false] at other
        · simp only [along_bind, along_perform]
          refine ⟨.idle (.columnInt _ _), .columnText _ _, ?_⟩
          split
          · simp only [along_bind, along_perform, along_pure, and_true, true_and]
            exact ⟨.idle (.columnInt _ _), .idle (.finalize _), calls_sendFileMeta _ _ _ _⟩
          · simp only [along_bind, along_perform, along_pure, and_true, true_and]
            exact ⟨.columnText _ _, .idle (.columnInt _ _), .idle (.finalize _),
              calls_sendFileMeta _ _ _ _⟩
      · trivial

end Along

end Server

/-- Both hosts answer a request for the file alike. -/
structure SameHandling (root path : Path) (alone world : World) : Prop where
  environment : alone.environment = world.environment
  sent : alone.state.sent = world.state.sent
  object : SameObject root path alone.state world.state
  file : IsFile (alone.state.disk.entry (root.locate path))

section Respects

variable {server : Server} {root path : Path} (rooted : server.fsPath = root.rootText)

theorem Server.Asks.alike {statement : Statement} (asks : Asks path.text statement)
    {db db' : Database} (rows : AlikeRows (fun text => text = path.text) db db') :
    (db.execute statement).1 = (db'.execute statement).1 := by
  cases asks with
  | mimeType => simp only [Database.execute, rows.rows path.text rfl]
  | fileMeta => simp only [Database.execute, rows.rows path.text rfl]
  | fileSegment version seg =>
      simp only [Database.execute, rows.segments (path.text, version, seg) rfl]
  | fileVersion version =>
      simp only [Database.execute, rows.versions (path.text, version) rfl]

theorem Server.Asks.db {statement : Statement} (asks : Asks path.text statement) (db : Database) :
    (db.execute statement).2 = db := by
  cases asks <;> rfl

include rooted

/-- The calls about a file see only its object and its rows. -/
theorem Server.Calls.respects {call : Call Cursor Location} (calls : server.Calls root path call) :
    Respects handle (SameHandling root path) call := by
  intro alone world same
  have next : alone.environment.next = world.environment.next := congrArg _ same.environment
  obtain ⟨entry, present⟩ := Option.ne_none_iff_exists'.mp same.file.1
  have present' := same.object.entry.symm.trans present
  cases calls with
  | idle quiet =>
      cases quiet with
      | time => exact ⟨congrArg Environment.now same.environment, same⟩
      | prepare statement => exact ⟨rfl, same⟩
      | columnInt stmt index => exact ⟨rfl, same⟩
      | finalize stmt => exact ⟨rfl, same⟩
      | close location =>
          refine ⟨?_, next, same.sent, same.object, same.file⟩
          simp only [handle, World.inspect, same.environment]
  | uninitialised => exact ⟨congrArg Environment.uninitialised same.environment, same⟩
  | columnText stmt index => exact ⟨rfl, same⟩
  | columnBlob stmt index => exact ⟨rfl, same⟩
  | readBlob pointer =>
      exact ⟨congrFun (congrArg Environment.freed same.environment) _, same⟩
  | step asks row =>
      simp only [handle, asks.alike same.object.rows, asks.db]
      exact ⟨trivial, same⟩
  | openFile =>
      simp only [handle, World.attempt, Disk.openText_readOnly, server.filePath_text rooted,
        alone.state.disk.lookupText_some present, world.state.disk.lookupText_some present',
        Except.map, same.environment]
      cases fault : world.environment.faults.head?.join with
      | none =>
          simp only [Environment.outcome, fault]
          exact ⟨trivial, rfl, same.sent, same.object, same.file⟩
      | some error =>
          simp only [Environment.outcome, fault]
          exact ⟨trivial, rfl, same.sent, same.object, same.file⟩
  | stat =>
      have stat : alone.state.disk.statText (server.filePath path.text) =
          world.state.disk.statText (server.filePath path.text) := by
        rw [Disk.statText, Disk.statText, server.filePath_text rooted,
          alone.state.disk.find_of_entry same.file.1,
          world.state.disk.find_of_entry (same.object.entry ▸ same.file.1)]
        dsimp only
        rw [same.object.node]
      refine ⟨?_, next, same.sent, same.object, same.file⟩
      simp only [handle, World.inspect, same.environment, stat]
  | pread count offset =>
      refine ⟨?_, next, same.sent, same.object, same.file⟩
      simp only [handle, World.inspect, same.environment, Disk.pread, same.object.entry]
  | putData data =>
      refine ⟨rfl, same.environment, ?_, ⟨same.object.node, same.object.rows⟩, same.file⟩
      simp only [handle, same.sent]

end Respects

theorem Operation.Change.sent {root : Path} {now : Int} {operation : Operation}
    {state state' : State} (change : operation.Change root now state state') :
    state'.sent = state.sent := by
  cases change <;> rfl

/-- The file system makes one call of its own while the server is at work. -/
structure FsCall where
  call : Call Cursor Location
  environment : Environment

namespace FsCall

def interfere (world : World) (event : FsCall) : World :=
  ⟨(handle event.call ⟨world.state, event.environment⟩).2.state, world.environment⟩

/-- It is a call of an operation that avoids the file. -/
def Avoids (root path : Path) (event : FsCall) : Prop :=
  ∃ operation : Operation, operation.Avoids path ∧
    operation.Calls root event.environment.now event.call

theorem interfere_unseen {root path : Path} (alone world : World) (event : FsCall)
    (same : SameHandling root path alone world) (avoids : event.Avoids root path) :
    SameHandling root path alone (interfere world event) := by
  obtain ⟨operation, apart, calls⟩ := avoids
  have file : IsFile (world.state.disk.entry (root.locate path)) := same.object.entry ▸ same.file
  rcases calls.makes ⟨world.state, event.environment⟩ rfl with still | change
  · have unchanged : interfere world event = world := by
      rw [interfere, still]
    rw [unchanged]
    exact same
  · have kept := change.sameObject apart file
    exact ⟨same.environment, same.sent.trans change.sent.symm,
      ⟨same.object.node.trans kept.node.symm, same.object.rows.trans kept.rows.symm⟩,
      same.file⟩

end FsCall

namespace Deployment

/-- The server and the file system share the tables and the disk; calls of operations that avoid a
file, at any time during its handling, do not change the answer to an Interest for the file. Only its
signature also depends on what the memory of a finalized statement holds. -/
theorem reply_interleaved (deployment : Deployment) {root path : Path}
    (rooted : deployment.rootPath = root.rootText) {state : State}
    (known : state.db.fileSystem.Has path.text)
    (file : IsFile (state.disk.entry (root.locate path))) {name : Name} {parsed : Parsed}
    (parse : deployment.server.parseName name = .ok parsed) (names : parsed.path = path.text)
    {environment : Environment} {moves : List (Option FsCall)}
    (avoids : ∀ move ∈ moves, ∀ event ∈ move, event.Avoids root path)
    (ended : (Run.after (Running.step handle FsCall.interfere)
      ⟨deployment.server.onInterestCallback name, ⟨state, environment⟩⟩ moves).program.value? =
        some (.ok ()))
    (freed : Option SignatureBits → Option SignatureBits) :
    (Run.after (Running.step handle FsCall.interfere)
      ⟨deployment.server.onInterestCallback name, ⟨state, environment⟩⟩ moves).state.state.sent.map
        Data.signedPortion =
      state.sent.map Data.signedPortion ++ ((deployment.server.reply { environment with freed }
        state name).map Data.signedPortion).toList := by
  have rooted' : deployment.server.fsPath = root.rootText := rooted
  have along := (Server.along_serverCalls rooted' environment known parse names).imp
    fun _ _ calls => calls.respects rooted'
  have start : SameHandling root path ⟨state, environment⟩ ⟨state, environment⟩ :=
    ⟨rfl, rfl, ⟨rfl, .refl _ _⟩, file⟩
  have same := (Running.interleaved_same FsCall.interfere_unseen along start avoids ended).2
  have undisturbed := congrArg State.sent
    (deployment.server.exec_onInterestCallback environment state name)
  have sent : (Run.after (Running.step handle FsCall.interfere)
      ⟨deployment.server.onInterestCallback name, ⟨state, environment⟩⟩ moves).state.state.sent =
        state.sent ++ (deployment.server.reply environment state name).toList :=
    same.sent.symm.trans undisturbed
  rw [sent, List.map_append, deployment.server.signedPortion_reply, Option.toList_map]

/-- The calls of a mknod of another file come between those of the server, and the undisturbed
handling finds other bytes in the freed memory. -/
theorem reply_interleaved_mknod :
    let moves : List (Option FsCall) :=
      [none, some ⟨.step ⟨.insertFileVersion Reference.fileB.text 3, []⟩, Reference.calm 3⟩, none,
        none, none, some ⟨.step ⟨.insertFileSystem Reference.fileB.text 3 [] 1 7, []⟩,
          Reference.calm 3⟩, none, none,
        some ⟨.openFile (Reference.root.rootText ++ Reference.fileB.text)
          { access := .writeOnly, create := true, exclusive := true }, Reference.calm 3⟩,
        none, none, none, none]
    (Run.after (Running.step handle FsCall.interfere)
      ⟨Reference.deployment.server.onInterestCallback (Reference.segmentName 2 0),
        ⟨Reference.releasedState, Reference.calm 4⟩⟩ moves).state.state.sent.map
          Data.signedPortion =
      Reference.releasedState.sent.map Data.signedPortion ++
        ((Reference.deployment.server.reply { Reference.calm 4 with freed := fun _ => none }
          Reference.releasedState (Reference.segmentName 2 0)).map Data.signedPortion).toList := by
  have mknod : (Operation.mknod Reference.fileB Reference.regularMode).Avoids Reference.fileA := by
    decide
  have known : Reference.releasedState.db.fileSystem.Has Reference.fileA.text := by decide +kernel
  have parse : Reference.deployment.server.parseName (Reference.segmentName 2 0) =
      .ok ⟨3, 2, 0, Reference.fileA.text⟩ := by decide +kernel
  refine reply_interleaved Reference.deployment
    (show Reference.deployment.rootPath = Reference.root.rootText from rfl) known
    (by decide +kernel) parse rfl ?_ (by decide +kernel) _
  simp only [List.forall_mem_cons, Option.mem_def, reduceCtorEq, false_implies, implies_true,
    Option.some.injEq, forall_eq', true_and, List.not_mem_nil, and_true]
  exact ⟨⟨_, mknod, .step _ _ (.mknodVersion Reference.fileB Reference.regularMode)⟩,
    ⟨_, mknod, .step _ _ (.mknodRow Reference.fileB Reference.regularMode [] 1 7)⟩,
    ⟨_, mknod, .mknodOpen Reference.fileB Reference.regularMode⟩⟩

end Deployment

end Ndnfs

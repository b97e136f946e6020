import Ndnfs.Server.Module
import Ndnfs.System.Execution
import Ndnfs.System.PathCalls

namespace Ndnfs
open Effect Program MachineInteger

namespace Server

variable (server : Server) (path : Bytes) (environment : Environment) (state : State)

/-- The size that readFileSize reports. -/
def fileSize (environment : Environment) (disk : Disk) (path : Bytes) : Int :=
  match environment.outcome (disk.statText (server.filePath path)) with
  | .ok st => toInt st.size
  | .error _ => toInt environment.uninitialised

/-- Without a fault this is the length of the content as an int. -/
theorem fileSize_of_lookupText {disk : Disk} {location : Location} {entry : Entry}
    (found : disk.lookupText (server.filePath path) = .ok (location, entry))
    (calm : environment.faults = []) :
    server.fileSize environment disk path = toInt entry.content.length := by
  obtain ⟨mtime, stat⟩ := disk.statText_of_lookupText found
  rw [fileSize, environment.outcome_of_nil calm, stat]

def totalSeg (fileSize : Int) : Int := shiftRight fileSize segSizeShift + 1

theorem run_readFileSize (world : World) :
    (server.readFileSize path : Source Cursor Location _).run handle world =
      ((server.fileSize world.environment world.state.disk path,
        totalSeg (server.fileSize world.environment world.state.disk path)),
        ⟨world.state, world.environment.next⟩) := by
  simp only [readFileSize, fileSize, run_bind, run_perform, handle, World.inspect]
  cases world.environment.outcome (world.state.disk.statText (server.filePath path)) <;> rfl

/-- The packet that sendFileContent assembles. -/
def contentPacket (interestName : Name) (seg fileSize : Int) (content : Bytes)
    (signature : Option SignatureBits) : Data where
  name := server.contentName interestName seg
  metaInfo := ⟨some defaultFreshnessPeriod,
    if totalSeg fileSize > 0 then some (server.finalBlockId (totalSeg fileSize)) else none⟩
  content := content
  signatureBits := signature

/-- The bytes that sendFileContent reads after it has asked for the size. -/
def readContent (environment : Environment) (disk : Disk) (path : Bytes) (seg : Int) :
    Except Errno Bytes :=
  match environment.next.outcome (disk.lookupText (server.filePath path)) with
  | .error error => .error error
  | .ok (location, _) =>
      environment.next.next.outcome
        (disk.pread location segSize (shiftLeft (contentSeg seg) segSizeShift))

/-- The reply to an Interest for a segment, if there is one; its signature is what the memory of the
finalized statement holds. -/
def contentReply (interestName : Name) (version seg : Int) : Option Data :=
  match state.db.fileSegments.lookup (path, version, contentSeg seg) with
  | none => none
  | some signature =>
      match server.readContent environment state.disk path seg with
      | .error _ => none
      | .ok content =>
          if 0 < content.length then
            some (server.contentPacket interestName seg
              (server.fileSize environment state.disk path) content
              (environment.freed (some signature)))
          else none

/-- Each content packet comes from a row and from bytes of the file. -/
theorem contentReply_some {path : Bytes} {environment : Environment} {state : State}
    {interestName : Name} {version seg : Int} {data : Data}
    (replied : server.contentReply path environment state interestName version seg = some data) :
    ∃ signature content,
      state.db.fileSegments.lookup (path, version, contentSeg seg) = some signature ∧
      server.readContent environment state.disk path seg = .ok content ∧ content ≠ [] ∧
      data = server.contentPacket interestName seg
        (server.fileSize environment state.disk path) content
        (environment.freed (some signature)) := by
  unfold contentReply at replied
  split at replied
  · cases replied
  · rename_i signature found
    split at replied
    · cases replied
    · rename_i content read
      split at replied
      · exact ⟨signature, content, found, read, List.length_pos_iff.mp ‹_›,
          (Option.some.inj replied).symm⟩
      · cases replied

theorem contentReply_eq_none_iff (interestName : Name) (version seg : Int) :
    server.contentReply path environment state interestName version seg = none ↔
      ¬ state.db.fileSegments.Has (path, version, contentSeg seg) ∨
        ∀ content, server.readContent environment state.disk path seg = .ok content →
          content = [] := by
  unfold contentReply
  cases found : state.db.fileSegments.lookup (path, version, contentSeg seg) with
  | none => exact iff_of_true rfl (.inl (KeyedTable.not_has_iff.mpr found))
  | some signature =>
      have present : state.db.fileSegments.Has (path, version, contentSeg seg) :=
        KeyedTable.has_iff.mpr ⟨signature, found⟩
      rw [or_iff_right (not_not.mpr present)]
      cases server.readContent environment state.disk path seg with
      | error error => simp
      | ok content => cases content <;> simp

/-- A reply leaves the database and the disk as they are. -/
def sendReply (state : State) (reply : Option Data) : State :=
  { state with sent := state.sent ++ reply.toList }

theorem sendReply_none : sendReply state none = state := by
  simp [sendReply]

theorem exec_sendFileContent (interestName : Name) (version seg : Int) :
    (exec (server.sendFileContent interestName path version seg) environment state).2 =
      sendReply state (server.contentReply path environment state interestName version seg) := by
  simp only [exec, sendFileContent, contentReply, run_bind, run_perform, handle, Database.execute,
    code_select_lookup]
  cases found : state.db.fileSegments.lookup (path, version, contentSeg seg) with
  | none =>
      have absent : ¬ state.db.fileSegments.Has (path, version, contentSeg seg) :=
        KeyedTable.not_has_iff.mpr found
      simp only [if_neg absent, ne_eq, done_ne_row, not_false_eq_true, if_true, sendReply_none]
      rfl
  | some signature =>
      have present : state.db.fileSegments.Has (path, version, contentSeg seg) :=
        KeyedTable.has_iff.mpr ⟨signature, found⟩
      simp only [if_pos present, ne_eq, not_true_eq_false, if_false, run_bind, run_perform, handle,
        run_readFileSize, World.attempt, Disk.openText_readOnly, Environment.outcome_map,
        readContent]
      cases environment.next.outcome (state.disk.lookupText (server.filePath path)) with
      | error error => simp only [sendReply_none]; rfl
      | ok opened =>
          simp only [Except.map, run_bind, run_perform, handle, World.inspect]
          cases environment.next.next.outcome (state.disk.pread opened.1 segSize
            (shiftLeft (contentSeg seg) segSizeShift)) with
          | error error => simp only [sendReply_none]; rfl
          | ok output =>
              simp only [run_ite]
              split
              · simp only [run_bind, run_perform, run_pure, handle, run_readFileSize]
                rfl
              · simp only [sendReply_none]; rfl

/-- The FileInfo of a reply; only a regular file has a size. -/
def fileInfo (environment : Environment) (disk : Disk) (path mimeType : Bytes)
    (version type : Int) : FileInfo :=
  let fileSize := server.fileSize environment disk path
  { size := if type = FileType.regular.code then fileSize else 0
    totalseg := if type = FileType.regular.code then totalSeg fileSize else 0
    version
    mimetype := if mimeType = [] then none else some mimeType
    type := some type }

theorem totalSeg_isInt {fileSize : Int} (range : IsInt fileSize) : IsInt (totalSeg fileSize) := by
  unfold IsInt totalSeg shiftRight segSizeShift at *
  omega

theorem fileSize_isInt (environment : Environment) (disk : Disk) (path : Bytes) :
    IsInt (server.fileSize environment disk path) := by
  unfold fileSize
  split <;> exact toInt_isInt _

/-- The setters of FileInfo get values of their type. -/
theorem fileInfo_valid (environment : Environment) (disk : Disk) (path mimeType : Bytes)
    (version type : Int) :
    (server.fileInfo environment disk path mimeType (toInt version) (toInt type)).Valid where
  size := by
    simp only [fileInfo]
    split
    · exact server.fileSize_isInt environment disk path
    · decide
  totalseg := by
    simp only [fileInfo]
    split
    · exact totalSeg_isInt (server.fileSize_isInt environment disk path)
    · decide
  version := toInt_isInt version
  type value member := by
    obtain rfl := Option.some.inj member
    exact toInt_isInt type

def metaPacket (path : Bytes) (infof : FileInfo) : Data :=
  server.ndn.sign server.certificateName {
    name := server.metaName path fileComponentName infof.version
    metaInfo := ⟨some defaultFreshnessPeriod, some (server.finalBlockId infof.totalseg)⟩
    content := server.protobuf.serialize infof }

/-- The reply to a request for a file, if the version is recorded. -/
def metaReply (mimeType : Bytes) (version type : Int) : Option Data :=
  if state.db.fileVersions.Has (path, version) then
    some (server.metaPacket path
      (server.fileInfo environment state.disk path mimeType version type))
  else none

theorem exec_sendFileMeta (mimeType : Bytes) (version type : Int) :
    (exec (server.sendFileMeta path mimeType version type) environment state).2 =
      sendReply state (server.metaReply path environment state mimeType version type) := by
  simp only [exec, sendFileMeta, metaReply, run_bind, run_executeOnce, Database.execute,
    code_select_lookup]
  by_cases present : state.db.fileVersions.Has (path, version)
  · simp only [if_pos present, ne_eq, not_true_eq_false, if_false, run_bind, run_ite]
    by_cases regular : type = FileType.regular.code
    · simp only [if_pos regular, run_readFileSize, run_perform, run_pure, handle,
        metaPacket, fileInfo]
      rfl
    · simp only [if_neg regular, run_perform, run_pure, handle, metaPacket, fileInfo]
      rfl
  · simp only [if_neg present, ne_eq, done_ne_row, not_false_eq_true, if_true, run_pure,
      sendReply_none]

/-- The time that stands in the name of a directory listing. -/
def dirTime (environment : Environment) (disk : Disk) (path : Bytes) : Int :=
  match environment.next.outcome (disk.statText (server.filePath (queryPath path))) with
  | .ok st => toInt st.mtime
  | .error _ => toInt environment.uninitialised

def dirPacket (path : Bytes) (mtime : Int) (names : List Bytes) : Data :=
  server.ndn.sign server.certificateName {
    name := server.metaName path dirComponentName mtime
    metaInfo := ⟨some defaultFreshnessPeriod, none⟩
    content := dirPage (queryPath path) names }

/-- The reply to a request for a directory, if it can be read. -/
def dirReply : Option Data :=
  match environment.outcome (state.disk.listText (server.filePath (queryPath path))) with
  | .error _ => none
  | .ok names => some (server.dirPacket path (server.dirTime environment state.disk path) names)

theorem exec_sendDirMetaBrowserFriendly :
    (exec (server.sendDirMetaBrowserFriendly path) environment state).2 =
      sendReply state (server.dirReply path environment state) := by
  simp only [exec, sendDirMetaBrowserFriendly, dirReply, run_bind, run_perform, handle,
    World.inspect]
  cases environment.outcome (state.disk.listText (server.filePath (queryPath path))) with
  | error error => simp only [run_pure, sendReply_none]
  | ok names =>
      simp only [run_bind, run_perform, handle, World.inspect, dirPacket, dirTime]
      cases environment.next.outcome
        (state.disk.statText (server.filePath (queryPath path))) <;> rfl

/-- The reply to a request for a path: a file with a row or else a directory. -/
def pathReply : Option Data :=
  match state.db.fileSystem.lookup path with
  | some row =>
      server.metaReply path environment state [] (toInt row.currentVersion) (toInt row.type)
  | none => server.dirReply path environment state

/-- The reply to an Interest. -/
def reply (interestName : Name) : Option Data :=
  match server.parseName interestName with
  | .error _ => none
  | .ok ⟨kind, version, seg, path⟩ =>
      if kind = 3 then server.contentReply path environment state interestName version seg
      else if kind = 2 then
        if state.db.fileSystem.Has path then
          server.contentReply path environment state interestName version (-1)
        else none
      else if kind = 1 then server.pathReply path environment state
      else none

/-- What the memory of a finalized statement holds goes into the signature alone. -/
theorem signedPortion_reply (interestName : Name)
    (freed : Option SignatureBits → Option SignatureBits) :
    (server.reply { environment with freed } state interestName).map Data.signedPortion =
      (server.reply environment state interestName).map Data.signedPortion := by
  have content (path : Bytes) (version seg : Int) :
      (server.contentReply path { environment with freed } state interestName version seg).map
          Data.signedPortion =
        (server.contentReply path environment state interestName version seg).map
          Data.signedPortion := by
    unfold contentReply
    cases state.db.fileSegments.lookup (path, version, contentSeg seg) with
    | none => rfl
    | some signature =>
        have same : server.readContent { environment with freed } state.disk path seg =
            server.readContent environment state.disk path seg := rfl
        dsimp only
        rw [same]
        cases server.readContent environment state.disk path seg with
        | error error => rfl
        | ok bytes =>
            dsimp only
            split <;> rfl
  unfold reply
  cases server.parseName interestName with
  | error exception => rfl
  | ok parsed =>
      dsimp only
      split
      · exact content _ _ _
      · split
        · split
          · exact content _ _ _
          · rfl
        · rfl

/-- The server sends at most one packet for an Interest and changes nothing else. -/
theorem exec_onInterestCallback (interestName : Name) :
    (exec (server.onInterestCallback interestName) environment state).2 =
      sendReply state (server.reply environment state interestName) := by
  unfold onInterestCallback reply
  cases server.parseName interestName with
  | error exception => exact (sendReply_none state).symm
  | ok parsed =>
      obtain ⟨kind, version, seg, path⟩ := parsed
      simp only [exec, run_bind, run_pure, onParsedName]
      split
      · have content := server.exec_sendFileContent path environment state interestName version seg
        simp only [exec] at content
        simp only [run_bind, run_pure]
        exact content
      · split
        · have content := server.exec_sendFileContent path environment state interestName version (-1)
          simp only [exec] at content
          simp only [run_bind, run_perform, handle, Database.execute, code_select_lookup]
          by_cases present : state.db.fileSystem.Has path
          · simp only [if_pos present, ne_eq, not_true_eq_false, if_false, run_bind, run_perform,
              run_pure, handle]
            exact content
          · simp only [if_neg present, ne_eq, done_ne_row, not_false_eq_true, if_true, run_perform,
              handle, sendReply_none]
        · split
          · simp only [run_bind, run_perform, handle, Database.execute, code_select_lookup]
            cases found : state.db.fileSystem.lookup path with
            | none =>
                have directory := server.exec_sendDirMetaBrowserFriendly path environment state
                have absent : ¬ state.db.fileSystem.Has path := KeyedTable.not_has_iff.mpr found
                simp only [exec] at directory
                simp only [if_neg absent, ne_eq, done_ne_row, not_false_eq_true, if_true, run_bind,
                  run_perform, run_pure, handle, pathReply, found]
                exact directory
            | some row =>
                have file := server.exec_sendFileMeta path environment state []
                  (toInt row.currentVersion) (toInt row.type)
                have present : state.db.fileSystem.Has path := KeyedTable.has_iff.mpr ⟨row, found⟩
                have noColumn : ((StepResult.select (some [.integer row.currentVersion,
                    .text row.mimeType, .integer row.type])).row.column 3).toText = none := rfl
                simp only [exec] at file
                simp only [if_pos present, ne_eq, not_true_eq_false, if_false, run_bind,
                  run_perform, run_pure, handle, pathReply, found, Option.map_some, noColumn]
                exact file
          · exact (sendReply_none state).symm

end Server

end Ndnfs

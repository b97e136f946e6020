import Ndnfs.Fs.Operation
import Ndnfs.Server.Deployment
import Ndnfs.Server.Execution

namespace Ndnfs
open MachineInteger NdnCpp

/-- The FileInfo tells what the row and the file say. -/
structure FileInfo.Tells (info : FileInfo) (row : FileSystemRow) (fileLength : Option Nat) :
    Prop where
  version : info.version = row.currentVersion
  type : info.type = some row.type
  mimetype : info.mimetype = if row.mimeType = [] then none else some row.mimeType
  size : row.type = FileType.regular.code → ∀ length ∈ fileLength, info.size = (length : Nat)
  totalseg : row.type = FileType.regular.code → ∀ length ∈ fileLength,
    info.totalseg = (length / 8192 + 1 : Nat)

namespace Server

variable (server : Server)

/-- The length of the file, if there is one. -/
def fileLength (disk : Disk) (path : Bytes) : Option Nat :=
  match disk.lookupText (server.filePath path) with
  | .error _ => none
  | .ok (_, entry) => some entry.content.length

/-- The packet carries a faithful FileInfo and the number of a last segment. -/
structure FaithfulPacket (disk : Disk) (path : Bytes) (row : FileSystemRow) (data : Data) :
    Prop where
  info : ∃ info, server.protobuf.parse data.content = some info ∧
    info.Tells row (server.fileLength disk path)
  finalBlock : ∃ component number, data.metaInfo.finalBlockId = some component ∧
    server.ndn.toSegment component = some number ∧ number < 2 ^ 31

/-- A request for metadata of a path with a row has no answer or a faithful one. -/
def MetadataFaithful (environment : Environment) (state : State) (name : Name) : Prop :=
  ∀ version seg path row data, server.parseName name = .ok ⟨1, version, seg, path⟩ →
    state.db.fileSystem.lookup path = some row →
      server.reply environment state name = some data → server.FaithfulPacket state.disk path row data

/-- The size that stat leaves is the length of the file and is no negative int. -/
def SizeReported (environment : Environment) (disk : Disk) (path : Bytes) : Prop :=
  match environment.outcome (disk.statText (server.filePath path)) with
  | .ok st => st.size < 2 ^ 31
  | .error _ => 0 ≤ toInt environment.uninitialised ∧
      ∀ length ∈ server.fileLength disk path, toInt environment.uninitialised = length

/-- The version is not recorded, or the row is that of a regular file without a MIME type whose
size is reported. -/
def MetadataFaithfulWhen (environment : Environment) (state : State) (path : Bytes)
    (row : FileSystemRow) : Prop :=
  state.db.fileVersions.Has (path, toInt row.currentVersion) →
    IsInt row.currentVersion ∧ row.mimeType = [] ∧ row.type = FileType.regular.code ∧
      server.SizeReported environment state.disk path

theorem fileLength_of_statText {disk : Disk} {path : Bytes} {st : Stat}
    (found : disk.statText (server.filePath path) = .ok st) :
    server.fileLength disk path = some st.size := by
  unfold Disk.statText at found
  unfold fileLength Disk.lookupText
  cases place : disk.find (server.filePath path) with
  | error error =>
      rw [place] at found
      cases found
  | ok location =>
      rw [place] at found
      dsimp only at found ⊢
      rw [disk.entry_eq, nodeEntry]
      cases present : disk.nodes.lookup location with
      | none =>
          rw [present] at found
          cases found
      | some node =>
          rw [present] at found
          obtain rfl := Except.ok.inj found
          rfl

end Server

theorem toInt_natCast_iff (number : Nat) : toInt number = number ↔ number < 2 ^ 31 := by
  constructor
  · intro same
    have range := toInt_isInt number
    rw [same] at range
    unfold IsInt at range
    omega
  · exact toInt_natCast

/-- The reported size is the length of the file exactly when it is in the range of int. -/
theorem Server.sizeReported_iff (server : Server) (environment : Environment) (disk : Disk)
    (path : Bytes) : server.SizeReported environment disk path ↔
      0 ≤ server.fileSize environment disk path ∧
        ∀ length ∈ server.fileLength disk path, server.fileSize environment disk path = length := by
  unfold SizeReported fileSize
  cases outcome : environment.outcome (disk.statText (server.filePath path)) with
  | error error => rfl
  | ok st =>
      have found := Environment.outcome_ok outcome
      simp only [server.fileLength_of_statText found, Option.mem_def, Option.some.injEq,
        forall_eq', toInt_natCast_iff]
      constructor
      · intro small
        rw [toInt_natCast small]
        exact ⟨Int.natCast_nonneg _, small⟩
      · exact And.right

namespace Server

section Packet

variable (server : Server) (environment : Environment) (disk : Disk) (path : Bytes)

theorem toSegment_finalBlockId (totalSeg : Int) :
    server.ndn.toSegment (server.finalBlockId totalSeg) = some (toUInt64 (totalSeg - 1)) :=
  server.ndn.toNumberWithMarker_from _ _ (toUInt64_lt _)

/-- The number of a last segment is no wrapped one exactly when there is a segment. -/
theorem toUInt64_small_iff {totalSeg : Int} (range : IsInt totalSeg) :
    toUInt64 (totalSeg - 1) < 2 ^ 31 ↔ 1 ≤ totalSeg := by
  unfold IsInt at range
  unfold toUInt64
  omega

/-- A metadata packet can be read back. -/
theorem faithfulPacket_metaPacket_iff (row : FileSystemRow) {info : FileInfo} (valid : info.Valid) :
    server.FaithfulPacket disk path row (server.metaPacket path info) ↔
      info.Tells row (server.fileLength disk path) ∧ 1 ≤ info.totalseg := by
  have content : (server.metaPacket path info).content = server.protobuf.serialize info := rfl
  have finalBlock : (server.metaPacket path info).metaInfo.finalBlockId =
    some (server.finalBlockId info.totalseg) := rfl
  rw [← toUInt64_small_iff valid.totalseg]
  constructor
  · rintro ⟨⟨read, parsed, tells⟩, ⟨component, number, same, segment, small⟩⟩
    rw [content, server.protobuf.parse_serialize info valid] at parsed
    obtain rfl := Option.some.inj parsed
    rw [finalBlock] at same
    obtain rfl := Option.some.inj same
    rw [toSegment_finalBlockId] at segment
    obtain rfl := Option.some.inj segment
    exact ⟨tells, small⟩
  · rintro ⟨tells, small⟩
    refine ⟨⟨info, ?_, tells⟩, ⟨_, _, finalBlock, server.toSegment_finalBlockId _, small⟩⟩
    rw [content, server.protobuf.parse_serialize info valid]

theorem size_fileInfo (mimeType : Bytes) (version type : Int) :
    (server.fileInfo environment disk path mimeType version type).size =
      if type = FileType.regular.code then server.fileSize environment disk path else 0 := rfl

theorem totalseg_fileInfo (mimeType : Bytes) (version type : Int) :
    (server.fileInfo environment disk path mimeType version type).totalseg =
      if type = FileType.regular.code then totalSeg (server.fileSize environment disk path)
      else 0 := rfl

/-- The FileInfo of a reply is faithful exactly for a regular file without a MIME type whose size
is reported. -/
theorem tells_fileInfo_iff (row : FileSystemRow) :
    (server.fileInfo environment disk path [] (toInt row.currentVersion) (toInt row.type)).Tells row
        (server.fileLength disk path) ∧
      1 ≤ (server.fileInfo environment disk path [] (toInt row.currentVersion)
        (toInt row.type)).totalseg ↔
      IsInt row.currentVersion ∧ row.mimeType = [] ∧ row.type = FileType.regular.code ∧
        server.SizeReported environment disk path := by
  have segments : 1 ≤ totalSeg (server.fileSize environment disk path) ↔
      0 ≤ server.fileSize environment disk path := by
    unfold totalSeg shiftRight segSizeShift
    omega
  rw [sizeReported_iff, ← segments]
  constructor
  · rintro ⟨tells, some_segment⟩
    have version : toInt row.currentVersion = row.currentVersion := tells.version
    have type : toInt row.type = row.type := Option.some.inj tells.type
    have regular : row.type = FileType.regular.code := by
      by_contra other
      rw [totalseg_fileInfo, type, if_neg other] at some_segment
      exact absurd some_segment (by decide)
    have mimetype : row.mimeType = [] := by
      have sent := tells.mimetype
      rw [fileInfo, if_pos rfl] at sent
      by_contra nonempty
      rw [if_neg nonempty] at sent
      cases sent
    rw [totalseg_fileInfo, type, if_pos regular] at some_segment
    refine ⟨version ▸ toInt_isInt _, mimetype, regular, some_segment, fun length present => ?_⟩
    have size := tells.size regular length present
    rwa [size_fileInfo, type, if_pos regular] at size
  · rintro ⟨range, mimetype, regular, some_segment, size⟩
    have version := toInt_of_isInt range
    have type : toInt row.type = row.type := by
      rw [regular]
      decide
    rw [version, type]
    refine ⟨⟨rfl, rfl, ?_, fun _ length present => ?_, fun _ length present => ?_⟩, ?_⟩
    · rw [fileInfo, if_pos rfl, if_pos mimetype]
    · rw [size_fileInfo, if_pos regular]
      exact size length present
    · rw [totalseg_fileInfo, if_pos regular, size length present, totalSeg, shiftRight,
        segSizeShift]
      omega
    · rw [totalseg_fileInfo, if_pos regular]
      exact some_segment

end Packet

section Reply

variable {server : Server} {environment : Environment} {state : State} {name : Name}
  {version seg : Int} {path : Bytes} {row : FileSystemRow}

/-- The reply for a path with a row is faithful exactly under this condition. -/
theorem faithful_reply_iff (parse : server.parseName name = .ok ⟨1, version, seg, path⟩)
    (found : state.db.fileSystem.lookup path = some row) :
    (∀ data, server.reply environment state name = some data →
      server.FaithfulPacket state.disk path row data) ↔
        server.MetadataFaithfulWhen environment state path row := by
  have replied : server.reply environment state name =
      server.metaReply path environment state [] (toInt row.currentVersion) (toInt row.type) := by
    rw [reply, parse]
    dsimp only
    rw [if_neg (by decide), if_neg (by decide), if_pos rfl, pathReply, found]
  rw [replied, metaReply, MetadataFaithfulWhen]
  by_cases recorded : state.db.fileVersions.Has (path, toInt row.currentVersion)
  · simp only [recorded, if_true, Option.some.injEq, forall_eq', forall_const]
    rw [server.faithfulPacket_metaPacket_iff _ _ row
      (server.fileInfo_valid environment state.disk path [] row.currentVersion row.type)]
    exact server.tells_fileInfo_iff environment state.disk path row
  · simp only [recorded, if_false, reduceCtorEq, false_implies, implies_true]

end Reply

/-- Metadata is faithful exactly under this condition on the row, its versions and the file. -/
theorem metadataFaithful_iff (server : Server) (environment : Environment) (state : State)
    (name : Name) : server.MetadataFaithful environment state name ↔
      ∀ version seg path row, server.parseName name = .ok ⟨1, version, seg, path⟩ →
        state.db.fileSystem.lookup path = some row →
          server.MetadataFaithfulWhen environment state path row := by
  constructor
  · intro faithful version seg path row parse found
    exact (faithful_reply_iff parse found).mp fun data =>
      faithful version seg path row data parse found
  · intro holds version seg path row data parse found
    exact (faithful_reply_iff parse found).mpr (holds version seg path row parse found) data

end Server

namespace Reference

def textFile : Path := ⟨[ascii "a.abc"], by decide⟩

end Reference

namespace Server

/-- The MIME type of a new text file is not sent. -/
theorem metadataFaithful_fails : ¬ ∀ (deployment : Deployment) (served rest : Name) (disk : Disk)
    (clock : Int) (requests : List Request) (environment : Environment),
    deployment.Canonical served →
      Run.Steps deployment.fs.step ClockAdvances ⟨⟨.empty, disk, []⟩, clock⟩ requests →
        deployment.server.MetadataFaithful environment
          (Run.after deployment.fs.step ⟨⟨.empty, disk, []⟩, clock⟩ requests).state
          (served ++ rest) := by
  intro claim
  have faithful := claim Reference.deployment _ [ascii "a.abc"] .bare 0
    [⟨.mknod Reference.textFile Reference.regularMode, Reference.calm 1⟩] (Reference.calm 2)
    Reference.canonical (by decide)
  have parse : Reference.deployment.server.parseName
      ([ascii "ndn", ascii "broadcast", ascii "ndnfs"] ++ [ascii "a.abc"]) =
        .ok ⟨1, -1, -1, ascii "/a.abc"⟩ := by decide
  have found : (Run.after Reference.deployment.fs.step ⟨⟨.empty, .bare, []⟩, 0⟩
      [⟨.mknod Reference.textFile Reference.regularMode, Reference.calm 1⟩]).state.db.fileSystem.lookup
        (ascii "/a.abc") =
      some ⟨1, ascii "text/vnd.abc", SignatureState.notReady.code, FileType.regular.code⟩ := by
    decide +kernel
  have holds := (faithful_reply_iff parse found).mp fun data =>
    faithful (-1) (-1) (ascii "/a.abc") _ data parse found
  exact absurd (holds (by decide +kernel)).2.1 (by decide)

end Server

end Ndnfs

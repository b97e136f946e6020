import Ndnfs.Proof.DirectoryPage
import Ndnfs.Server.Session
import Ndnfs.System.Tables

namespace Ndnfs
open MachineInteger KeyedTable Percent NdnCpp

/-- No bytes, or exactly the expected ones. -/
def Matches (bytes expected : Bytes) : Prop := bytes = [] ∨ bytes = expected

theorem Matches.refl (bytes : Bytes) : Matches bytes bytes := .inr rfl

theorem Matches.eq {bytes expected : Bytes} (same : Matches bytes expected) (some : bytes ≠ []) :
    bytes = expected := same.resolve_left some

namespace Server

variable (server : Server)

/-- This is the size that sendFileMeta announces. -/
def announcedSize (environment : Environment) (disk : Disk) (path : Bytes) (type : Int) : Int :=
  if type = FileType.regular.code then server.fileSize environment disk path else 0

/-- Since the packets with the name of the reply were sent, neither the size and the type of the file
nor the names in the directory have changed. -/
def AnnouncementKept (state : State) (interest : Interest) : Prop :=
  ∀ version seg path, server.parseName interest.name = .ok ⟨1, version, seg, path⟩ →
    match state.db.fileSystem.lookup path with
    | some row => ∀ other infof, server.metaPacket other infof ∈ state.sent →
        server.metaName other fileComponentName infof.version =
            server.metaName path fileComponentName (toInt row.currentVersion) →
          infof.size = server.announcedSize interest.environment state.disk path
            (toInt row.type) ∧ infof.type = some (toInt row.type)
    | none => ∀ other mtime listed, server.dirPacket other mtime listed ∈ state.sent →
        server.metaName other dirComponentName mtime = server.metaName path dirComponentName
            (server.dirTime interest.environment state.disk path) →
          ∀ names, state.disk.listText (server.filePath (queryPath path)) = .ok names →
            listed.Perm names ∧ (queryPath other = ascii "/" ↔ queryPath path = ascii "/")

/-- The changed file has in each signed segment the signed bytes or none. -/
def ChangeKept (root : Path) (state : State) (path : Path) (change : Bytes → Bytes) : Prop :=
  ∀ content, state.disk.entry (root.locate path) = some ⟨.regular, content⟩ →
    ∀ version (seg : Nat) signature,
      state.db.fileSegments.lookup (path.text, version, (seg : Int)) = some signature →
        Matches (segmentBytes (change content) seg) signature.signed.content

/-- The file has in each segment that is signed again under a sent name the sent bytes or none. -/
def ReleaseKept (root : Path) (state : State) (path : Path) (environment : Environment) : Prop :=
  ∀ data ∈ state.sent, ∀ seg : Nat, environment.Quiet (seg + 2) →
    server.parseName data.name = .ok ⟨3, toInt environment.now, seg, path.text⟩ →
      Matches (state.disk.segmentAt (root.locate path) seg) data.content

/-- The objects and the rows that a rename brings together match, and so do the rows and the
packets that were sent under their new path. -/
structure RenameKept (root : Path) (state : State) (source target : Path) (moves : Prop) :
    Prop where
  replaced : moves → ∀ (below : List Bytes) (file : Path), file.names = target.names ++ below →
    ∀ version (seg : Nat) signature,
      state.db.fileSegments.lookup (file.text, version, (seg : Int)) = some signature →
        Matches (state.disk.segmentAt (root.locate source ++ below) seg) signature.signed.content
  left : ¬ moves → ¬ state.db.SharedSegment source.text target.text →
    ∀ version (seg : Nat) signature,
      state.db.fileSegments.lookup (source.text, version, (seg : Int)) = some signature →
        Matches (state.disk.segmentAt (root.locate target) seg) signature.signed.content
  renamed : ¬ state.db.SharedSegment source.text target.text →
    ∀ version (seg : Nat) signature,
      state.db.fileSegments.lookup (source.text, version, (seg : Int)) = some signature →
        ∀ data ∈ state.sent, server.parseName data.name = .ok ⟨3, version, seg, target.text⟩ →
          Matches signature.signed.content data.content

end Server

namespace Deployment

variable (deployment : Deployment)

/-- The conditions on each event: no signed or sent byte gets lost. -/
def KeepsContent (root : Path) (history : History) : Event → Prop
  | .operation ⟨.write path data offset, environment⟩ =>
      history.state.db.fileSystem.Has path.text → 0 ≤ offset → environment.Quiet 2 →
        Server.ChangeKept root history.state path fun content =>
          spliceAt content (environment.written data) offset.toNat
  | .operation ⟨.truncate path length, environment⟩ =>
      history.state.db.fileSystem.Has path.text → 0 ≤ length → environment.Quiet 1 →
        Server.ChangeKept root history.state path fun content => resize content length.toNat
  | .operation ⟨.release path access, environment⟩ =>
      history.state.db.fileSystem.Has path.text → access ≠ .readOnly →
        deployment.server.ReleaseKept root history.state path environment
  | .operation ⟨.rename source target, environment⟩ => source = target ∨
      deployment.server.RenameKept root history.state source target
        (∃ disk, environment.outcome (history.state.disk.renameText
          (deployment.fs.fullPath source.text) (deployment.fs.fullPath target.text)
          environment.now) = .ok disk)
  | .operation _ => True
  | .interest interest => deployment.server.AnnouncementKept history.state interest

end Deployment

/-- Every row belongs to a segment of a file and matches its bytes. -/
structure Consistent (root : Path) (state : State) : Prop where
  keys : ∀ path version seg, state.db.fileSegments.Has (path, version, seg) →
    ∃ (file : Path) (number : Nat), path = file.text ∧ seg = number ∧
      number < FileSystem.lastRound
  bytes : ∀ (file : Path) version (number : Nat) signature,
    state.db.fileSegments.lookup (file.text, version, (number : Int)) = some signature →
      Matches (state.disk.segmentAt (root.locate file) number) signature.signed.content

section Consistent

variable {root : Path} {state state' : State}

/-- A change that only takes bytes away keeps rows and bytes together. -/
theorem Consistent.of_bytes (consistent : Consistent root state)
    (rows : state'.db.fileSegments = state.db.fileSegments)
    (bytes : ∀ (file : Path) number,
      Matches (state'.disk.segmentAt (root.locate file) number)
        (state.disk.segmentAt (root.locate file) number)) : Consistent root state' where
  keys := by
    rw [rows]
    exact consistent.keys
  bytes file version number signature found := by
    rw [rows] at found
    rcases bytes file number with none | same
    · exact .inl none
    · rw [same]
      exact consistent.bytes file version number signature found

theorem Consistent.rewrites {path : Path} {change : Bytes → Bytes} {disk : Disk}
    (consistent : Consistent root state)
    (rewrites : state.disk.Rewrites (root.locate path) change disk)
    (kept : Server.ChangeKept root state path change) :
    Consistent root { state with disk := disk } where
  keys := consistent.keys
  bytes file version number signature found := by
    obtain ⟨content, regular, -⟩ := id rewrites
    dsimp only
    rw [Disk.segmentAt_rewrites rewrites regular]
    split
    · rename_i here
      obtain rfl := Path.locate_inj.mp here
      exact kept content regular version number signature found
    · exact consistent.bytes file version number signature found

theorem Consistent.release {path : Path} {version : Int} {content : Bytes} {count : Nat}
    {fs : FileSystem} {db : Database} (consistent : Consistent root state)
    (rows : db.fileSegments = state.db.fileSegments) (bound : count ≤ FileSystem.lastRound)
    (read : ∀ seg, seg < count →
      segmentBytes content seg = state.disk.segmentAt (root.locate path) seg) :
    Consistent root
      { state with db := fs.signSegments path.text version content db count } where
  keys other otherVersion seg present := by
    rw [Has, fs.lookup_signSegments, rows] at present
    split at present
    · rename_i signed
      obtain ⟨same, -, lower, upper⟩ := signed
      exact ⟨path, seg.toNat, same, by omega, by omega⟩
    · exact consistent.keys other otherVersion seg present
  bytes file otherVersion number signature found := by
    rw [fs.lookup_signSegments, rows] at found
    split at found
    · rename_i signed
      obtain ⟨same, -, lower, upper⟩ := signed
      obtain rfl := Path.text_injective same
      obtain rfl := Option.some.inj found
      rw [Int.toNat_natCast]
      exact .inr (read number (by omega)).symm
    · exact consistent.bytes file otherVersion number signature found

section Rename

variable {source target : Path} {server : Server} {moves : Prop}

theorem Consistent.rename_keys (consistent : Consistent root state) (different : source ≠ target)
    (path : Bytes) (version seg : Int)
    (present : (state.db.renameAll source.text target.text).fileSegments.Has (path, version, seg)) :
    ∃ (file : Path) (number : Nat), path = file.text ∧ seg = number ∧
      number < FileSystem.lastRound := by
  obtain ⟨signature, found⟩ := has_iff.mp present
  rcases state.db.segment_of_renameAll (mt Path.text_injective different) found with
    stays | ⟨-, rfl, moved⟩
  · exact consistent.keys path version seg (has_iff.mpr ⟨signature, stays⟩)
  · obtain ⟨-, number, -, same, early⟩ :=
      consistent.keys source.text version seg (has_iff.mpr ⟨signature, moved⟩)
    exact ⟨target, number, rfl, same, early⟩

/-- A rename that moves only rows brings them to matching bytes. -/
theorem Consistent.rename_left (consistent : Consistent root state) (different : source ≠ target)
    (still : ¬ moves) (kept : server.RenameKept root state source target moves) :
    Consistent root { state with db := state.db.renameAll source.text target.text } where
  keys := consistent.rename_keys different
  bytes file version number signature found := by
    rcases state.db.segment_of_renameAll (mt Path.text_injective different) found with
      stays | ⟨free, same, moved⟩
    · exact consistent.bytes file version number signature stays
    · obtain rfl := Path.text_injective same
      exact kept.left still free version number signature moved

/-- A rename that moves the object brings only matching bytes to the rows that stay. -/
theorem Consistent.rename_moved (consistent : Consistent root state) (different : source ≠ target)
    (safe : state.disk.MoveSafe (root.locate source) (root.locate target)) (now : Int)
    (done : moves) (kept : server.RenameKept root state source target moves) :
    Consistent root { state with
      db := state.db.renameAll source.text target.text
      disk := state.disk.move (root.locate source) (root.locate target) now } where
  keys := consistent.rename_keys different
  bytes file version number signature found := by
    dsimp only
    rw [Disk.segmentAt_move safe]
    rcases state.db.segment_of_renameAll (mt Path.text_injective different) found with
      stays | ⟨-, same, moved⟩
    · split
      · rename_i inside
        obtain ⟨below, names⟩ := (List.prefix_append_right_inj root.names).mp inside
        have place : (root.locate file).drop (root.locate target).length = below := by
          rw [Path.locate, Path.locate, ← names, ← List.append_assoc, List.drop_left]
        rw [place]
        exact kept.replaced done below file names.symm version number signature stays
      · split
        · exact .inl rfl
        · exact consistent.bytes file version number signature stays
    · obtain rfl := Path.text_injective same
      rw [if_pos (List.prefix_refl _), List.drop_length, List.append_nil]
      exact consistent.bytes source version number signature moved

end Rename

end Consistent

namespace Server

variable (server : Server)

/-- Each packet matches the row of its segment, if there still is one. -/
def Recorded (state : State) : Prop :=
  ∀ data ∈ state.sent, ∀ path version seg,
    server.parseName data.name = .ok ⟨3, version, seg, path⟩ →
      ∀ signature, state.db.fileSegments.lookup (path, version, seg) = some signature →
        Matches signature.signed.content data.content

variable {server} {root : Path} {state state' : State}

theorem Recorded.of_rows (recorded : server.Recorded state)
    (rows : state'.db.fileSegments = state.db.fileSegments) (sent : state'.sent = state.sent) :
    server.Recorded state' := by
  unfold Recorded
  rw [rows, sent]
  exact recorded

theorem Recorded.release {path : Path} {environment : Environment} {content : Bytes} {count : Nat}
    {fs : FileSystem} {db : Database} (recorded : server.Recorded state)
    (rows : db.fileSegments = state.db.fileSegments)
    (read : ∀ seg, seg < count → environment.Quiet (seg + 2) ∧
      segmentBytes content seg = state.disk.segmentAt (root.locate path) seg)
    (kept : server.ReleaseKept root state path environment) : server.Recorded
      { state with
        db := fs.signSegments path.text (toInt environment.now) content db count } := by
  intro data sent file version seg parse signature found
  rw [fs.lookup_signSegments, rows] at found
  split at found
  · rename_i signed
    obtain ⟨rfl, rfl, lower, upper⟩ := signed
    obtain rfl := Option.some.inj found
    have place : (seg.toNat : Int) = seg := Int.toNat_of_nonneg lower
    obtain ⟨quiet, bytes⟩ := read seg.toNat (by omega)
    have same := kept data sent seg.toNat quiet (by rw [place]; exact parse)
    rwa [← bytes] at same
  · exact recorded data sent file version seg parse signature found

theorem Recorded.renameAll {source target : Path} {moves : Prop} {disk : Disk}
    (recorded : server.Recorded state) (different : source ≠ target)
    (kept : server.RenameKept root state source target moves)
    (consistent : Consistent root state) : server.Recorded
      { state with db := state.db.renameAll source.text target.text, disk } := by
  intro data sent file version seg parse signature found
  rcases state.db.segment_of_renameAll (mt Path.text_injective different) found with
    stays | ⟨free, rfl, moved⟩
  · exact recorded data sent file version seg parse signature stays
  · obtain ⟨-, number, -, rfl, -⟩ :=
      consistent.keys source.text version seg (has_iff.mpr ⟨signature, moved⟩)
    exact kept.renamed free version number signature moved data sent parse

end Server

namespace Server

variable {server : Server} {root : Path} {environment : Environment} {state : State}

/-- A content packet carries the bytes that its row was signed over. -/
theorem content_signed (rooted : server.fsPath = root.rootText) (consistent : Consistent root state)
    {path : Bytes} {interestName : Name} {version seg : Int} {data : Data}
    (replied : server.contentReply path environment state interestName version seg = some data) :
    ∃ signature, state.db.fileSegments.lookup (path, version, contentSeg seg) = some signature ∧
      data.content = signature.signed.content ∧ data.content ≠ [] := by
  obtain ⟨signature, content, found, read, nonempty, rfl⟩ := server.contentReply_some replied
  obtain ⟨file, number, rfl, place, early⟩ :=
    consistent.keys _ _ _ (has_iff.mpr ⟨signature, found⟩)
  have bytes := server.readContent_segment rooted place early read
  have same := consistent.bytes file version number signature (place ▸ found)
  rw [← bytes] at same
  exact ⟨signature, found, same.eq nonempty, nonempty⟩

theorem content_metaPacket (path : Bytes) (infof : FileInfo) :
    (server.metaPacket path infof).content = server.protobuf.serialize infof := rfl

theorem name_metaPacket (path : Bytes) (infof : FileInfo) :
    (server.metaPacket path infof).name =
      server.metaName path fileComponentName infof.version := rfl

theorem name_dirPacket (path : Bytes) (mtime : Int) (names : List Bytes) :
    (server.dirPacket path mtime names).name = server.metaName path dirComponentName mtime := rfl

/-- The name of an announcement determines its kind and its version. -/
theorem metaName_inj {path path' component component' : Bytes} {version version' : Int}
    (same : server.metaName path component version = server.metaName path' component' version') :
    server.ndn.fromEscapedString component = server.ndn.fromEscapedString component' ∧
      (IsInt version → IsInt version' → version = version') := by
  have ends := congrArg (fun name => name.reverse.take 2) same
  simp only [metaName, List.reverse_append, List.reverse_cons, List.reverse_nil, List.nil_append,
    List.cons_append, List.take_succ_cons, List.take_zero, List.cons.injEq, and_true] at ends
  refine ⟨ends.2, fun range range' => ?_⟩
  have numbers := congrArg server.ndn.toVersion ends.1
  rw [server.ndn.toVersion_versionComponent, server.ndn.toVersion_versionComponent,
    Option.some.injEq] at numbers
  rw [← toInt_toUInt64 range, numbers, toInt_toUInt64 range']

theorem fileComponent_ne_dirComponent : server.ndn.fromEscapedString fileComponentName ≠
    server.ndn.fromEscapedString dirComponentName := by
  have file := server.ndn.fromEscapedString_escape (metaMarker :: ascii ".FS.file") (by decide)
  have dir := server.ndn.fromEscapedString_escape (metaMarker :: ascii ".FS.dir") (by decide)
  rw [show escape (metaMarker :: ascii ".FS.file") = fileComponentName by decide] at file
  rw [show escape (metaMarker :: ascii ".FS.dir") = dirComponentName by decide] at dir
  rw [file, dir]
  decide

/-- The server puts packets of three kinds. -/
inductive Origin (server : Server) (data : Data) : Prop where
  | content (path : Bytes) (version seg : Int)
      (parse : server.parseName data.name = .ok ⟨3, version, seg, path⟩)
  | file (environment : Environment) (disk : Disk) (path : Bytes) (version type : Int)
      (same : data = server.metaPacket path
        (server.fileInfo environment disk path [] (toInt version) (toInt type)))
  | directory (path : Bytes) (mtime : Int) (names : List Bytes)
      (same : data = server.dirPacket path mtime names)

theorem pathReply_origin {path : Bytes} {data : Data}
    (replied : server.pathReply path environment state = some data) :
    (∃ row, state.db.fileSystem.lookup path = some row ∧
      data = server.metaPacket path (server.fileInfo environment state.disk path []
        (toInt row.currentVersion) (toInt row.type))) ∨
    ∃ names, state.db.fileSystem.lookup path = none ∧
      state.disk.listText (server.filePath (queryPath path)) = .ok names ∧
      data = server.dirPacket path (server.dirTime environment state.disk path) names := by
  unfold pathReply at replied
  split at replied
  · rename_i row found
    rw [metaReply] at replied
    split at replied
    · exact .inl ⟨row, found, (Option.some.inj replied).symm⟩
    · cases replied
  · rename_i absent
    rw [dirReply] at replied
    split at replied
    · cases replied
    · rename_i names listed
      exact .inr ⟨names, absent, Environment.outcome_ok listed, (Option.some.inj replied).symm⟩

theorem reply_origin {interestName : Name} {data : Data}
    (replied : server.reply environment state interestName = some data) : server.Origin data := by
  rcases server.reply_cases replied with
    ⟨path, version, seg, -, parse⟩ | ⟨path, version, seg, -, found⟩
  · exact .content path version _ parse
  · rcases pathReply_origin found with ⟨row, -, same⟩ | ⟨names, -, -, same⟩
    · exact .file _ _ _ _ _ same
    · exact .directory _ _ _ same

/-- A reply of sendFileMeta repeats the packet that was sent under its name. -/
theorem same_file {interest : Interest} (kept : server.AnnouncementKept state interest)
    {path : Bytes} {version seg : Int}
    (parse : server.parseName interest.name = .ok ⟨1, version, seg, path⟩) {row : FileSystemRow}
    (found : state.db.fileSystem.lookup path = some row) {data : Data} (sent : data ∈ state.sent)
    (origin : server.Origin data)
    (name : data.name = server.metaName path fileComponentName (toInt row.currentVersion)) :
    data.content = server.protobuf.serialize (server.fileInfo interest.environment state.disk path
      [] (toInt row.currentVersion) (toInt row.type)) := by
  have announced := kept version seg path parse
  rw [found] at announced
  cases origin with
  | content other version' seg' parse' =>
      rw [name] at parse'
      exact (server.parseName_marked server.kind_fileComponent parse').elim
  | directory other mtime names same =>
      rw [same, name_dirPacket] at name
      exact absurd (metaName_inj name).1.symm fileComponent_ne_dirComponent
  | file environment disk other version' type same =>
      rw [same] at sent
      rw [same, name_metaPacket] at name
      obtain ⟨size, kind⟩ := announced other _ sent name
      have versions := (metaName_inj name).2 (toInt_isInt _) (toInt_isInt _)
      have types : toInt type = toInt row.type := Option.some.inj kind
      rw [same, content_metaPacket]
      congr 1
      simp only [fileInfo, announcedSize, types] at size versions ⊢
      by_cases regular : toInt row.type = FileType.regular.code
      · simp only [if_pos regular] at size ⊢
        rw [size, versions]
      · simp only [if_neg regular]
        rw [versions]

/-- A listing repeats the page that was sent under its name. -/
theorem same_directory {interest : Interest} (kept : server.AnnouncementKept state interest)
    {path : Bytes} {version seg : Int}
    (parse : server.parseName interest.name = .ok ⟨1, version, seg, path⟩)
    (absent : state.db.fileSystem.lookup path = none) {names : List Bytes}
    (listed : state.disk.listText (server.filePath (queryPath path)) = .ok names) {data : Data}
    (sent : data ∈ state.sent) (origin : server.Origin data)
    (name : data.name = server.metaName path dirComponentName
      (server.dirTime interest.environment state.disk path)) :
    data.content = dirPage (queryPath path) names := by
  have announced := kept version seg path parse
  rw [absent] at announced
  cases origin with
  | content other version' seg' parse' =>
      rw [name] at parse'
      exact (server.parseName_marked server.kind_dirComponent parse').elim
  | file environment disk other version' type same =>
      rw [same, name_metaPacket] at name
      exact absurd (metaName_inj name).1 fileComponent_ne_dirComponent
  | directory other mtime before same =>
      rw [same] at sent
      rw [same, name_dirPacket] at name
      obtain ⟨perm, root⟩ := announced other mtime before sent name names listed
      rw [same]
      exact (dirPage_root root before).trans (dirPage_congr _ perm)

/-- A reply repeats the content of the packet that was sent under its name. -/
theorem same_reply (rooted : server.fsPath = root.rootText) (consistent : Consistent root state)
    (recorded : server.Recorded state) {interest : Interest}
    (kept : server.AnnouncementKept state interest) {data reply : Data}
    (replied : server.reply interest.environment state interest.name = some reply)
    (sent : data ∈ state.sent) (origin : server.Origin data) (name : data.name = reply.name) :
    data.content = reply.content := by
  rcases server.reply_cases replied with
    ⟨path, version, seg, found, parse⟩ | ⟨path, version, seg, parse, found⟩
  · obtain ⟨signature, row, content, nonempty⟩ := content_signed rooted consistent found
    rw [← name] at parse
    have same := recorded data sent path version _ parse signature row
    rw [← content] at same
    exact (same.eq nonempty).symm
  · rcases pathReply_origin found with ⟨row, present, rfl⟩ | ⟨names, absent, listed, rfl⟩
    · exact same_file kept parse present sent origin name
    · exact same_directory kept parse absent listed sent origin name

theorem Recorded.reply (rooted : server.fsPath = root.rootText) (consistent : Consistent root state)
    (recorded : server.Recorded state) (interest : Interest) : server.Recorded
      (sendReply state (server.reply interest.environment state interest.name)) := by
  intro data sent path version seg parse signature row
  rcases List.mem_append.mp sent with earlier | new
  · exact recorded data earlier path version seg parse signature row
  · have replied := Option.mem_toList.mp new
    rcases server.reply_cases replied with
      ⟨path', version', seg', found, parse'⟩ | ⟨path', version', seg', -, found⟩
    · obtain ⟨signature', row', content, -⟩ := content_signed rooted consistent found
      obtain ⟨-, rfl, rfl, rfl⟩ := Parsed.mk.inj (Except.ok.inj (parse'.symm.trans parse))
      obtain rfl := Option.some.inj (row'.symm.trans row)
      exact .inr content.symm
    · rcases pathReply_origin found with ⟨row', -, rfl⟩ | ⟨names, -, -, rfl⟩
      · exact (server.parseName_marked server.kind_fileComponent parse).elim
      · exact (server.parseName_marked server.kind_dirComponent parse).elim

/-- This is what every run keeps. -/
structure Kept (server : Server) (root : Path) (state : State) : Prop where
  consistent : Consistent root state
  recorded : server.Recorded state
  origin : ∀ data ∈ state.sent, server.Origin data
  single : ∀ first ∈ state.sent, ∀ second ∈ state.sent,
    first.name = second.name → first.content = second.content

/-- An Interest under the condition keeps the invariant. -/
theorem Kept.interest (rooted : server.fsPath = root.rootText) (kept : server.Kept root state)
    {interest : Interest} (announced : server.AnnouncementKept state interest) : server.Kept root
      (sendReply state (server.reply interest.environment state interest.name)) where
  consistent := ⟨kept.consistent.keys, kept.consistent.bytes⟩
  recorded := kept.recorded.reply rooted kept.consistent interest
  origin data sent := by
    rcases List.mem_append.mp sent with earlier | new
    · exact kept.origin data earlier
    · exact reply_origin (Option.mem_toList.mp new)
  single first sent second sent' name := by
    have same {data reply : Data} (earlier : data ∈ state.sent)
        (new : reply ∈ (server.reply interest.environment state interest.name).toList)
        (name : data.name = reply.name) : data.content = reply.content :=
      same_reply rooted kept.consistent kept.recorded announced (Option.mem_toList.mp new) earlier
        (kept.origin data earlier) name
    rcases List.mem_append.mp sent with earlier | new
    · rcases List.mem_append.mp sent' with earlier' | new'
      · exact kept.single first earlier second earlier' name
      · exact same earlier new' name
    · rcases List.mem_append.mp sent' with earlier' | new'
      · exact (same earlier' new name.symm).symm
      · rw [Option.mem_toList] at new new'
        rw [Option.mem_unique new new']

end Server

namespace Deployment

section Run

variable (deployment : Deployment) {root : Path} {history : History}
  (rooted : deployment.rootPath = root.rootText)

include rooted

/-- The rows, the bytes and the packets belong together, and nothing has been sent. -/
structure Intact (root : Path) (state state' : State) : Prop where
  consistent : Consistent root state'
  recorded : deployment.server.Recorded state'
  sent : state'.sent = state.sent

section Operation

variable {state : State} (consistent : Consistent root state)
  (recorded : deployment.server.Recorded state) (environment : Environment)

include rooted consistent recorded

omit rooted in
theorem intact_same {state' : State} (same : state' = state) :
    deployment.Intact root state state' := by
  rw [same]
  exact ⟨consistent, recorded, rfl⟩

omit rooted in
/-- A change of the disk that only takes bytes away. -/
theorem intact_disk {disk : Disk} (bytes : ∀ (file : Path) number,
    Matches (disk.segmentAt (root.locate file) number)
      (state.disk.segmentAt (root.locate file) number)) :
    deployment.Intact root state { state with disk } :=
  ⟨consistent.of_bytes rfl bytes, recorded.of_rows rfl rfl, rfl⟩

omit rooted in
theorem intact_rewrites {path : Path} {change : Bytes → Bytes} {disk : Disk}
    (rewrites : state.disk.Rewrites (root.locate path) change disk)
    (kept : Server.ChangeKept root state path change) :
    deployment.Intact root state { state with disk } :=
  ⟨consistent.rewrites rewrites kept, recorded.of_rows rfl rfl, rfl⟩

omit rooted consistent recorded in
/-- No bytes are left where an object has been removed. -/
theorem matches_remove {disk : Disk} {path : Path} (below : root.locate path ≠ [])
    (empty : disk.NoChildren (root.locate path)) (now : Int) (file : Path) (number : Nat) :
    Matches ((disk.remove (root.locate path) now).segmentAt (root.locate file) number)
      (disk.segmentAt (root.locate file) number) := by
  rw [Disk.segmentAt_remove below empty]
  split
  · exact .inl rfl
  · exact .refl _

theorem intact_mknod (path : Path) (mode : Nat) : deployment.Intact root state
    (exec (deployment.fs.ndnfsMknod path.text mode) environment state).2 := by
  by_cases present : state.db.fileSystem.Has path.text
  · rw [FileSystem.exec_ndnfsMknod, if_pos present]
    exact deployment.intact_same consistent recorded rfl
  · have rows : (FileSystem.mknodRows path.text mode environment.now state.db).fileSegments =
        state.db.fileSegments := by simp [FileSystem.mknodRows]
    rcases FileSystem.effect_mknod path environment state
        (show deployment.fs.rootPath = root.rootText from rooted) mode present with
      failed | ⟨kind, -, free, made⟩
    · rw [failed]
      exact ⟨consistent.of_bytes rows fun _ _ => .refl _, recorded.of_rows rows rfl, rfl⟩
    · rw [made]
      refine ⟨consistent.of_bytes rows fun file number => ?_, recorded.of_rows rows rfl, rfl⟩
      rw [Disk.segmentAt_create free]
      exact .refl _

theorem intact_mkdir (path : Path) (mode : Nat) : deployment.Intact root state
    (exec (deployment.fs.ndnfsMkdir path.text mode) environment state).2 := by
  rcases FileSystem.effect_mkdir path environment state
      (show deployment.fs.rootPath = root.rootText from rooted) mode with failed | ⟨free, made⟩
  · exact deployment.intact_same consistent recorded failed
  · rw [made]
    refine deployment.intact_disk consistent recorded fun file number => ?_
    rw [Disk.segmentAt_create free]
    exact .refl _

/-- An open takes at most all bytes away. -/
theorem intact_open (path : Path) (access : AccessMode) (trunc : Bool) :
    deployment.Intact root state
      (exec (deployment.fs.ndnfsOpen path.text { access, truncate := trunc }) environment
        state).2 := by
  rcases FileSystem.effect_open path environment state
      (show deployment.fs.rootPath = root.rootText from rooted) access trunc with
    failed | ⟨-, disk, rewrites, opened⟩
  · exact deployment.intact_same consistent recorded failed
  · rw [opened]
    exact deployment.intact_rewrites consistent recorded rewrites
      fun _ _ _ _ _ _ => .inl (by simp [segmentBytes])

theorem intact_write (path : Path) (data : Bytes) (offset : Int)
    (keeps : state.db.fileSystem.Has path.text → 0 ≤ offset → environment.Quiet 2 →
      Server.ChangeKept root state path fun content =>
        spliceAt content (environment.written data) offset.toNat) :
    deployment.Intact root state
      (exec (deployment.fs.ndnfsWrite path.text data offset) environment state).2 := by
  rcases FileSystem.effect_write path environment state
      (show deployment.fs.rootPath = root.rootText from rooted) data offset with
    failed | ⟨⟨present, nonneg, quiet⟩, disk, rewrites, written⟩
  · exact deployment.intact_same consistent recorded failed
  · rw [written]
    exact deployment.intact_rewrites consistent recorded rewrites (keeps present nonneg quiet)

theorem intact_truncate (path : Path) (length : Int)
    (keeps : state.db.fileSystem.Has path.text → 0 ≤ length → environment.Quiet 1 →
      Server.ChangeKept root state path fun content => resize content length.toNat) :
    deployment.Intact root state
      (exec (deployment.fs.ndnfsTruncate path.text length) environment state).2 := by
  rcases FileSystem.effect_truncate path environment state
      (show deployment.fs.rootPath = root.rootText from rooted) length with
    failed | ⟨⟨present, nonneg, quiet⟩, disk, rewrites, cut⟩
  · exact deployment.intact_same consistent recorded failed
  · rw [cut]
    exact deployment.intact_rewrites consistent recorded rewrites (keeps present nonneg quiet)

theorem intact_release (path : Path) (access : AccessMode)
    (keeps : state.db.fileSystem.Has path.text → access ≠ .readOnly →
      deployment.server.ReleaseKept root state path environment) :
    deployment.Intact root state
      (exec (deployment.fs.ndnfsRelease path.text { access }) environment state).2 := by
  rcases FileSystem.effect_release path environment state
      (show deployment.fs.rootPath = root.rootText from rooted) access with
    ⟨-, failed⟩ | ⟨present, writing, content, count, bound, read, -, released⟩
  · exact deployment.intact_same consistent recorded failed
  · have rows : (FileSystem.releaseRows path.text environment.now state.db).fileSegments =
        state.db.fileSegments := by simp [FileSystem.releaseRows]
    rw [released]
    exact ⟨consistent.release rows bound fun seg before => (read seg before).2,
      recorded.release rows read (keeps present writing), rfl⟩

theorem intact_unlink (path : Path) : deployment.Intact root state
    (exec (deployment.fs.ndnfsUnlink path.text) environment state).2 := by
  rcases FileSystem.effect_unlink path environment state
      (show deployment.fs.rootPath = root.rootText from rooted) with failed | ⟨file, gone⟩
  · rw [failed]
    exact ⟨consistent.of_bytes rfl fun _ _ => .refl _, recorded.of_rows rfl rfl, rfl⟩
  · rw [gone]
    have empty := state.disk.noChildren_of_not_directory file.2
    exact ⟨consistent.of_bytes rfl (matches_remove (ne_nil_of_isFile file) empty environment.now),
      recorded.of_rows rfl rfl, rfl⟩

theorem intact_rmdir (path : Path) : deployment.Intact root state
    (exec (deployment.fs.ndnfsRmdir path.text) environment state).2 := by
  rcases FileSystem.effect_rmdir path environment state
      (show deployment.fs.rootPath = root.rootText from rooted) with
    failed | ⟨-, below, empty, gone⟩
  · exact deployment.intact_same consistent recorded failed
  · rw [gone]
    exact deployment.intact_disk consistent recorded (matches_remove below empty environment.now)

/-- A rename moves the rows and the bytes together, or it moves only rows without bytes. -/
theorem intact_rename (source target : Path)
    (keeps : source = target ∨ deployment.server.RenameKept root state source target
      (∃ disk, environment.outcome (state.disk.renameText
        (deployment.fs.fullPath source.text) (deployment.fs.fullPath target.text)
        environment.now) = .ok disk)) :
    deployment.Intact root state
      (exec (deployment.fs.ndnfsRename source.text target.text) environment state).2 := by
  have fsRooted : deployment.fs.rootPath = root.rootText := rooted
  rw [FileSystem.exec_ndnfsRename]
  rw [FileSystem.fullPath_text fsRooted, FileSystem.fullPath_text fsRooted] at keeps ⊢
  cases moved : environment.outcome (state.disk.renameText (root.rootText ++ source.text)
      (root.rootText ++ target.text) environment.now) with
  | error error =>
      by_cases different : source = target
      · subst target
        rw [Database.renameAll_same]
        exact deployment.intact_same consistent recorded rfl
      · have kept := keeps.resolve_left different
        refine ⟨consistent.rename_left different ?_ kept,
          recorded.renameAll different kept consistent, rfl⟩
        rintro ⟨disk, success⟩
        rw [moved] at success
        cases success
  | ok disk =>
      rcases state.disk.rename_ok (Environment.outcome_ok moved) with
        ⟨rfl, rfl⟩ | ⟨different, safe, -, -, rfl⟩
      · rw [Database.renameAll_same]
        exact deployment.intact_same consistent recorded rfl
      · have kept := keeps.resolve_left different
        exact ⟨consistent.rename_moved different safe environment.now ⟨_, moved⟩ kept,
          recorded.renameAll different kept consistent, rfl⟩

end Operation

/-- An operation sends nothing and keeps the rows, the bytes and the packets together. -/
theorem intact_operation {request : Request} (consistent : Consistent root history.state)
    (recorded : deployment.server.Recorded history.state)
    (keeps : deployment.KeepsContent root history (.operation request)) :
    deployment.Intact root history.state (deployment.fs.step history request).state := by
  obtain ⟨operation, environment⟩ := request
  obtain ⟨state, clock⟩ := history
  cases operation with
  | mknod path mode =>
      exact deployment.intact_mknod rooted consistent recorded environment path mode
  | mkdir path mode =>
      exact deployment.intact_mkdir rooted consistent recorded environment path mode
  | openFile path access trunc =>
      exact deployment.intact_open rooted consistent recorded environment path access trunc
  | read path size offset =>
      exact deployment.intact_same consistent recorded
        (deployment.fs.exec_read path size offset environment state)
  | write path data offset =>
      exact deployment.intact_write rooted consistent recorded environment path data offset keeps
  | truncate path length =>
      exact deployment.intact_truncate rooted consistent recorded environment path length keeps
  | release path access =>
      exact deployment.intact_release rooted consistent recorded environment path access keeps
  | unlink path => exact deployment.intact_unlink rooted consistent recorded environment path
  | rmdir path => exact deployment.intact_rmdir rooted consistent recorded environment path
  | rename source target =>
      exact deployment.intact_rename rooted consistent recorded environment source target keeps

theorem kept_step {event : Event} (kept : deployment.server.Kept root history.state)
    (keeps : deployment.KeepsContent root history event) :
    deployment.server.Kept root (deployment.step history event).state := by
  cases event with
  | operation request =>
      obtain ⟨consistent, recorded, sent⟩ :=
        deployment.intact_operation rooted kept.consistent kept.recorded keeps
      refine ⟨consistent, recorded, ?_, ?_⟩
      · intro data member
        exact kept.origin data (sent ▸ member)
      · intro first member second member'
        exact kept.single first (sent ▸ member) second (sent ▸ member')
  | interest interest =>
      rw [deployment.step_interest]
      exact kept.interest rooted keeps

end Run

end Deployment

end Ndnfs

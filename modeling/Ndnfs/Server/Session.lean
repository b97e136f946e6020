import Ndnfs.Fs.Content
import Ndnfs.Server.Deployment
import Ndnfs.Server.Execution
import Ndnfs.Server.Scan

namespace Ndnfs
open MachineInteger Percent NdnCpp

/-- Each Interest is handled in its own environment. -/
structure Interest where
  name : Name
  environment : Environment

/-- The kernel sends requests to the file system, and the network sends Interests to the server. -/
inductive Event where
  | operation (request : Request)
  | interest (interest : Interest)

namespace Deployment

variable (deployment : Deployment)

/-- The server handles each Interest between two operations. -/
def step (history : History) : Event → History
  | .operation request => deployment.fs.step history request
  | .interest interest => { history with
      state := (exec (deployment.server.onInterestCallback interest.name) interest.environment
        history.state).2 }

theorem step_interest (history : History) (interest : Interest) :
    deployment.step history (.interest interest) = { history with
      state := Server.sendReply history.state
        (deployment.server.reply interest.environment history.state interest.name) } := by
  rw [← deployment.server.exec_onInterestCallback]
  rfl

end Deployment

/-- Only the operations look at the clock. -/
def Event.ClockAdvances (history : History) : Event → Prop
  | .operation request => Ndnfs.ClockAdvances history request
  | .interest _ => True

namespace Server

variable (server : Server) {root : Path} {path : Bytes} {environment : Environment} {state : State}

theorem filePath_text (rooted : server.fsPath = root.rootText) (file : Path) :
    server.filePath file.text = root.rootText ++ file.text := by
  rw [filePath, absPath, rooted]

/-- The bytes that the server reads belong to the segment of the file. -/
theorem readContent_segment (rooted : server.fsPath = root.rootText) {file : Path} {seg : Int}
    {number : Nat} (place : contentSeg seg = number) (early : number < FileSystem.lastRound)
    {environment : Environment} {disk : Disk} {content : Bytes}
    (read : server.readContent environment disk file.text seg = .ok content) :
    content = disk.segmentAt (root.locate file) number := by
  rw [readContent, server.filePath_text rooted, place] at read
  split at read
  · cases read
  · rename_i location entry found
    obtain ⟨rfl, present⟩ := disk.lookupText_ok (Environment.outcome_ok found)
    have readable := Environment.outcome_ok read
    by_cases regular : entry.kind = .regular
    · obtain ⟨kind, bytes⟩ := entry
      obtain rfl : kind = .regular := regular
      rw [FileSystem.pread_segment present early] at readable
      rw [Disk.segmentAt_regular present]
      exact (Except.ok.inj readable).symm
    · obtain ⟨error, failed⟩ := FileSystem.pread_irregular present regular segSize
        (shiftLeft number segSizeShift)
      rw [failed] at readable
      cases readable

/-- Without a fault the server sees the size of the object. -/
theorem fileSize_calm (rooted : server.fsPath = root.rootText) {file : Path} {entry : Entry}
    {disk : Disk} (present : disk.entry (root.locate file) = some entry)
    (calm : environment.faults = []) :
    server.fileSize environment disk file.text = toInt entry.content.length := by
  have found := disk.lookupText_some present
  rw [← server.filePath_text rooted] at found
  exact server.fileSize_of_lookupText file.text environment found calm

/-- Without a fault a segment with a row and with bytes is sent. -/
theorem contentReply_calm (rooted : server.fsPath = root.rootText) {file : Path} {content : Bytes}
    (regular : state.disk.entry (root.locate file) = some ⟨.regular, content⟩)
    (calm : environment.faults = []) {version : Int} {seg : Nat}
    (row : state.db.fileSegments.Has (file.text, version, (seg : Int)))
    (early : seg < FileSystem.lastRound) (inside : segSize * seg < content.length)
    (interestName : Name) : ∃ data,
      server.contentReply file.text environment state interestName version seg = some data ∧
        data.content = segmentBytes content seg := by
  obtain ⟨signature, found⟩ := KeyedTable.has_iff.mp row
  have place : contentSeg (seg : Int) = seg := if_neg (by omega)
  have quiet : environment.next.faults = [] := environment.faults_next calm
  have quiet' : environment.next.next.faults = [] := environment.next.faults_next quiet
  have read : server.readContent environment state.disk file.text seg =
      .ok (segmentBytes content seg) := by
    simp only [readContent, server.filePath_text rooted, environment.next.outcome_of_nil quiet,
      environment.next.next.outcome_of_nil quiet', state.disk.lookupText_some regular, place]
    exact FileSystem.pread_segment regular early
  have bytes : 0 < (segmentBytes content seg).length := by
    rw [segmentBytes_length]
    unfold segSize at inside ⊢
    omega
  refine ⟨server.contentPacket interestName seg
    (server.fileSize environment state.disk file.text) (segmentBytes content seg)
    (environment.freed (some signature)), ?_, rfl⟩
  rw [contentReply, place, found]
  simp only [read, if_pos bytes]

/-- The kind of a request with a version depends on its segment number. -/
theorem Scan.ret_eq_three_iff (scan : Scan) : Scan.ret scan = 3 ↔ scan.version ≠ -1 ∧ scan.seg ≠ -1 := by
  unfold Scan.ret
  split_ifs <;> simp_all

theorem Scan.ret_eq_two_iff (scan : Scan) : Scan.ret scan = 2 ↔
    scan.version ≠ -1 ∧ scan.seg = -1 ∧ scan.hasMeta = false := by
  unfold Scan.ret
  split_ifs <;> simp_all

/-- The name of a content packet is a request for the segment that it carries. -/
theorem parseName_contentName {interestName : Name} {ret version seg : Int}
    (parse : server.parseName interestName = .ok ⟨ret, version, seg, path⟩)
    (content : ret = 3 ∨ ret = 2) :
    server.parseName (server.contentName interestName seg) =
      .ok ⟨3, version, contentSeg seg, path⟩ := by
  obtain ⟨scan, scanned, finished⟩ := server.parseName_ok parse (by
    rcases content with rfl | rfl <;> simp)
  obtain ⟨enough, parsed⟩ := server.finish_eq_ok finished
  obtain ⟨kind, versionSame, segSame, pathSame⟩ := Parsed.mk.inj parsed
  rcases content with rfl | rfl
  · have known := (Scan.ret_eq_three_iff scan).mp kind.symm
    have given : seg ≠ -1 := segSame ▸ known.2
    rw [contentName, contentSeg, if_neg given, if_neg given]
    exact parse
  · obtain ⟨known, blank, -⟩ := (Scan.ret_eq_two_iff scan).mp kind.symm
    have given : seg = -1 := segSame.trans blank
    have appended : server.scanName {} (interestName ++ [server.ndn.segmentComponent 0]) =
        .ok (true, { scan with seg := 0 }) := by
      rw [server.scanName_append, scanned]
      dsimp only
      rw [server.scanName_segment (server.componentKind_segmentComponent 0)
        (server.ndn.toSegment_segmentComponent 0) known blank,
        toInt_toUInt64 (by decide)]
      rfl
    have three : Scan.ret { scan with seg := 0 } = 3 :=
      (Scan.ret_eq_three_iff _).mpr ⟨known, by simp⟩
    rw [contentName, contentSeg, if_pos given, if_pos given, server.parseName_accepted appended,
      finish, if_neg (Nat.not_lt.mpr enough), three, versionSame, pathSame]

/-- A request without a segment number has the blank one. -/
theorem seg_of_parse {interestName : Name} {version seg : Int}
    (parse : server.parseName interestName = .ok ⟨2, version, seg, path⟩) : seg = -1 := by
  obtain ⟨scan, -, finished⟩ := server.parseName_ok parse (by simp)
  obtain ⟨-, parsed⟩ := server.finish_eq_ok finished
  obtain ⟨kind, -, segSame, -⟩ := Parsed.mk.inj parsed
  exact segSame.trans ((Scan.ret_eq_two_iff scan).mp kind.symm).2.1

/-- Every reply is a content packet or the answer to a request for a path. -/
theorem reply_cases {interestName : Name} {data : Data}
    (replied : server.reply environment state interestName = some data) :
    (∃ path version seg, server.contentReply path environment state interestName version seg =
        some data ∧ server.parseName data.name = .ok ⟨3, version, contentSeg seg, path⟩) ∨
      ∃ path version seg, server.parseName interestName = .ok ⟨1, version, seg, path⟩ ∧
        server.pathReply path environment state = some data := by
  have content {ret version seg : Int} {path : Bytes}
      (parse : server.parseName interestName = .ok ⟨ret, version, seg, path⟩)
      (request : ret = 3 ∨ ret = 2) (found : server.contentReply path environment state interestName
        version seg = some data) :
      server.parseName data.name = .ok ⟨3, version, contentSeg seg, path⟩ := by
    obtain ⟨signature, bytes, -, -, -, rfl⟩ := server.contentReply_some found
    exact server.parseName_contentName parse request
  unfold reply at replied
  split at replied
  · cases replied
  · rename_i ret version seg path parse
    split at replied
    · rename_i three
      exact .inl ⟨path, version, seg, replied, content parse (.inl three) replied⟩
    · split at replied
      · rename_i two
        subst two
        obtain rfl := server.seg_of_parse parse
        split at replied
        · exact .inl ⟨path, version, -1, replied, content parse (.inr rfl) replied⟩
        · cases replied
      · split at replied
        · rename_i one
          subst one
          exact .inr ⟨path, version, seg, parse, replied⟩
        · cases replied

theorem kind_of_escape (component : Component) {text : Bytes} {first : UInt8}
    (escaped : escape component = text) (other : ¬ AllPeriods component)
    (head : component.head? = some first) :
    componentKind (server.ndn.fromEscapedString text) = componentKind [first] := by
  rw [← escaped, server.ndn.fromEscapedString_escape component other]
  exact componentKind_of_head head

theorem kind_fileComponent :
    componentKind (server.ndn.fromEscapedString fileComponentName) = .marker :=
  server.kind_of_escape (metaMarker :: ascii ".FS.file") (by decide) (by decide) rfl

theorem kind_dirComponent :
    componentKind (server.ndn.fromEscapedString dirComponentName) = .marker :=
  server.kind_of_escape (metaMarker :: ascii ".FS.dir") (by decide) (by decide) rfl

/-- After a marker and a version the loop has no segment. -/
theorem scanName_marked {scan last : Scan} {marker : Component}
    (kind : componentKind marker = .marker) {version : Int}
    (complete : server.scanName scan [marker, server.ndn.versionComponent version] =
      .ok (true, last)) : last.seg = -1 := by
  rw [scanName, server.scanComponent_marker kind] at complete
  by_cases blank : scan.version ≠ -1 ∨ scan.seg ≠ -1
  · rw [if_pos blank] at complete
    simp at complete
  · obtain ⟨noVersion, noSeg⟩ := not_or.mp blank
    have passed : ({ scan with hasMeta := true } : Scan).version = -1 := not_not.mp noVersion
    rw [if_neg blank] at complete
    dsimp only at complete
    rw [server.scanName_version (server.componentKind_versionComponent version)
      (server.ndn.toVersion_versionComponent version) passed] at complete
    obtain ⟨-, rfl⟩ := Prod.mk.inj (Except.ok.inj complete)
    exact not_not.mp noSeg

/-- A name that ends in a marker and a version is no request for a segment. -/
theorem parseName_marked {base : Name} {marker : Component} (kind : componentKind marker = .marker)
    {version ver seg : Int} (parse : server.parseName
      (base ++ [marker, server.ndn.versionComponent version]) = .ok ⟨3, ver, seg, path⟩) :
    False := by
  obtain ⟨scan, scanned, finished⟩ := server.parseName_ok parse (by simp)
  obtain ⟨-, parsed⟩ := server.finish_eq_ok finished
  have known := (Scan.ret_eq_three_iff scan).mp (Parsed.mk.inj parsed).1.symm
  rw [server.scanName_append] at scanned
  split at scanned
  · exact known.2 (server.scanName_marked kind scanned)
  · rename_i stopped
    exact stopped scan scanned

end Server

namespace Reference

/-- The name of a segment of the first file. -/
def segmentName (version seg : Int) : Name :=
  [ascii "ndn", ascii "broadcast", ascii "ndnfs", ascii "a", ndn.versionComponent version,
    ndn.segmentComponent seg]

/-- A reply for a segment that was signed over the byte x. -/
def signedReply (content : Bytes) : Data :=
  server.contentPacket (segmentName 2 0) 0 1 content
    (some ⟨fileSystem.signedPortion fileA.text 2 0 (ascii "x")⟩)

end Reference

end Ndnfs

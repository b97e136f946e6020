import Mathlib.Data.List.Sort
import Ndnfs.Fs.Segment
import Ndnfs.Server.ParseName

namespace Ndnfs
open MachineInteger NdnCpp

def defaultFreshnessPeriod : Nat := 5000
def fileComponentName : Bytes := ascii "%C1.FS.file"
def dirComponentName : Bytes := ascii "%C1.FS.dir"
def contentMetaString : Bytes := ascii "_list"

/-- The link to the parent directory goes in front of the page. -/
def parentLink (content : Bytes) : Bytes :=
  ascii "<a href=\"" ++ (ascii "../\">[Parent directory]</a>" ++ (ascii "<br>" ++ content))

/-- The loop over the directory collects the names and puts the parent link. -/
def readEntries (queryPath : Bytes) : List Bytes → Bytes × List Bytes → Bytes × List Bytes
  | [], result => result
  | name :: names, (content, dirContents) =>
      if name = ascii "." then readEntries queryPath names (content, dirContents)
      else if name = ascii ".." then
        if queryPath ≠ ascii "/" then readEntries queryPath names (parentLink content, dirContents)
        else readEntries queryPath names (content, dirContents)
      else readEntries queryPath names (content, dirContents ++ [name])

/-- The anchor of one entry. -/
def entryLink (name : Bytes) : Bytes :=
  ascii "<a download=\"" ++ name ++ ascii "\" href=\"./" ++ name ++ ascii "\">" ++ name ++
    ascii "</a>" ++ ascii "<br>"

def dirPage (queryPath : Bytes) (names : List Bytes) : Bytes :=
  let (content, dirContents) := readEntries queryPath names (ascii "<html><body>", [])
  content ++ (dirContents.insertionSort (· ≤ ·)).flatMap entryLink ++ ascii "</body></html>"

namespace Server

variable {Stmt Fd : Type} (server : Server)

def filePath (path : Bytes) : Bytes := absPath server.fsPath path

/-- The results are file_size and total_seg. -/
def readFileSize (path : Bytes) : Source Stmt Fd (Int × Int) := do
  match ← invoke (.stat (server.filePath path)) with
  | .ok st =>
      let fileSize := toInt st.size
      return (fileSize, shiftRight fileSize segSizeShift + 1)
  | .error _ =>
      -- The source uses st after a failed stat.
      let fileSize := toInt (← invoke .uninitialised)
      return (fileSize, shiftRight fileSize segSizeShift + 1)

/-- The finalBlockId of a reply with this many segments. -/
def finalBlockId (totalSeg : Int) : Component :=
  server.ndn.fromNumberWithMarker (toUInt64 (totalSeg - 1)) segmentMarker

/-- A blank segment number stands for segment 0. -/
def contentName (interestName : Name) (seg : Int) : Name :=
  if seg = -1 then interestName ++ [server.ndn.segmentComponent 0] else interestName

def contentSeg (seg : Int) : Int := if seg = -1 then 0 else seg

def sendFileContent (interestName : Name) (path : Bytes) (version seg : Int) :
    Source Stmt Fd Int := do
  let name := server.contentName interestName seg
  let seg := contentSeg seg
  let stmt ← invoke (.prepare (.selectFileSegment path version seg))
  let (res, stmt) ← invoke (.step stmt)
  if res ≠ SQLITE_ROW then
    invoke (.finalize stmt)
    return -1
  else
    let signatureBlob ← invoke (.columnBlob stmt 3)
    invoke (.finalize stmt)
    let signature ← invoke (.readBlob signatureBlob)
    let (_, totalSeg) ← server.readFileSize path
    let finalBlockId := if totalSeg > 0 then some (server.finalBlockId totalSeg) else none
    match ← invoke (.openFile (server.filePath path) O_RDONLY) with
    | .error _ => return -1
    | .ok fd =>
        let output ← invoke (.pread fd segSize (shiftLeft seg segSizeShift))
        let _ ← invoke (.close fd)
        match output with
        | .error _ => return -1
        | .ok output =>
            if 0 < output.length then
              invoke (.putData {
                name
                metaInfo := ⟨some defaultFreshnessPeriod, finalBlockId⟩
                content := output
                signatureBits := signature })
              return output.length
            else
              return 0

/-- The name under which metadata is sent. -/
def metaName (path component : Bytes) (version : Int) : Name :=
  server.ndn.nameOfUri server.fsPrefix ++ server.ndn.nameOfUri path ++
    [server.ndn.fromEscapedString component, server.ndn.versionComponent version]

def sendFileMeta (path mimeType : Bytes) (version type : Int) : Source Stmt Fd Int := do
  let res ← executeOnce (.selectFileVersion path version)
  if res ≠ SQLITE_ROW then
    return -1
  else
    let (fileSize, totalSeg) ←
      if type = FileType.regular.code then server.readFileSize path else pure (0, 0)
    let infof : FileInfo := {
      size := fileSize
      totalseg := totalSeg
      version
      mimetype := if mimeType = [] then none else some mimeType
      type := some type }
    invoke (.putData (server.ndn.sign server.certificateName {
      name := server.metaName path fileComponentName version
      metaInfo := ⟨some defaultFreshnessPeriod, some (server.finalBlockId totalSeg)⟩
      content := server.protobuf.serialize infof }))
    return 0

/-- A trailing "_list" is not part of the directory's path. -/
def queryPath (path : Bytes) : Bytes :=
  if contentMetaString <:+ path then path.take (path.length - contentMetaString.length) else path

/-- The types of the entries, which the source also reads, have no effect. -/
def sendDirMetaBrowserFriendly (path : Bytes) : Source Stmt Fd Int := do
  let queryPath := queryPath path
  let dirPath := server.filePath queryPath
  match ← invoke (.opendir dirPath) with
  | .error _ => return -1
  | .ok names =>
      let mtime ← match ← invoke (.lstat dirPath) with
        | .ok st => pure (toInt st.mtime)
        | .error _ => do
            let mtime ← invoke .uninitialised
            pure (toInt mtime)
      invoke (.putData (server.ndn.sign server.certificateName {
        name := server.metaName path dirComponentName mtime
        metaInfo := ⟨some defaultFreshnessPeriod, none⟩
        content := dirPage queryPath names }))
      return 0

/-- This is what onInterestCallback does for the result of parseName. -/
def onParsedName (interestName : Name) : Parsed → Source Stmt Fd Unit
  | ⟨ret, version, seg, path⟩ => do
      if ret = 3 then
        let _ ← server.sendFileContent interestName path version seg
      else if ret = 2 then
        let stmt ← invoke (.prepare (.selectMimeType path))
        let (res, stmt) ← invoke (.step stmt)
        if res ≠ SQLITE_ROW then
          invoke (.finalize stmt)
        else
          -- The source reads the MIME type and the file type and uses neither.
          let _ ← invoke (.columnText stmt 0)
          let _ ← invoke (.columnInt stmt 1)
          invoke (.finalize stmt)
          let _ ← server.sendFileContent interestName path version (-1)
      else if ret = 1 then
        let stmt ← invoke (.prepare (.selectFileMeta path))
        let (res, stmt) ← invoke (.step stmt)
        if res ≠ SQLITE_ROW then
          invoke (.finalize stmt)
          let _ ← server.sendDirMetaBrowserFriendly path
        else
          let version ← invoke (.columnInt stmt 0)
          -- The result has no column 3, so the MIME type stays empty.
          let mimeType ← match ← invoke (.columnText stmt 3) with
            | none => pure []
            | some _ => do
                let text ← invoke (.columnText stmt 1)
                pure (text.getD [])
          let fileType ← invoke (.columnInt stmt 2)
          invoke (.finalize stmt)
          let _ ← server.sendFileMeta path mimeType version fileType

/-- An exception of parseName leaves the callback. -/
def onInterestCallback (interestName : Name) : Source Stmt Fd (Except ParseException Unit) := do
  match server.parseName interestName with
  | .error exception => return .error exception
  | .ok parsed =>
      server.onParsedName interestName parsed
      return .ok ()

end Server

end Ndnfs

import Ndnfs.Fs.MimeInference
import Ndnfs.Fs.Segment

namespace Ndnfs
open MachineInteger

/-- This stub copies nothing. -/
def duplicateVersion (_path : Bytes) (_fromVer _toVer : Int) : Int := 0

def removeFileEntry {Stmt Fd : Type} (path : Bytes) : Source Stmt Fd Unit := do
  let _ ← executeOnce (.deleteFileSystem path)

/-- The type column of a new file. -/
def modeFileType (mode : Nat) : FileType :=
  if mode &&& S_IFMT = S_IFDIR then .regular
  else if mode &&& S_IFMT = S_IFCHR then .characterSpecial
  else if mode &&& S_IFMT = S_IFREG then .regular
  else if mode &&& S_IFMT = S_IFLNK then .symbolicLink
  else if mode &&& S_IFMT = S_IFSOCK then .unixSocket
  else if mode &&& S_IFMT = S_IFIFO then .fifoSpecial
  else .regular

namespace FileSystem

variable {Stmt Fd : Type} (fs : FileSystem)

def fullPath (path : Bytes) : Bytes := absPath fs.rootPath path

def ndnfsOpen (path : Bytes) (flags : OpenFlags) : Source Stmt Fd Int := do
  match ← invoke (.openFile (fs.fullPath path) flags) with
  | .error errno => return errno.negative
  | .ok fd =>
      let _ ← invoke (.close fd)
      let stmt ← invoke (.prepare (.selectCurrentVersion path))
      let (res, stmt) ← invoke (.step stmt)
      if res ≠ SQLITE_ROW then
        invoke (.finalize stmt)
        return Errno.ENOENT.negative
      else
        let currVer ← invoke (.columnInt stmt 0)
        invoke (.finalize stmt)
        let tempVer := toInt (← invoke .time)
        match flags.access with
        | .readOnly => return 0
        | .writeOnly | .readWrite =>
            if duplicateVersion path currVer tempVer < 0 then
              return Errno.EACCES.negative
            else
              return 0

/-- The system calls that create the object on disk. -/
def createObject (path : Bytes) (mode : Nat) : Source Stmt Fd (Except Errno Unit) := do
  if S_ISREG mode then
    match ← invoke (.openFile (fs.fullPath path)
      { access := .writeOnly, create := true, exclusive := true }) with
    | .error errno => return .error errno
    | .ok fd => invoke (.close fd)
  else if S_ISFIFO mode then
    invoke (.mkfifo (fs.fullPath path) mode)
  else
    invoke (.mknod (fs.fullPath path) mode)

def ndnfsMknod (path : Bytes) (mode : Nat) : Source Stmt Fd Int := do
  let res ← executeOnce (.selectFileSystem path)
  if res = SQLITE_ROW then
    -- The source reports a conflicting name as ENOENT.
    return Errno.ENOENT.negative
  else
    let mimeType := mimeInfer path
    let ver := toInt (← invoke .time)
    let _ ← executeOnce (.insertFileVersion path ver)
    let _ ← executeOnce (.insertFileSystem path ver mimeType SignatureState.notReady.code
      (modeFileType mode).code)
    match ← fs.createObject path mode with
    | .error errno => return errno.negative
    | .ok () => return 0

/-- The second result is the content of the buffer. -/
def ndnfsRead (path : Bytes) (size : Nat) (offset : Int) : Source Stmt Fd (Int × Bytes) := do
  let res ← executeOnce (.selectCurrentVersion path)
  if res ≠ SQLITE_ROW then
    return (Errno.ENOENT.negative, [])
  else
    match ← invoke (.openFile (fs.fullPath path) O_RDONLY) with
    | .error errno => return (errno.negative, [])
    | .ok fd =>
        match ← invoke (.pread fd size offset) with
        | .error errno => return (errno.negative, [])
        | .ok buf =>
            let _ ← invoke (.close fd)
            return (buf.length, buf)

def ndnfsWrite (path buf : Bytes) (offset : Int) : Source Stmt Fd Int := do
  let res ← executeOnce (.selectCurrentVersion path)
  if res ≠ SQLITE_ROW then
    return Errno.ENOENT.negative
  else
    match ← invoke (.openFile (fs.fullPath path) O_RDWR) with
    | .error errno => return errno.negative
    | .ok fd =>
        match ← invoke (.pwrite fd buf offset) with
        | .error errno => return errno.negative
        | .ok writeLen =>
            let _ ← invoke (.close fd)
            return writeLen

def ndnfsTruncate (path : Bytes) (length : Int) : Source Stmt Fd Int := do
  let res ← executeOnce (.selectCurrentVersion path)
  if res ≠ SQLITE_ROW then
    return Errno.ENOENT.negative
  else
    match ← invoke (.truncate (fs.fullPath path) length) with
    | .error errno => return errno.negative
    -- The source returns the code of sqlite3_step here.
    | .ok () => return res

def ndnfsUnlink (path : Bytes) : Source Stmt Fd Int := do
  removeFileEntry path
  let _ ← executeOnce (.deleteFileSystem path)
  match ← invoke (.unlink (fs.fullPath path)) with
  | .error errno => return errno.negative
  | .ok () => return 0

/-- The signing loop of ndnfs_release runs until a short read; no round follows the last one. -/
def signLoop (path : Bytes) (currVersion : Int) (fd : Fd) :
    Nat → Int → Source Stmt Fd (Except Errno Unit)
  | 0, _ => return .error .EINVAL
  | rounds + 1, seg => do
      match ← invoke (.pread fd segSize (shiftLeft seg segSizeShift)) with
      | .error errno => return .error errno
      | .ok buf =>
          fs.signSegment path currVersion seg buf
          if buf.length = segSize then
            signLoop path currVersion fd rounds (seg + 1)
          else
            return .ok ()

/-- The round of this segment reads at a negative offset, so it is the last one. -/
def lastRound : Nat := 2 ^ 18

def ndnfsRelease (path : Bytes) (flags : OpenFlags) : Source Stmt Fd Int := do
  let currVersion := toInt (← invoke .time)
  let res ← executeOnce (.selectCurrentVersion path)
  if res ≠ SQLITE_ROW then
    return Errno.ENOENT.negative
  else if flags.access = .readOnly then
    return 0
  else
    let stmt ← invoke (.prepare (.updateCurrentVersion currVersion path))
    let (res, stmt) ← invoke (.step stmt)
    if res ≠ SQLITE_OK ∧ res ≠ SQLITE_DONE then
      return res
    else
      invoke (.finalize stmt)
      let _ ← executeOnce (.insertFileVersion path currVersion)
      match ← invoke (.openFile (fs.fullPath path) O_RDONLY) with
      | .error errno => return errno.negative
      | .ok fd =>
          match ← fs.signLoop path currVersion fd (lastRound + 1) 0 with
          | .error errno => return errno.negative
          | .ok () =>
              let _ ← invoke (.close fd)
              return 0

def ndnfsRename (source target : Bytes) : Source Stmt Fd Int := do
  -- The source never assigns the result of sqlite3_step to this variable.
  let res : Int := 0
  let stmt ← invoke (.prepare (.renameFileSystem target source))
  let (_, stmt) ← invoke (.step stmt)
  if res ≠ SQLITE_OK ∧ res ≠ SQLITE_DONE then
    return res
  else
    invoke (.finalize stmt)
    let stmt ← invoke (.prepare (.renameFileVersions target source))
    let (_, stmt) ← invoke (.step stmt)
    if res ≠ SQLITE_OK ∧ res ≠ SQLITE_DONE then
      return res
    else
      invoke (.finalize stmt)
      let stmt ← invoke (.prepare (.renameFileSegments target source))
      let (_, stmt) ← invoke (.step stmt)
      if res ≠ SQLITE_OK ∧ res ≠ SQLITE_DONE then
        return res
      else
        invoke (.finalize stmt)
        match ← invoke (.rename (fs.fullPath source) (fs.fullPath target)) with
        | .error errno => return errno.negative
        | .ok () => return 0

end FileSystem

end Ndnfs

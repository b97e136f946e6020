import Ndnfs.System.Call

namespace Ndnfs
open Percent

/-- The global variables of ndnfs. -/
structure FileSystem where
  ndn : NdnCpp
  globalPrefix : Bytes
  rootPath : Bytes
  certificateName : Name

def segSize : Nat := 8192
def segSizeShift : Nat := 13

/-- The parameter is an int, so an offset of type off_t is converted. -/
def seekSegment (doff : Int) : Int := MachineInteger.shiftRight (MachineInteger.toInt doff) segSizeShift

def segmentToSize (seg : Int) : Int := MachineInteger.shiftLeft (MachineInteger.toInt seg) segSizeShift

/-- abs_path puts the root path before the path. -/
def absPath (rootPath path : Bytes) : Bytes := rootPath ++ path

/-- The loop replaces "%2F" by "/"; each round removes two bytes. -/
def unescapeSlashes (escapedString : Bytes) : Bytes :=
  replaceLoop (ascii "%2F") (ascii "/") escapedString.length escapedString

namespace FileSystem

variable {Stmt Fd : Type} (fs : FileSystem)

/-- This name is signed for a segment. -/
def segName (path : Bytes) (ver seg : Int) : Name :=
  fs.ndn.nameOfUri (unescapeSlashes (fs.ndn.toEscapedString (fs.globalPrefix ++ path))) ++
    [fs.ndn.versionComponent ver, fs.ndn.segmentComponent seg]

/-- No caller uses the size of the signature that sign_segment returns. -/
def signSegment (path : Bytes) (ver seg : Int) (data : Bytes) : Source Stmt Fd Unit := do
  let data0 : Data := { name := fs.segName path ver seg, content := data }
  let signed := fs.ndn.sign fs.certificateName data0
  match signed.signatureBits with
  | none => return
  | some signature =>
      let _ ← executeOnce (.replaceFileSegment path ver seg signature)

/-- The file is truncated already; the buffer is what the new array of seg_size bytes holds. -/
def truncateSegment (buffer path : Bytes) (ver seg length : Int) : Source Stmt Fd Unit := do
  -- The columns of SELECT * are these four in this order.
  let stmt ← invoke (.prepare (.selectFileSegment path ver seg))
  let (res, stmt) ← invoke (.step stmt)
  if res ≠ SQLITE_ROW then
    return
  else if length = 0 then
    invoke (.finalize stmt)
    let _ ← executeOnce (.deleteFileSegment path ver seg)
  else
    match ← invoke (.openFile (absPath fs.rootPath path) O_RDONLY) with
    | .error _ => return
    | .ok fd =>
        match ← invoke (.pread fd (MachineInteger.toUInt64 length) (segmentToSize seg)) with
        | .error _ => return
        | .ok data =>
            -- The source builds seg_name here and does not give it to the packet.
            let truncData : Data := {
              content := (data ++ buffer.drop data.length).take (MachineInteger.toUInt64 length) }
            let signed := fs.ndn.sign fs.certificateName truncData
            invoke (.finalize stmt)
            if let some signature := signed.signatureBits then
              let _ ← executeOnce (.replaceFileSegment path ver seg signature)
            let _ ← invoke (.close fd)

end FileSystem

end Ndnfs

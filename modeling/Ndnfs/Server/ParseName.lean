import Ndnfs.Ndn.Reference
import Ndnfs.Server.FileInfo

namespace Ndnfs
open MachineInteger Percent NdnCpp

/-- The global variables of ndnfs-server and the library functions it calls. -/
structure Server where
  ndn : NdnCpp
  protobuf : Protobuf
  fsPrefix : Bytes
  fsPath : Bytes
  certificateName : Name

/-- The local variables of the loop over the components. -/
structure Scan where
  version : Int := -1
  seg : Int := -1
  hasMeta : Bool := false
  oss : Bytes := []
  deriving DecidableEq

/-- A name can make parseName read a byte that does not exist or leave by an exception. -/
inductive ParseException where
  | badRead
  | badNumber
  | outOfRange
  deriving DecidableEq

/-- The result and the values of the reference arguments. -/
structure Parsed where
  ret : Int
  version : Int
  seg : Int
  path : Bytes
  deriving DecidableEq

namespace Server

variable (server : Server)

/-- The server registers this name. -/
def prefixName : Name := server.ndn.nameOfUri server.fsPrefix

/-- One round of the loop; no scan means `return -1`. -/
def scanComponent (scan : Scan) : Component → Except ParseException (Option Scan)
  | [] => .error .badRead
  | marker :: rest =>
      let component := marker :: rest
      if marker = versionMarker then
        if scan.version = -1 then
          match server.ndn.toVersion component with
          | none => .error .badNumber
          | some number => .ok (some { scan with version := toInt number })
        else .ok none
      else if marker = segmentMarker then
        if scan.version = -1 then .ok none
        else if scan.seg ≠ -1 then .ok none
        else
          match server.ndn.toSegment component with
          | none => .error .badNumber
          | some number => .ok (some { scan with seg := toInt number })
      else if marker = metaMarker then
        if scan.version ≠ -1 ∨ scan.seg ≠ -1 then .ok none
        else .ok (some { scan with hasMeta := true })
      else if scan.version = -1 ∧ scan.seg = -1 then
        .ok (some { scan with oss := scan.oss ++ slash :: server.ndn.toEscapedString component })
      else .ok none

/-- The first result tells whether the loop reaches the end of the name. -/
def scanName : Scan → Name → Except ParseException (Bool × Scan)
  | scan, [] => .ok (true, scan)
  | scan, component :: name =>
      match server.scanComponent scan component with
      | .error exception => .error exception
      | .ok none => .ok (false, scan)
      | .ok (some next) => scanName next name

/-- The kind of request that a complete scan stands for. -/
def Scan.ret (scan : Scan) : Int :=
  if scan.version ≠ -1 ∧ scan.seg ≠ -1 then 3
  else if scan.version ≠ -1 ∧ scan.hasMeta = false then 2
  else 1

section Kinds

variable {version seg : Int} {hasMeta : Bool} {oss : Bytes}

theorem Scan.ret_path (general : version = -1 ∨ seg = -1 ∧ hasMeta = true) :
    Scan.ret ⟨version, seg, hasMeta, oss⟩ = 1 := by
  rcases general with blank | ⟨blank, marker⟩
  · simp [Scan.ret, blank]
  · simp [Scan.ret, blank, marker]

theorem Scan.ret_version (known : version ≠ -1) (plain : hasMeta = false) :
    Scan.ret ⟨version, -1, hasMeta, oss⟩ = 2 := by
  simp [Scan.ret, known, plain]

theorem Scan.ret_segment (known : version ≠ -1) (known' : seg ≠ -1) :
    Scan.ret ⟨version, seg, hasMeta, oss⟩ = 3 := by
  simp [Scan.ret, known, known']

end Kinds

def parseName (name : Name) : Except ParseException Parsed :=
  match server.scanName {} name with
  | .error exception => .error exception
  | .ok (false, scan) => .ok ⟨-1, scan.version, scan.seg, []⟩
  | .ok (true, scan) =>
      if scan.oss.length < server.fsPrefix.length then .error .outOfRange
      else
        let path := scan.oss.drop server.fsPrefix.length
        let path := if path = [] then ascii "/" else path
        .ok ⟨Scan.ret scan, scan.version, scan.seg, path⟩

/-- The process goes on after this name. The read of a byte that does not exist ends it, an
exception only if the face lets it pass. -/
def Survives (name : Name) : Prop :=
  match server.parseName name with
  | .ok _ => True
  | .error .badRead => False
  | .error .badNumber | .error .outOfRange => server.ndn.catchesExceptions = true

instance (name : Name) : Decidable (server.Survives name) := by
  unfold Survives
  split <;> infer_instance

end Server

namespace Reference

/-- The default configuration with the root directory of the disk as the root path. -/
def server : Server where
  ndn := ndn
  protobuf := protobuf
  fsPrefix := ascii "/ndn/broadcast/ndnfs"
  fsPath := []
  certificateName := certificateName

end Reference

end Ndnfs

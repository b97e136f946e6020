import Ndnfs.Client.Component
import Ndnfs.Foundation.Ledger

namespace Ndnfs.Client
open MachineInteger NdnCpp

/-- The program cat_file calls these libraries. -/
structure CatFile where
  ndn : NdnCpp
  protobuf : Protobuf

inductive CatCallback where
  | onMetaData
  | onFileData
  deriving DecidableEq

/-- The global variables of the program, the Interests of its face and the packets that wait for
their verification. -/
structure CatSession where
  fileName : Name := []
  totalSize : Int := 0
  totalSeg : Int := 0
  currentSeg : Int := 0
  done : Bool := false
  interests : Ledger (BoundInterest CatCallback) := ⟨[], []⟩
  verifying : List Data := []
  /-- An exception of a callback that the face does not catch ends the program. -/
  ended : Bool := false

namespace CatSession

def expressInterest (session : CatSession) (name : Name) (onData : CatCallback) : CatSession :=
  { session with interests := session.interests.request [⟨name, onData⟩] }

def verifyData (session : CatSession) (data : Data) : CatSession :=
  { session with verifying := session.verifying ++ [data] }

end CatSession

namespace CatFile

variable (client : CatFile)

/-- A wrong marker and a wrong FileInfo are only printed. -/
def onMetaData (data : Data) (session : CatSession) : CatSession :=
  match getComponent data.name ((data.name.length : Int) - 2) with
  | none => { session with ended := !client.ndn.catchesExceptions }
  | some comp =>
      let marker := client.ndn.toEscapedString comp
      if marker = dirComponentName then session
      else if marker = fileComponentName then
        match client.protobuf.parse data.content with
        | none => session
        | some infof =>
            let session := { session with
              totalSize := infof.size
              totalSeg := infof.totalseg
              fileName := getPrefix data.name ((data.name.length : Int) - 2) ++
                [client.ndn.versionComponent infof.version] }
            session.expressInterest
              (session.fileName ++ [client.ndn.segmentComponent session.currentSeg]) .onFileData
      else session

/-- The FinalBlockId is printed first, and do_verification is never cleared. -/
def onFileData (data : Data) (session : CatSession) : CatSession :=
  match data.metaInfo.finalBlockId.bind client.ndn.toSegment with
  | none => { session with ended := !client.ndn.catchesExceptions }
  | some _ =>
      let session := session.verifyData data
      match data.name.getLast?.bind client.ndn.toSegment with
      | none => { session with ended := !client.ndn.catchesExceptions }
      | some segment =>
          let session := { session with currentSeg := toInt (toInt segment + 1) }
          if session.currentSeg = session.totalSeg then { session with done := true }
          else session.expressInterest
            (session.fileName ++ [client.ndn.segmentComponent session.currentSeg]) .onFileData

/-- The metadata of a file lead to the Interest for a segment. -/
theorem onMetaData_announces {client : CatFile} {base : Name} {version : Int} {total : Nat}
    {data : Data} (announces : Announces client.ndn client.protobuf base version total data)
    (session : CatSession) : ∃ totalSize, client.onMetaData data session = { session with
      totalSize
      totalSeg := total
      fileName := base ++ [client.ndn.versionComponent version]
      interests := session.interests.request [⟨base ++ [client.ndn.versionComponent version] ++
        [client.ndn.segmentComponent session.currentSeg], .onFileData⟩] } := by
  obtain ⟨⟨marker, last, name, isFile⟩, infof, parsed, rfl, totalSame⟩ := announces
  have other : fileComponentName ≠ dirComponentName := by decide
  refine ⟨infof.size, ?_⟩
  rw [onMetaData, name, getComponent_marker, getPrefix_marker, ← totalSame]
  simp only [isFile, if_neg other, if_true, parsed]
  rfl

/-- What is no metadata of a file leads to nothing. -/
theorem onMetaData_other {client : CatFile} {data : Data} {comp : Component}
    (found : getComponent data.name ((data.name.length : Int) - 2) = some comp)
    (other : client.ndn.toEscapedString comp ≠ fileComponentName) (session : CatSession) :
    client.onMetaData data session = session := by
  rw [onMetaData, found]
  dsimp only
  rw [if_neg other]
  split <;> rfl

/-- The number of the next segment comes from the name of the received one. -/
theorem onFileData_segment {client : CatFile} {base : Name} {data : Data} {session : CatSession}
    {seg : Nat} (small : seg + 1 < 2 ^ 31)
    (name : data.name = base ++ [client.ndn.segmentComponent seg]) {number : Nat}
    (final : data.metaInfo.finalBlockId.bind client.ndn.toSegment = some number) :
    client.onFileData data session =
      if ((seg + 1 : Nat) : Int) = session.totalSeg then
        { session.verifyData data with currentSeg := (seg + 1 : Nat), done := true }
      else ({ session.verifyData data with currentSeg := (seg + 1 : Nat) }).expressInterest
        (session.fileName ++ [client.ndn.segmentComponent (seg + 1 : Nat)]) .onFileData := by
  have range : IsInt (seg : Int) := by
    unfold IsInt
    omega
  have received : data.name.getLast?.bind client.ndn.toSegment = some (toUInt64 seg) := by
    rw [name, List.getLast?_concat]
    exact client.ndn.toSegment_segmentComponent seg
  have next : toInt (toInt (toUInt64 seg) + 1) = ((seg + 1 : Nat) : Int) := by
    rw [toInt_toUInt64 range]
    exact toInt_natCast small
  rw [onFileData, final, received]
  dsimp only
  rw [next]
  rfl

def onTimeout (session : CatSession) : CatSession := { session with done := true }

/-- The verdict is only printed. -/
def onVerified (session : CatSession) : CatSession := session

def onVerifyFailed (session : CatSession) : CatSession := session

/-- The Interest that main expresses for the option -n without -r. -/
def metaInterest (text : Bytes) : BoundInterest CatCallback :=
  ⟨client.ndn.nameOfUri text ++ [client.ndn.fromEscapedString fileComponentName], .onMetaData⟩

/-- This is what main does before its loop; a repository has the segments without a version. -/
def main (text : Bytes) (repoMode : Bool) : CatSession :=
  let session : CatSession := {}
  if repoMode then
    let session := { session with
      fileName := client.ndn.nameOfUri text
      totalSeg := 12654
      totalSize := 103655871 }
    session.expressInterest (session.fileName ++ [client.ndn.segmentComponent 0]) .onFileData
  else
    session.expressInterest (client.metaInterest text).name .onMetaData

end CatFile

/-- The face and the key chain call one function at a time. -/
inductive CatEvent where
  | data (interest : BoundInterest CatCallback) (data : Data)
  | timeout (interest : BoundInterest CatCallback)
  | verified (data : Data)
  | verifyFailed (data : Data)

namespace CatFile

variable (client : CatFile)

def step (session : CatSession) : CatEvent → CatSession
  | .data interest data =>
      let session := { session with interests := session.interests.answer interest }
      match interest.onData with
      | .onMetaData => client.onMetaData data session
      | .onFileData => client.onFileData data session
  | .timeout interest =>
      onTimeout { session with interests := session.interests.answer interest }
  | .verified data => onVerified { session with verifying := session.verifying.erase data }
  | .verifyFailed data => onVerifyFailed { session with verifying := session.verifying.erase data }

/-- A packet comes or an Interest times out while the Interest is outstanding, and each verdict is
for a packet that waits for one. -/
def Receives (session : CatSession) : CatEvent → Prop
  | .data interest _ | .timeout interest => session.interests.Outstanding interest
  | .verified data | .verifyFailed data => data ∈ session.verifying

instance (session : CatSession) : (event : CatEvent) → Decidable (Receives session event)
  | .data interest _ | .timeout interest =>
      inferInstanceAs (Decidable (session.interests.Outstanding interest))
  | .verified data | .verifyFailed data => inferInstanceAs (Decidable (data ∈ session.verifying))

end CatFile

end Ndnfs.Client

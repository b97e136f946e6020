import Ndnfs.Client.Component
import Ndnfs.Foundation.Ledger

namespace Ndnfs.Client
open MachineInteger NdnCpp

/-- These members are set by the constructor and never change. -/
structure Handler where
  ndn : NdnCpp
  protobuf : Protobuf
  fileName : Bytes
  fetchFile : Bool
  doVerification : Bool

/-- The functions that are bound to the Data of an Interest. -/
inductive HandlerCallback where
  | onAttrData
  | onFileData
  deriving DecidableEq

/-- The other members, the Interests of the face, the packets that wait for their verification and
the local file. -/
structure HandlerSession where
  done : Bool := false
  currentSegment : Int := 0
  totalSegment : Int := 0
  interests : Ledger (BoundInterest HandlerCallback)
  verifying : List Data := []
  localFile : Bytes
  /-- An exception of a callback that the face does not catch ends the client. -/
  ended : Bool := false

namespace HandlerSession

def expressInterest (session : HandlerSession) (name : Name) (onData : HandlerCallback) :
    HandlerSession :=
  { session with interests := session.interests.request [⟨name, onData⟩] }

def verifyData (session : HandlerSession) (data : Data) : HandlerSession :=
  { session with verifying := session.verifying ++ [data] }

/-- The file is opened for appending each time. -/
def writeFile (session : HandlerSession) (content : Bytes) : HandlerSession :=
  { session with localFile := session.localFile ++ content }

end HandlerSession

namespace Handler

variable (handler : Handler)

/-- A FileInfo starts the fetching; a segment in place of it leads to another Interest. -/
def onAttrData (interestName : Name) (data : Data) (session : HandlerSession) : HandlerSession :=
  match getComponent data.name ((data.name.length : Int) - 2) with
  | none => { session with ended := !handler.ndn.catchesExceptions }
  | some comp =>
      let marker := handler.ndn.toEscapedString comp
      if marker = dirComponentName then { session with done := true }
      else if marker = fileComponentName then
        match handler.protobuf.parse data.content with
        | none => { session with done := true }
        | some infof =>
            let session := { session with totalSegment := infof.totalseg }
            if handler.fetchFile then
              let fileName := getPrefix data.name ((data.name.length : Int) - 2)
              let session := session.expressInterest (fileName ++
                [handler.ndn.versionComponent infof.version, handler.ndn.segmentComponent 0])
                .onFileData
              { session with done := true }
            else { session with done := true }
      else if data.name.any fun comp => handler.ndn.toEscapedString comp = fileComponentName ||
          handler.ndn.toEscapedString comp = dirComponentName then
        { session with done := true }
      else
        -- A longer name is more likely that of a directory.
        let added := if data.name.length > interestName.length + 2 then contentMetaString
          else fileComponentName
        session.expressInterest (interestName ++ [handler.ndn.fromEscapedString added]) .onAttrData

/-- The next segment is asked for by the name of the received one. -/
def onFileData (data : Data) (session : HandlerSession) : HandlerSession :=
  let session := if handler.doVerification then session.verifyData data else session
  let session := if handler.fileName ≠ [] then session.writeFile data.content else session
  match data.name.getLast?.bind handler.ndn.toSegment with
  | none => { session with ended := !handler.ndn.catchesExceptions }
  | some segment =>
      let currentSegment := toInt (toInt segment + 1)
      let session := { session with currentSegment }
      if currentSegment = session.totalSegment then session
      else
        session.expressInterest (getPrefix data.name ((data.name.length : Int) - 1) ++
          [handler.ndn.segmentComponent currentSegment]) .onFileData

/-- The metadata of a file lead to the Interest for its first segment. -/
theorem onAttrData_announces {handler : Handler} (fetch : handler.fetchFile = true)
    {interestName base : Name} {version : Int} {total : Nat} {data : Data}
    (announces : Announces handler.ndn handler.protobuf base version total data)
    (session : HandlerSession) :
    handler.onAttrData interestName data session = { session with
      done := true
      totalSegment := total
      interests := session.interests.request [⟨base ++ [handler.ndn.versionComponent version,
        handler.ndn.segmentComponent 0], .onFileData⟩] } := by
  obtain ⟨⟨marker, last, name, isFile⟩, infof, parsed, rfl, totalSame⟩ := announces
  have other : fileComponentName ≠ dirComponentName := by decide
  rw [onAttrData, name, getComponent_marker, getPrefix_marker, ← totalSame]
  simp only [isFile, if_neg other, if_true, parsed, fetch]
  rfl

/-- The content of a segment is appended, and the next segment is asked for unless it is past the
last one. -/
theorem onFileData_segment {handler : Handler} (named : handler.fileName ≠ []) {base : Name}
    {data : Data} {session : HandlerSession} {seg : Nat} (small : seg + 1 < 2 ^ 31)
    (name : data.name = base ++ [handler.ndn.segmentComponent seg]) :
    handler.onFileData data session = { session with
      verifying := if handler.doVerification then session.verifying ++ [data] else session.verifying
      localFile := session.localFile ++ data.content
      currentSegment := (seg + 1 : Nat)
      interests := if ((seg + 1 : Nat) : Int) = session.totalSegment then session.interests
        else session.interests.request
          [⟨base ++ [handler.ndn.segmentComponent (seg + 1 : Nat)], .onFileData⟩] } := by
  have range : IsInt (seg : Int) := by
    unfold IsInt
    omega
  have received : data.name.getLast?.bind handler.ndn.toSegment = some (toUInt64 seg) := by
    rw [name, List.getLast?_concat]
    exact handler.ndn.toSegment_segmentComponent seg
  have next : toInt (toInt (toUInt64 seg) + 1) = ((seg + 1 : Nat) : Int) := by
    rw [toInt_toUInt64 range]
    exact toInt_natCast small
  have total (content : Bytes) : ((if handler.doVerification then session.verifyData data
      else session).writeFile content).totalSegment = session.totalSegment := by
    split <;> rfl
  unfold onFileData
  rw [received]
  dsimp only
  rw [if_pos named, next, name, getPrefix_concat, total]
  split
  · split <;> rfl
  · split <;> rfl

def onTimeout (session : HandlerSession) : HandlerSession := { session with done := true }

/-- The verdict is only printed. -/
def onVerified (session : HandlerSession) : HandlerSession := session

def onVerifyFailed (session : HandlerSession) : HandlerSession := session

end Handler

/-- The face and the key chain call one function at a time. -/
inductive HandlerEvent where
  | data (interest : BoundInterest HandlerCallback) (data : Data)
  | timeout (interest : BoundInterest HandlerCallback)
  | verified (data : Data)
  | verifyFailed (data : Data)

namespace Handler

variable (handler : Handler)

def step (session : HandlerSession) : HandlerEvent → HandlerSession
  | .data interest data =>
      let session := { session with interests := session.interests.answer interest }
      match interest.onData with
      | .onAttrData => handler.onAttrData interest.name data session
      | .onFileData => handler.onFileData data session
  | .timeout interest =>
      onTimeout { session with interests := session.interests.answer interest }
  | .verified data => onVerified { session with verifying := session.verifying.erase data }
  | .verifyFailed data => onVerifyFailed { session with verifying := session.verifying.erase data }

end Handler

end Ndnfs.Client

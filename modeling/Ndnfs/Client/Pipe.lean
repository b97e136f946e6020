import Ndnfs.Client.Component
import Ndnfs.Foundation.Ledger

namespace Ndnfs.Client
open MachineInteger NdnCpp

/-- The program cat_file_pipe calls these libraries. -/
structure CatFilePipe where
  ndn : NdnCpp
  protobuf : Protobuf

def interestPipeSize : Nat := 8

inductive PipeCallback where
  | onMetaData
  | onFileData
  deriving DecidableEq

/-- The global variables of the program and the Interests of its face. -/
structure PipeSession where
  fileName : Name := []
  totalSize : Int := 0
  totalSeg : Int := 0
  currentSeg : Int := 0
  done : Bool := false
  interests : Ledger (BoundInterest PipeCallback)
  /-- An exception of a callback that the face does not catch ends the program. -/
  ended : Bool := false

namespace CatFilePipe

variable (client : CatFilePipe)

/-- The Interest for the segment with the number current_seg. -/
def expressInterest (session : PipeSession) : PipeSession :=
  { session with
    interests := session.interests.request
      [⟨session.fileName ++ [client.ndn.segmentComponent session.currentSeg], .onFileData⟩] }

/-- In each round current_seg is used before it is increased. -/
def burst : Nat → PipeSession → PipeSession
  | 0, session => session
  | rounds + 1, session =>
      let session := client.expressInterest session
      burst rounds { session with currentSeg := toInt (session.currentSeg + 1) }

def onMetaData (data : Data) (session : PipeSession) : PipeSession :=
  match getComponent data.name ((data.name.length : Int) - 2) with
  | none => { session with ended := !client.ndn.catchesExceptions }
  | some comp =>
      let marker := client.ndn.toEscapedString comp
      if marker = dirComponentName then session
      else if marker = fileComponentName then
        match client.protobuf.parse data.content with
        | none => session
        | some infof =>
            client.burst interestPipeSize { session with
              totalSize := infof.size
              totalSeg := infof.totalseg
              fileName := getPrefix data.name ((data.name.length : Int) - 2) ++
                [client.ndn.versionComponent infof.version] }
      else session

/-- Here current_seg is increased before it is used. -/
def onFileData (data : Data) (session : PipeSession) : PipeSession :=
  let session := { session with currentSeg := toInt (session.currentSeg + 1) }
  match data.name.getLast?.bind client.ndn.toSegment with
  | none => { session with ended := !client.ndn.catchesExceptions }
  | some segment =>
      if toInt (toInt segment + 1) = session.totalSeg then { session with done := true }
      else client.expressInterest session

def onTimeout (session : PipeSession) : PipeSession := { session with done := true }

/-- The text of the marker is appended as it is, with its percent sign. -/
def metaInterest (text : Bytes) : BoundInterest PipeCallback :=
  ⟨client.ndn.nameOfUri text ++ [fileComponentName], .onMetaData⟩

/-- This is what main does before its loop for the options -n and -r. -/
def main (text : Bytes) (repoMode : Bool) : PipeSession :=
  if repoMode then
    client.burst interestPipeSize {
      fileName := client.ndn.nameOfUri text
      totalSeg := 12654
      totalSize := 103655871
      interests := ⟨[], []⟩ }
  else { interests := ⟨[client.metaInterest text], []⟩ }

end CatFilePipe

/-- The face calls one function at a time. -/
inductive PipeEvent where
  | data (interest : BoundInterest PipeCallback) (data : Data)
  | timeout (interest : BoundInterest PipeCallback)

def PipeEvent.interest : PipeEvent → BoundInterest PipeCallback
  | .data interest _ | .timeout interest => interest

namespace CatFilePipe

variable (client : CatFilePipe)

def step (session : PipeSession) : PipeEvent → PipeSession
  | .data interest data =>
      let session := { session with interests := session.interests.answer interest }
      match interest.onData with
      | .onMetaData => client.onMetaData data session
      | .onFileData => client.onFileData data session
  | .timeout interest =>
      onTimeout { session with interests := session.interests.answer interest }

theorem answered_burst (rounds : Nat) (session : PipeSession) :
    (client.burst rounds session).interests.answered = session.interests.answered := by
  induction rounds generalizing session with
  | zero => rfl
  | succ rounds ih => exact ih _

/-- The functions express Interests and answer none. -/
theorem answered_step (session : PipeSession) (event : PipeEvent) :
    (client.step session event).interests.answered =
      session.interests.answered ++ [event.interest] := by
  cases event with
  | timeout interest => rfl
  | data interest data =>
      rw [step]
      cases interest.onData with
      | onMetaData =>
          dsimp only [onMetaData]
          split
          · rfl
          · split
            · rfl
            · split
              · split
                · rfl
                · rw [answered_burst]
                  rfl
              · rfl
      | onFileData =>
          dsimp only [onFileData]
          split
          · rfl
          · split
            · rfl
            · rfl

end CatFilePipe

end Ndnfs.Client

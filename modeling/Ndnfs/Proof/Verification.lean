import Ndnfs.Proof.SequentialFetch

namespace Ndnfs.Client
open Percent

namespace Handler

section Saved

variable (handler : Handler)

/-- The bytes that an event appends to the local file, each with the packet that it came in. -/
def appended (session : HandlerSession) : HandlerEvent → List (Data × UInt8)
  | .data interest data => ((handler.step session (.data interest data)).localFile.drop
      session.localFile.length).map fun byte => (data, byte)
  | _ => []

def saved : HandlerSession → List HandlerEvent → List (Data × UInt8)
  | _, [] => []
  | session, event :: events =>
      handler.appended session event ++ saved (handler.step session event) events

/-- Packets and timeouts come at any time, and verdicts for packets that wait for one. -/
def Delivered (session : HandlerSession) : HandlerEvent → Prop
  | .data _ _ | .timeout _ => True
  | .verified data | .verifyFailed data => data ∈ session.verifying

/-- No byte of the local file came in a packet that failed its verification. -/
def SavesNoFailed (session : HandlerSession) (events : List HandlerEvent) : Prop :=
  ∀ entry ∈ handler.saved session events, .verifyFailed entry.1 ∉ events

end Saved

variable {handler : Handler}

/-- The segment is handed to the verification and saved before the rest is done. -/
def received (handler : Handler) (data : Data) (session : HandlerSession) : HandlerSession :=
  { session with
    verifying := session.verifying ++ if handler.doVerification then [data] else []
    localFile := session.localFile ++ if handler.fileName ≠ [] then data.content else [] }

theorem received_eq (data : Data) (session : HandlerSession) :
    (if handler.fileName ≠ [] then
        (if handler.doVerification then session.verifyData data else session).writeFile data.content
      else if handler.doVerification then session.verifyData data else session) =
        handler.received data session := by
  unfold received
  split
  · split
    · rfl
    · rw [List.append_nil]
      rfl
  · split
    · rw [List.append_nil]
      rfl
    · rw [List.append_nil, List.append_nil]

theorem onFileData_received (data : Data) (session : HandlerSession) :
    (handler.onFileData data session).localFile = (handler.received data session).localFile ∧
      (handler.onFileData data session).verifying = (handler.received data session).verifying := by
  unfold onFileData
  dsimp only
  rw [received_eq]
  generalize handler.received data session = session
  split
  · exact ⟨rfl, rfl⟩
  · split
    · exact ⟨rfl, rfl⟩
    · dsimp only [HandlerSession.expressInterest]
      exact ⟨rfl, rfl⟩

theorem onAttrData_unchanged (interestName : Name) (data : Data) (session : HandlerSession) :
    (handler.onAttrData interestName data session).localFile = session.localFile ∧
      (handler.onAttrData interestName data session).verifying = session.verifying := by
  unfold onAttrData
  split
  · exact ⟨rfl, rfl⟩
  · dsimp only
    split
    · exact ⟨rfl, rfl⟩
    · split
      · split
        · exact ⟨rfl, rfl⟩
        · split
          · exact ⟨rfl, rfl⟩
          · exact ⟨rfl, rfl⟩
      · split
        · exact ⟨rfl, rfl⟩
        · exact ⟨rfl, rfl⟩

/-- Metadata leave the local file as it is. -/
theorem appended_metadata (session : HandlerSession) (name : Name) (data : Data) :
    handler.appended session (.data ⟨name, .onAttrData⟩ data) = [] := by
  have unchanged : (handler.step session (.data ⟨name, .onAttrData⟩ data)).localFile =
      session.localFile := (onAttrData_unchanged name data _).1
  rw [appended, unchanged, List.drop_length]
  rfl

/-- Each byte of a segment is appended at once, whatever its verification will say. -/
theorem appended_segment (session : HandlerSession) (name : Name) (data : Data) :
    handler.appended session (.data ⟨name, .onFileData⟩ data) =
      (if handler.fileName ≠ [] then data.content else []).map fun byte => (data, byte) := by
  have written : (handler.step session (.data ⟨name, .onFileData⟩ data)).localFile =
      session.localFile ++ if handler.fileName ≠ [] then data.content else [] :=
    (onFileData_received data _).1
  rw [appended, written, List.drop_left]

/-- What an event adds to the local file is all accounted for. -/
theorem localFile_step (session : HandlerSession) (event : HandlerEvent) :
    (handler.step session event).localFile =
      session.localFile ++ (handler.appended session event).map Prod.snd := by
  cases event with
  | data interest data =>
      obtain ⟨name, onData⟩ := interest
      cases onData with
      | onAttrData =>
          rw [appended_metadata, List.map_nil, List.append_nil]
          exact (onAttrData_unchanged name data _).1
      | onFileData =>
          rw [appended_segment, List.map_map]
          change _ = _ ++ List.map id _
          rw [List.map_id]
          exact (onFileData_received data _).1
  | timeout interest => exact (List.append_nil _).symm
  | verified data => exact (List.append_nil _).symm
  | verifyFailed data => exact (List.append_nil _).symm

/-- A packet that waits for its verdict was received as a segment. -/
theorem waiting_step {session : HandlerSession} {event : HandlerEvent} {data : Data}
    (waiting : data ∈ (handler.step session event).verifying) :
    data ∈ session.verifying ∨ ∃ name, event = .data ⟨name, .onFileData⟩ data := by
  cases event with
  | data interest received =>
      obtain ⟨name, onData⟩ := interest
      cases onData with
      | onAttrData =>
          left
          have kept : (handler.step session (.data ⟨name, .onAttrData⟩ received)).verifying =
              session.verifying := (onAttrData_unchanged name received _).2
          rw [← kept]
          exact waiting
      | onFileData =>
          change data ∈ (handler.onFileData received _).verifying at waiting
          rw [(onFileData_received received _).2, Handler.received, List.mem_append] at waiting
          cases waiting with
          | inl before => exact .inl before
          | inr now =>
              right
              split at now
              · rw [List.mem_singleton.mp now]
                exact ⟨name, rfl⟩
              · cases now
  | timeout interest => exact .inl waiting
  | verified other => exact .inl (List.mem_of_mem_erase waiting)
  | verifyFailed other => exact .inl (List.mem_of_mem_erase waiting)

theorem content_of_appended {session : HandlerSession} {event : HandlerEvent}
    {entry : Data × UInt8} (member : entry ∈ handler.appended session event) :
    handler.fileName ≠ [] ∧ entry.2 ∈ entry.1.content := by
  cases event with
  | data interest data =>
      obtain ⟨name, onData⟩ := interest
      cases onData with
      | onAttrData =>
          rw [appended_metadata] at member
          cases member
      | onFileData =>
          rw [appended_segment] at member
          obtain ⟨byte, inside, rfl⟩ := List.mem_map.mp member
          split at inside
          · rename_i named
            exact ⟨named, inside⟩
          · cases inside
  | timeout interest => cases member
  | verified data => cases member
  | verifyFailed data => cases member

theorem content_of_saved {session : HandlerSession} {events : List HandlerEvent} {entry : Data × UInt8}
    (member : entry ∈ handler.saved session events) :
    handler.fileName ≠ [] ∧ entry.2 ∈ entry.1.content := by
  induction events generalizing session with
  | nil => cases member
  | cons event events ih =>
      rw [saved, List.mem_append] at member
      cases member with
      | inl here => exact content_of_appended here
      | inr later => exact ih later

theorem mem_saved {session : HandlerSession} {events : List HandlerEvent} {name : Name}
    {data : Data} (named : handler.fileName ≠ [])
    (arrived : .data ⟨name, .onFileData⟩ data ∈ events) {byte : UInt8}
    (inside : byte ∈ data.content) : (data, byte) ∈ handler.saved session events := by
  induction events generalizing session with
  | nil => cases arrived
  | cons event events ih =>
      rw [saved, List.mem_append]
      cases arrived with
      | head =>
          left
          rw [appended_segment, if_pos named]
          exact List.mem_map.mpr ⟨byte, inside, rfl⟩
      | tail _ later => exact .inr (ih later)

/-- The local file is what it was before and the saved bytes. -/
theorem localFile_after (session : HandlerSession) (events : List HandlerEvent) :
    (Run.after handler.step session events).localFile =
      session.localFile ++ (handler.saved session events).map Prod.snd := by
  induction events generalizing session with
  | nil => exact (List.append_nil _).symm
  | cons event events ih =>
      rw [saved, List.map_append, ← List.append_assoc, ← localFile_step]
      exact ih (handler.step session event)

/-- A packet with a verdict was received as a segment. -/
theorem arrived_of_verdict {session : HandlerSession} {events : List HandlerEvent}
    (steps : Run.Steps handler.step Delivered session events) {data : Data}
    (failed : .verifyFailed data ∈ events) :
    data ∈ session.verifying ∨ ∃ name, .data ⟨name, .onFileData⟩ data ∈ events := by
  induction events generalizing session with
  | nil => cases failed
  | cons event events ih =>
      cases failed with
      | head => exact .inl steps.1
      | tail _ later =>
          cases ih steps.2 later with
          | inl waiting =>
              cases waiting_step waiting with
              | inl before => exact .inl before
              | inr now =>
                  obtain ⟨name, rfl⟩ := now
                  exact .inr ⟨name, List.mem_cons_self⟩
          | inr arrived =>
              obtain ⟨name, arrived⟩ := arrived
              exact .inr ⟨name, List.mem_cons_of_mem _ arrived⟩

/-- Only the packets without content leave nothing in the file when their verification fails. -/
theorem savesNoFailed_iff (handler : Handler) {session : HandlerSession}
    (idle : session.verifying = []) {events : List HandlerEvent}
    (steps : Run.Steps handler.step Delivered session events) :
    handler.SavesNoFailed session events ↔
      handler.fileName = [] ∨ ∀ data, .verifyFailed data ∈ events → data.content = [] := by
  constructor
  · intro clean
    by_cases named : handler.fileName = []
    · exact .inl named
    · right
      intro data failed
      have arrived := arrived_of_verdict steps failed
      rw [idle] at arrived
      obtain ⟨name, arrived⟩ := arrived.resolve_left List.not_mem_nil
      apply List.eq_nil_iff_forall_not_mem.mpr
      intro byte inside
      exact clean (data, byte) (mem_saved named arrived inside) failed
  · intro condition entry member failed
    have written := content_of_saved member
    cases condition with
    | inl unnamed => exact written.1 unnamed
    | inr empty =>
        rw [empty entry.1 failed] at written
        cases written.2

/-- A packet without content fails after a segment that is right. -/
theorem savesNoFailed_iff_empty : Reference.handler.SavesNoFailed Reference.asking
      [.data (Reference.handler.segmentInterest [ascii "ndnfs", ascii "a"] 2 0)
          (Reference.fileData 0 (ascii "x")),
        .data (Reference.handler.segmentInterest [ascii "ndnfs", ascii "a"] 2 1)
          (Reference.fileData 1 []),
        .verifyFailed (Reference.fileData 1 []),
        .verified (Reference.fileData 0 (ascii "x"))] ↔
    Reference.handler.fileName = [] ∨ ∀ data, .verifyFailed data ∈ ([
        .data (Reference.handler.segmentInterest [ascii "ndnfs", ascii "a"] 2 0)
          (Reference.fileData 0 (ascii "x")),
        .data (Reference.handler.segmentInterest [ascii "ndnfs", ascii "a"] 2 1)
          (Reference.fileData 1 []),
        .verifyFailed (Reference.fileData 1 []),
        .verified (Reference.fileData 0 (ascii "x"))] : List HandlerEvent) → data.content = [] :=
  savesNoFailed_iff Reference.handler rfl
    ⟨trivial, trivial,
      show Reference.fileData 1 [] ∈ (_ : HandlerSession).verifying by decide +kernel,
      show Reference.fileData 0 (ascii "x") ∈ (_ : HandlerSession).verifying by decide +kernel,
      trivial⟩

/-- The content of a segment stays in the file after its verification has failed. -/
theorem savesNoFailed_fails : ¬ ∀ (handler : Handler), handler.doVerification = true →
    ∀ session : HandlerSession, session.verifying = [] → ∀ events : List HandlerEvent,
      Run.Steps handler.step Delivered session events → handler.SavesNoFailed session events := by
  intro all
  have clean := all Reference.handler rfl Reference.asking rfl
    [.data (Reference.handler.segmentInterest [ascii "ndnfs", ascii "a"] 2 0)
        (Reference.fileData 0 (ascii "x")),
      .verifyFailed (Reference.fileData 0 (ascii "x"))]
    ⟨trivial, show Reference.fileData 0 (ascii "x") ∈ (_ : HandlerSession).verifying by
      decide +kernel, trivial⟩
  apply clean (Reference.fileData 0 (ascii "x"), 120)
  · exact mem_saved (by decide) List.mem_cons_self (by decide)
  · exact List.mem_cons_of_mem _ List.mem_cons_self

end Handler

end Ndnfs.Client

import Ndnfs.Client.CatFile
import Ndnfs.Ndn.Reference
import Ndnfs.Server.FileInfo
import Ndnfs.Foundation.Refinement

namespace Ndnfs.Client
open MachineInteger NdnCpp

namespace CatFile

variable {client : CatFile} {session : CatSession}

/-- The packet names no metadata of a file, or its FileInfo cannot be read. -/
def Rejects (client : CatFile) (data : Data) : Prop :=
  ∃ comp, getComponent data.name ((data.name.length : Int) - 2) = some comp ∧
    (client.ndn.toEscapedString comp = fileComponentName →
      client.protobuf.parse data.content = none)

/-- The name is too short, or a component is not the segment number that is read from it. -/
def Throws (client : CatFile) : CatCallback → Data → Prop
  | .onMetaData, data => getComponent data.name ((data.name.length : Int) - 2) = none
  | .onFileData, data => data.metaInfo.finalBlockId.bind client.ndn.toSegment = none ∨
      data.name.getLast?.bind client.ndn.toSegment = none

/-- The metadata is rejected, or the face catches the exception of the callback. -/
def Strands (client : CatFile) (onData : CatCallback) (data : Data) : Prop :=
  (onData = .onMetaData ∧ client.Rejects data) ∨
    (client.ndn.catchesExceptions = true ∧ client.Throws onData data)

/-- The loop of main goes on, and no function will be called any more. -/
def Hangs (session : CatSession) : Prop :=
  session.done = false ∧ session.ended = false ∧
    ∀ interest, ¬ session.interests.Outstanding interest

/-- The program waits for one packet, or its loop ends. -/
inductive Goes (session : CatSession) : Prop where
  | waits (interest : BoundInterest CatCallback)
      (next : session.interests.requested = session.interests.answered ++ [interest])
      (running : session.done = false) (alive : session.ended = false)
  | halts (stopped : session.done = true ∨ session.ended = true)
      (idle : session.interests.requested = session.interests.answered)

theorem Goes.not_hangs (goes : Goes session) : ¬ Hangs session := by
  rintro ⟨running, alive, idle⟩
  cases goes with
  | waits interest next => exact idle _ ((Ledger.outstanding_last_iff next).mpr rfl)
  | halts stopped =>
      rcases stopped with done | ended
      · exact Bool.false_ne_true (running.symm.trans done)
      · exact Bool.false_ne_true (alive.symm.trans ended)

section Callback

variable (running : session.done = false) (alive : session.ended = false)
  (idle : session.interests.requested = session.interests.answered)

include running alive idle

theorem goes_expressInterest (name : Name) (onData : CatCallback) :
    Goes (session.expressInterest name onData) := by
  refine .waits ⟨name, onData⟩ ?_ running alive
  simp only [CatSession.expressInterest, Ledger.requested_request, Ledger.answered_request, idle]

theorem hangs_idle : Hangs session := ⟨running, alive, Ledger.not_outstanding idle⟩

omit alive in
/-- The program hangs after an exception exactly when the face catches it. -/
theorem throw_cases :
    (client.ndn.catchesExceptions = true ∧
        Hangs { session with ended := !client.ndn.catchesExceptions }) ∨
      (client.ndn.catchesExceptions = false ∧
        Goes { session with ended := !client.ndn.catchesExceptions }) := by
  cases catches : client.ndn.catchesExceptions with
  | true => exact .inl ⟨rfl, running, rfl, Ledger.not_outstanding idle⟩
  | false => exact .inr ⟨rfl, .halts (.inr rfl) idle⟩

/-- Metadata that is not rejected leads to a segment or to an exception. -/
theorem onMetaData_cases (data : Data) :
    (client.Strands .onMetaData data ∧ Hangs (client.onMetaData data session)) ∨
      (¬ client.Strands .onMetaData data ∧ Goes (client.onMetaData data session)) := by
  unfold onMetaData
  cases found : getComponent data.name ((data.name.length : Int) - 2) with
  | none =>
      have notRejected : ¬ client.Rejects data := by
        rintro ⟨comp, present, -⟩
        cases found.symm.trans present
      rcases throw_cases running idle with ⟨catches, hangs⟩ | ⟨falls, goes⟩
      · exact .inl ⟨.inr ⟨catches, found⟩, hangs⟩
      · refine .inr ⟨?_, goes⟩
        rintro (⟨-, rejects⟩ | ⟨catches, -⟩)
        · exact notRejected rejects
        · exact Bool.false_ne_true (falls.symm.trans catches)
  | some comp =>
      have quiet : ¬ client.Throws .onMetaData data := fun throws => by
        cases found.symm.trans throws
      have strands_iff : client.Strands .onMetaData data ↔ client.Rejects data := by
        rw [Strands, and_iff_right rfl, or_iff_left (fun thrown => quiet thrown.2)]
      have rejects_iff : client.Rejects data ↔
          (client.ndn.toEscapedString comp = fileComponentName →
            client.protobuf.parse data.content = none) := by
        constructor
        · rintro ⟨other, present, unread⟩
          obtain rfl := Option.some.inj (found.symm.trans present)
          exact unread
        · exact fun unread => ⟨comp, found, unread⟩
      rw [strands_iff, rejects_iff]
      dsimp only
      by_cases file : client.ndn.toEscapedString comp = fileComponentName
      · have distinct : fileComponentName ≠ dirComponentName := by decide
        rw [file, if_neg distinct, if_pos rfl]
        cases client.protobuf.parse data.content with
        | none => exact .inl ⟨fun _ => rfl, hangs_idle running alive idle⟩
        | some infof =>
            exact .inr ⟨fun unread => (nomatch (unread rfl)),
              goes_expressInterest (by exact running) (by exact alive) (by exact idle) _ _⟩
      · refine .inl ⟨fun same => absurd same file, ?_⟩
        rw [if_neg file]
        split <;> exact hangs_idle running alive idle

/-- A segment leads to the next one, to the end of the loop or to an exception. -/
theorem onFileData_cases (data : Data) :
    (client.Strands .onFileData data ∧ Hangs (client.onFileData data session)) ∨
      (¬ client.Strands .onFileData data ∧ Goes (client.onFileData data session)) := by
  have strands_iff : client.Strands .onFileData data ↔
      client.ndn.catchesExceptions = true ∧ client.Throws .onFileData data := by
    rw [Strands, or_iff_right]
    rintro ⟨other, -⟩
    cases other
  have throw {session : CatSession} (running : session.done = false)
      (idle : session.interests.requested = session.interests.answered)
      (throws : client.Throws .onFileData data) :
      (client.Strands .onFileData data ∧
          Hangs { session with ended := !client.ndn.catchesExceptions }) ∨
        (¬ client.Strands .onFileData data ∧
          Goes { session with ended := !client.ndn.catchesExceptions }) := by
    rw [strands_iff, and_iff_left throws]
    refine (throw_cases running idle).imp_right fun ⟨falls, goes⟩ => ⟨?_, goes⟩
    rw [falls]
    exact Bool.false_ne_true
  unfold onFileData
  cases final : data.metaInfo.finalBlockId.bind client.ndn.toSegment with
  | none => exact throw running idle (.inl final)
  | some number =>
      cases received : data.name.getLast?.bind client.ndn.toSegment with
      | none =>
          exact @throw (session.verifyData data) running idle (.inr received)
      | some segment =>
          have quiet : ¬ client.Strands .onFileData data := by
            rw [strands_iff, Throws, final, received]
            simp
          refine .inr ⟨quiet, ?_⟩
          dsimp only
          split
          · exact .halts (.inl rfl) idle
          · exact goes_expressInterest (by exact running) (by exact alive) (by exact idle) _ _

end Callback

variable (client) in
/-- A packet strands the program or lets it go on; the other events let it go on. -/
theorem Goes.step (goes : Goes session) {event : CatEvent} (receives : Receives session event) :
    (Hangs (client.step session event) ∧
        ∃ interest data, event = .data interest data ∧ client.Strands interest.onData data) ∨
      (Goes (client.step session event) ∧
        ∀ interest data, event = .data interest data → ¬ client.Strands interest.onData data) := by
  cases goes with
  | halts stopped idle =>
      cases event with
      | data interest data => exact absurd receives (Ledger.not_outstanding idle interest)
      | timeout interest => exact absurd receives (Ledger.not_outstanding idle interest)
      | verified data => exact .inr ⟨.halts stopped idle, fun _ _ other => nomatch other⟩
      | verifyFailed data => exact .inr ⟨.halts stopped idle, fun _ _ other => nomatch other⟩
  | waits interest next running alive =>
      cases event with
      | data other data =>
          obtain rfl := (Ledger.outstanding_last_iff next).mp receives
          obtain ⟨name, onData⟩ := other
          have fate : (client.Strands onData data ∧
                Hangs (client.step session (.data ⟨name, onData⟩ data))) ∨
              (¬ client.Strands onData data ∧
                Goes (client.step session (.data ⟨name, onData⟩ data))) := by
            cases onData with
            | onMetaData =>
                exact onMetaData_cases (by exact running) (by exact alive) (by exact next) data
            | onFileData =>
                exact onFileData_cases (by exact running) (by exact alive) (by exact next) data
          rcases fate with ⟨strands, hangs⟩ | ⟨free, goes⟩
          · exact .inl ⟨hangs, _, data, rfl, strands⟩
          · refine .inr ⟨goes, fun _ _ same => ?_⟩
            cases same
            exact free
      | timeout other =>
          obtain rfl := (Ledger.outstanding_last_iff next).mp receives
          exact .inr ⟨.halts (.inl rfl) next, fun _ _ same => nomatch same⟩
      | verified data =>
          exact .inr ⟨.waits interest next running alive, fun _ _ same => nomatch same⟩
      | verifyFailed data =>
          exact .inr ⟨.waits interest next running alive, fun _ _ same => nomatch same⟩

/-- Only verdicts could come, and they change nothing. -/
theorem Hangs.run (hangs : Hangs session) {events : List CatEvent}
    (steps : Run.Steps client.step Receives session events) :
    Hangs (Run.after client.step session events) := by
  have preserved : ∀ (now : CatSession) (event : CatEvent), Hangs now → Receives now event →
      Hangs (client.step now event) := by
    intro now event hangs receives
    cases event with
    | data interest data => exact absurd receives (hangs.2.2 interest)
    | timeout interest => exact absurd receives (hangs.2.2 interest)
    | verified data => exact hangs
    | verifyFailed data => exact hangs
  exact (Run.invariant preserved steps hangs).last

/-- By induction over the events, the program goes on until a packet strands it. -/
theorem Goes.hangs_run_iff (goes : Goes session) {events : List CatEvent}
    (steps : Run.Steps client.step Receives session events) :
    Hangs (Run.after client.step session events) ↔
      ∃ interest data, .data interest data ∈ events ∧ client.Strands interest.onData data := by
  induction events generalizing session with
  | nil => exact iff_of_false goes.not_hangs (by simp)
  | cons event events ih =>
      rcases goes.step client steps.1 with ⟨hangs, interest, data, rfl, strands⟩ | ⟨goes, free⟩
      · exact iff_of_true (hangs.run steps.2) ⟨interest, data, List.mem_cons_self, strands⟩
      · refine (ih goes steps.2).trans ⟨?_, ?_⟩
        · rintro ⟨interest, data, member, strands⟩
          exact ⟨interest, data, List.mem_cons_of_mem _ member, strands⟩
        · rintro ⟨interest, data, member, strands⟩
          rcases List.mem_cons.mp member with here | later
          · exact absurd strands (free interest data here.symm)
          · exact ⟨interest, data, later, strands⟩

/-- Whatever packets come, the loop of main goes on forever with nothing to wait for exactly when
the metadata is rejected or the face catches an exception of a callback. -/
theorem hangs_iff (client : CatFile) (text : Bytes) (repoMode : Bool) {events : List CatEvent}
    (steps : Run.Steps client.step Receives (client.main text repoMode) events) :
    Hangs (Run.after client.step (client.main text repoMode) events) ↔
      ∃ interest data, .data interest data ∈ events ∧ client.Strands interest.onData data := by
  have goes : Goes (client.main text repoMode) := by
    cases repoMode with
    | true => exact .waits _ rfl rfl rfl
    | false => exact .waits _ rfl rfl rfl
  exact goes.hangs_run_iff steps

end CatFile

namespace Reference

def catFile : CatFile := ⟨Reference.ndn, Reference.protobuf⟩

/-- The listing of a directory comes for the name with the marker of a file. -/
def directoryData : Data where
  name := [ascii "ndnfs", ascii "a", metaMarker :: ascii ".FS.file", metaMarker :: ascii ".FS.dir",
    Reference.ndn.versionComponent 2]

end Reference

namespace CatFile

/-- The program hangs after the listing, which is no metadata of a file. -/
theorem hangs_iff_directory : Hangs (Run.after Reference.catFile.step
    (Reference.catFile.main (ascii "/ndnfs/a") false)
    [.data (Reference.catFile.metaInterest (ascii "/ndnfs/a")) Reference.directoryData]) :=
  (hangs_iff Reference.catFile (ascii "/ndnfs/a") false (by decide +kernel)).mpr
    ⟨_, Reference.directoryData, List.mem_cons_self, .inl ⟨rfl, metaMarker :: ascii ".FS.dir",
      by decide +kernel, fun file => absurd file (by decide +kernel)⟩⟩

end CatFile

end Ndnfs.Client

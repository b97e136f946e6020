import Ndnfs.Fs.Execution
import Ndnfs.Server.Deployment
import Ndnfs.Server.Execution
import Ndnfs.System.Tables

namespace Ndnfs
open MachineInteger

namespace Deployment

variable (deployment : Deployment)

/-- sign_segment runs in the first environment; with the file unchanged, sendFileContent then
answers the Interest with the signed name in the second one. -/
def sentForSigned (path : Bytes) (ver seg : Int) (data : Bytes) (environment later : Environment)
    (state : State) : List Data :=
  let signed := (exec (deployment.fs.signSegment path ver seg data) environment state).2
  (exec (deployment.server.sendFileContent (deployment.fs.segName path ver seg) path ver seg) later
    signed).2.sent.drop signed.sent.length

/-- Every packet has the signed portion that was signed, so its signature verifies. -/
def StoredSignatureVerifies (path : Bytes) (ver seg : Int) (data : Bytes)
    (environment later : Environment) (state : State) : Prop :=
  ∀ packet ∈ deployment.sentForSigned path ver seg data environment later state,
    packet.signedPortion = deployment.fs.signedPortion path ver seg data ∧ packet.Verifies

instance (path : Bytes) (ver seg : Int) (data : Bytes) (environment later : Environment)
    (state : State) :
    Decidable (deployment.StoredSignatureVerifies path ver seg data environment later state) :=
  inferInstanceAs (Decidable (∀ packet ∈ _, _))

/-- The Interest stays without an answer: the segment number is the blank one and segment 0 of the
version has no row, or the read fails or gives no byte. -/
def Unanswered (path : Bytes) (ver seg : Int) (later : Environment) (state : State) : Prop :=
  seg = -1 ∧ ¬ state.db.fileSegments.Has (path, ver, 0) ∨
    ∀ content, deployment.server.readContent later state.disk path seg = .ok content → content = []

/-- The packet differs from the signed one in the MetaInfo and in the key locator. -/
theorem contentPacket_differs (interestName : Name) (seg fileSize : Int) (content : Bytes)
    (signature : SignatureBits) (path : Bytes) (ver number : Int) (data : Bytes) :
    let packet := deployment.server.contentPacket interestName seg fileSize content signature
    let portion := deployment.fs.signedPortion path ver number data
    packet.metaInfo ≠ portion.metaInfo ∧ packet.signatureInfo ≠ portion.signatureInfo := by
  refine ⟨fun same => ?_, fun same => ?_⟩
  · have freshness := congrArg MetaInfo.freshnessPeriod same
    cases freshness
  · have locator := congrArg SignatureInfo.keyLocator same
    cases locator

theorem sentForSigned_eq (path : Bytes) (ver seg : Int) (data : Bytes)
    (environment later : Environment) (state : State) :
    deployment.sentForSigned path ver seg data environment later state =
      (deployment.server.contentReply path later
        { state with
          db := state.db.replaceFileSegment path ver seg
            ⟨deployment.fs.signedPortion path ver seg data⟩ }
        (deployment.fs.segName path ver seg) ver seg).toList := by
  rw [sentForSigned, Server.exec_sendFileContent, Server.sendReply, List.drop_left]
  rfl

theorem storedSignatureVerifies_iff (path : Bytes) (ver seg : Int) (data : Bytes)
    (environment later : Environment) (state : State) :
    deployment.StoredSignatureVerifies path ver seg data environment later state ↔
      deployment.Unanswered path ver seg later state := by
  have has_signed : (state.db.replaceFileSegment path ver seg
      ⟨deployment.fs.signedPortion path ver seg data⟩).fileSegments.Has
        (path, ver, Server.contentSeg seg) ↔ ¬ (seg = -1 ∧ ¬ state.db.fileSegments.Has (path, ver, 0)) := by
    rw [KeyedTable.Has, Database.lookup_replaceFileSegment, Server.contentSeg]
    by_cases blank : seg = -1
    · subst blank
      simp [KeyedTable.Has]
    · simp [blank]
  have silent : deployment.Unanswered path ver seg later state ↔
      deployment.sentForSigned path ver seg data environment later state = [] := by
    rw [sentForSigned_eq, Option.toList_eq_nil_iff, Server.contentReply_eq_none_iff, has_signed,
      not_not]
    rfl
  rw [silent]
  constructor
  · intro verifies
    rw [List.eq_nil_iff_forall_not_mem]
    intro packet sent
    have same := (verifies packet sent).1
    rw [sentForSigned_eq, Option.mem_toList] at sent
    obtain ⟨signature, content, -, -, -, rfl⟩ := Server.contentReply_some _ sent
    exact absurd (congrArg SignedPortion.metaInfo same)
      (deployment.contentPacket_differs (deployment.fs.segName path ver seg) seg _ content
        signature path ver seg data).1
  · intro none packet sent
    rw [none] at sent
    cases sent

/-- The packet for a file of one byte does not verify. -/
theorem storedSignatureVerifies_fails : ¬ ∀ (deployment : Deployment) (path : Bytes) (ver seg : Int)
    (data : Bytes) (environment later : Environment) (state : State),
    deployment.StoredSignatureVerifies path ver seg data environment later state := by
  intro claim
  have verifies := claim Reference.deployment (ascii "/a") 2 0 (ascii "x") (Reference.calm 2)
    (Reference.calm 2)
    { db := .empty
      disk := (Disk.bare.create [ascii "a"] .regular 1).modify [ascii "a"] (fun _ => ascii "x") 1
      sent := [] }
  revert verifies
  decide

end Deployment

end Ndnfs

import Ndnfs.Proof.Numbers
import Ndnfs.Proof.ReplyName
import Ndnfs.Server.Deployment

namespace Ndnfs
open MachineInteger NdnCpp

namespace Server

variable (server : Server) (environment : Environment) (state : State) (base : Name)
  (version : UInt64)

/-- The name of a version of a file. -/
def shortName : Name := base ++ [server.ndn.fromNumberWithMarker version.toNat versionMarker]

/-- The name of the first segment of a version. -/
def fullName : Name := server.shortName base version ++ [server.ndn.segmentComponent 0]

/-- The two names have the same Data packet as their answer or both have none; the memory of the
finalized statement may hold something else at the second answer. -/
def SameAnswer (freed : Option SignatureBits → Option SignatureBits) : Prop :=
  server.reply environment state (server.shortName base version) =
    server.reply { environment with freed } state (server.fullName base version)

/-- The first segment of the version has a row, and the file has bytes that can be read. -/
def ServesSegment (path : Bytes) (version : Int) : Prop :=
  state.db.fileSegments.Has (path, version, 0) ∧
    ∃ content, server.readContent environment state.disk path 0 = .ok content ∧ content ≠ []

/-- The current version of the row is recorded, or a path without a row is a directory. -/
def ServesPath (path : Bytes) : Prop :=
  match state.db.fileSystem.lookup path with
  | some row => state.db.fileVersions.Has (path, toInt row.currentVersion)
  | none => ∃ names,
      environment.outcome (state.disk.listText (server.filePath (queryPath path))) = .ok names

/-- Where the first segment has a row, its signature is read alike from the two memories. -/
def SignsAlike (path : Bytes) (version : Int)
    (freed : Option SignatureBits → Option SignatureBits) : Prop :=
  ∀ signature ∈ state.db.fileSegments.lookup (path, version, 0),
    environment.freed (some signature) = freed (some signature)

/-- A short name asks for the first segment only with a row for the path; with a marker or with
the version that is -1 as an int it asks for the path. -/
def SameAnswerWhen (freed : Option SignatureBits → Option SignatureBits) : Prop :=
  server.Accepted base (-1) (-1) → server.fsPrefix.length ≤ (plainText base).length →
    let path := server.cutPath base
    let number := toInt version.toNat
    if number = -1 ∨ hasMarker base = true then
      ¬ server.ServesPath environment state path ∧
        (number ≠ -1 → ¬ server.ServesSegment environment state path number)
    else
      state.db.fileSystem.Has path ∧ SignsAlike environment state path number freed ∨
        ¬ server.ServesSegment environment state path number

variable {server} {base}

theorem contentReply_ne_none_iff (path : Bytes) (interestName : Name) (number seg : Int)
    (first : contentSeg seg = 0) :
    server.contentReply path environment state interestName number seg ≠ none ↔
      server.ServesSegment environment state path number := by
  have same : server.readContent environment state.disk path seg =
      server.readContent environment state.disk path 0 := by
    rw [readContent, readContent, first]
    rfl
  rw [Ne, contentReply_eq_none_iff, first, same, not_or, not_not, ServesSegment]
  push Not
  rfl

/-- What the memory of the finalized statement holds does not decide whether there is a reply. -/
theorem contentReply_freed_eq_none_iff (path : Bytes) (interestName : Name) (number : Int)
    (freed : Option SignatureBits → Option SignatureBits) :
    server.contentReply path { environment with freed } state interestName number 0 = none ↔
      ¬ server.ServesSegment environment state path number := by
  have same : server.ServesSegment { environment with freed } state path number =
      server.ServesSegment environment state path number := rfl
  rw [← same, ← contentReply_ne_none_iff _ _ path interestName number 0 rfl, not_not]

/-- A segment that is served has the same packet exactly when it has the same signature. -/
theorem contentReply_freed_iff (path : Bytes) (interestName : Name) (number : Int)
    (freed : Option SignatureBits → Option SignatureBits) :
    server.contentReply path environment state interestName number 0 =
        server.contentReply path { environment with freed } state interestName number 0 ↔
      SignsAlike environment state path number freed ∨
        ¬ server.ServesSegment environment state path number := by
  have same : server.readContent { environment with freed } state.disk path 0 =
      server.readContent environment state.disk path 0 := rfl
  have first : contentSeg 0 = 0 := rfl
  have served : server.ServesSegment environment state path number ↔
      state.db.fileSegments.lookup (path, number, 0) ≠ none ∧
        ∃ content, server.readContent environment state.disk path 0 = .ok content ∧
          content ≠ [] := .rfl
  unfold contentReply SignsAlike
  rw [served, same, first]
  cases state.db.fileSegments.lookup (path, number, 0) with
  | none => simp
  | some signature =>
      cases server.readContent environment state.disk path 0 with
      | error error => simp
      | ok content =>
          cases content with
          | nil => simp
          | cons byte content =>
              simp only [List.length_cons, Nat.zero_lt_succ, if_true, contentPacket,
                Option.some.injEq, Data.mk.injEq, Option.mem_def, forall_eq']
              simp [fileSize, Environment.outcome]

theorem pathReply_ne_none_iff (path : Bytes) :
    server.pathReply path environment state ≠ none ↔
      server.ServesPath environment state path := by
  unfold pathReply ServesPath
  cases state.db.fileSystem.lookup path with
  | some row => simp [metaReply]
  | none =>
      dsimp only [dirReply]
      cases environment.outcome (state.disk.listText (server.filePath (queryPath path))) <;> simp

/-- A metadata packet is no content packet, since its name does not end in a segment. -/
theorem pathReply_ne_contentReply {path : Bytes} {name : Name} {number seg segment : Int}
    (known : seg ≠ -1) {data : Data}
    (answered : server.pathReply path environment state = some data) :
    server.contentReply path environment state (name ++ [server.ndn.segmentComponent segment])
      number seg ≠ some data := by
  intro replied
  have names := server.pathReply_name path environment state
  rw [answered, Option.map_some] at names
  obtain ⟨announced, -, front⟩ := Option.map_eq_some_iff.mp names.symm
  obtain ⟨signature, content, -, -, -, rfl⟩ := server.contentReply_some replied
  rw [contentPacket, contentName, if_neg known, announcedName] at front
  have last := congrArg (fun name => name.getLast?.map componentKind) front
  simp [componentKind_versionComponent, componentKind_segmentComponent] at last

theorem Accepted.version_inv {component : Component} {held seg : Int}
    (kind : componentKind component = .version)
    (accepted : server.Accepted (base ++ [component]) held seg) :
    server.Accepted base (-1) (-1) := by
  generalize same : base ++ [component] = name at accepted
  cases accepted with
  | nil => simp at same
  | front before isFront =>
      obtain ⟨rfl, last⟩ := List.append_inj' same rfl
      exact before
  | version before read =>
      obtain ⟨rfl, last⟩ := List.append_inj' same rfl
      exact before
  | segment before known read =>
      obtain ⟨rfl, last⟩ := List.append_inj' same rfl
      obtain rfl := List.singleton_inj.mp last
      rw [read.1] at kind
      cases kind

theorem Accepted.segment_inv {component : Component} {held seg : Int}
    (kind : componentKind component = .segment)
    (accepted : server.Accepted (base ++ [component]) held seg) :
    held ≠ -1 ∧ server.Accepted base held (-1) := by
  generalize same : base ++ [component] = name at accepted
  cases accepted with
  | nil => simp at same
  | front before isFront =>
      obtain ⟨rfl, last⟩ := List.append_inj' same rfl
      obtain rfl := List.singleton_inj.mp last
      rw [kind] at isFront
      cases isFront
  | version before read =>
      obtain ⟨rfl, last⟩ := List.append_inj' same rfl
      obtain rfl := List.singleton_inj.mp last
      rw [read.1] at kind
      cases kind
  | segment before known read =>
      obtain ⟨rfl, last⟩ := List.append_inj' same rfl
      exact ⟨known, before⟩

theorem readsVersion_number (server : Server) (version : UInt64) :
    server.ReadsVersion (server.ndn.fromNumberWithMarker version.toNat versionMarker)
      (toInt version.toNat) :=
  ⟨componentKind_of_head (server.ndn.fromNumberWithMarker_head _ _), version.toNat,
    server.ndn.toNumberWithMarker_from _ _ version.toNat_lt, rfl⟩

theorem plainText_shortName : plainText (server.shortName base version) = plainText base :=
  plainText_snoc_other (by simp [(server.readsVersion_number version).1]) base

theorem plainText_fullName : plainText (server.fullName base version) = plainText base := by
  rw [fullName, plainText_snoc_other (by simp [componentKind_segmentComponent]),
    plainText_shortName]

theorem cutPath_shortName : server.cutPath (server.shortName base version) = server.cutPath base := by
  rw [cutPath, plainText_shortName, cutPath]

theorem cutPath_fullName : server.cutPath (server.fullName base version) = server.cutPath base := by
  rw [cutPath, plainText_fullName, cutPath]

theorem hasMarker_shortName : hasMarker (server.shortName base version) = hasMarker base := by
  simp [shortName, hasMarker_snoc, (server.readsVersion_number version).1]

theorem hasMarker_fullName : hasMarker (server.fullName base version) = hasMarker base := by
  rw [fullName, hasMarker_snoc, hasMarker_shortName]
  simp [componentKind_segmentComponent]

/-- Neither name passes when its beginning does not. -/
theorem reply_of_not_accepted (rejected : ¬ (server.Accepted base (-1) (-1) ∧
    server.fsPrefix.length ≤ (plainText base).length)) :
    server.reply environment state (server.shortName base version) = none ∧
      server.reply environment state (server.fullName base version) = none := by
  have kind := (server.readsVersion_number version).1
  constructor
  · apply reply_of_not_passes
    rintro ⟨⟨held, seg, accepted⟩, enough⟩
    rw [plainText_shortName] at enough
    exact rejected ⟨accepted.version_inv kind, enough⟩
  · apply reply_of_not_passes
    rintro ⟨⟨held, seg, accepted⟩, enough⟩
    rw [plainText_fullName] at enough
    have before := (accepted.segment_inv (server.componentKind_segmentComponent 0)).2
    exact rejected ⟨before.version_inv kind, enough⟩

section Passing

variable (accepted : server.Accepted base (-1) (-1))
  (enough : server.fsPrefix.length ≤ (plainText base).length)

include accepted enough

theorem parse_shortName : server.parseName (server.shortName base version) =
    .ok ⟨Scan.ret ⟨toInt version.toNat, -1, hasMarker base, plainText base⟩,
      toInt version.toNat, -1, server.cutPath base⟩ := by
  have short : server.Accepted (server.shortName base version) (toInt version.toNat) (-1) :=
    .version accepted (server.readsVersion_number version)
  have parse := short.parse_ok (by rwa [plainText_shortName])
  rwa [cutPath_shortName, plainText_shortName, hasMarker_shortName] at parse

theorem parse_fullName (known : toInt version.toNat ≠ -1) :
    server.parseName (server.fullName base version) =
      .ok ⟨3, toInt version.toNat, 0, server.cutPath base⟩ := by
  have short : server.Accepted (server.shortName base version) (toInt version.toNat) (-1) :=
    .version accepted (server.readsVersion_number version)
  have read : server.ReadsSegment (server.ndn.segmentComponent 0) 0 :=
    ⟨server.componentKind_segmentComponent 0, 0, server.ndn.toSegment_segmentComponent 0, rfl⟩
  have full : server.Accepted (server.fullName base version) (toInt version.toNat) 0 :=
    .segment short known read
  have parse := full.parse_ok (by rwa [plainText_fullName])
  have three : Scan.ret ⟨toInt version.toNat, 0, hasMarker base, plainText base⟩ = 3 :=
    Scan.ret_segment known (by decide)
  rw [cutPath_fullName, plainText_fullName, hasMarker_fullName, three] at parse
  exact parse

theorem reply_fullName (known : toInt version.toNat ≠ -1) :
    server.reply environment state (server.fullName base version) =
      server.contentReply (server.cutPath base) environment state (server.fullName base version)
        (toInt version.toNat) 0 := by
  rw [reply, parse_fullName version accepted enough known]
  exact if_pos rfl

omit enough in
/-- The version that is -1 as an int lets no segment follow. -/
theorem reply_fullName_blank (blank : toInt version.toNat = -1) :
    server.reply environment state (server.fullName base version) = none := by
  apply reply_of_not_passes
  rintro ⟨⟨held, seg, full⟩, -⟩
  obtain ⟨known, before⟩ := full.segment_inv (server.componentKind_segmentComponent 0)
  have short : server.Accepted (server.shortName base version) (toInt version.toNat) (-1) :=
    .version accepted (server.readsVersion_number version)
  rw [before.numbers.1, ← short.numbers.1] at known
  exact known blank

theorem reply_shortName_path (general : toInt version.toNat = -1 ∨ hasMarker base = true) :
    server.reply environment state (server.shortName base version) =
      server.pathReply (server.cutPath base) environment state := by
  have one : Scan.ret ⟨toInt version.toNat, -1, hasMarker base, plainText base⟩ = 1 :=
    Scan.ret_path (general.imp_right fun marker => ⟨rfl, marker⟩)
  rw [reply, parse_shortName version accepted enough, one]
  rfl

/-- A short name with a row is answered with the first segment. -/
theorem reply_shortName_content (known : toInt version.toNat ≠ -1)
    (plain : hasMarker base = false) :
    server.reply environment state (server.shortName base version) =
      if state.db.fileSystem.Has (server.cutPath base) then
        server.contentReply (server.cutPath base) environment state (server.fullName base version)
          (toInt version.toNat) 0
      else none := by
  have two : Scan.ret ⟨toInt version.toNat, -1, hasMarker base, plainText base⟩ = 2 :=
    Scan.ret_version known plain
  rw [reply, parse_shortName version accepted enough, two]
  rfl

end Passing

/-- The short and the full name of a version have the same answer exactly under this condition on
the rows, on the file and on what is left of the signature. -/
theorem sameAnswer_iff (server : Server) (environment : Environment) (state : State) (base : Name)
    (version : UInt64) (freed : Option SignatureBits → Option SignatureBits) :
    server.SameAnswer environment state base version freed ↔
      server.SameAnswerWhen environment state base version freed := by
  by_cases passes : server.Accepted base (-1) (-1) ∧
      server.fsPrefix.length ≤ (plainText base).length
  · obtain ⟨accepted, enough⟩ := passes
    simp only [SameAnswer, SameAnswerWhen, accepted, enough, forall_const]
    split
    · rename_i general
      rw [reply_shortName_path environment state version accepted enough general,
        ← pathReply_ne_none_iff, not_not]
      by_cases blank : toInt version.toNat = -1
      · rw [reply_fullName_blank { environment with freed } state version accepted blank]
        simp [blank]
      · rw [reply_fullName { environment with freed } state version accepted enough blank,
          ← contentReply_freed_eq_none_iff environment state _ (server.fullName base version) _
            freed]
        constructor
        · intro same
          cases answered : server.pathReply (server.cutPath base) environment state with
          | none => exact ⟨rfl, fun _ => (answered.symm.trans same).symm⟩
          | some data =>
              have answered' : server.pathReply (server.cutPath base) { environment with freed }
                  state = some data := answered
              rw [answered] at same
              exact absurd same.symm
                (pathReply_ne_contentReply { environment with freed } state (by decide) answered')
        · rintro ⟨noPath, noSegment⟩
          exact noPath.trans (noSegment blank).symm
    · rename_i special
      obtain ⟨known, marker⟩ := not_or.mp special
      rw [reply_shortName_content environment state version accepted enough known
        (Bool.eq_false_iff.mpr marker),
        reply_fullName { environment with freed } state version accepted enough known]
      split
      · rename_i row
        rw [contentReply_freed_iff]
        simp only [row, true_and]
      · rename_i absent
        rw [or_iff_right fun both => absent both.1,
          ← contentReply_freed_eq_none_iff environment state _ (server.fullName base version) _
            freed]
        exact eq_comm
  · obtain ⟨short, -⟩ := reply_of_not_accepted environment state version passes
    obtain ⟨-, full⟩ := reply_of_not_accepted { environment with freed } state version passes
    refine iff_of_true (short.trans full.symm) ?_
    rw [SameAnswerWhen, ← and_imp]
    simp only [passes, false_implies]

end Server

namespace Reference

def dirD : Path := ⟨[ascii "d"], by decide⟩
def dirE : Path := ⟨[ascii "e"], by decide⟩
def fileDA : Path := ⟨[ascii "d", ascii "a"], by decide⟩
def fileEA : Path := ⟨[ascii "e", ascii "a"], by decide⟩

/-- A file loses its row with its directory's name and takes the name of a deleted file. -/
def strayRequests : List Request :=
  [⟨.mknod fileB regularMode, calm 1⟩, ⟨.write fileB (ascii "x") 0, calm 1⟩,
    ⟨.release fileB .readWrite, calm 2⟩, ⟨.unlink fileB, calm 3⟩, ⟨.mkdir dirD 0o755, calm 3⟩,
    ⟨.mknod fileDA regularMode, calm 3⟩, ⟨.write fileDA (ascii "y") 0, calm 3⟩,
    ⟨.rename dirD dirE, calm 4⟩, ⟨.rename fileEA fileB, calm 4⟩]

end Reference

namespace Server

/-- A segment row that outlives the row of its file is served under the full name only. -/
theorem sameAnswer_fails : ¬ ∀ (deployment : Deployment) (served path : Name) (disk : Disk)
    (clock : Int) (requests : List Request) (environment : Environment) (version : UInt64),
    deployment.Canonical served →
      (∀ component ∈ served ++ path, componentKind component = .plain) →
        Run.Steps deployment.fs.step ClockAdvances ⟨⟨.empty, disk, []⟩, clock⟩ requests →
          deployment.server.SameAnswer environment
            (Run.after deployment.fs.step ⟨⟨.empty, disk, []⟩, clock⟩ requests).state
            (served ++ path) version environment.freed := by
  intro claim
  have same := claim Reference.deployment _ [ascii "b"] .bare 0 Reference.strayRequests
    (Reference.calm 5) 2 Reference.canonical (by decide) (by decide +kernel)
  revert same
  unfold SameAnswer
  decide +kernel

end Server

end Ndnfs

import Ndnfs.Fs.Operation
import Ndnfs.Server.Execution
import Ndnfs.Server.Shape

namespace Ndnfs
open MachineInteger Percent NdnCpp

namespace Server

variable (server : Server)

/-- The name has one version component with this number and at most one segment component. -/
structure HasNumbers (name : Name) (version : Nat) (seg : Option Nat) : Prop where
  version : ∃ component, (name.filter fun component => componentKind component = .version) =
    [component] ∧ server.ndn.toVersion component = some version
  segment : match seg with
    | none => (name.filter fun component => componentKind component = .segment) = []
    | some number => ∃ component, (name.filter fun component =>
        componentKind component = .segment) = [component] ∧
          server.ndn.toSegment component = some number

/-- The number of the last component of this kind as an int, or the blank number. -/
def lastNumber (read : Component → Option Nat) (kind : ComponentKind) (name : Name) : Int :=
  match (name.filter fun component => componentKind component = kind).getLast?.bind read with
  | none => -1
  | some number => toInt number

theorem lastNumber_snoc {read : Component → Option Nat} {kind : ComponentKind}
    {component : Component} {number : Nat} (same : componentKind component = kind)
    (value : read component = some number) (name : Name) :
    lastNumber read kind (name ++ [component]) = toInt number := by
  simp [lastNumber, List.filter_append, same, value]

theorem lastNumber_snoc_other (read : Component → Option Nat) {kind : ComponentKind}
    {component : Component} (other : componentKind component ≠ kind) (name : Name) :
    lastNumber read kind (name ++ [component]) = lastNumber read kind name := by
  simp [lastNumber, List.filter_append, other]

theorem lastNumber_only {read : Component → Option Nat} {kind : ComponentKind} {name : Name}
    {component : Component} {number : Nat}
    (only : (name.filter fun component => componentKind component = kind) = [component])
    (value : read component = some number) : lastNumber read kind name = toInt number := by
  rw [lastNumber, only, List.getLast?_singleton, Option.bind_some, value]

theorem ComponentKind.ne_of_isFront {kind : ComponentKind} (isFront : kind.isFront = true) :
    kind ≠ .version ∧ kind ≠ .segment := by
  cases kind <;> simp_all [ComponentKind.isFront]

variable {server}

/-- The loop holds the numbers of the last version and of the last segment. -/
theorem Accepted.numbers {name : Name} {version seg : Int}
    (accepted : server.Accepted name version seg) :
    version = lastNumber server.ndn.toVersion .version name ∧
      seg = lastNumber server.ndn.toSegment .segment name := by
  induction accepted with
  | nil => exact ⟨rfl, rfl⟩
  | @front name component accepted isFront ih =>
      obtain ⟨noVersion, noSegment⟩ := ComponentKind.ne_of_isFront isFront
      rw [lastNumber_snoc_other _ noVersion, lastNumber_snoc_other _ noSegment]
      exact ih
  | @version name component version accepted read ih =>
      obtain ⟨kind, number, value, rfl⟩ := read
      rw [lastNumber_snoc kind value, lastNumber_snoc_other _ (by simp [kind])]
      exact ⟨rfl, ih.2⟩
  | @segment name component version seg accepted known read ih =>
      obtain ⟨kind, number, value, rfl⟩ := read
      rw [lastNumber_snoc kind value, lastNumber_snoc_other _ (by simp [kind])]
      exact ⟨ih.1, rfl⟩

/-- The segment number as an int; a name without a segment has the blank one. -/
def segInt (seg : Option Nat) : Int := seg.elim (-1) fun number => toInt number

theorem HasNumbers.lastNumber {name : Name} {version : Nat} {seg : Option Nat}
    (numbers : server.HasNumbers name version seg) :
    lastNumber server.ndn.toVersion .version name = toInt version ∧
      lastNumber server.ndn.toSegment .segment name = segInt seg := by
  obtain ⟨component, only, read⟩ := numbers.version
  have segment := numbers.segment
  constructor
  · exact lastNumber_only only read
  · cases seg with
    | none =>
        rw [Server.lastNumber, segment]
        rfl
    | some number =>
        obtain ⟨component, only, read⟩ := segment
        rw [segInt, Option.elim_some]
        exact lastNumber_only only read

variable (server)

/-- The loop passes the name and the cut stays inside its text. -/
def Passes (name : Name) : Prop :=
  (∃ version seg, server.Accepted name version seg) ∧
    server.fsPrefix.length ≤ (plainText name).length

/-- This is left of the text of a name when the prefix is cut off. -/
def cutPath (name : Name) : Bytes :=
  if (plainText name).drop server.fsPrefix.length = [] then ascii "/"
  else (plainText name).drop server.fsPrefix.length

/-- A prefix that is as long as its text is cut off. -/
theorem cutPath_prefix {served : Name}
    (length : server.fsPrefix.length = (plainText served).length) (rest : Name) :
    server.cutPath (served ++ rest) =
      if plainText rest = [] then ascii "/" else plainText rest := by
  rw [cutPath, plainText_append, length, List.drop_left]

variable {server}

/-- An accepted name gives its numbers and the rest of its text. -/
theorem Accepted.parse_ok {name : Name} {version seg : Int}
    (accepted : server.Accepted name version seg)
    (enough : server.fsPrefix.length ≤ (plainText name).length) :
    server.parseName name = .ok ⟨Scan.ret ⟨version, seg, hasMarker name, plainText name⟩, version,
      seg, server.cutPath name⟩ := by
  rw [accepted.parseName]
  simp only [finish, if_neg (Nat.not_lt_of_le enough), cutPath]

theorem Passes.parseName {name : Name} (passes : server.Passes name) {version : Nat}
    {seg : Option Nat} (numbers : server.HasNumbers name version seg) :
    server.parseName name = .ok ⟨Scan.ret ⟨toInt version, segInt seg, hasMarker name,
      plainText name⟩, toInt version, segInt seg, server.cutPath name⟩ := by
  obtain ⟨⟨held, heldSeg, accepted⟩, enough⟩ := passes
  obtain ⟨rfl, rfl⟩ := accepted.numbers
  obtain ⟨same, sameSeg⟩ := numbers.lastNumber
  rw [same, sameSeg] at accepted
  exact accepted.parse_ok enough

/-- Only names that pass stand for a request. -/
theorem passes_of_parseName {name : Name} {parsed : Parsed}
    (parse : server.parseName name = .ok parsed) (request : parsed.ret ≠ -1) :
    server.Passes name := by
  obtain ⟨scan, scanned, finished⟩ := server.parseName_ok parse request
  have accepted := accepted_of_scanName scanned
  rw [scanName_eq server scanned] at finished
  exact ⟨⟨_, _, accepted⟩, (server.finish_eq_ok finished).1⟩

/-- Only names that pass get an answer. -/
theorem reply_of_not_passes {environment : Environment} {state : State} {name : Name}
    (rejected : ¬ server.Passes name) : server.reply environment state name = none := by
  unfold reply
  cases parse : server.parseName name with
  | error exception => rfl
  | ok parsed =>
      have failed : parsed.ret = -1 := by
        by_contra request
        exact rejected (passes_of_parseName parse request)
      obtain ⟨ret, held, seg, path⟩ := parsed
      dsimp only at failed ⊢
      rw [failed, if_neg (by decide), if_neg (by decide), if_neg (by decide)]

/-- The numbers of an accepted name decide whether the path or a segment is sent. -/
theorem Accepted.reply {name : Name} {version seg : Int}
    (accepted : server.Accepted name version seg)
    (enough : server.fsPrefix.length ≤ (plainText name).length) (environment : Environment)
    (state : State) :
    server.reply environment state name =
      if version = -1 ∨ seg = -1 ∧ hasMarker name = true then
        server.pathReply (server.cutPath name) environment state
      else if seg = -1 ∧ ¬ state.db.fileSystem.Has (server.cutPath name) then none
      else server.contentReply (server.cutPath name) environment state name version seg := by
  have parse := accepted.parse_ok enough
  rw [Server.reply]
  by_cases general : version = -1 ∨ seg = -1 ∧ hasMarker name = true
  · rw [Scan.ret_path general] at parse
    rw [parse, if_pos general]
    rfl
  · rw [if_neg general]
    have known : version ≠ -1 := fun blank => general (.inl blank)
    by_cases blank : seg = -1
    · have marker : hasMarker name = false := by
        rw [← Bool.not_eq_true]
        exact fun marker => general (.inr ⟨blank, marker⟩)
      subst blank
      rw [Scan.ret_version known marker] at parse
      rw [parse]
      by_cases row : state.db.fileSystem.Has (server.cutPath name)
      · simp [row]
      · simp [row]
    · rw [Scan.ret_segment known blank] at parse
      rw [parse, if_neg fun both => blank both.1]
      rfl

variable (server) (environment : Environment) (state : State)

/-- A content packet comes from the row with the numbers of the name, and a version is never taken
for the blank number. -/
structure KeepsNumbers (name : Name) (version : Nat) (seg : Option Nat) : Prop where
  versioned : ∀ parsed, server.parseName name = .ok parsed → parsed.ret ≠ -1 →
    parsed.version ≠ -1
  row : ∀ parsed, server.parseName name = .ok parsed → parsed.ret = 2 ∨ parsed.ret = 3 →
    (exec (server.onInterestCallback name) environment state).2.sent ≠ state.sent →
      state.db.fileSegments.Has (parsed.path, (version : Int), ((seg.getD 0 : Nat) : Int))

/-- No content packet is sent for the numbers as ints. -/
def NoContent (name : Name) (version : Nat) (seg : Option Nat) : Prop :=
  segInt seg = -1 ∧
      (hasMarker name = true ∨ ¬ state.db.fileSystem.Has (server.cutPath name)) ∨
    ¬ state.db.fileSegments.Has (server.cutPath name, toInt version, contentSeg (segInt seg)) ∨
    ∀ content, server.readContent environment state.disk (server.cutPath name) (segInt seg) =
      .ok content → content = []

/-- The file of the path has bytes at the offset of the segment. -/
def HasBytes (disk : Disk) (path : Bytes) (seg : Int) : Prop :=
  ∃ location entry content, disk.lookupText (server.filePath path) = .ok (location, entry) ∧
    disk.pread location segSize (shiftLeft (contentSeg seg) segSizeShift) = .ok content ∧
      content ≠ []

/-- Without a fault the bytes of the file are read. -/
theorem hasBytes_iff {environment : Environment} (calm : environment.faults = []) (disk : Disk)
    (path : Bytes) (seg : Int) :
    server.HasBytes disk path seg ↔
      ∃ content, server.readContent environment disk path seg = .ok content ∧ content ≠ [] := by
  have quiet : environment.next.faults = [] := by simp [Environment.next, calm]
  have quiet' : environment.next.next.faults = [] := by simp [Environment.next, calm]
  unfold HasBytes readContent
  rw [Environment.outcome_of_nil _ quiet]
  cases disk.lookupText (server.filePath path) with
  | error error => simp
  | ok found =>
      obtain ⟨location, entry⟩ := found
      dsimp only
      rw [Environment.outcome_of_nil _ quiet']
      constructor
      · rintro ⟨_, _, content, same, read, some⟩
        cases same
        exact ⟨content, read, some⟩
      · rintro ⟨content, read, some⟩
        exact ⟨location, entry, content, rfl, read, some⟩

variable {server} in
/-- Bytes that are read are bytes of the file. -/
theorem hasBytes_of_readContent {environment : Environment} {disk : Disk} {path content : Bytes}
    {seg : Int} (read : server.readContent environment disk path seg = .ok content)
    (some : content ≠ []) : server.HasBytes disk path seg := by
  unfold readContent at read
  split at read
  · cases read
  · rename_i location entry found
    exact ⟨location, entry, content, Environment.outcome_ok found, Environment.outcome_ok read,
      some⟩

/-- Both numbers are non-negative ints. -/
def Fit (version : Nat) (seg : Option Nat) : Prop := version < 2 ^ 31 ∧ ∀ number ∈ seg, number < 2 ^ 31

theorem Fit.toInt_eq {version : Nat} {seg : Option Nat} (fit : Fit version seg) :
    toInt version = version ∧ contentSeg (segInt seg) = ((seg.getD 0 : Nat) : Int) := by
  constructor
  · exact toInt_natCast fit.1
  · cases seg with
    | none => rfl
    | some number =>
        have same : toInt number = number := toInt_natCast (fit.2 number rfl)
        rw [segInt, Option.elim_some, same, contentSeg, if_neg (by omega), Option.getD_some]

/-- A segment number that is absent or becomes the blank one. -/
def Blank (seg : Option Nat) : Prop := ∀ number ∈ seg, 2 ^ 32 ∣ number + 1

/-- The numbers that become the blank one are those with 32 low bits set. -/
theorem toInt_eq_blank_iff (number : Nat) :
    toInt number = -1 ↔ 2 ^ 32 ∣ number + 1 := by
  unfold toInt
  rw [Int.bmod_def]
  split <;> omega

theorem blank_iff (seg : Option Nat) : Blank seg ↔ segInt seg = -1 := by
  cases seg with
  | none => exact iff_of_true (fun _ member => by cases member) rfl
  | some number =>
      rw [segInt, Option.elim_some, toInt_eq_blank_iff]
      constructor
      · intro blank
        exact blank number rfl
      · intro low other member
        obtain rfl := Option.some.inj member
        exact low

/-- Ints that are the numbers themselves come from small numbers. -/
theorem fit_of_toInt_eq {version : Nat} {seg : Option Nat} (same : toInt version = version)
    (sameSeg : contentSeg (segInt seg) = ((seg.getD 0 : Nat) : Int)) : Fit version seg := by
  constructor
  · have range := toInt_isInt version
    rw [same] at range
    unfold IsInt at range
    omega
  · intro number member
    obtain rfl := Option.mem_def.mp member
    rw [segInt, Option.elim_some, Option.getD_some, contentSeg] at sameSeg
    split at sameSeg
    · omega
    · have range := toInt_isInt number
      rw [sameSeg] at range
      unfold IsInt at range
      omega

/-- A packet is put exactly when there is a reply. -/
theorem sent_ne_iff (name : Name) :
    (exec (server.onInterestCallback name) environment state).2.sent ≠ state.sent ↔
      server.reply environment state name ≠ none := by
  rw [exec_onInterestCallback, sendReply]
  cases server.reply environment state name <;> simp

variable {server environment state}

/-- The content branches put a packet exactly when something can be sent for the numbers as ints. -/
theorem content_sent_iff {name : Name} {version : Nat} {seg : Option Nat} {ret : Int}
    (parse : server.parseName name =
      .ok ⟨ret, toInt version, segInt seg, server.cutPath name⟩)
    (kind : ret = Scan.ret ⟨toInt version, segInt seg, hasMarker name, plainText name⟩)
    (known : toInt version ≠ -1) :
    (ret = 2 ∨ ret = 3) ∧
        (exec (server.onInterestCallback name) environment state).2.sent ≠ state.sent ↔
      ¬ server.NoContent environment state name version seg := by
  have content := server.contentReply_eq_none_iff (server.cutPath name) environment state name
    (toInt version) (segInt seg)
  rw [sent_ne_iff, reply, parse]
  by_cases blank : segInt seg = -1
  · cases marker : hasMarker name with
    | true =>
        have one : ret = 1 := by
          rw [kind]
          exact Scan.ret_path (.inr ⟨blank, marker⟩)
        refine iff_of_false ?_ (not_not.mpr (.inl ⟨blank, .inl marker⟩))
        simp [one]
    | false =>
        have two : ret = 2 := by
          rw [kind, blank]
          exact Scan.ret_version known marker
        subst two
        rw [blank] at content ⊢
        by_cases row : state.db.fileSystem.Has (server.cutPath name)
        · simp [NoContent, blank, marker, row, content]
        · simp [NoContent, blank, row]
  · have three : ret = 3 := by
      rw [kind]
      exact Scan.ret_segment known blank
    subst three
    simp [NoContent, blank, content]

/-- Numbers that fit are kept in every state. -/
theorem Fit.keepsNumbers {name : Name} {version : Nat} {seg : Option Nat}
    (fit : Fit version seg) (numbers : server.HasNumbers name version seg)
    (passes : server.Passes name) (known : toInt version ≠ -1) :
    server.KeepsNumbers environment state name version seg := by
  have parse := passes.parseName numbers
  refine ⟨fun parsed other _ => ?_, fun parsed other content sent => ?_⟩
  · rw [parse] at other
    obtain rfl := Except.ok.inj other
    dsimp only
    exact known
  · rw [parse] at other
    obtain rfl := Except.ok.inj other
    dsimp only at content ⊢
    have silent := (content_sent_iff parse rfl known).mp ⟨content, sent⟩
    obtain ⟨same, sameSeg⟩ := fit.toInt_eq
    rw [← same, ← sameSeg]
    by_contra absent
    exact silent (.inr (.inl absent))

/-- Numbers for which nothing is sent are kept. -/
theorem NoContent.keepsNumbers {name : Name} {version : Nat} {seg : Option Nat}
    (silent : server.NoContent environment state name version seg)
    (numbers : server.HasNumbers name version seg) (passes : server.Passes name)
    (known : toInt version ≠ -1) :
    server.KeepsNumbers environment state name version seg := by
  have parse := passes.parseName numbers
  refine ⟨fun parsed other _ => ?_, fun parsed other content sent => ?_⟩
  · rw [parse] at other
    obtain rfl := Except.ok.inj other
    dsimp only
    exact known
  · rw [parse] at other
    obtain rfl := Except.ok.inj other
    dsimp only at content
    exact absurd silent ((content_sent_iff parse rfl known).mp ⟨content, sent⟩)

/-- Names that do not pass get no packet. -/
theorem keepsNumbers_of_not_passes {name : Name} {version : Nat} {seg : Option Nat}
    (rejected : ¬ server.Passes name) :
    server.KeepsNumbers environment state name version seg where
  versioned parsed parse request := absurd (passes_of_parseName parse request) rejected
  row parsed parse content := by
    refine absurd (passes_of_parseName parse ?_) rejected
    rcases content with two | three
    · rw [two]
      decide
    · rw [three]
      decide

/-- The tables of one file with one segment. -/
def oneSegment (path : Bytes) (version seg : Int) : Database where
  fileSystem := (∅ : KeyedTable Bytes FileSystemRow).insert path
    ⟨version, [], SignatureState.notReady.code, FileType.regular.code⟩
  fileVersions := ∅
  fileSegments := (∅ : KeyedTable (Bytes × Int × Int) SignatureBits).insert (path, version, seg)
    ⟨⟨[], ⟨none, none⟩, [], ⟨none⟩⟩⟩

/-- With the one segment of the ints in the tables something is sent. -/
theorem not_noContent_oneSegment {disk : Disk} {name : Name} {version : Nat} {seg : Option Nat}
    (bytes : server.HasBytes disk (server.cutPath name) (segInt seg))
    (unmarked : ¬ (Blank seg ∧ hasMarker name = true)) (sent : List Data) :
    ¬ server.NoContent (Reference.calm 0) ⟨oneSegment (server.cutPath name) (toInt version)
      (contentSeg (segInt seg)), disk, sent⟩ name version seg := by
  rintro (⟨blank, marker | absent⟩ | absent | silent)
  · exact unmarked ⟨(blank_iff seg).mpr blank, marker⟩
  · exact absent (KeyedTable.has_iff.mpr ⟨_, AList.lookup_insert _⟩)
  · exact absent (KeyedTable.has_iff.mpr ⟨_, AList.lookup_insert _⟩)
  · have calm : (Reference.calm 0).faults = [] := rfl
    obtain ⟨content, read, some⟩ :=
      (server.hasBytes_iff calm disk (server.cutPath name) (segInt seg)).mp bytes
    exact some (silent content read)

/-- For a disk the numbers of a name are kept with all tables exactly when the name does not pass,
or the version does not become the blank number and both numbers are non-negative ints, or the
segment is blank beside a marker, or the file has no bytes at the segment. -/
theorem keepsNumbers_iff {name : Name} {version : Nat} {seg : Option Nat}
    (numbers : server.HasNumbers name version seg) (disk : Disk) :
    (∀ (environment : Environment) (db : Database) (sent : List Data),
        server.KeepsNumbers environment ⟨db, disk, sent⟩ name version seg) ↔
      ¬ server.Passes name ∨ ¬ 2 ^ 32 ∣ version + 1 ∧
        (Fit version seg ∨ Blank seg ∧ hasMarker name = true ∨
          ¬ server.HasBytes disk (server.cutPath name) (segInt seg)) := by
  by_cases passes : server.Passes name
  · have parse := passes.parseName numbers
    rw [or_iff_right (not_not.mpr passes), ← toInt_eq_blank_iff]
    constructor
    · intro keeps
      have request : Scan.ret ⟨toInt version, segInt seg, hasMarker name, plainText name⟩ ≠ -1 := by
        unfold Scan.ret
        split
        · decide
        · split <;> decide
      have versioned := (keeps (Reference.calm 0) .empty []).versioned _ parse
      dsimp only at versioned
      have known := versioned request
      refine ⟨known, ?_⟩
      by_contra served
      rw [not_or, not_or, not_not] at served
      obtain ⟨large, unmarked, bytes⟩ := served
      -- the tables have the row of the ints alone, so the row of the numbers is this one
      obtain ⟨content, sent⟩ := (content_sent_iff parse rfl known).mpr
        (not_noContent_oneSegment bytes unmarked [])
      have kept := (keeps (Reference.calm 0) (oneSegment (server.cutPath name) (toInt version)
        (contentSeg (segInt seg))) []).row _ parse
      dsimp only at kept
      have row := kept content sent
      have same : (server.cutPath name, (version : Int), ((seg.getD 0 : Nat) : Int)) =
          (server.cutPath name, toInt version, contentSeg (segInt seg)) := by
        by_contra other
        exact row (AList.lookup_insert_ne other)
      obtain ⟨sameVersion, sameSeg⟩ := Prod.mk.inj (Prod.mk.inj same).2
      exact large (fit_of_toInt_eq sameVersion.symm sameSeg.symm)
    · rintro ⟨known, fit | ⟨blank, marker⟩ | empty⟩ environment db sent
      · exact fit.keepsNumbers numbers passes known
      · have silent : server.NoContent environment ⟨db, disk, sent⟩ name version seg :=
          .inl ⟨(blank_iff seg).mp blank, .inl marker⟩
        exact silent.keepsNumbers numbers passes known
      · have silent : server.NoContent environment ⟨db, disk, sent⟩ name version seg := by
          refine .inr (.inr fun content read => ?_)
          by_contra some
          exact empty (hasBytes_of_readContent read some)
        exact silent.keepsNumbers numbers passes known
  · exact iff_of_true (fun _ _ _ => keepsNumbers_of_not_passes passes) (.inl passes)

/-- The name of a file with a version number under the reference prefix. -/
def versionedName (version : Nat) : Name :=
  Reference.server.prefixName ++
    [ascii "a", Reference.server.ndn.fromNumberWithMarker version versionMarker]

/-- The name of a segment of a version. -/
def segmentName (version seg : Nat) : Name :=
  versionedName version ++ [Reference.server.ndn.fromNumberWithMarker seg segmentMarker]

/-- The one segment of a released file is asked for, and with all tables its numbers are kept. -/
theorem keepsNumbers_iff_segment :
    Reference.server.KeepsNumbers (Reference.calm 9) Reference.releasedState (segmentName 2 0) 2
      (some 0) := by
  have numbers : Reference.server.HasNumbers (segmentName 2 0) 2 (some 0) :=
    ⟨⟨Reference.server.ndn.fromNumberWithMarker 2 versionMarker, by decide, by decide⟩,
      ⟨Reference.server.ndn.fromNumberWithMarker 0 segmentMarker, by decide, by decide⟩⟩
  have fit : Fit 2 (some 0) := by
    refine ⟨by decide, fun number member => ?_⟩
    obtain rfl := Option.some.inj member
    decide
  exact (keepsNumbers_iff numbers Reference.releasedState.disk).mpr (.inr ⟨by decide, .inl fit⟩)
    (Reference.calm 9) Reference.releasedState.db Reference.releasedState.sent

/-- The version 2^32 + 2 is taken for the version 2. -/
theorem keepsNumbers_fails : ¬ ∀ (server : Server) (environment : Environment) (state : State)
    (name : Name) (version : Nat) (seg : Option Nat), server.HasNumbers name version seg →
      server.KeepsNumbers environment state name version seg := by
  intro claim
  have numbers : Reference.server.HasNumbers (versionedName (2 ^ 32 + 2)) (2 ^ 32 + 2) none :=
    ⟨⟨Reference.server.ndn.fromNumberWithMarker (2 ^ 32 + 2) versionMarker, by decide, by decide⟩,
      by decide⟩
  have keeps := claim Reference.server (Reference.calm 3) Reference.releasedState
    (versionedName (2 ^ 32 + 2)) (2 ^ 32 + 2) none numbers
  have row := keeps.row ⟨2, 2, -1, ascii "/a"⟩ (by decide) (.inl rfl) (by decide)
  revert row
  decide

end Server

end Ndnfs

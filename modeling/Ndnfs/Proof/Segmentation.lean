import Ndnfs.Fs.Content
import Ndnfs.Fs.Operation
import Ndnfs.Server.Deployment
import Ndnfs.Server.Execution

namespace Ndnfs
open Effect Program MachineInteger

/-- A call of a program on the host with its reply. -/
abbrev CallEvent := Sigma (Call.Reply : Call Cursor Location → Type)

/-- The calls of a program in one environment from the shared state. -/
def calls {A : Type} (program : Source Cursor Location A) (environment : Environment)
    (state : State) : List CallEvent :=
  program.trace handle ⟨state, environment⟩

/-- A call of sign_segment with the bytes that its signature is computed over. -/
structure SignCall where
  path : Bytes
  version : Int
  seg : Int
  data : Bytes
  deriving DecidableEq

/-- Only sign_segment stores a signature. -/
def signCall : CallEvent → Option SignCall
  | ⟨.prepare (.replaceFileSegment path version seg signature), _⟩ =>
      some ⟨path, version, seg, signature.signed.content⟩
  | _ => none

/-- The offset and the result of a pread. -/
def readCall : CallEvent → Option (Int × Except Errno Bytes)
  | ⟨.pread _ _ offset, reply⟩ => some (offset, reply)
  | _ => none

/-- This call neither signs a segment nor reads bytes. -/
def IsOtherCall (event : CallEvent) : Prop := signCall event = none ∧ readCall event = none

theorem trace_executeOnce (statement : Statement) (world : World) :
    (executeOnce statement : Source Cursor Location Int).trace handle world =
      [⟨.prepare statement, ⟨statement, []⟩⟩,
        ⟨.step ⟨statement, []⟩, ((world.state.db.execute statement).1.code,
          ⟨statement, (world.state.db.execute statement).1.row⟩)⟩,
        ⟨.finalize ⟨statement, (world.state.db.execute statement).1.row⟩, ()⟩] := rfl

/-- The first segments of a content are its first bytes. -/
theorem flatten_segmentBytes (content : Bytes) (count : Nat) :
    ((List.range count).map (segmentBytes content)).flatten = content.take (segSize * count) := by
  induction count with
  | zero => rfl
  | succ count ih =>
      rw [List.range_succ, List.map_append, List.flatten_append, ih, Nat.mul_succ, List.take_add]
      simp [segmentBytes]

theorem flatten_all_segmentBytes (content : Bytes) :
    ((List.range (content.length / segSize + 1)).map (segmentBytes content)).flatten = content := by
  rw [flatten_segmentBytes]
  apply List.take_of_length_le
  unfold segSize
  omega

namespace FileSystem

variable (fs : FileSystem) (path : Bytes)

/-- The loop reads a segment and stores its signature. -/
def segmentCalls (ver : Int) (location : Location) (content : Bytes) (seg : Nat) :
    List CallEvent :=
  let statement := .replaceFileSegment path ver seg
    ⟨fs.signedPortion path ver seg (segmentBytes content seg)⟩
  [⟨.pread location segSize (shiftLeft seg segSizeShift), .ok (segmentBytes content seg)⟩,
    ⟨.prepare statement, ⟨statement, []⟩⟩,
    ⟨.step ⟨statement, []⟩, (SQLITE_DONE, ⟨statement, []⟩)⟩,
    ⟨.finalize ⟨statement, []⟩, ()⟩]

theorem trace_signSegment (ver : Int) (location : Location) (content : Bytes) (seg : Nat)
    (world : World) :
    ⟨.pread location segSize (shiftLeft seg segSizeShift), .ok (segmentBytes content seg)⟩ ::
        (fs.signSegment path ver seg (segmentBytes content seg) :
          Source Cursor Location Unit).trace handle world =
      fs.segmentCalls path ver location content seg := rfl

/-- Without a fault the loop goes through the segments of the content in their order. -/
theorem trace_signLoop {location : Location} {content : Bytes} (rounds seg : Nat) (ver : Int)
    (world : World) (regular : world.state.disk.entry location = some ⟨.regular, content⟩)
    (enough : seg + rounds = lastRound + 1) (fits : content.length < segSize * lastRound)
    (full : segSize * seg ≤ content.length) (calm : world.environment.faults = []) :
    (fs.signLoop path ver location rounds seg : Source Cursor Location _).trace handle world =
      (List.range' seg (content.length / segSize + 1 - seg)).flatMap
        (fs.segmentCalls path ver location content) := by
  have early : seg < lastRound := Nat.lt_of_mul_lt_mul_left (Nat.lt_of_le_of_lt full fits)
  induction rounds generalizing seg world with
  | zero => omega
  | succ rounds ih =>
      have read := pread_segment regular early
      have calm' := world.environment.faults_next calm
      have reached : seg ≤ content.length / segSize := le_div_segSize_iff.mpr full
      have first : List.range' seg (content.length / segSize + 1 - seg) =
          seg :: List.range' (seg + 1) (content.length / segSize - seg) := by
        rw [show content.length / segSize + 1 - seg = content.length / segSize - seg + 1 by omega]
        exact List.range'_succ
      rw [first, List.flatMap_cons]
      rw [← fs.trace_signSegment path ver location content seg
        ⟨world.state, world.environment.next⟩]
      simp only [signLoop, trace_bind, trace_perform, run_perform, handle, World.inspect,
        world.environment.outcome_of_nil calm, read, run_signSegment]
      by_cases whole : (segmentBytes content seg).length = segSize
      · have further : segSize * (seg + 1) ≤ content.length := further_of_whole whole
        have rest := ih (seg + 1) ⟨{ world.state with
            db := world.state.db.replaceFileSegment path ver seg
              ⟨fs.signedPortion path ver seg (segmentBytes content seg)⟩ },
            world.environment.next⟩
          regular (by omega) further calm'
          (Nat.lt_of_mul_lt_mul_left (Nat.lt_of_le_of_lt further fits))
        rw [Nat.add_sub_add_right] at rest
        rw [if_pos whole, ← rest]
        rfl
      · have last : content.length / segSize - seg = 0 := by
          rw [← last_of_short full whole, Nat.sub_self]
        rw [if_neg whole, last]
        rfl

/-- The other calls of a release go before and after those of its loop. -/
theorem calls_ndnfsRelease {environment : Environment} {state : State} {flags : OpenFlags}
    {location : Location} {content : Bytes} (present : state.db.fileSystem.Has path)
    (writing : flags.access ≠ .readOnly)
    (found : state.disk.lookupText (fs.fullPath path) = .ok (location, ⟨.regular, content⟩))
    (fits : content.length < segSize * lastRound) (calm : environment.faults = []) :
    ∃ before after, calls (fs.ndnfsRelease path flags) environment state =
        before ++ (List.range (content.length / segSize + 1)).flatMap
          (fs.segmentCalls path (toInt environment.now) location content) ++ after ∧
      (∀ event ∈ before, IsOtherCall event) ∧ ∀ event ∈ after, IsOtherCall event := by
  have calm' := environment.faults_next calm
  have loop := fs.trace_signLoop path (lastRound + 1) 0 (toInt environment.now)
    ⟨{ state with db := releaseRows path environment.now state.db }, environment.next⟩
    (state.disk.entry_of_lookupText found) (Nat.zero_add _) fits (Nat.zero_le _) calm'
  rw [Nat.sub_zero, ← List.range_eq_range', Int.ofNat_zero] at loop
  simp only [calls, ndnfsRelease, trace_bind, trace_perform, run_perform, handle,
    run_selectCurrentVersion, if_pos present, ne_eq, not_true_eq_false, if_false, if_neg writing]
  simp only [Database.execute, StepResult.done, not_true_eq_false, and_false, if_false, trace_bind,
    trace_perform, run_perform, handle, run_executeOnce, World.attempt, Disk.openText_readOnly,
    environment.outcome_of_nil calm, found, Except.map]
  unfold releaseRows at loop
  rw [loop]
  simp only [← List.append_assoc]
  refine ⟨_, _, rfl, ?_, ?_⟩
  · simp [trace_executeOnce, IsOtherCall, signCall, readCall]
  · split
    · simp
    · simp only [trace_bind, trace_perform, trace_pure, List.append_nil, List.mem_singleton,
        forall_eq]
      exact ⟨rfl, rfl⟩

/-- A release signs the segments of the file in their order and reads each of them once. -/
theorem release_calls {environment : Environment} {state : State} {flags : OpenFlags}
    {location : Location} {content : Bytes} (present : state.db.fileSystem.Has path)
    (writing : flags.access ≠ .readOnly)
    (found : state.disk.lookupText (fs.fullPath path) = .ok (location, ⟨.regular, content⟩))
    (fits : content.length < segSize * lastRound) (calm : environment.faults = []) :
    (calls (fs.ndnfsRelease path flags) environment state).filterMap signCall =
        (List.range (content.length / segSize + 1)).map (fun seg =>
          ⟨path, toInt environment.now, seg, segmentBytes content seg⟩) ∧
      (calls (fs.ndnfsRelease path flags) environment state).filterMap readCall =
        (List.range (content.length / segSize + 1)).map (fun seg =>
          (((segSize * seg : Nat) : Int), .ok (segmentBytes content seg))) := by
  obtain ⟨before, after, trace, setup, cleanup⟩ :=
    fs.calls_ndnfsRelease path present writing found fits calm
  have quiet (events : List CallEvent) (other : ∀ event ∈ events, IsOtherCall event) :
      events.filterMap signCall = [] ∧ events.filterMap readCall = [] :=
    ⟨List.filterMap_eq_nil_iff.mpr fun event member => (other event member).1,
      List.filterMap_eq_nil_iff.mpr fun event member => (other event member).2⟩
  rw [trace]
  simp only [List.filterMap_append, List.filterMap_flatMap, quiet before setup,
    quiet after cleanup, List.nil_append, List.append_nil]
  constructor
  · rw [List.map_eq_flatMap]
    rfl
  · rw [List.map_eq_flatMap]
    apply List.flatMap_congr
    intro seg member
    have early : seg < lastRound := by
      have inside := le_div_segSize_iff.mp (Nat.lt_succ_iff.mp (List.mem_range.mp member))
      exact Nat.lt_of_mul_lt_mul_left (Nat.lt_of_le_of_lt inside fits)
    rw [← offset_eq early]
    rfl

/-- The loop of a release comes to the end of a file whose length is an int. -/
theorem release_succeeds {environment : Environment} {state : State} {flags : OpenFlags}
    {location : Location} {content : Bytes} (present : state.db.fileSystem.Has path)
    (writing : flags.access ≠ .readOnly)
    (found : state.disk.lookupText (fs.fullPath path) = .ok (location, ⟨.regular, content⟩))
    (fits : content.length < segSize * lastRound) (calm : environment.faults = []) :
    exec (fs.ndnfsRelease path flags) environment state = (0, { state with
      db := fs.signSegments path (toInt environment.now) content
        (releaseRows path environment.now state.db) (content.length / segSize + 1) }) := by
  rcases fs.exec_ndnfsRelease_writing path environment state present writing with
    ⟨error, -, missing⟩ | ⟨place, file, count, result, opened, -, outcome, -, run⟩
  · rw [environment.outcome_of_nil calm] at missing
    exact absurd found (missing location content)
  · have same := Environment.outcome_ok opened
    rw [found] at same
    obtain ⟨rfl, rfl⟩ : location = place ∧ content = file := by simpa using same
    cases result with
    | ok value =>
        obtain rfl : count = content.length / segSize + 1 := outcome
        exact run
    | error error =>
        obtain ⟨reached, fault | last⟩ := outcome
        · exact absurd calm fault
        · rw [last, le_div_segSize_iff] at reached
          exact absurd fits (Nat.not_lt_of_le reached)

end FileSystem

namespace Server

variable (server : Server) (path : Bytes) (environment : Environment) (state : State)

theorem reads_readFileSize (world : World) :
    ((server.readFileSize path : Source Cursor Location _).trace handle world).filterMap readCall =
      [] := by
  simp only [readFileSize, trace_bind, trace_perform, run_perform, handle, World.inspect]
  cases world.environment.outcome (world.state.disk.statText (server.filePath path)) <;> rfl

/-- A segment with a row is read once from the file. -/
theorem reads_sendFileContent {location : Location} {content : Bytes} {version : Int} {seg : Nat}
    (row : state.db.fileSegments.Has (path, version, (seg : Int)))
    (found : state.disk.lookupText (server.filePath path) = .ok (location, ⟨.regular, content⟩))
    (early : seg < FileSystem.lastRound) (calm : environment.faults = []) (interestName : Name) :
    (calls (server.sendFileContent interestName path version seg) environment state).filterMap
      readCall = [(((segSize * seg : Nat) : Int), .ok (segmentBytes content seg))] := by
  have place : contentSeg (seg : Int) = seg := if_neg (by omega)
  have calm' := environment.faults_next calm
  have calm'' := environment.next.faults_next calm'
  have read := FileSystem.pread_segment (state.disk.entry_of_lookupText found) early
  simp only [calls, sendFileContent, trace_bind, trace_perform, run_perform, handle,
    Database.execute, code_select_lookup, place, if_pos row, ne_eq, not_true_eq_false, if_false,
    run_readFileSize, World.attempt, Disk.openText_readOnly,
    environment.next.outcome_of_nil calm', found, Except.map, World.inspect,
    environment.next.next.outcome_of_nil calm'', read]
  simp only [List.filterMap_append, server.reads_readFileSize]
  rw [← FileSystem.offset_eq early]
  have one : ([(shiftLeft (contentSeg (seg : Int)) segSizeShift, .ok (segmentBytes content seg))] :
      List (Int × Except Errno Bytes)) =
        [(shiftLeft (seg : Int) segSizeShift, .ok (segmentBytes content seg))] := by
    rw [place]
  split
  · exact one
  · exact one

end Server

namespace Deployment

variable (deployment : Deployment) (path : Bytes) (flags : OpenFlags)
  (environment later : Environment) (state : State) {location : Location} (content : Bytes)

/-- The release of a file cuts it into segments, and the server counts and reads the same ones. -/
structure ExactPartition : Prop where
  terminates : (exec (deployment.fs.ndnfsRelease path flags) environment state).1 = 0
  signed : (calls (deployment.fs.ndnfsRelease path flags) environment state).filterMap signCall =
    (List.range (content.length / segSize + 1)).map fun seg =>
      ⟨path, toInt environment.now, seg, segmentBytes content seg⟩
  whole : (((calls (deployment.fs.ndnfsRelease path flags) environment state).filterMap
    signCall).map SignCall.data).flatten = content
  counted : (exec (deployment.server.readFileSize path) later
      (exec (deployment.fs.ndnfsRelease path flags) environment state).2).1.2 =
    ((calls (deployment.fs.ndnfsRelease path flags) environment state).filterMap signCall).length
  read : ∀ (interestName : Name) (seg : Nat), seg ≤ content.length / segSize →
    (calls (deployment.server.sendFileContent interestName path (toInt environment.now) seg) later
      (exec (deployment.fs.ndnfsRelease path flags) environment state).2).filterMap readCall =
        [(((segSize * seg : Nat) : Int), .ok (segmentBytes content seg))]

theorem totalSeg_length (fits : content.length < 2 ^ 31) :
    Server.totalSeg (toInt content.length) = ((content.length / segSize + 1 : Nat) : Int) := by
  rw [toInt_natCast fits]
  unfold Server.totalSeg shiftRight segSizeShift segSize
  omega

/-- For every content whose length is an int the segments are an exact partition of the file. -/
theorem exactPartition {flags : OpenFlags} {content : Bytes}
    (present : state.db.fileSystem.Has path) (writing : flags.access ≠ .readOnly)
    (found : state.disk.lookupText (deployment.fs.fullPath path) =
      .ok (location, ⟨.regular, content⟩))
    (fits : content.length < 2 ^ 31) (calm : environment.faults = []) (quiet : later.faults = []) :
    deployment.ExactPartition path flags environment later state content := by
  have fits' : content.length < segSize * FileSystem.lastRound := by
    unfold segSize FileSystem.lastRound
    omega
  have release := deployment.fs.release_succeeds path present writing found fits' calm
  obtain ⟨signed, -⟩ := deployment.fs.release_calls path present writing found fits' calm
  refine ⟨by rw [release], signed, ?_, ?_, fun interestName seg inside => ?_⟩
  · rw [signed, List.map_map]
    exact flatten_all_segmentBytes content
  · rw [signed, List.length_map, List.length_range, release]
    have size := deployment.server.fileSize_of_lookupText path later found quiet
    simp only [exec, deployment.server.run_readFileSize, size]
    exact totalSeg_length content fits
  · have early : seg < FileSystem.lastRound := by
      unfold FileSystem.lastRound
      unfold segSize at inside
      omega
    have row : (deployment.fs.signSegments path (toInt environment.now) content
        (FileSystem.releaseRows path environment.now state.db)
        (content.length / segSize + 1)).fileSegments.Has (path, toInt environment.now, (seg : Int)) := by
      rw [KeyedTable.Has, FileSystem.lookup_signSegments, if_pos ⟨rfl, rfl, by omega, by omega⟩]
      exact Option.some_ne_none _
    rw [release]
    exact deployment.server.reads_sendFileContent path later ⟨_, state.disk, state.sent⟩ row found
      early quiet interestName

/-- A released file with three segments. -/
theorem exactPartition_filled : Reference.deployment.ExactPartition (ascii "/a")
    Reference.writingFlags (Reference.calm 2) (Reference.calm 3)
    (Reference.filledState (List.replicate 20000 120)) (List.replicate 20000 120) := by
  have found (content : Bytes) : (Reference.filledState content).disk.lookupText
      (Reference.deployment.fs.fullPath (ascii "/a")) = .ok ([ascii "a"], ⟨.regular, content⟩) := rfl
  have present : Reference.createdState.db.fileSystem.Has (ascii "/a") := by decide
  exact Reference.deployment.exactPartition (ascii "/a") (Reference.calm 2) (Reference.calm 3)
    (Reference.filledState (List.replicate 20000 120)) present (by decide) (found _)
    (by rw [List.length_replicate]; decide) rfl rfl

/-- Each offset, size and count that is computed for a content is the exact number. -/
structure ExactArithmetic : Prop where
  offset : ∀ seg ≤ content.length / segSize,
    ((calls (deployment.fs.ndnfsRelease path flags) environment state).filterMap readCall)[seg]?.map
      Prod.fst = some ((segSize * seg : Nat) : Int)
  size : (exec (deployment.server.readFileSize path) later state).1 =
    ((content.length : Int), ((content.length / segSize + 1 : Nat) : Int))
  seek_le : segmentToSize (seekSegment content.length) ≤ content.length
  lt_seek : (content.length : Int) < segmentToSize (seekSegment content.length) + segSize

/-- The last segment starts at most one segment before the end. -/
theorem seekSegment_bounds (fits : content.length < 2 ^ 31) :
    segmentToSize (seekSegment content.length) ≤ content.length ∧
      (content.length : Int) < segmentToSize (seekSegment content.length) + segSize := by
  have length : toInt content.length = content.length := toInt_natCast fits
  have seek : seekSegment content.length = ((content.length / segSize : Nat) : Int) := by
    rw [seekSegment, length]
    unfold shiftRight segSizeShift segSize
    omega
  have back : segmentToSize (seekSegment content.length) =
      ((segSize * (content.length / segSize) : Nat) : Int) := by
    rw [seek, segmentToSize, toInt_natCast (by
      unfold segSize
      omega)]
    apply FileSystem.offset_eq
    unfold segSize FileSystem.lastRound
    omega
  rw [back]
  unfold segSize
  omega

/-- The arithmetic is exact for the files whose length is an int, and for no others. -/
theorem exactArithmetic_iff {flags : OpenFlags} {content : Bytes}
    (present : state.db.fileSystem.Has path) (writing : flags.access ≠ .readOnly)
    (found : state.disk.lookupText (deployment.fs.fullPath path) =
      .ok (location, ⟨.regular, content⟩))
    (calm : environment.faults = []) (quiet : later.faults = []) :
    deployment.ExactArithmetic path flags environment later state content ↔
      content.length < 2 ^ 31 := by
  have length := deployment.server.fileSize_of_lookupText path later found quiet
  constructor
  · intro arithmetic
    have size := congrArg Prod.fst arithmetic.size
    simp only [exec, deployment.server.run_readFileSize, length] at size
    have range := toInt_isInt content.length
    rw [size] at range
    unfold IsInt at range
    omega
  · intro fits
    have fits' : content.length < segSize * FileSystem.lastRound := by
      unfold segSize FileSystem.lastRound
      omega
    obtain ⟨-, reads⟩ := deployment.fs.release_calls path present writing found fits' calm
    obtain ⟨seek_le, lt_seek⟩ := seekSegment_bounds content fits
    refine ⟨fun seg inside => ?_, ?_, seek_le, lt_seek⟩
    · rw [reads, List.getElem?_map, List.getElem?_range (Nat.lt_succ_of_le inside)]
      rfl
    · simp only [exec, deployment.server.run_readFileSize, length, totalSeg_length content fits]
      rw [toInt_natCast fits]

theorem exactArithmetic_iff_filled : Reference.deployment.ExactArithmetic (ascii "/a")
    Reference.writingFlags (Reference.calm 2) (Reference.calm 3)
    (Reference.filledState (List.replicate 20000 120)) (List.replicate 20000 120) ↔
      (List.replicate 20000 120 : Bytes).length < 2 ^ 31 := by
  have found (content : Bytes) : (Reference.filledState content).disk.lookupText
      (Reference.deployment.fs.fullPath (ascii "/a")) = .ok ([ascii "a"], ⟨.regular, content⟩) := rfl
  have present : Reference.createdState.db.fileSystem.Has (ascii "/a") := by decide
  exact Reference.deployment.exactArithmetic_iff (ascii "/a") (Reference.calm 2)
    (Reference.calm 3) (Reference.filledState (List.replicate 20000 120)) present (by decide)
    (found _) rfl rfl

/-- The size of a file of 2^31 bytes is reported as a negative number. -/
theorem exactArithmetic_fails : ¬ ∀ (deployment : Deployment) (path : Bytes) (flags : OpenFlags)
    (environment later : Environment) (state : State) (location : Location) (content : Bytes),
      content.length < 2 ^ 63 → state.db.fileSystem.Has path → flags.access ≠ .readOnly →
      state.disk.lookupText (deployment.fs.fullPath path) = .ok (location, ⟨.regular, content⟩) →
      environment.faults = [] → later.faults = [] →
        deployment.ExactArithmetic path flags environment later state content := by
  intro claim
  have impossible (content : Bytes) (long : content.length = 2 ^ 31) : False := by
    have present : Reference.createdState.db.fileSystem.Has (ascii "/a") := by decide
    have found : (Reference.filledState content).disk.lookupText
        (Reference.deployment.server.filePath (ascii "/a")) =
          .ok ([ascii "a"], ⟨.regular, content⟩) := rfl
    have arithmetic := claim Reference.deployment (ascii "/a") Reference.writingFlags
      (Reference.calm 2) (Reference.calm 3) (Reference.filledState content) [ascii "a"] content (by omega)
      present (by decide) found rfl rfl
    have size := congrArg Prod.fst arithmetic.size
    simp only [exec, Reference.deployment.server.run_readFileSize,
      Reference.deployment.server.fileSize_of_lookupText (ascii "/a") (Reference.calm 3) found rfl,
      long] at size
    revert size
    decide
  exact impossible (List.replicate (2 ^ 31) 0) List.length_replicate

end Deployment

end Ndnfs

import Ndnfs.Fs.Directory
import Ndnfs.System.Execution

namespace Ndnfs
open Effect Program MachineInteger

/-- The bytes of a file that belong to a segment. -/
def segmentBytes (content : Bytes) (seg : Nat) : Bytes := (content.drop (segSize * seg)).take segSize

theorem segmentBytes_length (content : Bytes) (seg : Nat) :
    (segmentBytes content seg).length = min segSize (content.length - segSize * seg) := by
  rw [segmentBytes, List.length_take, List.length_drop]

namespace Disk

/-- The outcome of creating the object that a mode names. -/
def createMode (disk : Disk) (text : Bytes) (mode : Nat) (now : Int) : Except Errno Disk :=
  (mknodKind mode).bind fun kind => disk.createText text kind now

theorem mknodKind_regular {mode : Nat} (regular : S_ISREG mode = true) :
    mknodKind mode = .ok .regular := by
  rw [S_ISREG, beq_iff_eq] at regular
  rw [mknodKind, if_pos (.inl regular)]

theorem mknodKind_fifo {mode : Nat} (fifo : S_ISFIFO mode = true) : mknodKind mode = .ok .fifo := by
  rw [S_ISFIFO, beq_iff_eq] at fifo
  simp [mknodKind, fifo, S_IFIFO, S_IFREG, S_IFCHR, S_IFBLK]

end Disk

namespace FileSystem

variable (fs : FileSystem) (path : Bytes) (environment : Environment) (state : State)

/-- This is what the signature of a segment is computed over. -/
def signedPortion (ver seg : Int) (data : Bytes) : SignedPortion :=
  ⟨fs.segName path ver seg, ⟨none, none⟩, data, ⟨some (fs.ndn.keyLocatorName fs.certificateName)⟩⟩

theorem run_signSegment (ver seg : Int) (data : Bytes) (world : World) :
    (fs.signSegment path ver seg data : Source Cursor Location Unit).run handle world =
      ((), { world with
        state.db := world.state.db.replaceFileSegment path ver seg
          ⟨fs.signedPortion path ver seg data⟩ }) := rfl

/-- The database after the first segments of a content are signed. -/
def signSegments (ver : Int) (content : Bytes) (db : Database) : Nat → Database
  | 0 => db
  | count + 1 => (signSegments ver content db count).replaceFileSegment path ver count
      ⟨fs.signedPortion path ver count (segmentBytes content count)⟩

theorem exec_ndnfsMkdir (mode : Nat) : exec (fs.ndnfsMkdir path mode) environment state =
    match environment.outcome
      (state.disk.createText (fs.fullPath path) .directory environment.now) with
    | .error error => (error.negative, state)
    | .ok disk => (0, { state with disk }) := by
  simp only [exec, ndnfsMkdir, run_bind, run_perform, handle, World.change_eq]
  cases environment.outcome
    (state.disk.createText (fs.fullPath path) .directory environment.now) <;> rfl

theorem exec_ndnfsRmdir (below : path ≠ ascii "/") :
    exec (fs.ndnfsRmdir path) environment state =
      match environment.outcome (state.disk.rmdirText (fs.fullPath path) environment.now) with
      | .error error => (error.negative, state)
      | .ok disk => (0, { state with disk }) := by
  simp only [exec, ndnfsRmdir, if_neg below, run_bind, run_perform, handle, World.change_eq]
  cases environment.outcome (state.disk.rmdirText (fs.fullPath path) environment.now) <;> rfl

theorem exec_ndnfsRmdir_root :
    exec (fs.ndnfsRmdir (ascii "/")) environment state = (Errno.EINVAL.negative, state) := rfl

theorem exec_ndnfsUnlink : exec (fs.ndnfsUnlink path) environment state =
    match environment.outcome (state.disk.unlinkText (fs.fullPath path) environment.now) with
    | .error error => (error.negative, { state with db := state.db.deleteFileSystem path })
    | .ok disk => (0, { state with db := state.db.deleteFileSystem path, disk }) := by
  simp only [exec, ndnfsUnlink, removeFileEntry, run_bind, run_executeOnce, run_perform, run_pure,
    handle, World.change_eq, Database.execute, Database.deleteFileSystem_twice]
  cases environment.outcome (state.disk.unlinkText (fs.fullPath path) environment.now) <;> rfl

theorem exec_ndnfsRename (target : Bytes) : exec (fs.ndnfsRename path target) environment state =
    match environment.outcome
      (state.disk.renameText (fs.fullPath path) (fs.fullPath target) environment.now) with
    | .error error => (error.negative, { state with db := state.db.renameAll path target })
    | .ok disk => (0, { state with db := state.db.renameAll path target, disk }) := by
  have unassigned : ¬ ((0 : Int) ≠ SQLITE_OK ∧ (0 : Int) ≠ SQLITE_DONE) := by decide
  simp only [exec, ndnfsRename, run_bind, run_perform, if_neg unassigned, handle, World.change_eq,
    Database.execute]
  cases environment.outcome
    (state.disk.renameText (fs.fullPath path) (fs.fullPath target) environment.now) <;> rfl

theorem exec_ndnfsTruncate (length : Int) :
    exec (fs.ndnfsTruncate path length) environment state =
      if state.db.fileSystem.Has path then
        match environment.outcome
          (state.disk.truncateText (fs.fullPath path) length environment.now) with
        | .error error => (error.negative, state)
        | .ok disk => (SQLITE_ROW, { state with disk })
      else (Errno.ENOENT.negative, state) := by
  simp only [exec, ndnfsTruncate, run_bind, run_selectCurrentVersion]
  by_cases present : state.db.fileSystem.Has path
  · simp only [if_pos present, ne_eq, not_true_eq_false, if_false, run_bind, run_perform, handle,
      World.change_eq]
    cases environment.outcome
      (state.disk.truncateText (fs.fullPath path) length environment.now) <;> rfl
  · rw [if_neg present, if_neg present, if_pos done_ne_row]
    rfl

theorem run_createObject (mode : Nat) (world : World) :
    (fs.createObject path mode : Source Cursor Location _).run handle world =
      match world.environment.outcome
        (world.state.disk.createMode (fs.fullPath path) mode world.environment.now) with
      | .error error => (.error error, ⟨world.state, world.environment.next⟩)
      | .ok disk =>
          if S_ISREG mode then
            (world.environment.next.outcome (.ok ()),
              ⟨{ world.state with disk }, world.environment.next.next⟩)
          else (.ok (), ⟨{ world.state with disk }, world.environment.next⟩) := by
  unfold createObject
  by_cases regular : S_ISREG mode = true
  · obtain ⟨location, opened⟩ := world.state.disk.openText_create (fs.fullPath path)
      world.environment.now
    have effect : world.state.disk.createMode (fs.fullPath path) mode world.environment.now =
        world.state.disk.createText (fs.fullPath path) .regular world.environment.now := by
      rw [Disk.createMode, Disk.mknodKind_regular regular]
      rfl
    simp only [if_pos regular, run_bind, run_perform, handle, World.attempt, opened, effect,
      Environment.outcome_map]
    cases world.environment.outcome
      (world.state.disk.createText (fs.fullPath path) .regular world.environment.now) with
    | error error => rfl
    | ok disk =>
        simp only [Except.map, run_perform, handle, World.inspect]
  · by_cases fifo : S_ISFIFO mode = true
    · have effect : world.state.disk.createMode (fs.fullPath path) mode world.environment.now =
          world.state.disk.createText (fs.fullPath path) .fifo world.environment.now := by
        rw [Disk.createMode, Disk.mknodKind_fifo fifo]
        rfl
      simp only [if_neg regular, if_pos fifo, run_perform, handle, effect]
      exact world.change_eq _
    · simp only [if_neg regular, if_neg fifo, run_perform, handle]
      exact world.change_eq _

/-- The check of the database after ndnfs_open has opened the file. -/
theorem exec_ndnfsOpen (flags : OpenFlags) : exec (fs.ndnfsOpen path flags) environment state =
    match environment.outcome
      (state.disk.openText (fs.fullPath path) flags environment.now) with
    | .error error => (error.negative, state)
    | .ok (_, disk) =>
        (if state.db.fileSystem.Has path then 0 else Errno.ENOENT.negative, { state with disk }) := by
  simp only [exec, ndnfsOpen, run_bind, run_perform, handle, World.attempt]
  cases environment.outcome (state.disk.openText (fs.fullPath path) flags environment.now) with
  | error error => rfl
  | ok opened =>
      simp only [run_bind, run_perform, handle, World.inspect, Database.execute, code_select_lookup]
      by_cases present : state.db.fileSystem.Has path
      · simp only [if_pos present, ne_eq, not_true_eq_false, if_false]
        cases flags.access <;> rfl
      · simp only [if_neg present, ne_eq, done_ne_row, not_false_eq_true, if_true]
        rfl

theorem exec_ndnfsRead (size : Nat) (offset : Int) :
    (exec (fs.ndnfsRead path size offset) environment state).2 = state := by
  simp only [exec, ndnfsRead, run_bind, run_selectCurrentVersion]
  by_cases present : state.db.fileSystem.Has path
  · simp only [if_pos present, ne_eq, not_true_eq_false, if_false, run_bind, run_perform, handle,
      World.attempt, Disk.openText_readOnly, Environment.outcome_map]
    cases environment.outcome (state.disk.lookupText (fs.fullPath path)) with
    | error error => rfl
    | ok found =>
        simp only [Except.map, run_bind, run_perform, handle, World.inspect]
        cases environment.next.outcome (state.disk.pread found.1 size offset) <;> rfl
  · simp only [if_neg present, ne_eq, done_ne_row, not_false_eq_true, if_true]
    rfl

theorem exec_ndnfsWrite (buf : Bytes) (offset : Int) :
    exec (fs.ndnfsWrite path buf offset) environment state =
      if state.db.fileSystem.Has path then
        match environment.outcome
          (state.disk.openText (fs.fullPath path) O_RDWR environment.now) with
        | .error error => (error.negative, state)
        | .ok (fd, disk) =>
            match environment.next.outcome
              (disk.pwrite fd (environment.written buf) offset environment.now) with
            | .error error => (error.negative, { state with disk })
            | .ok disk => ((environment.written buf).length, { state with disk })
      else (Errno.ENOENT.negative, state) := by
  simp only [exec, ndnfsWrite, run_bind, run_selectCurrentVersion]
  by_cases present : state.db.fileSystem.Has path
  · simp only [if_pos present, ne_eq, not_true_eq_false, if_false, run_bind, run_perform, handle,
      World.attempt]
    cases environment.outcome
      (state.disk.openText (fs.fullPath path) O_RDWR environment.now) with
    | error error => rfl
    | ok opened =>
        simp only [run_bind, run_perform, handle, World.attempt, Environment.outcome_map,
          Environment.next_now, Environment.next_written]
        cases environment.next.outcome
          (opened.2.pwrite opened.1 (environment.written buf) offset environment.now) <;> rfl
  · simp only [if_neg present, ne_eq, done_ne_row, not_false_eq_true, if_true]
    rfl

/-- The database after ndnfs_mknod has inserted the rows of a new file. -/
def mknodRows (mode : Nat) (now : Int) (db : Database) : Database :=
  (db.insertFileVersion path (toInt now)).insertFileSystem path
    ⟨toInt now, mimeInfer path, SignatureState.notReady.code, (modeFileType mode).code⟩

theorem exec_ndnfsMknod (mode : Nat) : exec (fs.ndnfsMknod path mode) environment state =
    if state.db.fileSystem.Has path then (Errno.ENOENT.negative, state)
    else
      let rows := mknodRows path mode environment.now state.db
      match environment.outcome
        (state.disk.createMode (fs.fullPath path) mode environment.now) with
      | .error error => (error.negative, { state with db := rows })
      | .ok disk =>
          if S_ISREG mode then
            match environment.next.outcome (.ok ()) with
            | .error error => (error.negative, { state with db := rows, disk })
            | .ok () => (0, { state with db := rows, disk })
          else (0, { state with db := rows, disk }) := by
  simp only [exec, ndnfsMknod, run_bind, run_selectFileSystem]
  by_cases present : state.db.fileSystem.Has path
  · rw [if_pos present, if_pos present, if_pos rfl]
    rfl
  · simp only [if_neg present, if_neg done_ne_row, run_bind, run_perform, handle, run_executeOnce,
      Database.execute, run_createObject]
    cases environment.outcome (state.disk.createMode (fs.fullPath path) mode environment.now) with
    | error error => rfl
    | ok disk =>
        by_cases regular : S_ISREG mode = true
        · simp only [if_pos regular]
          cases environment.next.outcome (.ok ()) <;> rfl
        · simp only [if_neg regular]
          rfl

theorem le_div_segSize_iff {seg length : Nat} : seg ≤ length / segSize ↔ segSize * seg ≤ length := by
  rw [Nat.le_div_iff_mul_le (by decide), Nat.mul_comm]

/-- The next segment starts inside the content. -/
theorem further_of_whole {content : Bytes} {seg : Nat}
    (whole : (segmentBytes content seg).length = segSize) :
    segSize * (seg + 1) ≤ content.length := by
  rw [segmentBytes_length] at whole
  unfold segSize at whole ⊢
  omega

theorem last_of_short {content : Bytes} {seg : Nat} (full : segSize * seg ≤ content.length)
    (short : (segmentBytes content seg).length ≠ segSize) : seg = content.length / segSize := by
  rw [segmentBytes_length] at short
  unfold segSize at full short ⊢
  omega

/-- Before the last round the offset is the number of bytes before the segment. -/
theorem offset_eq {seg : Nat} (early : seg < lastRound) :
    shiftLeft seg segSizeShift = ((segSize * seg : Nat) : Int) := by
  unfold lastRound at early
  rw [shiftLeft_of_isInt (by
    unfold IsInt segSizeShift
    omega)]
  unfold segSizeShift segSize
  omega

/-- A round before the last one reads the bytes of its segment. -/
theorem pread_segment {disk : Disk} {location : Location} {content : Bytes}
    (regular : disk.entry location = some ⟨.regular, content⟩) {seg : Nat} (early : seg < lastRound) :
    disk.pread location segSize (shiftLeft seg segSizeShift) = .ok (segmentBytes content seg) := by
  have nonneg : ¬ ((segSize * seg : Nat) : Int) < 0 := by omega
  rw [offset_eq early, Disk.pread]
  simp only [regular, if_neg nonneg, Int.toNat_natCast]
  rfl

/-- The last round reads at a negative offset. -/
theorem pread_lastRound {disk : Disk} {location : Location} {content : Bytes}
    (regular : disk.entry location = some ⟨.regular, content⟩) :
    disk.pread location segSize (shiftLeft lastRound segSizeShift) = .error .EINVAL := by
  have negative : shiftLeft lastRound segSizeShift < 0 := by decide
  rw [Disk.pread]
  simp only [regular, if_pos negative]

/-- The signing loop stops after the last segment, or before it through a fault or in the last
round because the file is too long. -/
def SignOutcome (content : Bytes) (faults : List (Option Errno)) (count : Nat) :
    Except Errno Unit → Prop
  | .ok () => count = content.length / segSize + 1
  | .error _ => count ≤ content.length / segSize ∧ (faults ≠ [] ∨ count = lastRound)

theorem SignOutcome.of_tail {content : Bytes} {faults : List (Option Errno)} {count : Nat}
    {result : Except Errno Unit} (outcome : SignOutcome content faults.tail count result) :
    SignOutcome content faults count result := by
  cases result with
  | ok value => exact outcome
  | error error =>
      refine ⟨outcome.1, outcome.2.imp_left fun rest quiet => rest ?_⟩
      rw [quiet]
      rfl

/-- The loop reads a segment of the content when it gets that far without a fault. -/
def ReadsSegment (content : Bytes) (faults : List (Option Errno)) (seg : Nat) : Prop :=
  segSize * seg ≤ content.length ∧ seg < lastRound ∧ ∀ call ≤ seg, faults[call]?.join = none

/-- The loop has read the segments before the one that it has come to. -/
theorem ReadsSegment.of_le {content : Bytes} {faults : List (Option Errno)} {seg later : Nat}
    (full : segSize * seg ≤ content.length) (reached : later ≤ seg) (early : later < lastRound)
    (quiet : ∀ call ≤ later, faults[call]?.join = none) : ReadsSegment content faults later :=
  ⟨Nat.le_trans (Nat.mul_le_mul_left segSize reached) full, early, quiet⟩

section Round

variable {disk : Disk} {location : Location} {content : Bytes} {seg : Nat} {environment : Environment}

/-- The read of a round fails through a fault or because it is the last round. -/
theorem cause_of_pread {error : Errno} (regular : disk.entry location = some ⟨.regular, content⟩)
    (inside : seg ≤ lastRound)
    (outcome : environment.outcome
      (disk.pread location segSize (shiftLeft seg segSizeShift)) = .error error) :
    environment.faults.head?.join ≠ none ∨ seg = lastRound := by
  by_cases fault : environment.faults.head?.join = none
  · right
    rw [Environment.outcome_eq _ fault] at outcome
    by_contra other
    rw [pread_segment regular (Nat.lt_of_le_of_ne inside other)] at outcome
    cases outcome
  · exact .inl fault

/-- The read of a round that succeeds gives the bytes of its segment. -/
theorem segment_of_pread {buf : Bytes} (regular : disk.entry location = some ⟨.regular, content⟩)
    (inside : seg ≤ lastRound)
    (outcome : environment.outcome
      (disk.pread location segSize (shiftLeft seg segSizeShift)) = .ok buf) :
    environment.faults.head?.join = none ∧ seg < lastRound ∧ buf = segmentBytes content seg := by
  have readable := Environment.outcome_ok outcome
  have early : seg < lastRound := by
    rcases Nat.lt_or_eq_of_le inside with early | rfl
    · exact early
    · rw [pread_lastRound regular] at readable
      cases readable
  rw [pread_segment regular early] at readable
  exact ⟨Environment.quiet_of_outcome outcome, early, (Except.ok.inj readable).symm⟩

end Round

theorem run_signLoop {location : Location} {content : Bytes} (rounds seg : Nat) (ver : Int)
    (db : Database) (world : World) (faults : List (Option Errno))
    (regular : world.state.disk.entry location = some ⟨.regular, content⟩)
    (enough : seg + rounds = lastRound + 1) (inside : seg ≤ lastRound)
    (full : segSize * seg ≤ content.length)
    (signed : world.state.db = fs.signSegments path ver content db seg)
    (rest : world.environment.faults = faults.drop seg)
    (quiet : ∀ call < seg, faults[call]?.join = none) :
    ∃ count after result,
      (fs.signLoop path ver location rounds seg : Source Cursor Location _).run handle world =
        (result, ⟨{ world.state with db := fs.signSegments path ver content db count }, after⟩) ∧
      count ≤ lastRound ∧ SignOutcome content world.environment.faults count result ∧
      ∀ later, later < count ↔ ReadsSegment content faults later := by
  induction rounds generalizing seg world with
  | zero => omega
  | succ rounds ih =>
      have here : world.environment.faults.head? = faults[seg]? := by
        rw [rest, List.head?_drop]
      simp only [signLoop, run_bind, run_perform, handle, World.inspect]
      cases outcome : world.environment.outcome
        (world.state.disk.pread location segSize (shiftLeft seg segSizeShift)) with
      | error error =>
          have reached : seg ≤ content.length / segSize := le_div_segSize_iff.mpr full
          have cause := cause_of_pread regular inside outcome
          refine ⟨seg, world.environment.next, .error error, by rw [← signed]; rfl, inside,
            ⟨reached, ?_⟩, fun later => ?_⟩
          · refine cause.imp_left fun fault none => fault ?_
            rw [none]
            rfl
          · constructor
            · intro before
              exact .of_le full (Nat.le_of_lt before) (Nat.lt_of_lt_of_le before inside)
                fun call bound => quiet call (Nat.lt_of_le_of_lt bound before)
            · rintro ⟨-, early, calm⟩
              rw [here] at cause
              rcases cause with fault | last
              · by_contra further
                exact fault (calm seg (by omega))
              · omega
      | ok buf =>
          obtain ⟨calm, early, rfl⟩ := segment_of_pread regular inside outcome
          rw [here] at calm
          have quiet' : ∀ call < seg + 1, faults[call]?.join = none := by
            intro call before
            rcases Nat.lt_succ_iff_lt_or_eq.mp before with earlier | rfl
            · exact quiet call earlier
            · exact calm
          simp only [run_bind, run_signSegment]
          by_cases whole : (segmentBytes content seg).length = segSize
          · have further : segSize * (seg + 1) ≤ content.length := further_of_whole whole
            obtain ⟨count, after, result, run, bound, outcome, reads⟩ := ih (seg + 1)
              ⟨{ world.state with
                db := world.state.db.replaceFileSegment path ver seg
                  ⟨fs.signedPortion path ver seg (segmentBytes content seg)⟩ },
                world.environment.next⟩
              regular (by omega) early further (by rw [signed]; rfl)
              (by rw [← List.tail_drop, ← rest]; rfl) quiet'
            rw [if_pos whole]
            exact ⟨count, after, result, run, bound, outcome.of_tail, reads⟩
          · have last : seg + 1 = content.length / segSize + 1 :=
              congrArg Nat.succ (last_of_short full whole)
            rw [if_neg whole]
            refine ⟨seg + 1, world.environment.next, .ok (), by rw [signed]; rfl, early, last,
              fun later => ?_⟩
            constructor
            · intro before
              have reached := Nat.le_of_lt_succ before
              exact .of_le full reached (Nat.lt_of_le_of_lt reached early)
                fun call bound => quiet' call (Nat.lt_of_le_of_lt bound before)
            · rintro ⟨full', -, -⟩
              rw [last]
              exact Nat.lt_succ_of_le (le_div_segSize_iff.mpr full')

/-- Only a regular file can be read at an offset. -/
theorem pread_irregular {disk : Disk} {location : Location} {entry : Entry}
    (present : disk.entry location = some entry) (irregular : entry.kind ≠ .regular) (count : Nat)
    (offset : Int) : ∃ error, disk.pread location count offset = .error error := by
  rw [Disk.pread]
  simp only [present]
  split
  · exact ⟨_, rfl⟩
  · cases kind : entry.kind with
    | regular => exact absurd kind irregular
    | _ => exact ⟨_, rfl⟩

/-- The database after ndnfs_release has recorded the new version. -/
def releaseRows (now : Int) (db : Database) : Database :=
  (db.updateCurrentVersion (toInt now) path).insertFileVersion path (toInt now)

def resultCode : Except Errno Unit → Int
  | .ok () => 0
  | .error error => error.negative

theorem exec_ndnfsRelease_absent (flags : OpenFlags) (absent : ¬ state.db.fileSystem.Has path) :
    exec (fs.ndnfsRelease path flags) environment state = (Errno.ENOENT.negative, state) := by
  simp only [exec, ndnfsRelease, run_bind, run_perform, handle, run_selectCurrentVersion,
    if_neg absent, ne_eq, done_ne_row, not_false_eq_true, if_true, run_pure]

theorem exec_ndnfsRelease_reading {flags : OpenFlags} (present : state.db.fileSystem.Has path)
    (reading : flags.access = .readOnly) :
    exec (fs.ndnfsRelease path flags) environment state = (0, state) := by
  simp only [exec, ndnfsRelease, run_bind, run_perform, handle, run_selectCurrentVersion,
    if_pos present, ne_eq, not_true_eq_false, if_false, if_pos reading, run_pure]

/-- A release of a writable handle records the version before it reads the file. -/
theorem exec_ndnfsRelease_writing {flags : OpenFlags} (present : state.db.fileSystem.Has path)
    (writing : flags.access ≠ .readOnly) :
    (∃ error : Errno, exec (fs.ndnfsRelease path flags) environment state =
        (error.negative, { state with db := releaseRows path environment.now state.db }) ∧
      ∀ location content, environment.outcome (state.disk.lookupText (fs.fullPath path)) ≠
        .ok (location, ⟨.regular, content⟩)) ∨
    ∃ location content count result,
      environment.outcome (state.disk.lookupText (fs.fullPath path)) =
        .ok (location, ⟨.regular, content⟩) ∧
      count ≤ lastRound ∧ SignOutcome content environment.faults count result ∧
      (∀ seg, seg < count ↔ ReadsSegment content environment.next.faults seg) ∧
      exec (fs.ndnfsRelease path flags) environment state = (resultCode result, { state with
        db := fs.signSegments path (toInt environment.now) content
          (releaseRows path environment.now state.db) count }) := by
  simp only [exec, ndnfsRelease, run_bind, run_perform, handle, run_selectCurrentVersion,
    if_pos present, ne_eq, not_true_eq_false, if_false, if_neg writing]
  simp only [Database.execute, StepResult.done, not_true_eq_false, and_false, if_false, run_bind,
    run_perform, handle, run_executeOnce, World.attempt, Disk.openText_readOnly,
    Environment.outcome_map]
  cases opened : environment.outcome (state.disk.lookupText (fs.fullPath path)) with
  | error error =>
      refine .inl ⟨error, rfl, ?_⟩
      intro location content found
      cases found
  | ok found =>
      obtain ⟨location, entry⟩ := found
      have object := Disk.entry_of_lookupText _ (Environment.outcome_ok opened)
      simp only [Except.map, run_bind]
      by_cases regular : entry.kind = .regular
      · obtain ⟨kind, content⟩ := entry
        obtain rfl : kind = .regular := regular
        obtain ⟨count, after, result, run, bound, outcome, reads⟩ := fs.run_signLoop path
          (lastRound + 1) 0 (toInt environment.now) (releaseRows path environment.now state.db)
          ⟨{ state with db := releaseRows path environment.now state.db }, environment.next⟩
          environment.next.faults object (Nat.zero_add _) (Nat.zero_le _) (Nat.zero_le _) rfl rfl
          (fun call before => absurd before (Nat.not_lt_zero call))
        refine .inr ⟨location, content, count, result, rfl, bound, outcome.of_tail, reads, ?_⟩
        rw [Int.ofNat_zero] at run
        unfold releaseRows at run ⊢
        rw [run]
        cases result <;> rfl
      · left
        obtain ⟨error, unreadable⟩ := pread_irregular object regular segSize
          (shiftLeft 0 segSizeShift)
        obtain ⟨other, failed⟩ := environment.next.outcome_error (A := Bytes) error
        simp only [signLoop, run_bind, run_perform, handle, World.inspect, unreadable, failed]
        refine ⟨other, rfl, fun place content same => ?_⟩
        obtain ⟨-, rfl⟩ := Prod.mk.inj (Except.ok.inj same)
        exact regular rfl

section Rows

theorem db_ndnfsMknod (mode : Nat) : (exec (fs.ndnfsMknod path mode) environment state).2.db =
    if state.db.fileSystem.Has path then state.db
    else mknodRows path mode environment.now state.db := by
  rw [exec_ndnfsMknod]
  split
  · rfl
  · split
    · rfl
    · split
      · split <;> rfl
      · rfl

theorem db_ndnfsUnlink : (exec (fs.ndnfsUnlink path) environment state).2.db =
    state.db.deleteFileSystem path := by
  rw [exec_ndnfsUnlink]
  split <;> rfl

theorem db_ndnfsRename (target : Bytes) :
    (exec (fs.ndnfsRename path target) environment state).2.db = state.db.renameAll path target := by
  rw [exec_ndnfsRename]
  split <;> rfl

/-- A release changes only rows. -/
theorem state_ndnfsRelease (flags : OpenFlags) :
    (exec (fs.ndnfsRelease path flags) environment state).2 = state ∨
      ∃ content count, (exec (fs.ndnfsRelease path flags) environment state).2 = { state with
        db := fs.signSegments path (toInt environment.now) content
          (releaseRows path environment.now state.db) count } := by
  by_cases present : state.db.fileSystem.Has path
  · by_cases reading : flags.access = .readOnly
    · left
      rw [fs.exec_ndnfsRelease_reading path environment state present reading]
    · right
      rcases fs.exec_ndnfsRelease_writing path environment state present reading with
        ⟨error, run, -⟩ | ⟨location, content, count, result, -, -, -, -, run⟩
      · exact ⟨[], 0, by rw [run]; rfl⟩
      · exact ⟨content, count, by rw [run]⟩
  · left
    rw [fs.exec_ndnfsRelease_absent path environment state flags present]

@[simp] theorem fileSystem_signSegments (ver : Int) (content : Bytes) (db : Database) (count : Nat) :
    (fs.signSegments path ver content db count).fileSystem = db.fileSystem := by
  induction count with
  | zero => rfl
  | succ count ih => exact ih

@[simp] theorem fileVersions_signSegments (ver : Int) (content : Bytes) (db : Database)
    (count : Nat) : (fs.signSegments path ver content db count).fileVersions = db.fileVersions := by
  induction count with
  | zero => rfl
  | succ count ih => exact ih

end Rows

end FileSystem

end Ndnfs

import Ndnfs.Fs.Operation
import Ndnfs.System.Reply

namespace Ndnfs
open Effect Program MachineInteger Percent

/-- The operations whose return codes report their effects, with all their arguments. -/
inductive FileOperation where
  | openFile (path : Bytes) (flags : OpenFlags)
  | mknod (path : Bytes) (mode : Nat)
  | truncate (path : Bytes) (length : Int)
  | unlink (path : Bytes)
  | release (path : Bytes) (flags : OpenFlags)
  | rename (source target : Bytes)

namespace FileSystem

variable {Fd : Type} (fs : FileSystem)

def perform : FileOperation → Source Cursor Fd Int
  | .openFile path flags => fs.ndnfsOpen path flags
  | .mknod path mode => fs.ndnfsMknod path mode
  | .truncate path length => fs.ndnfsTruncate path length
  | .unlink path => fs.ndnfsUnlink path
  | .release path flags => fs.ndnfsRelease path flags
  | .rename source target => fs.ndnfsRename source target

/-- This call creates the object on disk. -/
def creation (path : Bytes) (mode : Nat) : Call Cursor Fd :=
  if S_ISREG mode then
    .openFile (fs.fullPath path) { access := .writeOnly, create := true, exclusive := true }
  else if S_ISFIFO mode then .mkfifo (fs.fullPath path) mode
  else .mknod (fs.fullPath path) mode

variable (marks : List (Mark Fd))

/-- The rows of a new file were inserted. -/
def Inserted (path : Bytes) (mode : Nat) : Prop :=
  ∃ ver, .stepped (.insertFileVersion path ver) SQLITE_DONE ∈ marks ∧
    .stepped (.insertFileSystem path ver (mimeInfer path) SignatureState.notReady.code
      (modeFileType mode).code) SQLITE_DONE ∈ marks

/-- The bytes of a segment were read and their signature was stored. -/
def StoresSegment (path : Bytes) (ver : Int) (seg : Nat) (buf : Bytes) : Prop :=
  .read (shiftLeft seg segSizeShift) buf ∈ marks ∧
    .stepped (.replaceFileSegment path ver seg ⟨fs.signedPortion path ver seg buf⟩) SQLITE_DONE ∈
      marks

/-- All segments up to the end of the file were stored. -/
def StoresFile (path : Bytes) (ver : Int) : Prop :=
  ∃ last : Nat, (∀ seg < last, ∃ buf, buf.length = segSize ∧ fs.StoresSegment marks path ver seg buf) ∧
    ∃ buf, buf.length ≠ segSize ∧ fs.StoresSegment marks path ver last buf

/-- Every effect of the operation on the database and on the disk has been applied. -/
def Applied : FileOperation → Prop
  | .openFile path flags => .called (.openFile (fs.fullPath path) flags) ∈ marks
  | .mknod path mode => Inserted marks path mode ∧ .called (fs.creation path mode) ∈ marks
  | .truncate path length => .called (.truncate (fs.fullPath path) length) ∈ marks
  | .unlink path => .stepped (.deleteFileSystem path) SQLITE_DONE ∈ marks ∧
      .called (.unlink (fs.fullPath path)) ∈ marks
  | .release path flags => flags.access = .readOnly ∨
      ∃ ver, .stepped (.updateCurrentVersion ver path) SQLITE_DONE ∈ marks ∧
        .stepped (.insertFileVersion path ver) SQLITE_DONE ∈ marks ∧ fs.StoresFile marks path ver
  | .rename source target => .stepped (.renameFileSystem target source) SQLITE_DONE ∈ marks ∧
      .stepped (.renameFileVersions target source) SQLITE_DONE ∈ marks ∧
      .stepped (.renameFileSegments target source) SQLITE_DONE ∈ marks ∧
      .called (.rename (fs.fullPath source) (fs.fullPath target)) ∈ marks

/-- The value is never positive, and it is 0 exactly when every effect has been applied. -/
structure TellsTruth (operation : FileOperation) (value : Int) : Prop where
  nonpos : value ≤ 0
  zero_iff : value = 0 ↔ fs.Applied marks operation

/-- No statement has failed. -/
def NoStatementFails : Prop := ∀ statement code, .stepped statement code ∈ marks → ¬ IsErrorCode code

/-- A read has come to the end of the file. -/
def ReadsToEnd : Prop := ∃ offset buf, .read offset buf ∈ marks ∧ buf.length ≠ segSize

/-- These outcomes of the calls let the operation tell the truth. -/
def Favourable : FileOperation → Prop
  | .openFile path flags => .called (.openFile (fs.fullPath path) flags) ∈ marks →
      .stepped (.selectCurrentVersion path) SQLITE_ROW ∈ marks
  | .mknod path mode => .called (fs.creation path mode) ∈ marks →
      (Inserted marks path mode ↔ (S_ISREG mode → ∃ fd, .called (.close fd) ∈ marks))
  | .truncate path length => .called (.truncate (fs.fullPath path) length) ∉ marks
  | .unlink path => .called (.unlink (fs.fullPath path)) ∈ marks →
      .stepped (.deleteFileSystem path) SQLITE_DONE ∈ marks
  | .release path flags =>
      if flags.access = .readOnly then .stepped (.selectCurrentVersion path) SQLITE_ROW ∈ marks
      else (∀ ver code, .stepped (.updateCurrentVersion ver path) code ∈ marks → ¬ IsErrorCode code) ∧
        (ReadsToEnd marks → NoStatementFails marks)
  | .rename source target => .called (.rename (fs.fullPath source) (fs.fullPath target)) ∈ marks →
      NoStatementFails marks

section Leaves

variable {fs marks} {operation : FileOperation} {value : Int}

@[simp] theorem noStatementFails_nil : NoStatementFails ([] : List (Mark Fd)) := by
  intro statement code member
  cases member

@[simp] theorem noStatementFails_stepped (statement : Statement) (code : Int) :
    NoStatementFails (.stepped statement code :: marks) ↔
      ¬ IsErrorCode code ∧ NoStatementFails marks := by
  simp [NoStatementFails, or_imp, forall_and]

@[simp] theorem noStatementFails_read (offset : Int) (buf : Bytes) :
    NoStatementFails (.read offset buf :: marks) ↔ NoStatementFails marks := by
  simp [NoStatementFails]

@[simp] theorem noStatementFails_called (call : Call Cursor Fd) :
    NoStatementFails (.called call :: marks) ↔ NoStatementFails marks := by
  simp [NoStatementFails]

@[simp] theorem noStatementFails_append (rest : List (Mark Fd)) :
    NoStatementFails (marks ++ rest) ↔ NoStatementFails marks ∧ NoStatementFails rest := by
  simp [NoStatementFails, or_imp, forall_and]

@[simp] theorem not_readsToEnd_nil : ¬ ReadsToEnd ([] : List (Mark Fd)) := by
  rintro ⟨offset, buf, member, -⟩
  cases member

@[simp] theorem readsToEnd_stepped (statement : Statement) (code : Int) :
    ReadsToEnd (.stepped statement code :: marks) ↔ ReadsToEnd marks := by
  simp [ReadsToEnd]

@[simp] theorem readsToEnd_called (call : Call Cursor Fd) :
    ReadsToEnd (.called call :: marks) ↔ ReadsToEnd marks := by
  simp [ReadsToEnd]

@[simp] theorem readsToEnd_read (offset : Int) (buf : Bytes) :
    ReadsToEnd (.read offset buf :: marks) ↔ buf.length ≠ segSize ∨ ReadsToEnd marks := by
  unfold ReadsToEnd
  constructor
  · rintro ⟨other, bytes, member, short⟩
    rcases List.mem_cons.mp member with here | later
    · cases here
      exact .inl short
    · exact .inr ⟨other, bytes, later, short⟩
  · rintro (short | ⟨other, bytes, member, short⟩)
    · exact ⟨offset, buf, List.mem_cons_self, short⟩
    · exact ⟨other, bytes, List.mem_cons_of_mem _ member, short⟩

@[simp] theorem readsToEnd_append (rest : List (Mark Fd)) :
    ReadsToEnd (marks ++ rest) ↔ ReadsToEnd marks ∨ ReadsToEnd rest := by
  simp only [ReadsToEnd, List.mem_append, or_and_right, exists_or]

/-- An error number is true when some effect is missing. -/
theorem tellsTruth_error (errno : Errno) :
    fs.TellsTruth marks operation errno.negative ↔ ¬ fs.Applied marks operation := by
  have negative := errno.negative_lt
  constructor
  · intro truth applied
    have zero := truth.zero_iff.mpr applied
    omega
  · intro missing
    exact ⟨by omega, iff_of_false (by omega) missing⟩

theorem tellsTruth_zero : fs.TellsTruth marks operation 0 ↔ fs.Applied marks operation := by
  constructor
  · intro truth
    exact truth.zero_iff.mp rfl
  · intro applied
    exact ⟨Int.le_refl 0, iff_of_true rfl applied⟩

theorem not_tellsTruth_of_pos (positive : 0 < value) : ¬ fs.TellsTruth marks operation value := by
  intro truth
  have nonpos := truth.nonpos
  omega

end Leaves

/-- Every path through the operation tells the truth exactly in a favourable case. -/
abbrev Judged (Fd : Type) (fs : FileSystem) (operation : FileOperation) : Prop :=
  (fs.perform operation : Source Cursor Fd Int).Ensures Allowed mark fun marks value =>
    fs.TellsTruth marks operation value ↔ fs.Favourable marks operation

theorem judged_truncate (path : Bytes) (length : Int) :
    fs.Judged Fd (.truncate path length) := by
  show (fs.ndnfsTruncate path length : Source Cursor Fd Int).Ensures Allowed mark _
  unfold ndnfsTruncate
  rw [ensures_bind]
  apply ensures_executeOnce
  intro code gives
  by_cases missing : code ≠ SQLITE_ROW
  · rw [if_pos missing, ensures_pure, tellsTruth_error]
    simp [Applied, Favourable]
  · rw [if_neg missing, ensures_bind, ensures_perform]
    intro reply _
    cases reply with
    | error errno =>
        rw [ensures_pure, tellsTruth_error]
        simp [Applied, Favourable, mark]
    | ok =>
        have row : code = SQLITE_ROW := not_not.mp missing
        rw [ensures_pure]
        refine iff_of_false (not_tellsTruth_of_pos ?_) ?_
        · rw [row]
          decide
        · simp [Favourable, mark]

theorem judged_openFile (path : Bytes) (flags : OpenFlags) :
    fs.Judged Fd (.openFile path flags) := by
  show (fs.ndnfsOpen path flags : Source Cursor Fd Int).Ensures Allowed mark _
  unfold ndnfsOpen
  rw [ensures_bind, ensures_perform]
  intro opened _
  cases opened with
  | error errno =>
      rw [ensures_pure, tellsTruth_error]
      simp [Applied, Favourable, mark]
  | ok fd =>
      rw [ensures_bind, ensures_perform]
      intro closed _
      apply ensures_step
      intro _ code stmt gives
      dsimp only
      by_cases missing : code ≠ SQLITE_ROW
      · rw [if_pos missing, ensures_bind, ensures_perform]
        intro _ _
        rw [ensures_pure, tellsTruth_error]
        cases closed <;> simp [Applied, Favourable, mark, Ne.symm missing]
      · have row : code = SQLITE_ROW := not_not.mp missing
        rw [if_neg missing]
        simp only [ensures_bind, ensures_perform]
        intro currVer _ _ _ now _
        -- duplicate_version is a stub that returns 0.
        have copied : ¬ duplicateVersion path currVer (toInt now) < 0 := Int.lt_irrefl 0
        cases flags.access with
        | readOnly =>
            rw [ensures_pure, tellsTruth_zero]
            cases closed <;> simp [Applied, Favourable, mark, row]
        | writeOnly | readWrite =>
            dsimp only
            rw [if_neg copied, ensures_pure, tellsTruth_zero]
            cases closed <;> simp [Applied, Favourable, mark, row]

theorem judged_unlink (path : Bytes) : fs.Judged Fd (.unlink path) := by
  show (fs.ndnfsUnlink path : Source Cursor Fd Int).Ensures Allowed mark _
  unfold ndnfsUnlink removeFileEntry
  rw [ensures_bind, ensures_bind]
  apply ensures_executeOnce
  intro first _
  rw [ensures_pure, ensures_bind]
  apply ensures_executeOnce
  intro second _
  rw [ensures_bind, ensures_perform]
  intro reply _
  cases reply with
  | error errno =>
      rw [ensures_pure, tellsTruth_error]
      simp [Applied, Favourable, mark]
  | ok =>
      rw [ensures_pure, tellsTruth_zero]
      simp [Applied, Favourable, mark]

theorem judged_rename (source target : Bytes) :
    fs.Judged Fd (.rename source target) := by
  show (fs.ndnfsRename source target : Source Cursor Fd Int).Ensures Allowed mark _
  unfold ndnfsRename
  apply ensures_step
  intro _ first stmt givesFirst
  dsimp only
  rw [if_neg (by decide), ensures_bind, ensures_perform]
  intro _ _
  apply ensures_step
  intro _ second stmt givesSecond
  dsimp only
  rw [if_neg (by decide), ensures_bind, ensures_perform]
  intro _ _
  apply ensures_step
  intro _ third stmt givesThird
  dsimp only
  rw [if_neg (by decide), ensures_bind, ensures_perform]
  intro _ _
  rw [ensures_bind, ensures_perform]
  intro reply _
  cases reply with
  | error errno =>
      rw [ensures_pure, tellsTruth_error]
      simp [Applied, Favourable, mark]
  | ok =>
      rw [ensures_pure, tellsTruth_zero]
      simp [Applied, Favourable, mark, givesFirst.done_iff rfl, givesSecond.done_iff rfl,
        givesThird.done_iff rfl]

/-- The mark of close(2) is no mark of a creation. -/
theorem close_ne_creation (path : Bytes) (mode : Nat) (fd : Fd) :
    .close fd ≠ fs.creation path mode := by
  unfold creation
  split
  · simp
  · split <;> simp

/-- A regular file is created and closed, any other object is created at once. -/
theorem ensures_createObject {path : Bytes} {mode : Nat}
    {post : List (Mark Fd) → Except Errno Unit → Prop} (failed : ∀ errno, post [] (.error errno))
    (unclosed : S_ISREG mode = true → ∀ errno,
      post [.called (fs.creation path mode)] (.error errno))
    (closed : S_ISREG mode = true → ∀ fd,
      post [.called (fs.creation path mode), .called (.close fd)] (.ok ()))
    (created : ¬ S_ISREG mode = true → post [.called (fs.creation path mode)] (.ok ())) :
    (fs.createObject path mode : Source Cursor Fd _).Ensures Allowed mark post := by
  unfold createObject
  by_cases regular : S_ISREG mode = true
  · rw [creation, if_pos regular] at unclosed closed
    rw [if_pos regular, ensures_bind, ensures_perform]
    intro opened _
    cases opened with
    | error errno => exact failed errno
    | ok fd =>
        dsimp only
        rw [ensures_perform]
        intro reply _
        cases reply with
        | error errno => exact unclosed regular errno
        | ok => exact closed regular fd
  · rw [creation, if_neg regular] at created
    rw [if_neg regular]
    by_cases fifo : S_ISFIFO mode = true
    · rw [if_pos fifo] at created
      rw [if_pos fifo, ensures_perform]
      intro reply _
      cases reply with
      | error errno => exact failed errno
      | ok => exact created regular
    · rw [if_neg fifo] at created
      rw [if_neg fifo, ensures_perform]
      intro reply _
      cases reply with
      | error errno => exact failed errno
      | ok => exact created regular

theorem judged_mknod (path : Bytes) (mode : Nat) : fs.Judged Fd (.mknod path mode) := by
  show (fs.ndnfsMknod path mode : Source Cursor Fd Int).Ensures Allowed mark _
  unfold ndnfsMknod
  rw [ensures_bind]
  apply ensures_executeOnce
  intro code gives
  by_cases row : code = SQLITE_ROW
  · rw [if_pos row, ensures_pure, tellsTruth_error]
    simp [Applied, Inserted, Favourable]
  · rw [if_neg row]
    rw [ensures_bind, ensures_perform]
    intro now _
    rw [ensures_bind]
    apply ensures_executeOnce
    intro version _
    rw [ensures_bind]
    apply ensures_executeOnce
    intro file _
    rw [ensures_bind]
    apply fs.ensures_createObject
    · intro errno
      rw [ensures_pure, tellsTruth_error]
      simp [Applied, Favourable, mark]
    · intro regular errno
      rw [ensures_pure, tellsTruth_error]
      simp [Applied, Favourable, mark, regular, close_ne_creation]
    · intro regular fd
      rw [ensures_pure, tellsTruth_zero]
      simp [Applied, Favourable, mark]
    · intro other
      rw [ensures_pure, tellsTruth_zero]
      simp [Applied, Favourable, mark, other]

/-- The signing loop reads segments and stores each of them, up to a short one or to a failed read. -/
inductive SignRun (path : Bytes) (ver : Int) : Nat → List (Mark Fd) → Except Errno Unit → Prop where
  | failed (seg : Nat) (errno : Errno) : SignRun path ver seg [] (.error errno)
  | short {seg : Nat} {buf : Bytes} {code : Int} (early : seg < lastRound)
      (short : buf.length ≠ segSize)
      (gives : (Statement.replaceFileSegment path ver seg
        ⟨fs.signedPortion path ver seg buf⟩).Gives code) :
      SignRun path ver seg [.read (shiftLeft seg segSizeShift) buf,
        .stepped (.replaceFileSegment path ver seg ⟨fs.signedPortion path ver seg buf⟩) code] (.ok ())
  | full {seg : Nat} {buf : Bytes} {code : Int} {marks : List (Mark Fd)}
      {result : Except Errno Unit} (early : seg < lastRound) (full : buf.length = segSize)
      (gives : (Statement.replaceFileSegment path ver seg
        ⟨fs.signedPortion path ver seg buf⟩).Gives code)
      (rest : SignRun path ver (seg + 1) marks result) :
      SignRun path ver seg (.read (shiftLeft seg segSizeShift) buf ::
        .stepped (.replaceFileSegment path ver seg ⟨fs.signedPortion path ver seg buf⟩) code ::
          marks) result

/-- Different rounds read at different offsets. -/
theorem offset_injective {first second : Nat} (early : first < lastRound)
    (inside : second < lastRound)
    (same : shiftLeft first segSizeShift = shiftLeft second segSizeShift) : first = second := by
  rw [offset_eq early, offset_eq inside] at same
  unfold segSize at same
  omega

theorem ensures_signSegment {path : Bytes} {ver seg : Int} {data : Bytes}
    {post : List (Mark Fd) → Unit → Prop}
    (holds : ∀ code, (Statement.replaceFileSegment path ver seg
        ⟨fs.signedPortion path ver seg data⟩).Gives code →
      post [.stepped (.replaceFileSegment path ver seg ⟨fs.signedPortion path ver seg data⟩) code]
        ()) :
    (fs.signSegment path ver seg data : Source Cursor Fd Unit).Ensures Allowed mark post := by
  show (executeOnce (.replaceFileSegment path ver seg ⟨fs.signedPortion path ver seg data⟩) >>=
    fun _ => pure () : Source Cursor Fd Unit).Ensures Allowed mark post
  rw [ensures_bind]
  apply ensures_executeOnce
  intro code gives
  exact holds code gives

/-- Every outcome of the loop is such a run. -/
theorem ensures_signLoop (path : Bytes) (ver : Int) (fd : Fd) (rounds seg : Nat)
    (enough : seg + rounds = lastRound + 1) :
    (fs.signLoop path ver fd rounds seg : Source Cursor Fd _).Ensures Allowed mark
      (fs.SignRun path ver seg) := by
  induction rounds generalizing seg with
  | zero => exact .failed seg .EINVAL
  | succ rounds ih =>
      unfold signLoop
      rw [ensures_bind, ensures_perform]
      intro reply permitted
      cases reply with
      | error errno =>
          rw [ensures_pure]
          exact .failed seg errno
      | ok buf =>
          -- The last round reads at a negative offset, so it never succeeds.
          have early : seg < lastRound := by
            by_contra late
            have last : seg = lastRound := by omega
            have negative : shiftLeft (lastRound : Int) segSizeShift < 0 := by decide
            rw [last] at permitted
            cases permitted negative
          dsimp only
          rw [ensures_bind]
          apply fs.ensures_signSegment
          intro code gives
          by_cases full : buf.length = segSize
          · rw [if_pos full]
            have rest := ih (seg + 1) (by omega)
            exact rest.mono fun marks result run => .full early full gives run
          · rw [if_neg full, ensures_pure]
            exact .short early full gives

theorem StoresSegment.cons {path buf : Bytes} {ver : Int} {seg : Nat} {first : Mark Fd}
    (stored : fs.StoresSegment marks path ver seg buf) :
    fs.StoresSegment (first :: marks) path ver seg buf :=
  ⟨List.mem_cons_of_mem first stored.1, List.mem_cons_of_mem first stored.2⟩

namespace SignRun

variable {fs marks} {path : Bytes} {ver : Int} {seg : Nat} {result : Except Errno Unit}

/-- The loop ends without an error exactly when it reads to the end. -/
theorem readsToEnd_iff (run : fs.SignRun path ver seg marks result) :
    ReadsToEnd marks ↔ result = .ok () := by
  induction run with
  | failed seg errno => simp
  | short early short gives => simp [short]
  | full early full gives rest ih => simp [full, ih]

/-- The loop stores only the segments that it has reached. -/
theorem stepped (run : fs.SignRun path ver seg marks result) {statement : Statement} {code : Int}
    (member : .stepped statement code ∈ marks) : ∃ later buf, seg ≤ later ∧ later < lastRound ∧
      statement = .replaceFileSegment path ver (later : Nat)
        ⟨fs.signedPortion path ver (later : Nat) buf⟩ := by
  induction run with
  | failed seg errno => cases member
  | @short seg buf _ early short gives =>
      simp only [List.mem_cons, reduceCtorEq, List.not_mem_nil, or_false, false_or] at member
      cases member
      exact ⟨seg, buf, Nat.le_refl seg, early, rfl⟩
  | @full seg buf _ marks _ early full gives rest ih =>
      rcases List.mem_cons.mp member with here | member
      · cases here
      · rcases List.mem_cons.mp member with here | later
        · cases here
          exact ⟨seg, buf, Nat.le_refl seg, early, rfl⟩
        · obtain ⟨later, buf, reached, inside, same⟩ := ih later
          exact ⟨later, buf, by omega, inside, same⟩

/-- The loop reads at the offsets of the segments that it has reached. -/
theorem read (run : fs.SignRun path ver seg marks result) {offset : Int} {buf : Bytes}
    (member : .read offset buf ∈ marks) :
    ∃ later : Nat, seg ≤ later ∧ later < lastRound ∧ offset = shiftLeft later segSizeShift := by
  induction run with
  | failed seg errno => cases member
  | @short seg _ _ early short gives =>
      simp only [List.mem_cons, reduceCtorEq, List.not_mem_nil, or_false, Mark.read.injEq] at member
      exact ⟨seg, Nat.le_refl seg, early, member.1⟩
  | @full seg _ _ marks _ early full gives rest ih =>
      rcases List.mem_cons.mp member with here | member
      · exact ⟨seg, Nat.le_refl seg, early, (Mark.read.inj here).1⟩
      · rcases List.mem_cons.mp member with here | later
        · cases here
        · obtain ⟨later, reached, inside, same⟩ := ih later
          exact ⟨later, by omega, inside, same⟩

/-- What is stored for a later segment is stored in a later round. -/
theorem storesSegment_later (run : fs.SignRun path ver (seg + 1) marks result)
    (early : seg < lastRound) {code : Int} {buf other : Bytes} {later : Nat} (after : seg < later)
    (stored : fs.StoresSegment (.read (shiftLeft seg segSizeShift) buf ::
      .stepped (.replaceFileSegment path ver seg ⟨fs.signedPortion path ver seg buf⟩) code :: marks)
        path ver later other) : fs.StoresSegment marks path ver later other := by
  obtain ⟨reads, steps⟩ := stored
  have apart : (later : Int) ≠ seg := by omega
  simp only [List.mem_cons, Mark.stepped.injEq, Statement.replaceFileSegment.injEq, apart,
    reduceCtorEq, false_and, and_false, false_or] at steps
  refine ⟨?_, steps⟩
  obtain ⟨reached, bytes, _, inside, same⟩ := run.stepped steps
  have reachedLater : (later : Int) = reached := (Statement.replaceFileSegment.inj same).2.2.1
  rcases List.mem_cons.mp reads with here | reads
  · have equal := offset_injective (by omega) early (Mark.read.inj here).1
    omega
  · rcases List.mem_cons.mp reads with here | reads
    · cases here
    · exact reads

/-- A full segment is not stored as the short one that ends the file. -/
theorem full_of_storesSegment (run : fs.SignRun path ver (seg + 1) marks result)
    (early : seg < lastRound) {code : Int} {buf other : Bytes} (full : buf.length = segSize)
    (stored : fs.StoresSegment (.read (shiftLeft seg segSizeShift) buf ::
      .stepped (.replaceFileSegment path ver seg ⟨fs.signedPortion path ver seg buf⟩) code :: marks)
        path ver seg other) : other.length = segSize := by
  rcases List.mem_cons.mp stored.1 with here | reads
  · rw [(Mark.read.inj here).2]
    exact full
  · rcases List.mem_cons.mp reads with here | reads
    · cases here
    · obtain ⟨later, reached, inside, same⟩ := run.read reads
      have equal := offset_injective early inside same
      omega

/-- The statement of this round is done when its segment is stored. -/
theorem done_of_storesSegment (run : fs.SignRun path ver (seg + 1) marks result) {code : Int}
    {buf other : Bytes} (stored : fs.StoresSegment (.read (shiftLeft seg segSizeShift) buf ::
      .stepped (.replaceFileSegment path ver seg ⟨fs.signedPortion path ver seg buf⟩) code :: marks)
        path ver seg other) : SQLITE_DONE = code := by
  rcases List.mem_cons.mp stored.2 with here | steps
  · cases here
  · rcases List.mem_cons.mp steps with here | steps
    · exact (Mark.stepped.inj here).2
    · obtain ⟨reached, bytes, later, inside, same⟩ := run.stepped steps
      have equal : (seg : Int) = reached := (Statement.replaceFileSegment.inj same).2.2.1
      omega

/-- All segments from this one on are stored. -/
def StoresFrom (fs : FileSystem) (marks : List (Mark Fd)) (path : Bytes) (ver : Int) (seg : Nat) :
    Prop :=
  ∃ last : Nat, seg ≤ last ∧
    (∀ later, seg ≤ later → later < last →
      ∃ buf, buf.length = segSize ∧ fs.StoresSegment marks path ver later buf) ∧
    ∃ buf, buf.length ≠ segSize ∧ fs.StoresSegment marks path ver last buf

/-- By induction on the rounds: the segment of this round is stored when its statement is done, and
the later ones in the later rounds. -/
theorem storesFrom_iff (run : fs.SignRun path ver seg marks result) (ended : result = .ok ()) :
    StoresFrom fs marks path ver seg ↔ NoStatementFails marks := by
  induction run with
  | failed seg errno => cases ended
  | @short seg buf code early short gives =>
      simp only [noStatementFails_stepped, noStatementFails_read, noStatementFails_nil, and_true]
      rw [← gives.done_iff rfl]
      constructor
      · rintro ⟨last, reached, before, bytes, _, stored⟩
        have none : fs.SignRun path ver (seg + 1) ([] : List (Mark Fd)) (.error .EINVAL) :=
          .failed (seg + 1) .EINVAL
        rcases Nat.eq_or_lt_of_le reached with rfl | inside
        · exact none.done_of_storesSegment stored
        · obtain ⟨other, _, here⟩ := before seg (Nat.le_refl seg) inside
          exact none.done_of_storesSegment here
      · rintro rfl
        refine ⟨seg, Nat.le_refl seg, ?_, buf, short, ?_⟩
        · intro later reached before
          omega
        · simp [StoresSegment]
  | @full seg buf code marks _ early full gives rest ih =>
      simp only [noStatementFails_stepped, noStatementFails_read]
      rw [← gives.done_iff rfl, ← ih ended]
      constructor
      · rintro ⟨last, reached, before, bytes, short, stored⟩
        have beyond : seg ≠ last := by
          rintro rfl
          exact short (rest.full_of_storesSegment early full stored)
        obtain ⟨other, _, here⟩ := before seg (Nat.le_refl seg) (by omega)
        refine ⟨rest.done_of_storesSegment here, last, by omega, ?_, bytes, short,
          rest.storesSegment_later early (by omega) stored⟩
        intro later after inside
        obtain ⟨other, whole, stored⟩ := before later (by omega) inside
        exact ⟨other, whole, rest.storesSegment_later early after stored⟩
      · rintro ⟨rfl, last, reached, before, bytes, short, stored⟩
        refine ⟨last, by omega, ?_, bytes, short, stored.cons.cons⟩
        intro later after inside
        rcases Nat.eq_or_lt_of_le after with rfl | after
        · exact ⟨buf, full, by simp [StoresSegment]⟩
        · obtain ⟨other, whole, stored⟩ := before later after inside
          exact ⟨other, whole, stored.cons.cons⟩

theorem not_update (run : fs.SignRun path ver seg marks result) (other : Int) (code : Int) :
    .stepped (.updateCurrentVersion other path) code ∉ marks := by
  intro member
  obtain ⟨_, _, _, _, same⟩ := run.stepped member
  cases same

theorem not_insert (run : fs.SignRun path ver seg marks result) (other : Int) (code : Int) :
    .stepped (.insertFileVersion path other) code ∉ marks := by
  intro member
  obtain ⟨_, _, _, _, same⟩ := run.stepped member
  cases same

/-- A loop that ends without an error stores the file exactly when no statement fails. -/
theorem storesFile_iff (run : fs.SignRun path ver 0 marks (.ok ())) :
    fs.StoresFile marks path ver ↔ NoStatementFails marks := by
  rw [← run.storesFrom_iff rfl]
  simp only [StoresFile, StoresFrom, Nat.zero_le, true_and, forall_const]

end SignRun

/-- A release that writes is applied only after it has read to the end. -/
theorem not_applied_release {path : Bytes} {flags : OpenFlags} (writes : flags.access ≠ .readOnly)
    (unread : ¬ ReadsToEnd marks) : ¬ fs.Applied marks (.release path flags) := by
  rintro (readOnly | ⟨ver, _, _, last, _, buf, short, stored⟩)
  · exact writes readOnly
  · exact unread ⟨_, buf, stored.1, short⟩

theorem judged_release (path : Bytes) (flags : OpenFlags) :
    fs.Judged Fd (.release path flags) := by
  show (fs.ndnfsRelease path flags : Source Cursor Fd Int).Ensures Allowed mark _
  unfold ndnfsRelease
  rw [ensures_bind, ensures_perform]
  intro now _
  dsimp only
  rw [ensures_bind]
  apply ensures_executeOnce
  intro code gives
  by_cases missing : code ≠ SQLITE_ROW
  · rw [if_pos missing, ensures_pure, tellsTruth_error]
    by_cases readOnly : flags.access = .readOnly
    · simp [Applied, Favourable, mark, readOnly, Ne.symm missing]
    · simp [Applied, Favourable, mark, readOnly]
  · have row : code = SQLITE_ROW := not_not.mp missing
    rw [if_neg missing]
    by_cases readOnly : flags.access = .readOnly
    · rw [if_pos readOnly, ensures_pure, tellsTruth_zero]
      simp [Applied, Favourable, mark, readOnly, row]
    · rw [if_neg readOnly]
      apply ensures_step
      intro _ update stmt givesUpdate
      dsimp only
      by_cases failed : IsErrorCode update
      · have nonzero : update ≠ SQLITE_OK := by
          have positive := failed.1
          unfold SQLITE_OK
          omega
        rw [if_pos ⟨nonzero, failed.2.2⟩, ensures_pure]
        refine iff_of_false (not_tellsTruth_of_pos failed.1) ?_
        simp [Favourable, mark, readOnly, failed]
      · obtain rfl := (givesUpdate.done_iff rfl).mpr failed
        rw [if_neg (by decide), ensures_bind, ensures_perform]
        intro _ _
        rw [ensures_bind]
        apply ensures_executeOnce
        intro insert givesInsert
        rw [ensures_bind, ensures_perform]
        intro opened _
        cases opened with
        | error errno =>
            rw [ensures_pure, tellsTruth_error]
            refine iff_of_true (fs.not_applied_release _ readOnly ?_) ?_
            · simp [mark]
            · simp [Favourable, mark, readOnly]
        | ok fd =>
            dsimp only
            rw [ensures_bind]
            apply (fs.ensures_signLoop path (toInt now) fd (lastRound + 1) 0 (Nat.zero_add _)).mono
            intro marks result run
            cases result with
            | error errno =>
                have unread : ¬ ReadsToEnd marks := by simp [run.readsToEnd_iff]
                rw [ensures_pure, tellsTruth_error]
                refine iff_of_true (fs.not_applied_release _ readOnly ?_) ?_
                · simp [mark, unread]
                · simp [Favourable, mark, readOnly, unread, run.not_update]
            | ok =>
                rw [ensures_bind, ensures_perform]
                intro closed _
                -- Nothing that follows the loop is looked at, not even close(2).
                have ends : ReadsToEnd marks := run.readsToEnd_iff.mpr rfl
                rw [ensures_pure, tellsTruth_zero]
                cases closed <;>
                  simp [Applied, Favourable, mark, readOnly, row, ends, run.not_update,
                    run.not_insert, givesInsert.done_iff rfl, ← run.storesFile_iff, StoresFile,
                    StoresSegment]

/-- For every sequence of replies the return code tells the truth exactly in a favourable case. -/
theorem tellsTruth_iff (operation : FileOperation) :
    (fs.perform operation : Source Cursor Fd Int).Ensures Allowed mark fun marks value =>
      fs.TellsTruth marks operation value ↔ fs.Favourable marks operation := by
  cases operation with
  | openFile path flags => exact fs.judged_openFile path flags
  | mknod path mode => exact fs.judged_mknod path mode
  | truncate path length => exact fs.judged_truncate path length
  | unlink path => exact fs.judged_unlink path
  | release path flags => exact fs.judged_release path flags
  | rename source target => exact fs.judged_rename source target

/-- A truncate that succeeds returns the code of a SELECT. -/
theorem tellsTruth_fails : ¬ ∀ (fs : FileSystem) (operation : FileOperation),
    (fs.perform operation : Source Cursor Location Int).Ensures Allowed mark fun marks value =>
      fs.TellsTruth marks operation value := by
  intro claim
  have ensures := claim Reference.fileSystem (.truncate (ascii "/a") 0)
  have truth := ensures.run handle allowed_handle ⟨Reference.createdState, Reference.calm 2⟩
  have nonpos := truth.nonpos
  revert nonpos
  decide

end FileSystem

end Ndnfs

import Ndnfs.Foundation.Ensures
import Ndnfs.Foundation.Handles
import Ndnfs.Fs.File
import Ndnfs.Server.Module

namespace Ndnfs
open Effect Program Handles MachineInteger

/-- A statement that could be prepared; otherwise the pointer is NULL. -/
structure Prepared (Handle : Type) where
  handle : Handle
  statement : Statement
  deriving DecidableEq

/-- The calls that take a handle and all their outcomes are left open. -/
abbrev HandleCall (Handle Fd : Type) := Call (Option (Prepared Handle)) Fd

abbrev Outcome (Handle Fd : Type) := Sigma (Call.Reply : HandleCall Handle Fd → Type)

section Uses

variable {Handle Fd : Type}

/-- A statement stays at its handle, and no read succeeds before the begin of a file; every other
outcome is possible. -/
def AnyReply : (call : HandleCall Handle Fd) → call.Reply → Prop
  | .prepare statement, reply => ∀ prepared, reply = some prepared → prepared.statement = statement
  | .step stmt, reply => reply.2 = stmt
  | .columnBlob stmt index, reply => reply = (stmt, index)
  | .pread _ _ offset, reply => offset < 0 → reply.isOk = false
  | _, _ => True

def outcome (call : HandleCall Handle Fd) (reply : call.Reply) : Option (Outcome Handle Fd) :=
  some ⟨call, reply⟩

/-- A pointer of NULL is no handle, and the bytes behind a column are read only when there are some;
close(2) gives the descriptor back even with an error. -/
def use : Outcome Handle Fd → Option (Use (Handle ⊕ Fd))
  | ⟨.prepare _, some stmt⟩ => some (.acquire (.inl stmt.handle))
  | ⟨.step (some stmt), _⟩ | ⟨.columnInt (some stmt) _, _⟩ | ⟨.columnText (some stmt) _, _⟩
  | ⟨.columnBlob (some stmt) _, _⟩ | ⟨.readBlob (some stmt, _), some _⟩ =>
      some (.access (.inl stmt.handle))
  | ⟨.finalize (some stmt), _⟩ => some (.release (.inl stmt.handle))
  | ⟨.openFile .., .ok fd⟩ => some (.acquire (.inr fd))
  | ⟨.pread fd .., _⟩ | ⟨.pwrite fd .., _⟩ => some (.access (.inr fd))
  | ⟨.close fd, _⟩ => some (.release (.inr fd))
  | _ => none

def uses (outcomes : List (Outcome Handle Fd)) : List (Use (Handle ⊕ Fd)) := outcomes.filterMap use

@[simp] theorem uses_nil : uses ([] : List (Outcome Handle Fd)) = [] := rfl

@[simp] theorem uses_cons (reply : Outcome Handle Fd) (rest : List (Outcome Handle Fd)) :
    uses (reply :: rest) = (use reply).toList ++ uses rest := by
  unfold uses
  cases first : use reply with
  | none => exact List.filterMap_cons_none first
  | some value => exact List.filterMap_cons_some first

theorem uses_append (first second : List (Outcome Handle Fd)) :
    uses (first ++ second) = uses first ++ uses second := List.filterMap_append

/-- The program goes on with the statement and its code. -/
theorem ensures_statement {A : Type} {statement : Statement}
    {f : Option (Prepared Handle) → Int × Option (Prepared Handle) →
      Source (Option (Prepared Handle)) Fd A} {post : List (Outcome Handle Fd) → A → Prop}
    (rest : ∀ stmt, (∀ other, stmt = some other → other.statement = statement) → ∀ code,
      (f stmt (code, stmt)).Ensures AnyReply outcome fun outcomes value =>
        post (⟨.prepare statement, stmt⟩ :: ⟨.step stmt, (code, stmt)⟩ :: outcomes) value) :
    (invoke (.prepare statement) >>= fun stmt => invoke (.step stmt) >>= f stmt).Ensures
      AnyReply outcome post := by
  simp only [ensures_bind, ensures_perform]
  intro stmt prepared reply same
  obtain ⟨code, stmt'⟩ := reply
  obtain rfl : stmt' = stmt := same
  exact rest stmt' prepared code

end Uses

/-- The operations with several returns between the begin and the end of a handle. -/
inductive HandleOperation where
  | read (path : Bytes) (size : Nat) (offset : Int)
  | write (path buf : Bytes) (offset : Int)
  | release (path : Bytes) (flags : OpenFlags)
  | rename (source target : Bytes)
  | sendFileContent (interestName : Name) (path : Bytes) (version seg : Int)

namespace HandleOperation

variable {Handle Fd : Type}

def program (fs : FileSystem) (server : Server) :
    HandleOperation → Source (Option (Prepared Handle)) Fd Unit
  | .read path size offset => do let _ ← fs.ndnfsRead path size offset
  | .write path buf offset => do let _ ← fs.ndnfsWrite path buf offset
  | .release path flags => do let _ ← fs.ndnfsRelease path flags
  | .rename source target => do let _ ← fs.ndnfsRename source target
  | .sendFileContent interestName path version seg => do
      let _ ← server.sendFileContent interestName path version seg

/-- After these outcomes of a call the operation uses its handles wrongly. -/
def Harmful : HandleOperation → Outcome Handle Fd → Prop
  | .read .., ⟨.pread .., .error _⟩ => True
  | .write .., ⟨.pwrite .., .error _⟩ => True
  | .release .., ⟨.pread .., .error _⟩ => True
  | .release .., ⟨.step (some stmt), reply⟩ =>
      (∃ currVersion path, stmt.statement = .updateCurrentVersion currVersion path) ∧
        reply.1 ≠ SQLITE_OK ∧ reply.1 ≠ SQLITE_DONE
  | .sendFileContent .., ⟨.readBlob (some _, _), some _⟩ => True
  | _, _ => False

/-- Of the steps only an update does harm. -/
theorem harmless_step {operation : HandleOperation} {statement : Statement}
    {stmt : Option (Prepared Handle)}
    (prepared : ∀ other, stmt = some other → other.statement = statement)
    (notUpdate : ∀ currVersion path, statement ≠ .updateCurrentVersion currVersion path)
    (code : Int) : ¬ operation.Harmful (⟨.step stmt, (code, stmt)⟩ : Outcome Handle Fd) := by
  cases operation with
  | release path flags =>
      cases stmt with
      | none => exact not_false
      | some other =>
          intro harm
          obtain ⟨⟨currVersion, updated, same⟩, -⟩ := harm
          exact notUpdate currVersion updated ((prepared other rfl).symm.trans same)
  | _ => exact not_false

section Rules

variable [DecidableEq Handle] [DecidableEq Fd] (operation : HandleOperation)

/-- From these handles on, nothing is held in the end unless an outcome is harmful. -/
def Right (handles : List (Handle ⊕ Fd)) (outcomes : List (Outcome Handle Fd)) : Prop :=
  held handles (uses outcomes) = some [] ↔ ∀ reply ∈ outcomes, ¬ operation.Harmful reply

/-- The outcomes are harmless and leave the handles as they were. -/
structure Neutral (handles : List (Handle ⊕ Fd)) (outcomes : List (Outcome Handle Fd)) :
    Prop where
  held : held handles (uses outcomes) = some handles
  harmless : ∀ reply ∈ outcomes, ¬ operation.Harmful reply

variable {operation} {handles : List (Handle ⊕ Fd)} {first rest : List (Outcome Handle Fd)}

theorem Neutral.right_append (neutral : operation.Neutral handles first) :
    operation.Right handles (first ++ rest) ↔ operation.Right handles rest := by
  unfold Right
  rw [uses_append, held_append, neutral.held, Option.bind_some, List.forall_mem_append,
    and_iff_right neutral.harmless]

theorem right_nil : operation.Right handles ([] : List (Outcome Handle Fd)) ↔ handles = [] := by
  simp [Right]

/-- A harmless outcome goes on with the handles that it leaves. -/
theorem right_cons {reply : Outcome Handle Fd} {after : List (Handle ⊕ Fd)}
    (leaves : held handles (use reply).toList = some after)
    (harmless : ¬ operation.Harmful reply) :
    operation.Right handles (reply :: rest) ↔ operation.Right after rest := by
  unfold Right
  rw [uses_cons, held_append, leaves, Option.bind_some, List.forall_mem_cons,
    and_iff_right harmless]

/-- Something is held or used wrongly, and there was a reason for it. -/
theorem right_of_harm (wrong : held handles (uses first) ≠ some [])
    (harmful : ∃ reply ∈ first, operation.Harmful reply) : operation.Right handles first := by
  apply iff_of_false wrong
  intro harmless
  obtain ⟨reply, member, harm⟩ := harmful
  exact harmless reply member harm

/-- Nothing that follows mends a use of a handle that is not held. -/
theorem right_of_stale (stale : held handles (uses first) = none)
    (harmful : ∃ reply ∈ first, operation.Harmful reply) :
    operation.Right handles (first ++ rest) := by
  apply right_of_harm
  · rw [uses_append, held_append, stale]
    exact Option.some_ne_none _ ∘ Eq.symm
  · obtain ⟨reply, member, harm⟩ := harmful
    exact ⟨reply, List.mem_append_left rest member, harm⟩

/-- The handles are as before once the statement is finalized, which does no harm. -/
theorem neutral_prepared {statement : Statement} {stmt : Option (Prepared Handle)} {code : Int}
    (harmless : ¬ operation.Harmful (⟨.step stmt, (code, stmt)⟩ : Outcome Handle Fd)) :
    operation.Neutral handles ([⟨.prepare statement, stmt⟩, ⟨.step stmt, (code, stmt)⟩,
      ⟨.finalize stmt, ()⟩] : List (Outcome Handle Fd)) where
  held := by
    cases stmt with
    | none => rfl
    | some other => simp [use]
  harmless := by
    have prepares : ¬ operation.Harmful (⟨.prepare statement, stmt⟩ : Outcome Handle Fd) := by
      cases operation <;> exact not_false
    have finalizes : ¬ operation.Harmful (⟨.finalize stmt, ()⟩ : Outcome Handle Fd) := by
      cases operation <;> exact not_false
    exact List.forall_mem_cons.mpr
      ⟨prepares, List.forall_mem_cons.mpr ⟨harmless, List.forall_mem_singleton.mpr finalizes⟩⟩

/-- A statement that is prepared, stepped and finalized leaves the handles as they were. -/
theorem neutral_statement {statement : Statement} {stmt : Option (Prepared Handle)}
    (prepared : ∀ other, stmt = some other → other.statement = statement)
    (notUpdate : ∀ currVersion path, statement ≠ .updateCurrentVersion currVersion path)
    (code : Int) : operation.Neutral handles ([⟨.prepare statement, stmt⟩,
      ⟨.step stmt, (code, stmt)⟩, ⟨.finalize stmt, ()⟩] : List (Outcome Handle Fd)) :=
  neutral_prepared (harmless_step prepared notUpdate code)

/-- The operation is right from these handles on, whatever the outcomes are. -/
def Spec {A : Type} (operation : HandleOperation) (handles : List (Handle ⊕ Fd))
    (program : Source (Option (Prepared Handle)) Fd A) : Prop :=
  program.Ensures AnyReply outcome fun outcomes _ => operation.Right handles outcomes

/-- The rule of a neutral part. -/
theorem Neutral.following {A : Type} {program : Source (Option (Prepared Handle)) Fd A}
    (neutral : operation.Neutral handles first) (spec : operation.Spec handles program) :
    program.Ensures AnyReply outcome fun outcomes _ =>
      operation.Right handles (first ++ outcomes) := by
  apply spec.mono
  intro outcomes value right
  exact neutral.right_append.mpr right

theorem neutral_executeOnce {statement : Statement}
    (notUpdate : ∀ currVersion path, statement ≠ .updateCurrentVersion currVersion path)
    {post : List (Outcome Handle Fd) → Int → Prop}
    (holds : ∀ outcomes code, operation.Neutral handles outcomes → post outcomes code) :
    (executeOnce statement).Ensures AnyReply outcome post := by
  unfold executeOnce
  apply ensures_statement
  intro stmt prepared code
  rw [ensures_bind, ensures_perform]
  intro _ _
  exact holds _ code (neutral_statement prepared notUpdate code)

theorem spec_executeOnce (operation : HandleOperation) {handles : List (Handle ⊕ Fd)} {A : Type}
    {statement : Statement}
    (notUpdate : ∀ currVersion path, statement ≠ .updateCurrentVersion currVersion path)
    {f : Int → Source (Option (Prepared Handle)) Fd A}
    (continues : ∀ code, operation.Spec handles (f code)) :
    operation.Spec handles (executeOnce statement >>= f) := by
  unfold Spec
  rw [ensures_bind]
  apply neutral_executeOnce notUpdate
  intro first code neutral
  exact neutral.following (continues code)

theorem spec_pure {A : Type} (value : A) :
    operation.Spec ([] : List (Handle ⊕ Fd))
      (pure value : Source (Option (Prepared Handle)) Fd A) :=
  right_nil.mpr rfl

/-- The rule of a harmless call. -/
theorem Spec.after {A : Type} {program : Source (Option (Prepared Handle)) Fd A}
    {reply : Outcome Handle Fd} {after : List (Handle ⊕ Fd)} (spec : operation.Spec after program)
    (leaves : held handles (use reply).toList = some after)
    (harmless : ¬ operation.Harmful reply) :
    program.Ensures AnyReply outcome fun outcomes _ =>
      operation.Right handles (reply :: outcomes) := by
  apply spec.mono
  intro outcomes value right
  exact (right_cons leaves harmless).mpr right

/-- A file is held exactly after an open that succeeds. -/
theorem spec_openFile {A : Type} {path : Bytes} {flags : OpenFlags}
    {f : Except Errno Fd → Source (Option (Prepared Handle)) Fd A}
    (failed : ∀ errno, operation.Spec handles (f (.error errno)))
    (opened : ∀ fd, operation.Spec (.inr fd :: handles) (f (.ok fd))) :
    operation.Spec handles (invoke (.openFile path flags) >>= f) := by
  have harmless (reply : Except Errno Fd) :
      ¬ operation.Harmful (⟨.openFile path flags, reply⟩ : Outcome Handle Fd) := by
    cases operation <;> exact not_false
  unfold Spec
  rw [ensures_bind, ensures_perform]
  intro reply _
  cases reply with
  | error errno => exact (failed errno).after rfl (harmless _)
  | ok fd => exact (opened fd).after rfl (harmless _)

theorem spec_close {A : Type} {fd : Fd}
    {f : Except Errno Unit → Source (Option (Prepared Handle)) Fd A}
    (closed : ∀ reply, operation.Spec handles (f reply)) :
    operation.Spec (.inr fd :: handles) (invoke (.close fd) >>= f) := by
  have harmless (reply : Except Errno Unit) :
      ¬ operation.Harmful (⟨.close fd, reply⟩ : Outcome Handle Fd) := by
    cases operation <;> exact not_false
  unfold Spec
  rw [ensures_bind, ensures_perform]
  intro reply _
  exact (closed reply).after (held_release_head _ _ _) (harmless reply)

/-- The file that was accessed is still held. -/
theorem right_of_failed {fd : Fd} {reply : Outcome Handle Fd}
    (accesses : use reply = some (.access (.inr fd))) (harm : operation.Harmful reply) :
    operation.Right [.inr fd] [reply] := by
  apply right_of_harm
  · rw [uses_cons, accesses]
    change held _ [_] ≠ _
    rw [held_access_head, held_nil]
    exact List.cons_ne_nil _ _ ∘ Option.some.inj
  · exact ⟨reply, List.mem_singleton_self reply, harm⟩

theorem spec_read (fs : FileSystem) (path : Bytes) (size : Nat) (offset : Int) :
    (HandleOperation.read path size offset).Spec ([] : List (Handle ⊕ Fd))
      (fs.ndnfsRead path size offset) := by
  unfold FileSystem.ndnfsRead
  apply spec_executeOnce _ (by simp)
  intro code
  split
  · exact spec_pure _
  · apply spec_openFile
    · intro errno
      exact spec_pure _
    · intro fd
      unfold Spec
      rw [ensures_bind, ensures_perform]
      intro reply _
      cases reply with
      | error errno => exact right_of_failed rfl trivial
      | ok buf =>
          exact (spec_close fun _ => spec_pure _).after (held_access_head _ _ _) not_false

theorem spec_write (fs : FileSystem) (path buf : Bytes) (offset : Int) :
    (HandleOperation.write path buf offset).Spec ([] : List (Handle ⊕ Fd))
      (fs.ndnfsWrite path buf offset) := by
  unfold FileSystem.ndnfsWrite
  apply spec_executeOnce _ (by simp)
  intro code
  split
  · exact spec_pure _
  · apply spec_openFile
    · intro errno
      exact spec_pure _
    · intro fd
      unfold Spec
      rw [ensures_bind, ensures_perform]
      intro reply _
      cases reply with
      | error errno => exact right_of_failed rfl trivial
      | ok writeLen =>
          exact (spec_close fun _ => spec_pure _).after (held_access_head _ _ _) not_false

/-- The three statements of a rename are finalized whatever their codes are. -/
theorem spec_rename (fs : FileSystem) (source target : Bytes) :
    (HandleOperation.rename source target).Spec ([] : List (Handle ⊕ Fd))
      (fs.ndnfsRename source target) := by
  have passes : ¬ ((0 : Int) ≠ SQLITE_OK ∧ (0 : Int) ≠ SQLITE_DONE) := by decide
  unfold FileSystem.ndnfsRename Spec
  apply ensures_statement
  intro stmt preparedFirst first
  dsimp only
  rw [if_neg passes, ensures_bind, ensures_perform]
  intro _ _
  apply ensures_statement
  intro stmt preparedSecond second
  dsimp only
  rw [if_neg passes, ensures_bind, ensures_perform]
  intro _ _
  apply ensures_statement
  intro stmt preparedThird third
  dsimp only
  rw [if_neg passes, ensures_bind, ensures_perform]
  intro _ _
  rw [ensures_bind, ensures_perform]
  intro reply _
  have renamed : (HandleOperation.rename source target).Right ([] : List (Handle ⊕ Fd))
      [⟨.rename (fs.fullPath source) (fs.fullPath target), reply⟩] :=
    (right_cons rfl id).mpr (right_nil.mpr rfl)
  have all := (neutral_statement preparedFirst (by simp) first).right_append.mpr
    ((neutral_statement preparedSecond (by simp) second).right_append.mpr
      ((neutral_statement preparedThird (by simp) third).right_append.mpr renamed))
  cases reply with
  | error errno =>
      rw [ensures_pure]
      exact all
  | ok =>
      rw [ensures_pure]
      exact all

theorem ensures_readFileSize (operation : HandleOperation) (server : Server) (path : Bytes)
    {handles : List (Handle ⊕ Fd)}
    {post : List (Outcome Handle Fd) → Int × Int → Prop}
    (holds : ∀ outcomes sizes, operation.Neutral handles outcomes → post outcomes sizes) :
    (server.readFileSize path).Ensures AnyReply outcome post := by
  have stats (reply : Except Errno Stat) :
      ¬ operation.Harmful (⟨.stat (server.filePath path), reply⟩ : Outcome Handle Fd) := by
    cases operation <;> exact not_false
  have unset (value : Int) :
      ¬ operation.Harmful (⟨.uninitialised, value⟩ : Outcome Handle Fd) := by
    cases operation <;> exact not_false
  unfold Server.readFileSize
  rw [ensures_bind, ensures_perform]
  intro st _
  cases st with
  | ok st =>
      rw [ensures_pure]
      exact holds _ _ ⟨rfl, List.forall_mem_singleton.mpr (stats _)⟩
  | error errno =>
      dsimp only
      rw [ensures_bind, ensures_perform]
      intro value _
      rw [ensures_pure]
      exact holds _ _ ⟨rfl, List.forall_mem_cons.mpr
        ⟨stats _, List.forall_mem_singleton.mpr (unset value)⟩⟩

/-- Without a signature nothing is read from the row. -/
theorem neutral_unsigned (interestName : Name) (path : Bytes) (version seg : Int)
    {stmt : Option (Prepared Handle)} {signature : Option SignatureBits}
    (prepared : ∀ other, stmt = some other →
      other.statement = .selectFileSegment path version (Server.contentSeg seg))
    (code : Int) (unsigned : ¬ (stmt.isSome ∧ signature.isSome)) :
    (HandleOperation.sendFileContent interestName path version seg).Neutral
      ([] : List (Handle ⊕ Fd)) [
        ⟨.prepare (.selectFileSegment path version (Server.contentSeg seg)), stmt⟩,
        ⟨.step stmt, (code, stmt)⟩, ⟨.columnBlob stmt 3, (stmt, 3)⟩, ⟨.finalize stmt, ()⟩,
        ⟨.readBlob (stmt, 3), signature⟩] := by
  have unread : use (⟨.readBlob (stmt, 3), signature⟩ : Outcome Handle Fd) = none ∧
      ¬ (HandleOperation.sendFileContent interestName path version seg).Harmful
        (⟨.readBlob (stmt, 3), signature⟩ : Outcome Handle Fd) := by
    cases stmt with
    | none => exact ⟨rfl, not_false⟩
    | some other =>
        cases signature with
        | none => exact ⟨rfl, not_false⟩
        | some bits => exact absurd ⟨rfl, rfl⟩ unsigned
  constructor
  · cases stmt with
    | none => rfl
    | some other =>
        simp only [uses_cons, unread.1]
        simp [use]
  · intro reply member
    simp only [List.mem_cons, List.not_mem_nil, or_false] at member
    obtain rfl | rfl | rfl | rfl | rfl := member
    · exact not_false
    · exact harmless_step prepared (by simp) code
    · exact not_false
    · exact not_false
    · exact unread.2

/-- The signature is read from the row after its statement has been finalized; the file is closed
before the outcome of its read is looked at. -/
theorem spec_sendFileContent (server : Server) (interestName : Name) (path : Bytes)
    (version seg : Int) :
    (HandleOperation.sendFileContent interestName path version seg).Spec ([] : List (Handle ⊕ Fd))
      (server.sendFileContent interestName path version seg) := by
  unfold Server.sendFileContent Spec
  apply ensures_statement
  intro stmt prepared code
  dsimp only
  split
  · rw [ensures_bind, ensures_perform]
    intro _ _
    apply (neutral_statement prepared (by simp) code).following
    exact spec_pure _
  · rw [ensures_bind, ensures_perform]
    intro pointer pointed
    rw [ensures_bind, ensures_perform]
    intro _ _
    rw [ensures_bind, ensures_perform]
    intro signature _
    obtain rfl : pointer = (stmt, 3) := pointed
    by_cases signed : stmt.isSome ∧ signature.isSome
    · obtain ⟨other, rfl⟩ := Option.isSome_iff_exists.mp signed.1
      obtain ⟨bits, rfl⟩ := Option.isSome_iff_exists.mp signed.2
      let first : List (Outcome Handle Fd) := [
        ⟨.prepare (.selectFileSegment path version (Server.contentSeg seg)), some other⟩,
        ⟨.step (some other), (code, some other)⟩, ⟨.columnBlob (some other) 3, (some other, 3)⟩,
        ⟨.finalize (some other), ()⟩, ⟨.readBlob (some other, 3), some bits⟩]
      have stale : held [] (uses first) = none := by simp [first, use, held_access_of_notMem]
      apply ensures_of_forall
      intro rest value
      exact right_of_stale stale ⟨⟨.readBlob (some other, 3), some bits⟩, by simp [first], trivial⟩
    · have row : Neutral _ ([] : List (Handle ⊕ Fd)) _ :=
        neutral_unsigned interestName path version seg prepared code signed
      rw [ensures_bind]
      apply ensures_readFileSize (.sendFileContent interestName path version seg) server path
      intro outcomes sizes (size : Neutral _ [] outcomes)
      refine (size.following ?_).mono fun _ _ right => row.right_append.mpr right
      apply spec_openFile
      · intro errno
        exact spec_pure _
      · intro fd
        unfold Spec
        rw [ensures_bind, ensures_perform]
        intro output _
        refine Spec.after (spec_close ?_) (held_access_head _ _ _) not_false
        intro closed
        cases output with
        | error errno => exact spec_pure _
        | ok output =>
            dsimp only
            split
            · unfold Spec
              rw [ensures_bind, ensures_perform]
              intro _ _
              exact (spec_pure _).after rfl not_false
            · exact spec_pure _

theorem neutral_signSegment (operation : HandleOperation) (fs : FileSystem)
    {handles : List (Handle ⊕ Fd)} {path data : Bytes} {ver seg : Int}
    {post : List (Outcome Handle Fd) → Unit → Prop}
    (holds : ∀ outcomes, operation.Neutral handles outcomes → post outcomes ()) :
    (fs.signSegment path ver seg data).Ensures AnyReply outcome post := by
  unfold FileSystem.signSegment
  dsimp only
  split
  · exact holds [] ⟨rfl, by simp⟩
  · rw [ensures_bind]
    apply neutral_executeOnce (by simp)
    intro outcomes code neutral
    rw [ensures_pure, List.append_nil]
    exact holds outcomes neutral

/-- Each round of the signing loop leaves the file open, and a read that fails ends it. -/
theorem ensures_signLoop (fs : FileSystem) (path : Bytes) (flags : OpenFlags) (ver : Int) (fd : Fd)
    (rounds seg : Nat) (enough : seg + rounds = FileSystem.lastRound + 1)
    (inside : seg ≤ FileSystem.lastRound) :
    (fs.signLoop path ver fd rounds seg :
      Source (Option (Prepared Handle)) Fd _).Ensures AnyReply outcome fun outcomes result =>
        held [.inr fd] (uses outcomes) = some [.inr fd] ∧
          (result = .ok () ↔ ∀ reply ∈ outcomes,
            ¬ (HandleOperation.release path flags).Harmful reply) := by
  induction rounds generalizing seg with
  | zero => omega
  | succ rounds ih =>
      unfold FileSystem.signLoop
      rw [ensures_bind, ensures_perform]
      intro reply permitted
      cases reply with
      | error errno =>
          refine ⟨held_access_head _ _ _, iff_of_false nofun fun harmless => ?_⟩
          exact harmless _ (List.mem_singleton_self _) trivial
      | ok buf =>
          -- The last round reads at a negative offset, so it never succeeds.
          have early : seg < FileSystem.lastRound := by
            by_contra late
            have last : seg = FileSystem.lastRound := by omega
            have negative : shiftLeft (FileSystem.lastRound : Int) segSizeShift < 0 := by decide
            rw [last] at permitted
            cases permitted negative
          have readSame : (HandleOperation.release path flags).Neutral [.inr fd]
              ([⟨.pread fd segSize (shiftLeft seg segSizeShift), .ok buf⟩] :
                List (Outcome Handle Fd)) :=
            ⟨held_access_head _ _ _, List.forall_mem_singleton.mpr not_false⟩
          dsimp only
          rw [ensures_bind]
          apply neutral_signSegment (.release path flags) fs
          intro stored (signed : Neutral _ [.inr fd] stored)
          split
          · apply (ih (seg + 1) (by omega) early).mono
            intro outcomes result rest
            change held _ (uses ([_] ++ (stored ++ outcomes))) = _ ∧
              (_ ↔ ∀ reply ∈ [_] ++ (stored ++ outcomes), _)
            rw [uses_append, held_append, readSame.held, Option.bind_some, uses_append, held_append,
              signed.held, Option.bind_some, List.forall_mem_append,
              and_iff_right readSame.harmless, List.forall_mem_append,
              and_iff_right signed.harmless]
            exact rest
          · rw [ensures_pure]
            change held _ (uses ([_] ++ (stored ++ []))) = _ ∧
              (_ ↔ ∀ reply ∈ [_] ++ (stored ++ []), _)
            rw [uses_append, held_append, readSame.held, Option.bind_some, List.append_nil,
              signed.held, List.forall_mem_append, and_iff_right readSame.harmless]
            exact ⟨rfl, iff_of_true rfl signed.harmless⟩

theorem spec_release (fs : FileSystem) (path : Bytes) (flags : OpenFlags) :
    (HandleOperation.release path flags).Spec ([] : List (Handle ⊕ Fd))
      (fs.ndnfsRelease path flags) := by
  unfold FileSystem.ndnfsRelease Spec
  rw [ensures_bind, ensures_perform]
  intro now _
  dsimp only
  refine (spec_executeOnce _ (by simp) ?_).after rfl not_false
  intro code
  split
  · exact spec_pure _
  · split
    · exact spec_pure _
    · apply ensures_statement
      intro stmt prepared updated
      dsimp only
      split
      · rename_i failed
        cases stmt with
        | none =>
            refine (right_cons rfl id).mpr ?_
            refine (right_cons rfl id).mpr ?_
            exact right_nil.mpr rfl
        | some other =>
            apply right_of_harm
            · simp [use]
            · exact ⟨_, List.mem_cons_of_mem _ (List.mem_singleton_self _),
                ⟨_, _, prepared other rfl⟩, failed⟩
      · rename_i done
        rw [ensures_bind, ensures_perform]
        intro _ _
        have harmless : ¬ (HandleOperation.release path flags).Harmful
            (⟨.step stmt, (updated, stmt)⟩ : Outcome Handle Fd) := by
          cases stmt with
          | none => exact not_false
          | some other => exact fun harm => done harm.2
        apply (neutral_prepared harmless).following
        apply spec_executeOnce _ (by simp)
        intro inserted
        apply spec_openFile
        · intro errno
          exact spec_pure _
        · intro fd
          unfold Spec
          rw [ensures_bind]
          apply (ensures_signLoop fs path flags (toInt now) fd (FileSystem.lastRound + 1) 0
            (Nat.zero_add _) (Nat.zero_le _)).mono
          intro outcomes result loop
          cases result with
          | error errno =>
              rw [ensures_pure, List.append_nil]
              apply right_of_harm
              · rw [loop.1]
                exact List.cons_ne_nil _ _ ∘ Option.some.inj
              · by_contra none
                cases loop.2.mpr fun reply member harm => none ⟨reply, member, harm⟩
          | ok =>
              have signed : Neutral _ _ outcomes := ⟨loop.1, loop.2.mp rfl⟩
              exact signed.following (spec_close fun _ => spec_pure _)

/-- For every outcome of the calls the handles are used and given back rightly exactly when no
outcome is harmful. -/
theorem balanced_iff (fs : FileSystem) (server : Server) (operation : HandleOperation) :
    (operation.program fs server : Source (Option (Prepared Handle)) Fd Unit).Ensures AnyReply
      outcome fun outcomes _ =>
        Balanced (uses outcomes) ↔ ∀ reply ∈ outcomes, ¬ operation.Harmful reply := by
  have ends {A : Type} {program : Source (Option (Prepared Handle)) Fd A}
      (spec : operation.Spec [] program) :
      (program >>= fun _ => pure ()).Ensures AnyReply outcome fun outcomes _ =>
        operation.Right ([] : List (Handle ⊕ Fd)) outcomes := by
    rw [ensures_bind]
    apply spec.mono
    intro outcomes value right
    rw [ensures_pure, List.append_nil]
    exact right
  cases operation with
  | read path size offset => exact ends (spec_read fs path size offset)
  | write path buf offset => exact ends (spec_write fs path buf offset)
  | release path flags => exact ends (spec_release fs path flags)
  | rename source target => exact ends (spec_rename fs source target)
  | sendFileContent interestName path version seg =>
      exact ends (spec_sendFileContent server interestName path version seg)

end Rules

/-- A read that fails leaves its file open. -/
theorem balanced_fails : ¬ ∀ (fs : FileSystem) (server : Server) (operation : HandleOperation),
    (operation.program fs server : Source (Option (Prepared Nat)) Nat Unit).Ensures AnyReply
      outcome fun outcomes _ => Balanced (uses outcomes) := by
  intro all
  have balanced := all ⟨Reference.ndn, [], [], []⟩
    ⟨Reference.ndn, Reference.protobuf, [], [], []⟩ (.read (ascii "/a") 1 0)
  let stmt : Prepared Nat := ⟨0, .selectCurrentVersion (ascii "/a")⟩
  have leaks : Balanced (uses ([⟨.prepare stmt.statement, some stmt⟩,
      ⟨.step (some stmt), (SQLITE_ROW, some stmt)⟩, ⟨.finalize (some stmt), ()⟩,
      ⟨.openFile (ascii "/a") O_RDONLY, .ok 3⟩, ⟨.pread 3 1 0, .error .ioError⟩] :
        List (Outcome Nat Nat))) :=
    balanced (some stmt) (by simp [AnyReply, stmt]) (SQLITE_ROW, some stmt) rfl () trivial (.ok 3)
      trivial (.error .ioError) (by simp [AnyReply])
  revert leaks
  decide

end HandleOperation

end Ndnfs

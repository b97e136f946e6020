import Ndnfs.Fs.View
import Ndnfs.Proof.KeptFile

namespace Ndnfs
open MachineInteger KeyedTable Patch Effect Program

namespace FileSystem

variable (fs : FileSystem)

/-- An operation counts where its result is not negative, a write with the bytes of its result. -/
def reported (history : History) (request : Request) : List Operation :=
  let result := (fs.outcome request.operation request.environment history.state).1
  if 0 ≤ result then [request.operation.told result] else []

/-- The bytes that the writes to the file have put according to their results. -/
def written (path : Path) (history : History) (request : Request) : List (Piece UInt8) :=
  match request.operation with
  | .write other data offset =>
      let result := (fs.outcome (.write other data offset) request.environment history.state).1
      if other = path ∧ 0 ≤ result then [(offset.toNat, data.take result.toNat)] else []
  | _ => []

end FileSystem

namespace Operation

/-- The operation leaves these bytes of the file as they are. -/
def Spares (path : Path) (start count : Nat) : Operation → Prop
  | .write other data offset =>
      other = path → start + count ≤ offset.toNat ∨ offset.toNat + data.length ≤ start
  | .truncate other length => other = path → start + count ≤ length.toNat
  | .release .. => True
  | operation => operation.Leaves path

instance decidableSpares (path : Path) (start count : Nat) : (operation : Operation) →
    Decidable (operation.Spares path start count)
  | .write .. | .truncate .. | .release .. | .openFile .. | .unlink _ | .rename .. | .mknod ..
  | .mkdir .. | .read .. | .rmdir _ => by
      dsimp only [Spares]
      infer_instance

/-- Of the operations that change a file only writes are made on this one. -/
def OnlyWrites (path : Path) : Operation → Prop
  | .write .. | .release .. => True
  | operation => operation.Leaves path

instance decidableOnlyWrites (path : Path) : (operation : Operation) →
    Decidable (operation.OnlyWrites path)
  | .write .. | .truncate .. | .release .. | .openFile .. | .unlink _ | .rename .. | .mknod ..
  | .mkdir .. | .read .. | .rmdir _ => by
      dsimp only [OnlyWrites]
      infer_instance

end Operation

/-- The bytes before both ends stay. -/
theorem read_resize {content : Bytes} {length start count : Nat}
    (present : start + count ≤ content.length) (kept : start + count ≤ length) :
    ((resize content length).drop start).take count = (content.drop start).take count := by
  apply List.ext_getElem?
  intro index
  by_cases inside : index < count
  · rw [List.getElem?_take_of_lt inside, List.getElem?_take_of_lt inside, List.getElem?_drop,
      List.getElem?_drop, resize, List.getElem?_append_left (by rw [List.length_take]; omega),
      List.getElem?_take_of_lt (by omega)]
  · have outside := Nat.le_of_not_lt inside
    rw [List.getElem?_eq_none (Nat.le_trans (List.length_take_le _ _) outside),
      List.getElem?_eq_none (Nat.le_trans (List.length_take_le _ _) outside)]

namespace FileSystem

variable {fs : FileSystem} {root path : Path} {state : State} {content : Bytes}

/-- A regular file with a row; reads and writes find both. -/
structure Stored (root path : Path) (content : Bytes) (state : State) : Prop where
  entry : state.disk.entry (root.locate path) = some ⟨.regular, content⟩
  known : state.db.fileSystem.Has path.text

theorem Stored.file (stored : Stored root path content state) :
    IsFile (state.disk.entry (root.locate path)) := by
  rw [stored.entry, isFile_some]
  simp

theorem Stored.same {state' : State} (stored : Stored root path content state)
    (same : SameFile root path state state') : Stored root path content state' :=
  ⟨same.entry.trans stored.entry, by rw [Has, same.row]; exact stored.known⟩

section Step

variable (rooted : fs.rootPath = root.rootText)

include rooted

/-- Without a fault a read returns the bytes that are there. -/
theorem ndnfsRead_stored (stored : Stored root path content state) {environment : Environment}
    (calm : environment.faults = []) (size offset : Nat) :
    (exec (fs.ndnfsRead path.text size offset) environment state).1 =
      ((((content.drop offset).take size).length : Int), (content.drop offset).take size) := by
  have quiet := environment.faults_next calm
  have bytes : state.disk.pread (root.locate path) size offset =
      .ok ((content.drop offset).take size) := by
    rw [Disk.pread, stored.entry]
    simp only [if_neg (Int.not_lt.mpr (Int.natCast_nonneg offset)), Int.toNat_natCast]
  simp only [exec, ndnfsRead, run_bind, run_selectCurrentVersion, if_pos stored.known, ne_eq,
    not_true_eq_false, if_false, run_perform, handle, World.attempt, Disk.openText_readOnly,
    fullPath_text rooted, state.disk.lookupText_some stored.entry, environment.outcome_of_nil calm,
    Except.map, World.inspect, environment.next.outcome_of_nil quiet, bytes, run_pure]

/-- A write that reports success put the bytes of its result into a file with a row. -/
theorem write_reported {data : Bytes} {offset : Int} {environment : Environment} {count : Nat}
    (wrote : (fs.outcome (.write path data offset) environment state).1 = count) :
    0 ≤ offset ∧ count ≤ data.length ∧ ∃ content, Stored root path content state ∧
      Stored root path (patch 0 content (data.take count) offset.toNat)
        (fs.outcome (.write path data offset) environment state).2 := by
  have failed (error : Errno) : error.negative ≠ count := by
    have negative := error.negative_lt
    omega
  simp only [outcome, Operation.program, exec_ndnfsWrite, fullPath_text rooted] at wrote ⊢
  split at wrote
  · rename_i known
    rw [if_pos known]
    cases opened : environment.outcome
      (state.disk.openText (root.rootText ++ path.text) O_RDWR environment.now) with
    | error error =>
        rw [opened] at wrote
        exact absurd wrote (failed error)
    | ok found =>
        obtain ⟨location, disk⟩ := found
        rw [opened] at wrote
        obtain ⟨rfl, -, rfl | ⟨cut, -⟩⟩ :=
          state.disk.open_ok .readWrite false (Environment.outcome_ok opened)
        · dsimp only at wrote ⊢
          cases put : environment.next.outcome (state.disk.pwrite (root.locate path)
            (environment.written data) offset environment.now) with
          | error error =>
              rw [put] at wrote
              exact absurd wrote (failed error)
          | ok disk' =>
              rw [put] at wrote
              obtain rfl : (environment.written data).length = count := Int.ofNat.inj wrote
              have success := Environment.outcome_ok put
              obtain ⟨⟨content, regular⟩, rfl⟩ := state.disk.pwrite_ok success
              refine ⟨state.disk.pwrite_nonneg success, environment.length_written_le data,
                content, ⟨regular, known⟩, ?_, known⟩
              rw [← environment.written_eq_take]
              dsimp only
              rw [state.disk.entry_modify, if_pos rfl, regular]
              rfl
        · cases cut
  · exact absurd wrote (failed _)

/-- A write to the file leaves it in place with a content that is new at most in the given range. -/
theorem stored_write (stored : Stored root path content state) (data : Bytes) (offset : Int)
    (environment : Environment) :
    let result := (fs.outcome (.write path data offset) environment state).1
    Stored root path
      (if 0 ≤ result then patch 0 content (data.take result.toNat) offset.toNat else content)
      (fs.outcome (.write path data offset) environment state).2 := by
  intro result
  by_cases wrote : 0 ≤ result
  · have count : result = (result.toNat : Int) := (Int.toNat_of_nonneg wrote).symm
    obtain ⟨-, -, before, was, now⟩ := write_reported rooted count
    obtain ⟨-, rfl⟩ := Entry.mk.inj (Option.some.inj (was.entry.symm.trans stored.entry))
    rw [if_pos wrote]
    exact now
  · have tells := view_write rooted environment state path data offset
    rw [Tells, if_neg wrote] at tells
    rw [if_neg wrote]
    refine ⟨(congrFun tells path).trans stored.entry, ?_⟩
    rw [outcome, fs.db_of_not_changesVersions id]
    exact stored.known

omit rooted in
theorem stored_release (stored : Stored root path content state) (other : Path)
    (access : AccessMode) (environment : Environment) :
    Stored root path content (fs.outcome (.release other access) environment state).2 := by
  simp only [outcome, Operation.program]
  rcases fs.state_ndnfsRelease other.text environment state { access } with
    same | ⟨content', count, same⟩
  · rw [same]
    exact stored
  · rw [same]
    refine ⟨stored.entry, ?_⟩
    rw [fileSystem_signSegments, releaseRows, Database.fileSystem_insertFileVersion,
      Database.has_updateCurrentVersion]
    exact stored.known

/-- The bytes that a step spares are read as before. -/
theorem stored_spares {start : Nat} {data : Bytes} (nonempty : data ≠ [])
    {request : Request} (spares : request.operation.Spares path start data.length)
    (before : ∃ content, Stored root path content state ∧
      (content.drop start).take data.length = data) :
    ∃ content, Stored root path content
        (fs.outcome request.operation request.environment state).2 ∧
      (content.drop start).take data.length = data := by
  obtain ⟨content, stored, same⟩ := before
  obtain ⟨operation, environment⟩ := request
  have present : start + data.length ≤ content.length := by
    have lengths := congrArg List.length same
    have positive := List.length_pos_iff.mpr nonempty
    rw [List.length_take, List.length_drop] at lengths
    omega
  have left (leaves : operation.Leaves path) : ∃ content, Stored root path content
      (fs.outcome operation environment state).2 ∧ (content.drop start).take data.length = data :=
    ⟨content, stored.same (sameFile_step rooted leaves environment stored.known stored.file), same⟩
  cases operation with
  | write other bytes offset =>
      by_cases here : other = path
      · subst other
        refine ⟨_, stored_write rooted stored bytes offset environment, ?_⟩
        split
        · refine (read_patch_apart present (Or.imp_right ?_ (spares rfl))).trans same
          rw [List.length_take]
          omega
        · exact same
      · exact left here
  | truncate other length =>
      by_cases here : other = path
      · subst other
        have kept : start + data.length ≤ length.toNat := spares rfl
        have tells := view_truncate rooted environment state path length
        have rows : (exec ((Operation.truncate path length).program fs) environment state).2.db =
            state.db := fs.db_of_not_changesVersions id environment state
        have known : (fs.outcome (.truncate path length) environment state).2.db.fileSystem.Has
            path.text := by
          rw [outcome, rows]
          exact stored.known
        unfold Tells at tells
        split at tells
        · have entry := congrFun tells path
          rw [Operation.effect, View.rewrite_regular stored.entry] at entry
          exact ⟨_, ⟨entry.trans (if_pos rfl), known⟩, (read_resize present kept).trans same⟩
        · exact ⟨content, ⟨(congrFun tells path).trans stored.entry, known⟩, same⟩
      · exact left here
  | release other access => exact ⟨content, stored_release stored other access environment, same⟩
  | _ => exact left spares

/-- The content after a run is the one before it with the reported writes, in their order. -/
theorem written_run {history : History} (stored : Stored root path content history.state)
    {requests : List Request} (only : ∀ request ∈ requests, request.operation.OnlyWrites path) :
    Stored root path
      (patchAll 0 content (Run.translate fs.step (fs.written path) history requests))
      (Run.after fs.step history requests).state := by
  have simulates : ∀ (history : History) (content : Bytes) (request : Request),
      Stored root path content history.state → request.operation.OnlyWrites path →
        Stored root path (Run.after (fun content piece => patch 0 content piece.2 piece.1) content
          (fs.written path history request)) (fs.step history request).state := by
    rintro history content ⟨operation, environment⟩ stored allowed
    have left (leaves : operation.Leaves path) :
        Stored root path content (fs.step history ⟨operation, environment⟩).state :=
      stored.same (sameFile_step rooted leaves environment stored.known stored.file)
    cases operation with
    | write other data offset =>
        by_cases here : other = path
        · subst other
          have now := stored_write rooted stored data offset environment
          dsimp only at now
          simp only [written, true_and]
          split
          · rename_i wrote
            rw [if_pos wrote] at now
            exact now
          · rename_i failed
            rw [if_neg failed] at now
            exact now
        · have none : fs.written path history ⟨.write other data offset, environment⟩ = [] :=
            if_neg fun same => here same.1
          rw [none]
          exact left here
    | release other access => exact stored_release stored other access environment
    | _ => exact left allowed
  exact Run.after_translate simulates (Run.steps_of_forall fs.step only) stored

end Step

section Run

/-- What a user sees after a run is what the operations that reported success make of what was there
before it. -/
theorem resultsTell_run (fs : FileSystem) {root : Path} (rooted : fs.rootPath = root.rootText)
    {history : History} {requests : List Request}
    (truly : Run.Steps fs.step (fun history request => ReportsTruly history.state request) history
      requests) :
    (Run.after fs.step history requests).state.disk.view root =
      Run.after Operation.effect (history.state.disk.view root)
        (Run.translate fs.step fs.reported history requests) := by
  have simulates : ∀ (history : History) (view : View) (request : Request),
      history.state.disk.view root = view → ReportsTruly history.state request →
        (fs.step history request).state.disk.view root =
          Run.after Operation.effect view (fs.reported history request) := by
    rintro history _ ⟨operation, environment⟩ rfl allowed
    have tells := view_step rooted environment history.state operation allowed
    unfold Tells at tells
    rw [reported]
    split
    · rename_i success
      rw [if_pos success] at tells
      exact tells
    · rename_i failure
      rw [if_neg failure] at tells
      exact tells
  exact Run.after_translate simulates truly rfl

/-- A file is written in part, cut and moved, and an open of a missing file fails. -/
theorem resultsTell_run_moved :
    (Run.after Reference.fileSystem.step ⟨Reference.createdState, 1⟩
        [⟨.write Reference.fileA (ascii "xyz") 1, { Reference.calm 2 with room := some 2 }⟩,
          ⟨.openFile Reference.fileB .readOnly false, Reference.calm 3⟩,
          ⟨.truncate Reference.fileA 2, Reference.calm 4⟩,
          ⟨.rename Reference.fileA Reference.fileB, Reference.calm 5⟩]).state.disk.view
        Reference.root =
      Run.after Operation.effect (Reference.createdState.disk.view Reference.root)
        (Run.translate Reference.fileSystem.step Reference.fileSystem.reported
          ⟨Reference.createdState, 1⟩
          [⟨.write Reference.fileA (ascii "xyz") 1, { Reference.calm 2 with room := some 2 }⟩,
            ⟨.openFile Reference.fileB .readOnly false, Reference.calm 3⟩,
            ⟨.truncate Reference.fileA 2, Reference.calm 4⟩,
            ⟨.rename Reference.fileA Reference.fileB, Reference.calm 5⟩]) :=
  resultsTell_run Reference.fileSystem rfl (by decide +kernel)

/-- The bytes that a write reports are read back, however the run goes on that spares them. -/
theorem readsWritten_run (fs : FileSystem) {root path : Path} (rooted : fs.rootPath = root.rootText)
    {data : Bytes} {offset : Int} {environment : Environment} {history : History} {count : Nat}
    (wrote : (fs.outcome (.write path data offset) environment history.state).1 = count)
    (positive : 0 < count) {requests : List Request}
    (spares : ∀ request ∈ requests, request.operation.Spares path offset.toNat count)
    {later : Environment} (calm : later.faults = []) :
    (exec (fs.ndnfsRead path.text count offset) later
      (Run.after fs.step (fs.step history ⟨.write path data offset, environment⟩)
        requests).state).1 =
      ((count : Int), data.take count) := by
  obtain ⟨nonneg, bound, content, -, now⟩ := write_reported rooted wrote
  have length : (data.take count).length = count := List.length_take_of_le bound
  have nonempty : data.take count ≠ [] := List.ne_nil_of_length_pos (length.symm ▸ positive)
  have preserved : ∀ (history : History) (request : Request),
      (∃ content, Stored root path content history.state ∧
        (content.drop offset.toNat).take (data.take count).length = data.take count) →
      request.operation.Spares path offset.toNat (data.take count).length →
      ∃ content, Stored root path content (fs.step history request).state ∧
        (content.drop offset.toNat).take (data.take count).length = data.take count := by
    intro history request before allowed
    exact stored_spares rooted nonempty allowed before
  have start : ∃ content, Stored root path content
      (fs.step history ⟨.write path data offset, environment⟩).state ∧
        (content.drop offset.toNat).take (data.take count).length = data.take count :=
    ⟨_, now, read_patch content (data.take count) offset.toNat⟩
  rw [length] at preserved start
  obtain ⟨last, stored, same⟩ :=
    (Run.invariant preserved (Run.steps_of_forall fs.step spares) start).last
  have read := ndnfsRead_stored rooted stored calm count offset.toNat
  rw [Int.toNat_of_nonneg nonneg, same, length] at read
  exact read

/-- Only two bytes of three are put; then the bytes behind and before them change, and the file is
released. -/
theorem readsWritten_run_between :
    (exec (Reference.fileSystem.ndnfsRead Reference.fileA.text 2 1) (Reference.calm 9)
      (Run.after Reference.fileSystem.step
        (Reference.fileSystem.step ⟨Reference.createdState, 1⟩
          ⟨.write Reference.fileA (ascii "xyz") 1, { Reference.calm 2 with room := some 2 }⟩)
        [⟨.write Reference.fileA (ascii "ab") 3, Reference.calm 3⟩,
          ⟨.write Reference.fileA (ascii "c") 0, Reference.calm 4⟩,
          ⟨.truncate Reference.fileA 4, Reference.calm 5⟩,
          ⟨.release Reference.fileA .readWrite, Reference.calm 6⟩,
          ⟨.unlink Reference.fileB, Reference.calm 7⟩]).state).1 =
      (2, (ascii "xyz").take 2) :=
  readsWritten_run Reference.fileSystem
    (show Reference.fileSystem.rootPath = Reference.root.rootText from rfl) (by decide +kernel)
    (by decide) (by decide +kernel) rfl

/-- A file is copied by pieces in any order, with failed, short and repeated writes among them; then
every read returns the bytes of the original. -/
theorem copied_run (fs : FileSystem) {root path : Path} (rooted : fs.rootPath = root.rootText)
    {history : History} (empty : Stored root path [] history.state) {requests : List Request}
    (only : ∀ request ∈ requests, request.operation.OnlyWrites path) {whole : Bytes}
    (parts : ∀ piece ∈ Run.translate fs.step (fs.written path) history requests, piece.Of whole)
    (covered : ∀ index < whole.length,
      ∃ piece ∈ Run.translate fs.step (fs.written path) history requests, piece.Covers index)
    {environment : Environment} (calm : environment.faults = []) (size offset : Nat) :
    (exec (fs.ndnfsRead path.text size offset) environment
      (Run.after fs.step history requests).state).1 =
      ((((whole.drop offset).take size).length : Int), (whole.drop offset).take size) := by
  have stored := written_run rooted empty only
  rw [patchAll_eq parts covered] at stored
  exact ndnfsRead_stored rooted stored calm size offset

/-- The second half comes first, one write fails, and one puts half of its bytes after a release;
the others follow. -/
theorem copied_run_halves :
    (exec (Reference.fileSystem.ndnfsRead Reference.fileA.text 3 1) (Reference.calm 9)
      (Run.after Reference.fileSystem.step ⟨Reference.createdState, 1⟩
        [⟨.write Reference.fileA (ascii "cd") 2, Reference.calm 2⟩,
          ⟨.write Reference.fileA (ascii "zz") (-1), Reference.calm 3⟩,
          ⟨.release Reference.fileA .readWrite, Reference.calm 4⟩,
          ⟨.write Reference.fileA (ascii "ab") 0, { Reference.calm 5 with room := some 1 }⟩,
          ⟨.write Reference.fileA (ascii "b") 1, Reference.calm 6⟩]).state).1 =
      (3, ascii "bcd") :=
  copied_run Reference.fileSystem
    (show Reference.fileSystem.rootPath = Reference.root.rootText from rfl)
    ⟨by decide +kernel, by decide +kernel⟩ (by decide)
    (show ∀ piece ∈ _, Piece.Of (ascii "abcd") piece by decide +kernel) (by decide +kernel) rfl 3 1

end Run

end FileSystem

end Ndnfs

import Ndnfs.Foundation.Patch
import Ndnfs.Foundation.Refinement
import Ndnfs.Fs.Effect
import Ndnfs.Server.Mount

namespace Ndnfs
open Patch

/-- A user of the mounted directory sees objects under their paths. -/
abbrev View := Path → Option Entry

/-- This is what stands below the root path. -/
def Disk.view (disk : Disk) (root : Path) : View := fun path => disk.entry (root.locate path)

namespace View

variable (view : View)

def set (path : Path) (entry : Option Entry) : View :=
  fun other => if other = path then entry else view other

/-- Only a regular file has a content to change. -/
def rewrite (path : Path) (change : Bytes → Bytes) : View :=
  fun other => if other = path then
    match view path with
    | some ⟨.regular, content⟩ => some ⟨.regular, change content⟩
    | entry => entry
  else view other

/-- The target gets all that stood at and below the source. -/
def move (source target : Path) : View := fun path =>
  if target.names <+: path.names then view (target.moved source path)
  else if source.names <+: path.names then none
  else view path

variable {view} {path : Path}

theorem rewrite_regular {content : Bytes} (regular : view path = some ⟨.regular, content⟩)
    (change : Bytes → Bytes) :
    view.rewrite path change = view.set path (some ⟨.regular, change content⟩) := by
  funext other
  simp only [rewrite, set, regular]

theorem move_same (path : Path) : view.move path path = view := by
  funext other
  unfold move
  split
  · rw [Path.moved_same]
  · rfl

end View

/-- What a successful operation does to the objects that a user sees. -/
def Operation.effect (view : View) : Operation → View
  | .mknod path mode =>
      match Disk.mknodKind mode with
      | .ok kind => view.set path (some ⟨kind, []⟩)
      | .error _ => view
  | .mkdir path _ => view.set path (some ⟨.directory, []⟩)
  | .openFile path _ trunc => if trunc then view.rewrite path fun _ => [] else view
  | .read .. | .release .. => view
  | .write path data offset => view.rewrite path fun content => patch 0 content data offset.toNat
  | .truncate path length => view.rewrite path fun content => resize content length.toNat
  | .unlink path | .rmdir path => view.set path none
  | .rename source target => view.move source target

/-- According to its result a write has put so many bytes. -/
def Operation.told (result : Int) : Operation → Operation
  | .write path data offset => .write path (data.take result.toNat) offset
  | operation => operation

/-- The close of a new file meets no fault, and only files with rows are opened for truncation. -/
def ReportsTruly (state : State) (request : Request) : Prop :=
  match request.operation with
  | .mknod _ mode => S_ISREG mode = true → request.environment.next.faults.head?.join = none
  | .openFile path _ trunc => trunc = true → state.db.fileSystem.Has path.text
  | _ => True

instance (state : State) (request : Request) : Decidable (ReportsTruly state request) := by
  unfold ReportsTruly
  split <;> infer_instance

section Disk

variable {disk : Disk} {root path : Path}

theorem view_modify {content : Bytes} (regular : disk.view root path = some ⟨.regular, content⟩)
    (change : Bytes → Bytes) (now : Int) :
    (disk.modify (root.locate path) change now).view root =
      (disk.view root).rewrite path change := by
  have known : disk.entry (root.locate path) = some ⟨.regular, content⟩ := regular
  rw [View.rewrite_regular regular]
  funext other
  simp only [Disk.view, View.set, disk.entry_modify, Path.locate_inj]
  split
  · rename_i same
    rw [same, known]
    rfl
  · rfl

theorem view_create (free : disk.Free (root.locate path)) (kind : NodeKind) (now : Int) :
    (disk.create (root.locate path) kind now).view root =
      (disk.view root).set path (some ⟨kind, []⟩) := by
  funext other
  simp only [Disk.view, View.set, disk.entry_create free, Path.locate_inj]

theorem view_remove (below : root.locate path ≠ []) (empty : disk.NoChildren (root.locate path))
    (now : Int) :
    (disk.remove (root.locate path) now).view root = (disk.view root).set path none := by
  funext other
  simp only [Disk.view, View.set, disk.entry_remove below empty, Path.locate_inj]

theorem view_move {target : Path} (safe : disk.MoveSafe (root.locate path) (root.locate target))
    (now : Int) : (disk.move (root.locate path) (root.locate target) now).view root =
      (disk.view root).move path target := by
  funext other
  have entries := disk.entry_move safe now (root.locate other)
  simp only [Path.locate, List.prefix_append_right_inj] at entries
  rw [Disk.view, Path.locate, Path.locate, Path.locate, entries, View.move]
  split
  · rename_i inside
    rw [Path.moved, dif_pos inside, List.length_append, List.append_assoc, List.drop_append,
      List.drop_of_length_le (Nat.le_add_right _ _), Nat.add_sub_cancel_left, List.nil_append]
    rfl
  · rfl

end Disk

/-- An open changes a content only to cut it. -/
theorem view_open_ok {disk : Disk} {root path : Path} (access : AccessMode) (trunc : Bool)
    {now : Int} {found : Location × Disk}
    (success : disk.openText (root.rootText ++ path.text) { access, truncate := trunc } now =
      .ok found) :
    found.2.view root =
      if trunc then (disk.view root).rewrite path fun _ => [] else disk.view root := by
  unfold Disk.openText at success
  split at success
  · cases success
  · rename_i place walked
    obtain ⟨rfl, -⟩ := disk.find_ok walked
    split at success
    · rename_i entry present
      split at success
      · cases success
      · split at success
        · cases success
        · split at success
          · rename_i cut
            obtain rfl := Except.ok.inj success
            obtain ⟨kind, content⟩ := entry
            obtain ⟨rfl, rfl⟩ : trunc = true ∧ kind = .regular := cut
            exact view_modify present _ _
          · rename_i uncut
            obtain rfl := Except.ok.inj success
            split
            · rename_i asked
              have other : entry.kind ≠ .regular := fun regular => uncut ⟨asked, regular⟩
              obtain ⟨kind, content⟩ := entry
              have seen : disk.view root path = some ⟨kind, content⟩ := present
              funext path'
              simp only [View.rewrite, seen]
              split
              · rename_i here
                rw [here, seen]
                split
                · rename_i same
                  exact absurd (Entry.mk.inj (Option.some.inj same)).1 other
                · rfl
              · rfl
            · rfl
    · simp at success

namespace FileSystem

variable {fs : FileSystem} {root : Path} (rooted : fs.rootPath = root.rootText)
  (environment : Environment) (state : State)

/-- The result of an operation and the state that it leaves. -/
abbrev outcome (fs : FileSystem) (operation : Operation) (environment : Environment)
    (state : State) : Int × State := exec (operation.program fs) environment state

/-- A result that is not negative reports its effect, and a negative one reports no change. -/
def Tells (root : Path) (before : View) (effect : Int → View) (run : Int × State) : Prop :=
  run.2.disk.view root = if 0 ≤ run.1 then effect run.1 else before

variable {before : View} {effect : Int → View}

theorem tells_error (error : Errno) {after : State} (same : after.disk.view root = before) :
    Tells root before effect (error.negative, after) :=
  same.trans (if_neg (Int.not_le.mpr error.negative_lt)).symm

theorem tells_success {result : Int} (nonneg : 0 ≤ result) {after : State}
    (done : after.disk.view root = effect result) : Tells root before effect (result, after) :=
  done.trans (if_pos nonneg).symm

include rooted

theorem view_mknod (path : Path) (mode : Nat)
    (truly : ReportsTruly state ⟨.mknod path mode, environment⟩) :
    Tells root (state.disk.view root)
      (fun _ => (Operation.mknod path mode).effect (state.disk.view root))
      (fs.outcome (.mknod path mode) environment state) := by
  have quiet : S_ISREG mode = true → environment.next.faults.head?.join = none := truly
  simp only [outcome, Operation.program, exec_ndnfsMknod, fullPath_text rooted]
  split
  · exact tells_error _ rfl
  · cases made : environment.outcome
      (state.disk.createMode (root.rootText ++ path.text) mode environment.now) with
    | error error => exact tells_error error rfl
    | ok disk' =>
        obtain ⟨kind, known, free, rfl⟩ := createMode_ok (Environment.outcome_ok made)
        have created : (state.disk.create (root.locate path) kind environment.now).view root =
            (Operation.mknod path mode).effect (state.disk.view root) := by
          rw [Operation.effect, known]
          exact view_create free kind environment.now
        dsimp only
        split
        · rename_i regular
          rw [environment.next.outcome_eq (quiet regular)]
          exact tells_success (Int.le_refl 0) created
        · exact tells_success (Int.le_refl 0) created

theorem view_mkdir (path : Path) (mode : Nat) :
    Tells root (state.disk.view root)
      (fun _ => (Operation.mkdir path mode).effect (state.disk.view root))
      (fs.outcome (.mkdir path mode) environment state) := by
  simp only [outcome, Operation.program, exec_ndnfsMkdir, fullPath_text rooted]
  cases made : environment.outcome
    (state.disk.createText (root.rootText ++ path.text) .directory environment.now) with
  | error error => exact tells_error error rfl
  | ok disk' =>
      obtain ⟨free, rfl⟩ := state.disk.create_ok (Environment.outcome_ok made)
      exact tells_success (Int.le_refl 0) (view_create free .directory environment.now)

theorem view_open (path : Path) (access : AccessMode) (trunc : Bool)
    (truly : ReportsTruly state ⟨.openFile path access trunc, environment⟩) :
    Tells root (state.disk.view root)
      (fun _ => (Operation.openFile path access trunc).effect (state.disk.view root))
      (fs.outcome (.openFile path access trunc) environment state) := by
  have known : trunc = true → state.db.fileSystem.Has path.text := truly
  simp only [outcome, Operation.program, exec_ndnfsOpen, fullPath_text rooted, Operation.effect]
  cases opened : environment.outcome (state.disk.openText (root.rootText ++ path.text)
      { access, truncate := trunc } environment.now) with
  | error error => exact tells_error error rfl
  | ok found =>
      have seen := view_open_ok access trunc (Environment.outcome_ok opened)
      dsimp only
      by_cases present : state.db.fileSystem.Has path.text
      · rw [if_pos present]
        exact tells_success (Int.le_refl 0) seen
      · rw [if_neg present]
        rw [if_neg (mt known present)] at seen
        exact tells_error _ seen

theorem view_write (path : Path) (data : Bytes) (offset : Int) :
    Tells root (state.disk.view root)
      (fun result => ((Operation.write path data offset).told result).effect (state.disk.view root))
      (fs.outcome (.write path data offset) environment state) := by
  simp only [outcome, Operation.program, exec_ndnfsWrite, fullPath_text rooted]
  split
  · cases opened : environment.outcome
      (state.disk.openText (root.rootText ++ path.text) O_RDWR environment.now) with
    | error error => exact tells_error error rfl
    | ok found =>
        obtain ⟨location, disk⟩ := found
        obtain ⟨rfl, -, rfl | ⟨cut, -⟩⟩ :=
          state.disk.open_ok .readWrite false (Environment.outcome_ok opened)
        · dsimp only
          split
          · exact tells_error _ rfl
          · rename_i disk' written
            obtain ⟨⟨content, regular⟩, rfl⟩ :=
              state.disk.pwrite_ok (Environment.outcome_ok written)
            refine tells_success (Int.natCast_nonneg _) ?_
            rw [Operation.told, Int.toNat_natCast, ← environment.written_eq_take]
            exact view_modify regular _ _
        · cases cut
  · exact tells_error _ rfl

theorem view_truncate (path : Path) (length : Int) :
    Tells root (state.disk.view root)
      (fun _ => (Operation.truncate path length).effect (state.disk.view root))
      (fs.outcome (.truncate path length) environment state) := by
  simp only [outcome, Operation.program, exec_ndnfsTruncate, fullPath_text rooted]
  split
  · cases cut : environment.outcome
      (state.disk.truncateText (root.rootText ++ path.text) length environment.now) with
    | error error => exact tells_error error rfl
    | ok disk' =>
        obtain ⟨⟨content, regular⟩, rfl⟩ := state.disk.truncate_ok (Environment.outcome_ok cut)
        exact tells_success (by decide) (view_modify regular _ _)
  · exact tells_error _ rfl

theorem view_unlink (path : Path) :
    Tells root (state.disk.view root)
      (fun _ => (Operation.unlink path).effect (state.disk.view root))
      (fs.outcome (.unlink path) environment state) := by
  simp only [outcome, Operation.program, exec_ndnfsUnlink, fullPath_text rooted]
  cases gone : environment.outcome
    (state.disk.unlinkText (root.rootText ++ path.text) environment.now) with
  | error error => exact tells_error error rfl
  | ok disk' =>
      obtain ⟨file, rfl⟩ := state.disk.unlink_ok (Environment.outcome_ok gone)
      have empty := state.disk.noChildren_of_not_directory file.2
      exact tells_success (Int.le_refl 0) (view_remove (ne_nil_of_isFile file) empty _)

theorem view_rmdir (path : Path) :
    Tells root (state.disk.view root)
      (fun _ => (Operation.rmdir path).effect (state.disk.view root))
      (fs.outcome (.rmdir path) environment state) := by
  simp only [outcome, Operation.program]
  by_cases top : path.text = ascii "/"
  · rw [top, exec_ndnfsRmdir_root]
    exact tells_error _ rfl
  · rw [exec_ndnfsRmdir fs path.text environment state top, fullPath_text rooted]
    cases gone : environment.outcome
      (state.disk.rmdirText (root.rootText ++ path.text) environment.now) with
    | error error => exact tells_error error rfl
    | ok disk' =>
        obtain ⟨-, below, empty, rfl⟩ := state.disk.rmdir_ok (Environment.outcome_ok gone)
        exact tells_success (Int.le_refl 0) (view_remove below empty _)

theorem view_rename (source target : Path) :
    Tells root (state.disk.view root)
      (fun _ => (Operation.rename source target).effect (state.disk.view root))
      (fs.outcome (.rename source target) environment state) := by
  simp only [outcome, Operation.program, exec_ndnfsRename, fullPath_text rooted]
  cases moved : environment.outcome (state.disk.renameText (root.rootText ++ source.text)
      (root.rootText ++ target.text) environment.now) with
  | error error => exact tells_error error rfl
  | ok disk' =>
      rcases state.disk.rename_ok (Environment.outcome_ok moved) with
        ⟨rfl, rfl⟩ | ⟨-, safe, -, -, rfl⟩
      · exact tells_success (Int.le_refl 0) (View.move_same source).symm
      · exact tells_success (Int.le_refl 0) (view_move safe environment.now)

/-- The result of an operation tells what a user sees after it. -/
theorem view_step (operation : Operation) (truly : ReportsTruly state ⟨operation, environment⟩) :
    Tells root (state.disk.view root)
      (fun result => (operation.told result).effect (state.disk.view root))
      (fs.outcome operation environment state) := by
  cases operation with
  | mknod path mode => exact view_mknod rooted environment state path mode truly
  | mkdir path mode => exact view_mkdir rooted environment state path mode
  | openFile path access trunc => exact view_open rooted environment state path access trunc truly
  | read path size offset =>
      rw [Tells, fs.exec_read]
      split <;> rfl
  | write path data offset => exact view_write rooted environment state path data offset
  | truncate path length => exact view_truncate rooted environment state path length
  | release path access =>
      have same : (fs.outcome (.release path access) environment state).2.disk = state.disk := by
        simp only [outcome, Operation.program]
        rcases fs.state_ndnfsRelease path.text environment state { access } with
          unchanged | ⟨content, count, released⟩
        · rw [unchanged]
        · rw [released]
      rw [Tells, same]
      split <;> rfl
  | unlink path => exact view_unlink rooted environment state path
  | rmdir path => exact view_rmdir rooted environment state path
  | rename source target => exact view_rename rooted environment state source target

end FileSystem

end Ndnfs

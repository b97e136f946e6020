import Mathlib.Data.List.DropRight
import Ndnfs.Proof.CurrentVersion

namespace Ndnfs
open KeyedTable Percent

/-- The last component of a path is the text after its last slash. -/
def lastComponent (path : Bytes) : Bytes := path.rtakeWhile (· ≠ slash)

/-- The type that is listed first for an extension, and the empty string for an unlisted one. -/
def listedType (ext : Bytes) : Bytes := (extMimeMap ext).getD []

/-- The type of a file name is listed for the extension that starts at its last period. -/
def NamedType (name mimeType : Bytes) : Prop :=
  (∃ stem ext, name = stem ++ period :: ext ∧ period ∉ ext ∧ mimeType = listedType (period :: ext)) ∨
    period ∉ name ∧ mimeType = []

section LastDot

theorem fromLastDot_cons (byte : UInt8) (rest : Bytes) : fromLastDot (byte :: rest) =
    (fromLastDot rest).or (if byte = period then some (byte :: rest) else none) := by
  rw [fromLastDot]
  cases fromLastDot rest <;> rfl

theorem fromLastDot_append (first second : Bytes) : fromLastDot (first ++ second) =
    (fromLastDot second).or ((fromLastDot first).map (· ++ second)) := by
  induction first with
  | nil => simp [fromLastDot]
  | cons byte first ih =>
      rw [List.cons_append, fromLastDot_cons, fromLastDot_cons, ih, Option.or_assoc, Option.map_or]
      split <;> rfl

theorem fromLastDot_eq_none {text : Bytes} (absent : period ∉ text) : fromLastDot text = none := by
  induction text with
  | nil => rfl
  | cons byte text ih =>
      rw [List.mem_cons, not_or] at absent
      rw [fromLastDot_cons, ih absent.2, if_neg (Ne.symm absent.1)]
      rfl

/-- The extension starts at the last period. -/
theorem fromLastDot_period (stem : Bytes) {ext : Bytes} (absent : period ∉ ext) :
    fromLastDot (stem ++ period :: ext) = some (period :: ext) := by
  rw [fromLastDot_append, fromLastDot_cons, fromLastDot_eq_none absent, if_pos rfl]
  rfl

theorem fromLastDot_suffix {text ext : Bytes} (found : fromLastDot text = some ext) :
    ext <:+ text ∧ ext ≠ [] := by
  induction text with
  | nil => cases found
  | cons byte text ih =>
      rw [fromLastDot_cons, Option.or_eq_some_iff] at found
      rcases found with later | ⟨-, here⟩
      · obtain ⟨ending, nonempty⟩ := ih later
        exact ⟨ending.trans (List.suffix_cons byte text), nonempty⟩
      · split at here
        · obtain rfl := Option.some.inj here
          exact ⟨List.suffix_refl _, List.cons_ne_nil _ _⟩
        · cases here

/-- Every text with a period has a last one. -/
theorem exists_lastDot {text : Bytes} (inside : period ∈ text) :
    ∃ stem ext, text = stem ++ period :: ext ∧ period ∉ ext := by
  obtain ⟨ext, stem, same, absent⟩ := List.eq_append_cons_of_mem (List.mem_reverse.mpr inside)
  refine ⟨stem.reverse, ext.reverse, ?_, by simpa using absent⟩
  rw [← List.reverse_reverse text, same]
  simp

end LastDot

/-- No extension of the table has a slash. -/
theorem listedType_slash {ext : Bytes} (inside : slash ∈ ext) : listedType ext = [] := by
  have clean : ∀ pair ∈ extMimePairs, slash ∉ ascii pair.1 := by decide +kernel
  have unlisted : extMimePairs.find? (fun pair => ascii pair.1 = ext) = none := by
    rw [List.find?_eq_none]
    intro pair member same
    rw [decide_eq_true_eq] at same
    exact clean pair member (same ▸ inside)
  rw [listedType, extMimeMap, unlisted]
  rfl

theorem mimeInfer_eq (path : Bytes) : mimeInfer path = ((fromLastDot path).map listedType).getD [] := by
  unfold mimeInfer
  cases fromLastDot path <;> rfl

/-- A period of an earlier component starts an extension with a slash, which is not listed. -/
theorem namedType_mimeInfer (path : Bytes) : NamedType (lastComponent path) (mimeInfer path) := by
  have whole : path.rdropWhile (· ≠ slash) ++ lastComponent path = path :=
    List.rdropWhile_append_rtakeWhile
  by_cases dotted : period ∈ lastComponent path
  · obtain ⟨stem, ext, name, absent⟩ := exists_lastDot dotted
    refine .inl ⟨stem, ext, name, absent, ?_⟩
    rw [mimeInfer_eq, ← whole, name, ← List.append_assoc, fromLastDot_period _ absent]
    rfl
  · refine .inr ⟨dotted, ?_⟩
    rw [mimeInfer_eq, ← whole, fromLastDot_append, fromLastDot_eq_none dotted, Option.none_or]
    cases found : fromLastDot (path.rdropWhile (· ≠ slash)) with
    | none => rfl
    | some ext =>
        obtain ⟨ending, nonempty⟩ := fromLastDot_suffix found
        have front : path.rdropWhile (· ≠ slash) ≠ [] := by
          intro empty
          rw [empty] at ending
          exact nonempty (List.suffix_nil.mp ending)
        have last : (path.rdropWhile (· ≠ slash)).getLast front = slash := by
          simpa using List.rdropWhile_last_not (· ≠ slash) path front
        have inside : slash ∈ ext := by
          rw [← last, ← ending.getLast nonempty]
          exact List.getLast_mem nonempty
        exact listedType_slash (List.mem_append_left _ inside)

/-- The recorded type is the inferred one, which is that of the last component. -/
structure FitsName (path mimeType : Bytes) : Prop where
  inferred : mimeType = mimeInfer path
  named : NamedType (lastComponent path) mimeType

theorem fitsName_iff (path mimeType : Bytes) : FitsName path mimeType ↔ mimeType = mimeInfer path := by
  constructor
  · exact FitsName.inferred
  · rintro rfl
    exact ⟨rfl, namedType_mimeInfer path⟩

/-- Every recorded type fits the path of its row. -/
def TypesFit (db : Database) : Prop :=
  ∀ path row, db.fileSystem.lookup path = some row → FitsName path row.mimeType

/-- A rename moves no row, or it moves it to a path of the same type. -/
def KeepsTypes (history : History) (request : Request) : Prop :=
  match request.operation with
  | .rename source target => source = target ∨ ¬ history.state.db.fileSystem.Has source.text ∨
      history.state.db.fileSystem.Has target.text ∨ mimeInfer source.text = mimeInfer target.text
  | _ => True

/-- A rename keeps the types exactly when it moves no row to a path of another type. -/
theorem typesFit_renameAll_iff {db : Database} {source target : Bytes} (different : source ≠ target)
    (fit : TypesFit db) : TypesFit (db.renameAll source target) ↔
      ¬ db.fileSystem.Has source ∨ db.fileSystem.Has target ∨
        mimeInfer source = mimeInfer target := by
  simp only [TypesFit, fitsName_iff] at fit ⊢
  constructor
  · intro renamed
    by_cases row : db.fileSystem.Has source
    · by_cases occupied : db.fileSystem.Has target
      · exact .inr (.inl occupied)
      · obtain ⟨moved, present⟩ := has_iff.mp row
        have there : (db.renameAll source target).fileSystem.lookup target = some moved := by
          rw [Database.lookup_renameAll_target db different, not_has_iff.mp occupied, present]
          rfl
        exact .inr (.inr ((fit source moved present).symm.trans (renamed target moved there)))
    · exact .inl row
  · intro kept path row present
    by_cases here : path = source
    · subst here
      rw [Database.lookup_renameAll_source db different] at present
      split at present
      · exact fit path row present
      · cases present
    · by_cases there : path = target
      · subst there
        rw [Database.lookup_renameAll_target db different, Option.or_eq_some_iff] at present
        rcases present with stays | ⟨free, moved⟩
        · exact fit path row stays
        · have same := (kept.resolve_left (not_not.mpr (has_iff.mpr ⟨row, moved⟩))).resolve_left
            (not_has_iff.mpr free)
          exact (fit source row moved).trans same
      · rw [Database.lookup_renameAll_other db here there] at present
        exact fit path row present

namespace FileSystem

variable (fs : FileSystem)

/-- An operation keeps the types exactly when it is no rename to a path of another type. -/
theorem typesFit_step_iff {history : History} {request : Request}
    (claimed : ChangesVersions request.operation) (fit : TypesFit history.state.db) :
    TypesFit (fs.step history request).state.db ↔ KeepsTypes history request := by
  obtain ⟨operation, environment⟩ := request
  cases operation with
  | mknod path mode =>
      simp only [step, Operation.program, db_ndnfsMknod, KeepsTypes, iff_true]
      split
      · exact fit
      · rename_i absent
        intro other row present
        have absent' : ¬ (history.state.db.insertFileVersion path.text
            (MachineInteger.toInt environment.now)).fileSystem.Has path.text := by
          rwa [Database.fileSystem_insertFileVersion]
        rw [mknodRows, Database.lookup_insertFileSystem absent',
          Database.fileSystem_insertFileVersion] at present
        split at present
        · rename_i same
          obtain rfl := Option.some.inj present
          rw [fitsName_iff, same]
        · exact fit other row present
  | release path access =>
      simp only [step, Operation.program, KeepsTypes, iff_true]
      rcases fs.state_ndnfsRelease path.text environment history.state { access } with
        same | ⟨content, count, signed⟩
      · rw [same]
        exact fit
      · rw [signed]
        intro other row present
        simp only [fileSystem_signSegments, releaseRows, Database.fileSystem_insertFileVersion,
          Database.lookup_updateCurrentVersion] at present
        obtain ⟨old, there, rfl⟩ := Option.map_eq_some_iff.mp present
        have kept := fit other old there
        split
        · exact kept
        · exact kept
  | unlink path =>
      simp only [step, Operation.program, db_ndnfsUnlink, KeepsTypes, iff_true]
      intro other row present
      rw [Database.lookup_deleteFileSystem] at present
      split at present
      · cases present
      · exact fit other row present
  | rename source target =>
      simp only [step, Operation.program, db_ndnfsRename, KeepsTypes]
      by_cases same : source = target
      · simp only [same, Database.renameAll_same, true_or, iff_true]
        exact fit
      · simp only [same, false_or]
        exact typesFit_renameAll_iff (mt Path.text_injective same) fit
  | _ => exact claimed.elim

/-- From an empty database, the types fit throughout exactly those runs in which no rename gives a
row to a path of another type. -/
theorem typesFit_run_iff (disk : Disk) (sent : List Data) (clock : Int) (requests : List Request)
    (claimed : ∀ request ∈ requests, ChangesVersions request.operation) :
    Run.Holds fs.step (fun history => TypesFit history.state.db) ⟨⟨.empty, disk, sent⟩, clock⟩
        requests ↔
      Run.Steps fs.step KeepsTypes ⟨⟨.empty, disk, sent⟩, clock⟩ requests := by
  apply Run.holds_iff_steps (fun _ request => ChangesVersions request.operation) fun _ => True
  · exact fun _ _ _ _ => trivial
  · exact fun history request changes _ fit => fs.typesFit_step_iff changes fit
  · exact Run.steps_of_forall _ claimed
  · trivial
  · intro path row present
    cases present

/-- The rename condition holds in a run that keeps the extension. -/
theorem typesFit_run_iff_renamed : Run.Holds Reference.fileSystem.step
    (fun history => TypesFit history.state.db) ⟨⟨.empty, .bare, []⟩, 0⟩
      [⟨.mknod ⟨[ascii "a.abc"], by decide⟩ Reference.regularMode, Reference.calm 1⟩,
        ⟨.rename ⟨[ascii "a.abc"], by decide⟩ ⟨[ascii "b.abc"], by decide⟩, Reference.calm 2⟩] ↔
    Run.Steps Reference.fileSystem.step KeepsTypes ⟨⟨.empty, .bare, []⟩, 0⟩
      [⟨.mknod ⟨[ascii "a.abc"], by decide⟩ Reference.regularMode, Reference.calm 1⟩,
        ⟨.rename ⟨[ascii "a.abc"], by decide⟩ ⟨[ascii "b.abc"], by decide⟩, Reference.calm 2⟩] :=
  typesFit_run_iff Reference.fileSystem .bare [] 0 _ (by simp [ChangesVersions])

/-- A file that gets another extension keeps its type. -/
theorem typesFit_run_fails : ¬ ∀ (fs : FileSystem) (disk : Disk) (sent : List Data) (clock : Int)
    (requests : List Request), (∀ request ∈ requests, ChangesVersions request.operation) →
      Run.Holds fs.step (fun history => TypesFit history.state.db)
        ⟨⟨.empty, disk, sent⟩, clock⟩ requests := by
  intro claim
  have holds := claim Reference.fileSystem .bare [] 0
    [⟨.mknod ⟨[ascii "a.abc"], by decide⟩ Reference.regularMode, Reference.calm 1⟩,
      ⟨.rename ⟨[ascii "a.abc"], by decide⟩ ⟨[ascii "b.ai"], by decide⟩, Reference.calm 2⟩]
    (by simp [ChangesVersions])
  have fits := holds.after_prefix (List.prefix_refl _) (ascii "/b.ai")
    ⟨1, ascii "text/vnd.abc", SignatureState.notReady.code, FileType.regular.code⟩
    (by decide +kernel)
  have inferred := fits.inferred
  revert inferred
  decide +kernel

end FileSystem

end Ndnfs

import Ndnfs.Fs.Change

namespace Ndnfs
open KeyedTable MachineInteger

/-- Both databases have the same rows for the paths of interest. -/
structure AlikeRows (inside : Bytes → Prop) (db db' : Database) : Prop where
  rows : AlikeOn inside db.fileSystem db'.fileSystem
  versions : AlikeOn (fun key => inside key.1) db.fileVersions db'.fileVersions
  segments : AlikeOn (fun key => inside key.1) db.fileSegments db'.fileSegments

theorem AlikeRows.refl (inside : Bytes → Prop) (db : Database) : AlikeRows inside db db :=
  ⟨fun _ _ => rfl, fun _ _ => rfl, fun _ _ => rfl⟩

theorem AlikeRows.symm {inside : Bytes → Prop} {db db' : Database}
    (alike : AlikeRows inside db db') : AlikeRows inside db' db :=
  ⟨alike.rows.symm, alike.versions.symm, alike.segments.symm⟩

theorem AlikeRows.trans {inside : Bytes → Prop} {first second third : Database}
    (alike : AlikeRows inside first second) (alike' : AlikeRows inside second third) :
    AlikeRows inside first third where
  rows key here := (alike.rows key here).trans (alike'.rows key here)
  versions key here := (alike.versions key here).trans (alike'.versions key here)
  segments key here := (alike.segments key here).trans (alike'.segments key here)

section Statements

variable {inside : Bytes → Prop} {source target : Path}

theorem insertCode_congr {first second : Prop} [Decidable first] [Decidable second]
    (same : first ↔ second) : Database.insertCode first = Database.insertCode second := by
  simp only [Database.insertCode, same]

/-- A rename of one path of interest to another moves only rows of interest. -/
theorem movesWithin_path (here : inside source.text) (there : inside target.text) :
    MovesWithin (movePath source.text target.text) inside where
  closed text moved := by
    unfold movePath at moved
    split at moved
    · exact ‹text = source.text› ▸ here
    · exact moved
  moved text moves := by
    unfold movePath at moves ⊢
    split at moves
    · rename_i same
      rw [if_pos same]
      exact ⟨same ▸ here, there⟩
    · exact absurd rfl moves

theorem movesWithin_key (A : Type) (here : inside source.text) (there : inside target.text) :
    MovesWithin (moveKey source.text target.text : Bytes × A → Bytes × A)
      (fun key => inside key.1) where
  closed key moved := (movesWithin_path here there).closed key.1 moved
  moved key moves := (movesWithin_path here there).moved key.1 fun same =>
    moves (Prod.ext same rfl)

variable {db db' : Database} {now : Int} {operation : Operation} {statement : Statement}

theorem AlikeRows.updateCurrentVersion (alike : AlikeRows inside db db')
    (here : inside source.text) (version : Int) :
    AlikeRows inside (db.updateCurrentVersion version source.text)
      (db'.updateCurrentVersion version source.text) := by
  have row := alike.rows source.text here
  unfold Database.updateCurrentVersion
  rw [← row]
  cases db.fileSystem.lookup source.text with
  | none => exact alike
  | some old => exact ⟨alike.rows.insert source.text _, alike.versions, alike.segments⟩

theorem AlikeRows.insertFileVersion (alike : AlikeRows inside db db')
    (here : inside source.text) (version : Int) :
    (db.execute (.insertFileVersion source.text version)).1 =
        (db'.execute (.insertFileVersion source.text version)).1 ∧
      AlikeRows inside (db.insertFileVersion source.text version)
        (db'.insertFileVersion source.text version) := by
  have known : db.fileVersions.Has (source.text, version) ↔
      db'.fileVersions.Has (source.text, version) := alike.versions.has here
  refine ⟨insertCode_congr known, ?_⟩
  simp only [Database.insertFileVersion, known]
  split
  · exact alike
  · exact ⟨alike.rows, alike.versions.insert _ _, alike.segments⟩

/-- A statement about paths of interest sees and changes only their rows. -/
theorem Operation.Executes.alike (executes : operation.Executes now statement)
    (within : ∀ path ∈ operation.paths, inside path.text) (alike : AlikeRows inside db db') :
    (db.execute statement).1 = (db'.execute statement).1 ∧
      AlikeRows inside (db.execute statement).2 (db'.execute statement).2 := by
  cases executes with
  | select _ path member =>
      refine ⟨?_, alike⟩
      simp only [Database.execute, alike.rows path.text (within path member)]
  | mknodSelect path mode =>
      refine ⟨?_, alike⟩
      simp only [Database.execute,
        alike.rows path.text (within path (List.mem_singleton_self path))]
  | mknodVersion path mode =>
      exact alike.insertFileVersion (within path (List.mem_singleton_self path)) _
  | mknodRow path mode mimeType readySigned type =>
      have known := alike.rows.has (within path (List.mem_singleton_self path))
      refine ⟨insertCode_congr known, ?_⟩
      simp only [Database.execute, Database.insertFileSystem, known]
      split
      · exact alike
      · exact ⟨alike.rows.insert _ _, alike.versions, alike.segments⟩
  | releaseRow path access writing =>
      exact ⟨rfl, alike.updateCurrentVersion (within path (List.mem_singleton_self path)) _⟩
  | releaseVersion path access writing =>
      exact alike.insertFileVersion (within path (List.mem_singleton_self path)) _
  | releaseSegment path access writing seg signature =>
      exact ⟨rfl, alike.rows, alike.versions, alike.segments.insert _ _⟩
  | unlinkRow path => exact ⟨rfl, alike.rows.erase _, alike.versions, alike.segments⟩
  | renameRow source target =>
      have small := movesWithin_path (within source List.mem_cons_self)
        (within target (List.mem_cons_of_mem _ (List.mem_singleton_self target)))
      have slide := movePath_slide source.text target.text
      refine ⟨insertCode_congr ?_, alike.rows.slideTo small slide, alike.versions, alike.segments⟩
      rw [rekey_eq_none_iff slide, rekey_eq_none_iff slide, alike.rows.clash_iff small]
  | renameVersions source target =>
      have small := movesWithin_key Int (within source List.mem_cons_self)
        (within target (List.mem_cons_of_mem _ (List.mem_singleton_self target)))
      have slide := @moveKey_slide Int source.text target.text
      refine ⟨insertCode_congr ?_, alike.rows, alike.versions.slideTo small slide, alike.segments⟩
      rw [rekey_eq_none_iff slide, rekey_eq_none_iff slide, alike.versions.clash_iff small]
  | renameSegments source target =>
      have small := movesWithin_key (Int × Int) (within source List.mem_cons_self)
        (within target (List.mem_cons_of_mem _ (List.mem_singleton_self target)))
      have slide := @moveKey_slide (Int × Int) source.text target.text
      refine ⟨insertCode_congr ?_, alike.rows, alike.versions, alike.segments.slideTo small slide⟩
      rw [rekey_eq_none_iff slide, rekey_eq_none_iff slide, alike.segments.clash_iff small]

end Statements

namespace Operation

/-- The rows of these paths can change. -/
def rowPaths : Operation → List Path
  | .mknod path _ | .unlink path => [path]
  | .release path access => if access = .readOnly then [] else [path]
  | .rename source target => if source = target then [] else [source, target]
  | .mkdir .. | .openFile .. | .read .. | .write .. | .truncate .. | .rmdir _ => []

theorem rowPaths_subset (operation : Operation) {path : Path} (member : path ∈ operation.rowPaths) :
    path ∈ operation.paths := by
  cases operation with
  | mknod other mode => exact member
  | unlink other => exact member
  | release other access =>
      rw [rowPaths] at member
      split at member
      · exact absurd member List.not_mem_nil
      · exact member
  | rename source target =>
      rw [rowPaths] at member
      split at member
      · exact absurd member List.not_mem_nil
      · exact member
  | _ => exact absurd member List.not_mem_nil

end Operation

section Change

variable {inside : Bytes → Prop} {source target : Path}

/-- A rename moves no row of interest when neither path is one, or when it changes nothing. -/
theorem rests_path (outside : source = target ∨ ¬ inside source.text ∧ ¬ inside target.text) :
    (∀ text, inside text → movePath source.text target.text text = text) ∧
      ∀ text, inside (movePath source.text target.text text) →
        movePath source.text target.text text = text := by
  rcases outside with rfl | ⟨here, there⟩
  · exact ⟨fun text _ => movePath_same text, fun text _ => movePath_same text⟩
  · constructor
    · intro text known
      refine movePath_other ?_
      rintro rfl
      exact here known
    · intro text known
      refine movePath_other ?_
      rintro rfl
      rw [movePath_source] at known
      exact there known

/-- Rows of interest stay when no path whose rows change is one. -/
theorem Operation.Change.alikeRows {root : Path} {now : Int} {operation : Operation}
    {state state' : State} (change : operation.Change root now state state')
    (outside : ∀ path ∈ operation.rowPaths, ¬ inside path.text) :
    AlikeRows inside state'.db state.db := by
  have rows := AlikeRows.refl inside state.db
  have written {path : Path} {access : AccessMode} (writing : access ≠ .readOnly)
      (release : operation = .release path access) : ¬ inside path.text := by
    subst release
    refine outside path ?_
    rw [rowPaths, if_neg writing]
    exact List.mem_singleton_self path
  have moved {source target : Path} (rename : operation = .rename source target) :
      source = target ∨ ¬ inside source.text ∧ ¬ inside target.text := by
    subst rename
    by_cases same : source = target
    · exact .inl same
    · rw [rowPaths, if_neg same] at outside
      exact .inr ⟨outside source List.mem_cons_self,
        outside target (List.mem_cons_of_mem _ (List.mem_singleton_self target))⟩
  have version {path : Path} (other : ¬ inside path.text) (now : Int) :
      AlikeRows inside (state.db.insertFileVersion path.text now) state.db := by
    unfold Database.insertFileVersion
    split
    · exact rows
    · exact ⟨rows.rows,
        @alikeOn_insert _ _ _ (fun key : Bytes × Int => inside key.1) _ _ other _, rows.segments⟩
  cases change with
  | mknodVersion path mode state => exact version (outside path (List.mem_singleton_self path)) _
  | releaseVersion path access state writing => exact version (written writing rfl) _
  | mknodRow path mode state row =>
      unfold Database.insertFileSystem
      split
      · exact rows
      · exact ⟨alikeOn_insert (outside path (List.mem_singleton_self path)) _, rows.versions,
          rows.segments⟩
  | releaseRow path access state writing =>
      unfold Database.updateCurrentVersion
      split
      · exact ⟨alikeOn_insert (written writing rfl) _, rows.versions, rows.segments⟩
      · exact rows
  | releaseSegment path access state writing seg signature =>
      exact ⟨rows.rows, rows.versions,
        @alikeOn_insert _ _ _ (fun key : Bytes × Int × Int => inside key.1) _ _
          (written writing rfl) _⟩
  | unlinkRow path state =>
      exact ⟨alikeOn_erase (outside path (List.mem_singleton_self path)), rows.versions,
        rows.segments⟩
  | renameRow source target state =>
      obtain ⟨fixed, rests⟩ := rests_path (moved rfl)
      exact ⟨alikeOn_slideTo (movePath_slide _ _) fixed rests, rows.versions, rows.segments⟩
  | renameVersions source target state =>
      obtain ⟨fixed, rests⟩ := rests_path (moved rfl)
      exact ⟨rows.rows, alikeOn_slideTo (moveKey_slide _ _)
        (fun key here => Prod.ext (fixed key.1 here) rfl)
        (fun key here => Prod.ext (rests key.1 here) rfl), rows.segments⟩
  | renameSegments source target state =>
      obtain ⟨fixed, rests⟩ := rests_path (moved rfl)
      exact ⟨rows.rows, rows.versions, alikeOn_slideTo (moveKey_slide _ _)
        (fun key here => Prod.ext (fixed key.1 here) rfl)
        (fun key here => Prod.ext (rests key.1 here) rfl)⟩
  | _ => exact rows

end Change

end Ndnfs

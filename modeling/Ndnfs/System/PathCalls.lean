import Ndnfs.System.FileCalls

namespace Ndnfs

/-- The object is not a directory. -/
def IsFile (entry : Option Entry) : Prop := entry ≠ none ∧ ¬ IsDirectory entry

instance (entry : Option Entry) : Decidable (IsFile entry) := inferInstanceAs (Decidable (_ ∧ _))

theorem isFile_some {entry : Entry} : IsFile (some entry) ↔ entry.kind ≠ .directory := by
  simp [IsFile, IsDirectory]

theorem isFile_none : ¬ IsFile none := fun file => file.1 rfl

/-- The root directory of the disk is no file, so a file has a name. -/
theorem ne_nil_of_isFile {disk : Disk} {location : Location} (file : IsFile (disk.entry location)) :
    location ≠ [] := by
  rintro rfl
  exact file.2 disk.root_directory

namespace Disk

variable (disk : Disk) {root : Path}

theorem create_ok {path : Path} {kind : NodeKind} {now : Int} {disk' : Disk}
    (success : disk.createText (root.rootText ++ path.text) kind now = .ok disk') :
    disk.Free (root.locate path) ∧ disk' = disk.create (root.locate path) kind now := by
  unfold createText at success
  split at success
  · cases success
  · rename_i location found
    obtain ⟨rfl, -⟩ := disk.find_ok found
    split at success
    · cases success
    · split at success
      · exact ⟨‹_›, (Except.ok.inj success).symm⟩
      · cases success

theorem unlink_ok {path : Path} {now : Int} {disk' : Disk}
    (success : disk.unlinkText (root.rootText ++ path.text) now = .ok disk') :
    IsFile (disk.entry (root.locate path)) ∧ disk' = disk.remove (root.locate path) now := by
  unfold unlinkText at success
  split at success
  · cases success
  · rename_i location entry found
    obtain ⟨rfl, present⟩ := disk.lookupText_ok found
    split at success
    · cases success
    · rename_i file
      rw [present]
      exact ⟨isFile_some.mpr file, (Except.ok.inj success).symm⟩

theorem rmdir_ok {path : Path} {now : Int} {disk' : Disk}
    (success : disk.rmdirText (root.rootText ++ path.text) now = .ok disk') :
    IsDirectory (disk.entry (root.locate path)) ∧ root.locate path ≠ [] ∧
      disk.NoChildren (root.locate path) ∧ disk' = disk.remove (root.locate path) now := by
  unfold rmdirText at success
  split at success
  · cases success
  · rename_i location entry found
    obtain ⟨rfl, present⟩ := disk.lookupText_ok found
    split at success
    · cases success
    · rename_i directory
      split at success
      · cases success
      · split at success
        · rename_i below empty
          rw [present]
          exact ⟨congrArg some (not_not.mp directory), below, empty, (Except.ok.inj success).symm⟩
        · cases success

theorem truncate_ok {path : Path} {length now : Int} {disk' : Disk}
    (success : disk.truncateText (root.rootText ++ path.text) length now = .ok disk') :
    (∃ content, disk.entry (root.locate path) = some ⟨.regular, content⟩) ∧
      disk' = disk.modify (root.locate path) (fun content => resize content length.toNat) now := by
  unfold truncateText at success
  split at success
  · cases success
  · rename_i location entry found
    obtain ⟨rfl, present⟩ := disk.lookupText_ok found
    split at success
    · cases success
    · split at success
      · rename_i regular
        exact ⟨⟨entry.content, by rw [present, ← regular]⟩, (Except.ok.inj success).symm⟩
      · cases success
      · cases success

theorem pwrite_ok {location : Location} {data : Bytes} {offset now : Int} {disk' : Disk}
    (success : disk.pwrite location data offset now = .ok disk') :
    (∃ content, disk.entry location = some ⟨.regular, content⟩) ∧
      disk' = disk.modify location (fun content => spliceAt content data offset.toNat) now := by
  unfold pwrite at success
  split at success
  · rename_i entry present
    split at success
    · cases success
    · split at success
      · rename_i regular
        exact ⟨⟨entry.content, by rw [present, ← regular]⟩, (Except.ok.inj success).symm⟩
      · cases success
      · cases success
  · cases success

theorem pwrite_nonneg {location : Location} {data : Bytes} {offset now : Int} {disk' : Disk}
    (success : disk.pwrite location data offset now = .ok disk') : 0 ≤ offset := by
  by_contra negative
  unfold pwrite at success
  split at success
  · rw [if_pos (Int.not_le.mp negative)] at success
    cases success
  · cases success

theorem truncate_nonneg {text : Bytes} {length now : Int} {disk' : Disk}
    (success : disk.truncateText text length now = .ok disk') : 0 ≤ length := by
  by_contra negative
  unfold truncateText at success
  split at success
  · cases success
  · rw [if_pos (Int.not_le.mp negative)] at success
    cases success

/-- stat(2) reports the length of the content. -/
theorem statText_of_lookupText {text : Bytes} {location : Location} {entry : Entry}
    (found : disk.lookupText text = .ok (location, entry)) :
    ∃ mtime, disk.statText text = .ok ⟨entry.content.length, mtime⟩ := by
  have present := disk.entry_of_lookupText found
  unfold lookupText at found
  cases place : disk.find text with
  | error error =>
      rw [place] at found
      cases found
  | ok other =>
      rw [place] at found
      simp only at found
      split at found
      · obtain ⟨rfl, -⟩ := Prod.mk.inj (Except.ok.inj found)
        rw [Disk.entry, nodeEntry, Option.map_eq_some_iff] at present
        obtain ⟨node, stored, rfl⟩ := present
        exact ⟨node.mtime, by simp only [statText, place, stored]⟩
      · cases found

/-- An open without O_CREAT changes at most the content of a regular file. -/
theorem open_ok {path : Path} (access : AccessMode) (trunc : Bool) {now : Int}
    {location : Location} {disk' : Disk}
    (success : disk.openText (root.rootText ++ path.text) { access, truncate := trunc } now =
      .ok (location, disk')) :
    location = root.locate path ∧ disk.entry location ≠ none ∧
      (disk' = disk ∨ trunc = true ∧
        (∃ content, disk.entry location = some ⟨.regular, content⟩) ∧
        disk' = disk.modify location (fun _ => []) now) := by
  unfold openText at success
  split at success
  · cases success
  · rename_i place found
    obtain ⟨rfl, -⟩ := disk.find_ok found
    split at success
    · rename_i entry present
      split at success
      · cases success
      · split at success
        · cases success
        · split at success
          · rename_i cut
            obtain ⟨rfl, rfl⟩ := Prod.mk.inj (Except.ok.inj success)
            exact ⟨rfl, by simp [present],
              .inr ⟨cut.1, ⟨entry.content, by rw [present, ← cut.2]⟩, rfl⟩⟩
          · obtain ⟨rfl, rfl⟩ := Prod.mk.inj (Except.ok.inj success)
            exact ⟨rfl, by simp [present], .inl rfl⟩
    · simp at success

/-- A rename to another path moves an object that the target does not forbid. -/
theorem rename_ok {source target : Path} {now : Int} {disk' : Disk}
    (success : disk.renameText (root.rootText ++ source.text) (root.rootText ++ target.text) now =
      .ok disk') :
    source = target ∧ disk' = disk ∨
      source ≠ target ∧ disk.MoveSafe (root.locate source) (root.locate target) ∧
        (IsFile (disk.entry (root.locate source)) →
          ¬ IsDirectory (disk.entry (root.locate target))) ∧
        (IsDirectory (disk.entry (root.locate source)) →
          ¬ IsFile (disk.entry (root.locate target))) ∧
        disk' = disk.move (root.locate source) (root.locate target) now := by
  unfold renameText at success
  split at success
  · cases success
  · rename_i old entry here
    obtain ⟨rfl, present⟩ := disk.lookupText_ok here
    split at success
    · cases success
    · rename_i new there
      obtain ⟨rfl, -⟩ := disk.find_ok there
      split at success
      · rename_i same
        exact .inl ⟨Path.locate_inj.mp same, (Except.ok.inj success).symm⟩
      · rename_i different
        split at success
        · cases success
        · split at success
          · cases success
          · split at success
            · cases success
            · rename_i onto_directory
              split at success
              · cases success
              · rename_i onto_file
                split at success
                · rename_i safe
                  refine .inr ⟨fun same => different (congrArg _ same), safe, ?_, ?_,
                    (Except.ok.inj success).symm⟩
                  · intro file directory
                    rw [present, isFile_some] at file
                    exact onto_directory ⟨directory, file⟩
                  · intro directory file
                    rw [present] at directory
                    exact onto_file ⟨file.1, file.2, Option.some.inj directory⟩
                · cases success

end Disk

end Ndnfs

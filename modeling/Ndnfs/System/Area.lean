import Ndnfs.System.PathCalls
import Ndnfs.System.Execution

namespace Ndnfs
open Percent

/-- The location lies in the area or on the way to it. -/
def Near (area location : Location) : Prop := location <+: area ∨ area <+: location

theorem near_of_above {area location upper : Location} (inside : area <+: location)
    (above : upper <+: location) : Near area upper :=
  List.prefix_or_prefix_of_prefix above inside

theorem near_append {area location : Location} (inside : area <+: location) (rest : Location) :
    Near area (location ++ rest) := .inr (inside.trans (List.prefix_append _ _))

theorem near_dropLast {area location : Location} (inside : area <+: location) :
    Near area location.dropLast := near_of_above inside (List.dropLast_prefix _)

/-- Two calls fail alike or succeed alike. -/
inductive FareAlike {A : Type} (alike : A → A → Prop) : Except Errno A → Except Errno A → Prop
  | error (error : Errno) : FareAlike alike (.error error) (.error error)
  | ok {value value' : A} (same : alike value value') : FareAlike alike (.ok value) (.ok value')

theorem FareAlike.map {A B : Type} {alike : A → A → Prop} {alike' : B → B → Prop} {f : A → B}
    (keeps : ∀ value value', alike value value' → alike' (f value) (f value'))
    {first second : Except Errno A} (fare : FareAlike alike first second) :
    FareAlike alike' (first.map f) (second.map f) := by
  cases fare with
  | error error => exact .error error
  | ok same => exact .ok (keeps _ _ same)

/-- Both disks have the same objects in the area and on the way to it. -/
def AlikeNear (area : Location) (disk disk' : Disk) : Prop :=
  ∀ location, Near area location → disk.entry location = disk'.entry location

namespace AlikeNear

variable {area location : Location} {disk disk' : Disk} (alike : AlikeNear area disk disk')
  (inside : area <+: location)

include alike

theorem modify (location : Location) (change : Bytes → Bytes) (now : Int) :
    AlikeNear area (disk.modify location change now) (disk'.modify location change now) := by
  intro other near
  rw [disk.entry_modify, disk'.entry_modify, alike other near]

include inside

theorem entry : disk.entry location = disk'.entry location := alike location (.inr inside)

theorem free_iff : disk.Free location ↔ disk'.Free location := by
  rw [Disk.Free, Disk.Free, alike.entry inside, alike _ (near_dropLast inside)]

theorem noChildren_iff : disk.NoChildren location ↔ disk'.NoChildren location := by
  rw [disk.noChildren_iff, disk'.noChildren_iff]
  apply forall_congr'
  intro name
  rw [alike _ (near_append inside [name])]

theorem create (kind : NodeKind) (now : Int) :
    AlikeNear area (disk.create location kind now) (disk'.create location kind now) := by
  intro other near
  by_cases free : disk.Free location
  · rw [disk.entry_create free, disk'.entry_create ((alike.free_iff inside).mp free),
      alike other near]
  · rw [Disk.create, dif_neg free, Disk.create, dif_neg (mt (alike.free_iff inside).mpr free)]
    exact alike other near

theorem remove (now : Int) :
    AlikeNear area (disk.remove location now) (disk'.remove location now) := by
  intro other near
  by_cases safe : location ≠ [] ∧ disk.NoChildren location
  · rw [disk.entry_remove safe.1 safe.2,
      disk'.entry_remove safe.1 ((alike.noChildren_iff inside).mp safe.2), alike other near]
  · have safe' : ¬ (location ≠ [] ∧ disk'.NoChildren location) := by
      rwa [← alike.noChildren_iff inside]
    rw [Disk.remove, dif_neg safe, Disk.remove, dif_neg safe']
    exact alike other near

variable {target : Location} (inside' : area <+: target)

include inside'

theorem moveSafe_iff : disk.MoveSafe location target ↔ disk'.MoveSafe location target := by
  rw [disk.moveSafe_iff, disk'.moveSafe_iff, alike.entry inside, alike.noChildren_iff inside',
    alike _ (near_dropLast inside')]

theorem move (now : Int) :
    AlikeNear area (disk.move location target now) (disk'.move location target now) := by
  intro other near
  by_cases safe : disk.MoveSafe location target
  · rw [disk.entry_move safe, disk'.entry_move ((alike.moveSafe_iff inside inside').mp safe),
      alike other near, alike _ (near_append inside _)]
  · rw [Disk.move, dif_neg safe, Disk.move,
      dif_neg (mt (alike.moveSafe_iff inside inside').mpr safe)]
    exact alike other near

end AlikeNear

section Texts

variable {area : Location} {disk disk' : Disk} {root path : Path}

theorem walk_congr {names : List Bytes} (valid : ∀ name ∈ names, ValidName name) {here : Location}
    (alike : ∀ location, here <+: location → location <+: here ++ names →
      disk.entry location = disk'.entry location) :
    disk.walk here names = disk'.walk here names := by
  induction names generalizing here with
  | nil => rfl
  | cons name names ih =>
      have same : disk.entry here = disk'.entry here :=
        alike here (List.prefix_refl _) (List.prefix_append _ _)
      have known := valid name List.mem_cons_self
      have skip : ¬ (name = [] ∨ name = ascii ".") :=
        not_or.mpr ⟨known.nonempty, known.not_dot⟩
      have later : disk.walk (here ++ [name]) names = disk'.walk (here ++ [name]) names := by
        refine ih (fun other member => valid other (List.mem_cons_of_mem _ member)) ?_
        intro location below above
        refine alike location ((List.prefix_append _ _).trans below) ?_
        rwa [List.append_assoc] at above
      rw [Disk.walk, Disk.walk, if_neg skip, if_neg skip, same, if_neg known.not_dotdot,
        if_neg known.not_dotdot, later]

variable (alike : AlikeNear area disk disk') (inside : area <+: root.locate path)

include alike inside

theorem find_congr :
    disk.find (root.rootText ++ path.text) = disk'.find (root.rootText ++ path.text) := by
  rw [disk.find_path, disk'.find_path]
  apply walk_congr (root.locate_valid path)
  intro location _ above
  exact alike location (near_of_above inside above)

theorem lookupText_congr :
    disk.lookupText (root.rootText ++ path.text) =
      disk'.lookupText (root.rootText ++ path.text) := by
  rw [Disk.lookupText, Disk.lookupText, ← find_congr alike inside]
  cases found : disk.find (root.rootText ++ path.text) with
  | error error => rfl
  | ok location =>
      obtain ⟨rfl, -⟩ := disk.find_ok found
      dsimp only
      rw [alike.entry inside]

theorem openText_alike (flags : OpenFlags) (now : Int) :
    FareAlike (fun first second => first.1 = second.1 ∧ AlikeNear area first.2 second.2)
      (disk.openText (root.rootText ++ path.text) flags now)
      (disk'.openText (root.rootText ++ path.text) flags now) := by
  rw [Disk.openText, Disk.openText, ← find_congr alike inside]
  cases found : disk.find (root.rootText ++ path.text) with
  | error error => exact .error error
  | ok location =>
      obtain ⟨rfl, -⟩ := disk.find_ok found
      dsimp only
      rw [← alike.entry inside]
      cases disk.entry (root.locate path) with
      | some entry =>
          dsimp only
          split
          · exact .error _
          · split
            · exact .error _
            · split
              · exact .ok ⟨rfl, alike.modify _ _ now⟩
              · exact .ok ⟨rfl, alike⟩
      | none =>
          dsimp only
          simp only [← alike.free_iff inside]
          split
          · exact .ok ⟨rfl, alike.create inside _ now⟩
          · exact .error _

theorem createText_alike (kind : NodeKind) (now : Int) :
    FareAlike (AlikeNear area) (disk.createText (root.rootText ++ path.text) kind now)
      (disk'.createText (root.rootText ++ path.text) kind now) := by
  rw [Disk.createText, Disk.createText, ← find_congr alike inside]
  cases found : disk.find (root.rootText ++ path.text) with
  | error error => exact .error error
  | ok location =>
      obtain ⟨rfl, -⟩ := disk.find_ok found
      dsimp only
      simp only [← alike.entry inside, ← alike.free_iff inside]
      split
      · exact .error _
      · split
        · exact .ok (alike.create inside kind now)
        · exact .error _

theorem truncateText_alike (length now : Int) :
    FareAlike (AlikeNear area) (disk.truncateText (root.rootText ++ path.text) length now)
      (disk'.truncateText (root.rootText ++ path.text) length now) := by
  rw [Disk.truncateText, Disk.truncateText, ← lookupText_congr alike inside]
  split
  · exact .error _
  · split
    · exact .error _
    · split
      · exact .ok (alike.modify _ _ now)
      · exact .error _
      · exact .error _

theorem unlinkText_alike (now : Int) :
    FareAlike (AlikeNear area) (disk.unlinkText (root.rootText ++ path.text) now)
      (disk'.unlinkText (root.rootText ++ path.text) now) := by
  rw [Disk.unlinkText, Disk.unlinkText, ← lookupText_congr alike inside]
  split
  · exact .error _
  · rename_i location entry found
    obtain ⟨rfl, -⟩ := disk.lookupText_ok found
    split
    · exact .error _
    · exact .ok (alike.remove inside now)

theorem rmdirText_alike (now : Int) :
    FareAlike (AlikeNear area) (disk.rmdirText (root.rootText ++ path.text) now)
      (disk'.rmdirText (root.rootText ++ path.text) now) := by
  rw [Disk.rmdirText, Disk.rmdirText, ← lookupText_congr alike inside]
  split
  · exact .error _
  · rename_i location entry found
    obtain ⟨rfl, -⟩ := disk.lookupText_ok found
    simp only [← alike.noChildren_iff inside]
    split
    · exact .error _
    · split
      · exact .error _
      · split
        · exact .ok (alike.remove inside now)
        · exact .error _

theorem renameText_alike {target : Path} (inside' : area <+: root.locate target) (now : Int) :
    FareAlike (AlikeNear area)
      (disk.renameText (root.rootText ++ path.text) (root.rootText ++ target.text) now)
      (disk'.renameText (root.rootText ++ path.text) (root.rootText ++ target.text) now) := by
  rw [Disk.renameText, Disk.renameText, ← lookupText_congr alike inside,
    ← find_congr alike inside']
  split
  · exact .error _
  · rename_i old entry found
    obtain ⟨rfl, -⟩ := disk.lookupText_ok found
    split
    · exact .error _
    · rename_i new there
      obtain ⟨rfl, -⟩ := disk.find_ok there
      simp only [← alike.entry inside', ← alike.moveSafe_iff inside inside']
      split
      · exact .ok alike
      · split
        · exact .error _
        · split
          · exact .error _
          · split
            · exact .error _
            · split
              · exact .error _
              · split
                · exact .ok (alike.move inside inside' now)
                · exact .error _

end Texts

section Locations

variable {area location : Location} {disk disk' : Disk} (alike : AlikeNear area disk disk')
  (inside : area <+: location)

include alike inside

theorem pread_congr (count : Nat) (offset : Int) :
    disk.pread location count offset = disk'.pread location count offset := by
  rw [Disk.pread, Disk.pread, alike.entry inside]

theorem pwrite_alike (data : Bytes) (offset now : Int) :
    FareAlike (AlikeNear area) (disk.pwrite location data offset now)
      (disk'.pwrite location data offset now) := by
  rw [Disk.pwrite, Disk.pwrite, ← alike.entry inside]
  split
  · split
    · exact .error _
    · split
      · exact .ok (alike.modify _ _ now)
      · exact .error _
      · exact .error _
  · exact .error _

end Locations

end Ndnfs

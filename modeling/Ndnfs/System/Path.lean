import Ndnfs.System.Disk

namespace Ndnfs
open Percent

/-- The size of the buffers that abs_path fills. -/
def PATH_MAX : Nat := 4096

/-- A file name has no slash and no NUL and is not `.` or `..`. -/
structure ValidName (name : Bytes) : Prop where
  nonempty : name ≠ []
  not_dot : name ≠ ascii "."
  not_dotdot : name ≠ ascii ".."
  no_slash : slash ∉ name
  no_nul : (0 : UInt8) ∉ name

theorem validName_iff (name : Bytes) : ValidName name ↔ name ≠ [] ∧ name ≠ ascii "." ∧
    name ≠ ascii ".." ∧ slash ∉ name ∧ (0 : UInt8) ∉ name :=
  ⟨fun valid => ⟨valid.nonempty, valid.not_dot, valid.not_dotdot, valid.no_slash, valid.no_nul⟩,
    fun ⟨nonempty, not_dot, not_dotdot, no_slash, no_nul⟩ =>
      ⟨nonempty, not_dot, not_dotdot, no_slash, no_nul⟩⟩

instance (name : Bytes) : Decidable (ValidName name) := decidable_of_iff _ (validName_iff name).symm

/-- FUSE passes absolute paths in normal form. -/
structure Path where
  names : List Bytes
  valid : ∀ name ∈ names, ValidName name
  deriving DecidableEq

namespace Path

/-- The root directory of the mount is `/`. -/
def parts (path : Path) : List Bytes := if path.names = [] then [[]] else path.names

def text (path : Path) : Bytes := joinSlash path.parts

/-- The root path has no trailing slash. -/
def rootText (path : Path) : Bytes := joinSlash path.names

theorem ext_names {first second : Path} (same : first.names = second.names) : first = second := by
  cases first
  cases second
  simpa using same

theorem slash_notMem_parts (path : Path) : ∀ part ∈ path.parts, slash ∉ part := by
  intro part member
  unfold parts at member
  split at member
  · simp only [List.mem_singleton] at member
    simp [member]
  · exact (path.valid part member).no_slash

/-- The text determines the path. -/
theorem text_injective {first second : Path} (same : first.text = second.text) : first = second := by
  have parts := joinSlash_injective first.slash_notMem_parts second.slash_notMem_parts same
  apply ext_names
  unfold Path.parts at parts
  split at parts <;> split at parts
  · rename_i empty empty'
    rw [empty, empty']
  · exact absurd rfl (second.valid [] (by simp [← parts])).nonempty
  · exact absurd rfl (first.valid [] (by simp [parts])).nonempty
  · exact parts

/-- The location of a path below the root path. -/
def locate (root path : Path) : Location := root.names ++ path.names

theorem locate_valid (root path : Path) : ∀ name ∈ root.locate path, ValidName name := by
  intro name member
  rcases List.mem_append.mp member with upper | lower
  · exact root.valid name upper
  · exact path.valid name lower

theorem locate_inj {root first second : Path} :
    root.locate first = root.locate second ↔ first = second := by
  constructor
  · intro same
    exact ext_names (List.append_cancel_left same)
  · rintro rfl
    rfl

end Path

namespace Disk

variable (disk : Disk)

/-- The kernel resolves one name after the other. -/
def walk : Location → List Bytes → Except Errno Location
  | here, [] => .ok here
  | here, part :: parts =>
      if part = [] ∨ part = ascii "." then walk here parts
      else if IsDirectory (disk.entry here) then
        if part = ascii ".." then walk here.dropLast parts else walk (here ++ [part]) parts
      else if disk.entry here = none then .error .ENOENT
      else .error .ENOTDIR

/-- The location of an absolute path; the last name may be missing. -/
def find (text : Bytes) : Except Errno Location := disk.walk [] (text.splitOn slash)

/-- The object of an absolute path. -/
def lookupText (text : Bytes) : Except Errno (Location × Entry) :=
  match disk.find text with
  | .error error => .error error
  | .ok location =>
      match disk.entry location with
      | some entry => .ok (location, entry)
      | none => .error .ENOENT

/-- A successful lookup gives an object of the disk. -/
theorem entry_of_lookupText {text : Bytes} {location : Location} {entry : Entry}
    (success : disk.lookupText text = .ok (location, entry)) : disk.entry location = some entry := by
  unfold lookupText at success
  split at success
  · cases success
  · split at success
    · rename_i present
      obtain ⟨rfl, rfl⟩ := Prod.mk.inj (Except.ok.inj success)
      exact present
    · cases success

theorem walk_name {here : Location} {name : Bytes} (valid : ValidName name)
    (directory : IsDirectory (disk.entry here)) (rest : List Bytes) :
    disk.walk here (name :: rest) = disk.walk (here ++ [name]) rest := by
  rw [walk, if_neg (not_or.mpr ⟨valid.nonempty, valid.not_dot⟩), if_pos directory,
    if_neg valid.not_dotdot]

/-- The way to an existing object exists. -/
theorem walk_of_entry {names : List Bytes} (valid : ∀ name ∈ names, ValidName name)
    (here : Location) (present : disk.entry (here ++ names) ≠ none) :
    disk.walk here names = .ok (here ++ names) := by
  induction names generalizing here with
  | nil => simp [walk]
  | cons name names ih =>
      rw [disk.walk_name (valid name (by simp)) (disk.ancestor_directory (by simp) present),
        ih (fun other member => valid other (by simp [member])) _ (by simpa using present)]
      simp

/-- A successful walk ends at the named location, whose directory exists. -/
theorem walk_ok {names : List Bytes} (valid : ∀ name ∈ names, ValidName name)
    {here location : Location} (success : disk.walk here names = .ok location) :
    location = here ++ names ∧ (names ≠ [] → IsDirectory (disk.entry location.dropLast)) := by
  induction names generalizing here with
  | nil =>
      rw [walk, Except.ok.injEq] at success
      simp [success]
  | cons name names ih =>
      by_cases directory : IsDirectory (disk.entry here)
      · rw [disk.walk_name (valid name (by simp)) directory] at success
        obtain ⟨rfl, last⟩ := ih (fun other member => valid other (by simp [member])) success
        refine ⟨by simp, fun _ => ?_⟩
        by_cases empty : names = []
        · subst empty
          simpa using directory
        · exact last empty
      · have known := valid name (by simp)
        rw [walk, if_neg (not_or.mpr ⟨known.nonempty, known.not_dot⟩), if_neg directory] at success
        split at success <;> cases success

theorem splitOn_joinSlash {parts : List Bytes} (clean : ∀ part ∈ parts, slash ∉ part) :
    (joinSlash parts).splitOn slash = [] :: parts := by
  induction parts with
  | nil => rfl
  | cons part parts ih =>
      have split (first : Bytes) (absent : slash ∉ first) :
          (first ++ joinSlash parts).splitOn slash = first :: parts := by
        have rest := ih fun other member => clean other (by simp [member])
        cases parts with
        | nil => simpa using List.splitOn_eq_singleton absent
        | cons next parts =>
            rw [joinSlash_cons, ← List.nil_append (slash :: _),
              List.splitOn_append_cons_self_of_not_mem (by simp)] at rest
            rw [joinSlash_cons, List.splitOn_append_cons_self_of_not_mem absent]
            simpa using rest
      rw [joinSlash_cons, ← List.nil_append (slash :: _),
        List.splitOn_append_cons_self_of_not_mem (by simp), split part (clean part (by simp))]

/-- An empty last part stays where it is. -/
theorem walk_append_empty (here : Location) (names : List Bytes) :
    disk.walk here (names ++ [[]]) = disk.walk here names := by
  induction names generalizing here with
  | nil => simp [walk]
  | cons name names ih => simp only [List.cons_append, walk, ih]

theorem find_path (root path : Path) :
    disk.find (root.rootText ++ path.text) = disk.walk [] (root.locate path) := by
  have clean : ∀ part ∈ root.names ++ path.parts, slash ∉ part := by
    intro part member
    rcases List.mem_append.mp member with upper | lower
    · exact (root.valid part upper).no_slash
    · exact path.slash_notMem_parts part lower
  rw [find, Path.rootText, Path.text, ← joinSlash_append, splitOn_joinSlash clean, walk,
    if_pos (.inl rfl)]
  unfold Path.parts
  split
  · rename_i empty
    rw [walk_append_empty, Path.locate, empty, List.append_nil]
  · rfl

/-- An existing object is found under its path. -/
theorem find_of_entry {root path : Path} (present : disk.entry (root.locate path) ≠ none) :
    disk.find (root.rootText ++ path.text) = .ok (root.locate path) := by
  rw [find_path]
  exact disk.walk_of_entry (root.locate_valid path) [] present

theorem find_ok {root path : Path} {location : Location}
    (success : disk.find (root.rootText ++ path.text) = .ok location) :
    location = root.locate path ∧
      (root.locate path ≠ [] → IsDirectory (disk.entry (root.locate path).dropLast)) := by
  rw [find_path] at success
  obtain ⟨rfl, last⟩ := disk.walk_ok (root.locate_valid path) success
  exact ⟨rfl, last⟩

theorem lookupText_some {root path : Path} {entry : Entry}
    (present : disk.entry (root.locate path) = some entry) :
    disk.lookupText (root.rootText ++ path.text) = .ok (root.locate path, entry) := by
  simp only [lookupText, disk.find_of_entry (present ▸ Option.some_ne_none entry), present]

theorem lookupText_none {root path : Path} (absent : disk.entry (root.locate path) = none) :
    ∃ error, disk.lookupText (root.rootText ++ path.text) = .error error := by
  unfold lookupText
  split
  · exact ⟨_, rfl⟩
  · rename_i location found
    obtain ⟨rfl, -⟩ := disk.find_ok found
    simp only [absent]
    exact ⟨_, rfl⟩

theorem lookupText_ok {root path : Path} {found : Location × Entry}
    (success : disk.lookupText (root.rootText ++ path.text) = .ok found) :
    found.1 = root.locate path ∧ disk.entry (root.locate path) = some found.2 := by
  cases present : disk.entry (root.locate path) with
  | none =>
      obtain ⟨error, failed⟩ := disk.lookupText_none present
      rw [failed] at success
      cases success
  | some entry =>
      rw [disk.lookupText_some present] at success
      obtain rfl := Except.ok.inj success
      exact ⟨rfl, rfl⟩

end Disk

end Ndnfs

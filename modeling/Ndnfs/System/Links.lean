import Ndnfs.Foundation.MachineInteger
import Ndnfs.Foundation.Program
import Ndnfs.System.Path

namespace Ndnfs
open Effect MachineInteger Percent

/-- A disk with symbolic links; each one stands in a directory where no other object is. -/
structure LinkedDisk where
  disk : Disk
  links : KeyedTable Location Bytes
  apart : ∀ location, links.Has location → disk.Free location

/-- The way stops at a location or at a link with some parts still to go. -/
inductive Stretch where
  | arrived (location : Location)
  | link (directory : Location) (target : Bytes) (rest : List Bytes)

namespace LinkedDisk

/-- No link stands on this disk. -/
def plain (disk : Disk) : LinkedDisk where
  disk
  links := ∅
  apart _ present := absurd rfl present

section Resolution

variable (linked : LinkedDisk)

/-- The kernel goes from one existing directory to the next. -/
def stretch : Location → List Bytes → Except Errno Stretch
  | here, [] => .ok (.arrived here)
  | here, part :: parts =>
      if ¬ IsDirectory (linked.disk.entry here) then .error .ENOTDIR
      else if part = [] ∨ part = ascii "." then stretch here parts
      else if part = ascii ".." then stretch here.dropLast parts
      else match linked.links.lookup (here ++ [part]) with
        | some target => .ok (.link here target parts)
        | none =>
            if linked.disk.entry (here ++ [part]) = none then .error .ENOENT
            else stretch (here ++ [part]) parts

/-- The text of a link takes its place, from the root when it begins with a slash; so many links are
followed. -/
def follow : Nat → Location → List Bytes → Except Errno Location
  | links, here, parts =>
      match linked.stretch here parts with
      | .error error => .error error
      | .ok (.arrived location) => .ok location
      | .ok (.link directory target rest) =>
          match links with
          | 0 => .error .ELOOP
          | links + 1 => follow links (if target.head? = some slash then [] else directory)
              (target.splitOn slash ++ rest)

def maxLinks : Nat := 40

/-- The directory and the last part of a path; a link in the place of the last part is not
followed. -/
def resolve (text : Bytes) : Except Errno (Location × Bytes) :=
  if PATH_MAX ≤ text.length then .error .ENAMETOOLONG
  else match linked.follow maxLinks [] (text.splitOn slash).dropLast with
    | .error error => .error error
    | .ok here =>
        if IsDirectory (linked.disk.entry here) then .ok (here, (text.splitOn slash).getLastD [])
        else .error .ENOTDIR

/-- A path with such a last part names a directory. -/
def NamesDirectory (part : Bytes) : Prop := part = [] ∨ part = ascii "." ∨ part = ascii ".."

instance (part : Bytes) : Decidable (NamesDirectory part) := inferInstanceAs (Decidable (_ ∨ _ ∨ _))

/-- Neither a link nor another object stands here. -/
def Vacant (location : Location) : Prop :=
  ¬ linked.links.Has location ∧ linked.disk.Free location

instance (location : Location) : Decidable (linked.Vacant location) :=
  inferInstanceAs (Decidable (_ ∧ _))

def addLink {location : Location} (vacant : linked.Vacant location) (target : Bytes) :
    LinkedDisk where
  disk := linked.disk
  links := linked.links.insert location target
  apart other present := by
    rw [KeyedTable.Has, KeyedTable.lookup_insert_eq] at present
    split at present
    · rename_i same
      exact same ▸ vacant.2
    · exact linked.apart other present

/-- symlink(2) keeps the target as the text it is. -/
def symlinkText (target text : Bytes) : Except Errno LinkedDisk :=
  if target = [] then .error .ENOENT
  else if PATH_MAX ≤ target.length then .error .ENAMETOOLONG
  else match linked.resolve text with
    | .error error => .error error
    | .ok (here, part) =>
        if NamesDirectory part then .error .EEXIST
        else if vacant : linked.Vacant (here ++ [part]) then .ok (linked.addLink vacant target)
        else .error .EEXIST

/-- readlink(2) takes the size of the buffer as an int. -/
def readlinkText (text : Bytes) (bufsiz : Int) : Except Errno Bytes :=
  if bufsiz ≤ 0 then .error .EINVAL
  else match linked.resolve text with
    | .error error => .error error
    | .ok (here, part) =>
        if NamesDirectory part then .error .EINVAL
        else match linked.links.lookup (here ++ [part]) with
          | some target => .ok (target.take bufsiz.toNat)
          | none => .error (if linked.disk.entry (here ++ [part]) = none then .ENOENT else .EINVAL)

end Resolution

section Laws

variable {linked : LinkedDisk} {location : Location} {target : Bytes}

/-- A way that ends does not pass a vacant location, so a new link there is not met. -/
theorem stretch_addLink (vacant : linked.Vacant location) {here : Location} {parts : List Bytes}
    {stop : Stretch} (success : linked.stretch here parts = .ok stop) :
    (linked.addLink vacant target).stretch here parts = .ok stop := by
  induction parts generalizing here with
  | nil => exact success
  | cons part parts ih =>
      unfold stretch at success ⊢
      change (if ¬ IsDirectory (linked.disk.entry here) then _ else _) = _
      split
      · rename_i outside
        rw [if_pos outside] at success
        cases success
      · rename_i inside
        rw [if_neg inside] at success
        split
        · rename_i same
          rw [if_pos same] at success
          exact ih success
        · rename_i other
          rw [if_neg other] at success
          split
          · rename_i up
            rw [if_pos up] at success
            exact ih success
          · rename_i down
            rw [if_neg down] at success
            have lookup : (linked.addLink vacant target).links.lookup (here ++ [part]) =
                if here ++ [part] = location then some target
                else linked.links.lookup (here ++ [part]) :=
              KeyedTable.lookup_insert_eq _ _ _ _
            have elsewhere : here ++ [part] ≠ location := by
              intro same
              have absent := KeyedTable.not_has_iff.mp vacant.1
              rw [same, absent, if_pos vacant.2.1] at success
              cases success
            rw [lookup, if_neg elsewhere]
            split at success
            · exact success
            · split at success
              · cases success
              · rename_i present
                change (if linked.disk.entry (here ++ [part]) = none then _ else _) = _
                rw [if_neg present]
                exact ih success

theorem follow_addLink (vacant : linked.Vacant location) {links : Nat} {here last : Location}
    {parts : List Bytes} (success : linked.follow links here parts = .ok last) :
    (linked.addLink vacant target).follow links here parts = .ok last := by
  induction links generalizing here parts with
  | zero =>
      unfold follow at success ⊢
      split at success
      · cases success
      · rename_i arrived
        rw [stretch_addLink vacant arrived]
        exact success
      · cases success
  | succ links ih =>
      unfold follow at success ⊢
      split at success
      · cases success
      · rename_i arrived
        rw [stretch_addLink vacant arrived]
        exact success
      · rename_i met
        rw [stretch_addLink vacant met]
        exact ih success

theorem resolve_addLink (vacant : linked.Vacant location) {text : Bytes}
    {found : Location × Bytes} (success : linked.resolve text = .ok found) :
    (linked.addLink vacant target).resolve text = .ok found := by
  unfold resolve at success ⊢
  split
  · rename_i long
    rw [if_pos long] at success
    cases success
  · rename_i short
    rw [if_neg short] at success
    split at success
    · cases success
    · rename_i followed
      rw [follow_addLink vacant followed]
      exact success

/-- The text of a new link is read back up to the size of the buffer. -/
theorem readlink_symlink {text : Bytes} {linked' : LinkedDisk}
    (created : linked.symlinkText target text = .ok linked') (bufsiz : Int) :
    linked'.readlinkText text bufsiz =
      if bufsiz ≤ 0 then .error .EINVAL else .ok (target.take bufsiz.toNat) := by
  unfold symlinkText at created
  split at created
  · cases created
  · split at created
    · cases created
    · split at created
      · cases created
      · rename_i here part resolved
        split at created
        · cases created
        · rename_i named
          split at created
          · rename_i vacant
            obtain rfl := Except.ok.inj created
            have lookup : (linked.addLink vacant target).links.lookup (here ++ [part]) =
                some target := AList.lookup_insert _
            unfold readlinkText
            rw [resolve_addLink vacant resolved]
            dsimp only
            rw [if_neg named, lookup]
          · cases created

end Laws

end LinkedDisk

/-- The calls to the kernel about symbolic links. -/
inductive LinkCall where
  | symlink (target path : Bytes)
  | readlink (path : Bytes) (bufsiz : Nat)

@[reducible] def LinkCall.Reply : LinkCall → Type
  | .symlink .. => Except Errno Unit
  | .readlink .. => Except Errno Bytes

abbrev LinkCall.invoke (call : LinkCall) : Program LinkCall LinkCall.Reply call.Reply :=
  .perform call

def LinkCall.handle : (call : LinkCall) → LinkedDisk → call.Reply × LinkedDisk
  | .symlink target path, linked =>
      match linked.symlinkText target path with
      | .error error => (.error error, linked)
      | .ok linked' => (.ok (), linked')
  | .readlink path bufsiz, linked => (linked.readlinkText path (toInt bufsiz), linked)

end Ndnfs

import Ndnfs.System.Path

namespace Ndnfs

inductive AccessMode where
  | readOnly
  | writeOnly
  | readWrite
  deriving DecidableEq

/-- The flags of open(2) that the programs pass. -/
structure OpenFlags where
  access : AccessMode
  create : Bool := false
  exclusive : Bool := false
  truncate : Bool := false
  deriving DecidableEq

def O_RDONLY : OpenFlags := { access := .readOnly }
def O_RDWR : OpenFlags := { access := .readWrite }

/-- A mode holds the file type in these bits. -/
def S_IFMT : Nat := 0o170000
def S_IFSOCK : Nat := 0o140000
def S_IFLNK : Nat := 0o120000
def S_IFREG : Nat := 0o100000
def S_IFBLK : Nat := 0o060000
def S_IFDIR : Nat := 0o040000
def S_IFCHR : Nat := 0o020000
def S_IFIFO : Nat := 0o010000

def S_ISREG (mode : Nat) : Bool := mode &&& S_IFMT == S_IFREG
def S_ISFIFO (mode : Nat) : Bool := mode &&& S_IFMT == S_IFIFO

structure Stat where
  size : Nat
  mtime : Int
  deriving DecidableEq

/-- A write after the end fills the gap with zeros. -/
def spliceAt (content data : Bytes) (offset : Nat) : Bytes :=
  if data = [] then content
  else (content ++ List.replicate (offset - content.length) 0).take offset ++ data ++
    content.drop (offset + data.length)

/-- The new end cuts the content or fills it with zeros. -/
def resize (content : Bytes) (length : Nat) : Bytes :=
  content.take length ++ List.replicate (length - content.length) 0

theorem length_resize (content : Bytes) (length : Nat) : (resize content length).length = length := by
  rw [resize, List.length_append, List.length_take, List.length_replicate]
  omega

namespace Disk

variable (disk : Disk)

/-- This is the location that open(2) opens and the disk that it leaves. -/
def openText (text : Bytes) (flags : OpenFlags) (now : Int) : Except Errno (Location × Disk) :=
  match disk.find text with
  | .error error => .error error
  | .ok location =>
      match disk.entry location with
      | some entry =>
          if flags.create ∧ flags.exclusive then .error .EEXIST
          else if entry.kind = .directory ∧ flags.access ≠ .readOnly then .error .EISDIR
          else if flags.truncate ∧ entry.kind = .regular then
            .ok (location, disk.modify location (fun _ => []) now)
          else .ok (location, disk)
      | none =>
          if flags.create ∧ disk.Free location then
            .ok (location, disk.create location .regular now)
          else .error .ENOENT

/-- Only a regular file has bytes at an offset. -/
def pread (location : Location) (count : Nat) (offset : Int) : Except Errno Bytes :=
  match disk.entry location with
  | some entry =>
      if offset < 0 then .error .EINVAL
      else match entry.kind with
        | .regular => .ok ((entry.content.drop offset.toNat).take count)
        | .directory => .error .EISDIR
        | _ => .error .ESPIPE
  | none => .error .ioError

def pwrite (location : Location) (data : Bytes) (offset now : Int) : Except Errno Disk :=
  match disk.entry location with
  | some entry =>
      if offset < 0 then .error .EINVAL
      else match entry.kind with
        | .regular => .ok (disk.modify location (fun content => spliceAt content data offset.toNat) now)
        | .directory => .error .EISDIR
        | _ => .error .ESPIPE
  | none => .error .ioError

def truncateText (text : Bytes) (length now : Int) : Except Errno Disk :=
  match disk.lookupText text with
  | .error error => .error error
  | .ok (location, entry) =>
      if length < 0 then .error .EINVAL
      else match entry.kind with
        | .regular => .ok (disk.modify location (fun content => resize content length.toNat) now)
        | .directory => .error .EISDIR
        | _ => .error .EINVAL

/-- mkdir(2), mkfifo(3) and mknod(2) create an object of the given kind. -/
def createText (text : Bytes) (kind : NodeKind) (now : Int) : Except Errno Disk :=
  match disk.find text with
  | .error error => .error error
  | .ok location =>
      if disk.entry location ≠ none then .error .EEXIST
      else if disk.Free location then .ok (disk.create location kind now)
      else .error .ENOENT

/-- mknod(2) refuses to make a directory and an unknown type. -/
def mknodKind (mode : Nat) : Except Errno NodeKind :=
  if mode &&& S_IFMT = S_IFREG ∨ mode &&& S_IFMT = 0 then .ok .regular
  else if mode &&& S_IFMT = S_IFCHR then .ok .characterSpecial
  else if mode &&& S_IFMT = S_IFBLK then .ok .blockSpecial
  else if mode &&& S_IFMT = S_IFIFO then .ok .fifo
  else if mode &&& S_IFMT = S_IFSOCK then .ok .socket
  else if mode &&& S_IFMT = S_IFDIR then .error .EPERM
  else .error .EINVAL

def unlinkText (text : Bytes) (now : Int) : Except Errno Disk :=
  match disk.lookupText text with
  | .error error => .error error
  | .ok (location, entry) =>
      if entry.kind = .directory then .error .EISDIR else .ok (disk.remove location now)

def rmdirText (text : Bytes) (now : Int) : Except Errno Disk :=
  match disk.lookupText text with
  | .error error => .error error
  | .ok (location, entry) =>
      if entry.kind ≠ .directory then .error .ENOTDIR
      else if location = [] then .error .EBUSY
      else if disk.NoChildren location then .ok (disk.remove location now)
      else .error .ENOTEMPTY

/-- rename(2) replaces an object by an object and an empty directory by a directory. -/
def renameText (source target : Bytes) (now : Int) : Except Errno Disk :=
  match disk.lookupText source with
  | .error error => .error error
  | .ok (old, entry) =>
      match disk.find target with
      | .error error => .error error
      | .ok new =>
          if old = new then .ok disk
          else if old = [] ∨ new = [] then .error .EBUSY
          else if old <+: new then .error .EINVAL
          else if IsDirectory (disk.entry new) ∧ entry.kind ≠ .directory then .error .EISDIR
          else if disk.entry new ≠ none ∧ ¬ IsDirectory (disk.entry new) ∧
            entry.kind = .directory then .error .ENOTDIR
          else if disk.MoveSafe old new then .ok (disk.move old new now)
          else .error .ENOTEMPTY

/-- stat(2) and lstat(2) agree without symbolic links. -/
def statText (text : Bytes) : Except Errno Stat :=
  match disk.find text with
  | .error error => .error error
  | .ok location =>
      match disk.nodes.lookup location with
      | some node => .ok ⟨node.content.length, node.mtime⟩
      | none => .error .ENOENT

/-- The names that readdir(3) returns for an open directory. -/
def listText (text : Bytes) : Except Errno (List Bytes) :=
  match disk.lookupText text with
  | .error error => .error error
  | .ok (location, entry) =>
      if entry.kind = .directory then
        .ok (ascii "." :: ascii ".." :: disk.nodes.keys.filterMap fun child =>
          if child ≠ [] ∧ child.dropLast = location then child.getLast? else none)
      else .error .ENOTDIR

end Disk

end Ndnfs

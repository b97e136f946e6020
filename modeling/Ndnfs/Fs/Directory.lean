import Ndnfs.Fs.File

namespace Ndnfs

namespace FileSystem

variable {Stmt Fd : Type} (fs : FileSystem)

def ndnfsMkdir (path : Bytes) (mode : Nat) : Source Stmt Fd Int := do
  match ← invoke (.mkdir (fs.fullPath path) mode) with
  | .error errno => return errno.negative
  | .ok () => return 0

def ndnfsRmdir (path : Bytes) : Source Stmt Fd Int := do
  if path = ascii "/" then
    return Errno.EINVAL.negative
  else
    match ← invoke (.rmdir (fs.fullPath path)) with
    | .error errno => return errno.negative
    | .ok () => return 0

end FileSystem

end Ndnfs

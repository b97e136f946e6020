import Ndnfs.Fs.Segment
import Ndnfs.System.Links

namespace Ndnfs
open Effect MachineInteger

namespace FileSystem

variable (fs : FileSystem)

/-- The return code and the bytes that are written to the buffer. -/
def ndnfsReadlink (path : Bytes) (size : Nat) :
    Program LinkCall LinkCall.Reply (Int × Bytes) := do
  match ← LinkCall.invoke (.readlink (absPath fs.rootPath path)
    (toUInt64 ((size : Int) - 1))) with
  | .error errno => return (errno.negative, [])
  | .ok buf => return (0, buf ++ [0])

/-- The database is not told of the link. -/
def ndnfsSymlink (source target : Bytes) : Program LinkCall LinkCall.Reply Int := do
  match ← LinkCall.invoke (.symlink (absPath fs.rootPath source)
    (absPath fs.rootPath target)) with
  | .error errno => return errno.negative
  | .ok () => return 0

end FileSystem

end Ndnfs

import Ndnfs.Fs.Link
import Ndnfs.Server.Deployment

namespace Ndnfs
open MachineInteger Percent

namespace FileSystem

variable (fs : FileSystem)

/-- The link gives the target that it was made with, as much of it as the buffer holds. -/
def ReadsBack (linked : LinkedDisk) (target path : Bytes) (size : Nat) : Prop :=
  (fs.ndnfsReadlink path size).run LinkCall.handle linked =
    ((0, target.take (size - 1) ++ [0]), linked)

/-- The size that readlink(2) gets. -/
def bufsiz (size : Nat) : Int := toInt (toUInt64 ((size : Int) - 1))

variable {fs}

/-- A link that was made keeps the root path before its target. -/
theorem symlink_ok {linked linked' : LinkedDisk} {target path : Bytes}
    (created : (fs.ndnfsSymlink target path).run LinkCall.handle linked = (0, linked')) :
    linked.symlinkText (absPath fs.rootPath target) (absPath fs.rootPath path) = .ok linked' := by
  unfold ndnfsSymlink at created
  rw [Effect.Program.run_bind, Effect.Program.run_perform, LinkCall.handle] at created
  split at created
  · rename_i error failed
    split at failed
    · cases failed
      have negative := error.negative_lt
      have same : error.negative = 0 := congrArg Prod.fst created
      omega
    · cases failed
  · rename_i success
    split at success
    · cases success
    · rename_i made
      rw [made] at created ⊢
      exact congrArg Except.ok (congrArg Prod.snd created)

/-- The target is read back exactly when the buffer has room for a byte and the root path makes no
difference to the bytes that it holds. -/
theorem readsBack_iff (fs : FileSystem) {linked linked' : LinkedDisk} {target path : Bytes}
    (created : (fs.ndnfsSymlink target path).run LinkCall.handle linked = (0, linked'))
    (size : Nat) :
    fs.ReadsBack linked' target path size ↔ 0 < bufsiz size ∧
      (fs.rootPath ++ target).take (bufsiz size).toNat = target.take (size - 1) := by
  have back := LinkedDisk.readlink_symlink (symlink_ok created) (bufsiz size)
  unfold ReadsBack ndnfsReadlink
  rw [Effect.Program.run_bind, Effect.Program.run_perform, LinkCall.handle, ← bufsiz, back]
  by_cases small : bufsiz size ≤ 0
  · rw [if_pos small]
    apply iff_of_false
    · intro same
      have code : Errno.EINVAL.negative = 0 := congrArg (fun result => result.1.1) same
      exact absurd code (by decide)
    · exact fun condition => absurd condition.1 (Int.not_lt.mpr small)
  · rw [if_neg small]
    have written : ((0, (absPath fs.rootPath target).take (bufsiz size).toNat ++ [0]) : Int × Bytes)
        = (0, target.take (size - 1) ++ [0]) ↔
          (fs.rootPath ++ target).take (bufsiz size).toNat = target.take (size - 1) := by
      rw [Prod.mk.injEq, List.append_left_inj, absPath]
      exact and_iff_right rfl
    rw [and_iff_right (Int.not_le.mp small), ← written]
    constructor
    · exact congrArg Prod.fst
    · intro same
      rw [← same]
      rfl

/-- Below the root path "/d" a buffer of three bytes gets the start of the target "/d/x". -/
theorem readsBack_iff_short :
    let fs : FileSystem := { Reference.deployment.fs with rootPath := ascii "/d" }
    let linked : LinkedDisk := .plain (Disk.bare.create [ascii "d"] .directory 0)
    fs.ReadsBack ((fs.ndnfsSymlink (ascii "/d/x") (ascii "/l")).run LinkCall.handle linked).2
      (ascii "/d/x") (ascii "/l") 3 := by
  intro fs linked
  have created : (fs.ndnfsSymlink (ascii "/d/x") (ascii "/l")).run LinkCall.handle linked =
    (0, _) := Prod.ext (by decide) rfl
  exact (readsBack_iff fs created 3).mpr (by decide)

/-- Below the root path "/d" a link to "a" gives "/da". -/
theorem readsBack_fails : ¬ ∀ (fs : FileSystem) (linked linked' : LinkedDisk)
    (target path : Bytes) (size : Nat),
    (fs.ndnfsSymlink target path).run LinkCall.handle linked = (0, linked') → 1 ≤ size →
      fs.ReadsBack linked' target path size := by
  intro all
  let fs : FileSystem := { Reference.deployment.fs with rootPath := ascii "/d" }
  let linked : LinkedDisk := .plain (Disk.bare.create [ascii "d"] .directory 0)
  have back := all fs linked ((fs.ndnfsSymlink (ascii "a") (ascii "/l")).run LinkCall.handle linked).2
    (ascii "a") (ascii "/l") 4097 (Prod.ext (by decide) rfl) (by decide)
  have bytes := congrArg (fun result => result.1.2) back
  revert bytes
  decide

end FileSystem

end Ndnfs

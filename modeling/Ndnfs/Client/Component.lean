import Mathlib.Data.List.Basic
import Ndnfs.Server.Module

namespace Ndnfs.Client
open Percent

/-- An Interest with the function that is bound to its Data. -/
structure BoundInterest (Callback : Type) where
  name : Name
  onData : Callback
  deriving DecidableEq

/-- The packet has the metadata of a file with this version and so many segments. -/
structure Announces (ndn : NdnCpp) (protobuf : Protobuf) (base : Name) (version : Int)
    (total : Nat) (data : Data) : Prop where
  name : ∃ marker last, data.name = base ++ [marker, last] ∧
    ndn.toEscapedString marker = fileComponentName
  info : ∃ infof, protobuf.parse data.content = some infof ∧ infof.version = version ∧
    infof.totalseg = total

/-- A negative index counts from the end; an index outside the name is an exception. -/
def getComponent (name : Name) (i : Int) : Option Component :=
  if 0 ≤ i then name[i.toNat]? else if -i ≤ name.length then name[(name.length + i).toNat]? else none

/-- A negative number leaves out components at the end. -/
def getPrefix (name : Name) (nComponents : Int) : Name :=
  if nComponents < 0 then name.take (name.length + nComponents).toNat
  else name.take nComponents.toNat

/-- The component before the last one is a marker in the names of metadata. -/
theorem getComponent_marker (base : Name) (marker last : Component) :
    getComponent (base ++ [marker, last]) (((base ++ [marker, last]).length : Int) - 2) =
      some marker := by
  have index : ((base ++ [marker, last]).length : Int) - 2 = (base.length : Int) := by
    rw [List.length_append]
    simp
  rw [index, getComponent, if_pos (Int.natCast_nonneg _), Int.toNat_natCast,
    List.getElem?_append_right (Nat.le_refl _), Nat.sub_self]
  rfl

theorem getPrefix_marker (base : Name) (marker last : Component) :
    getPrefix (base ++ [marker, last]) (((base ++ [marker, last]).length : Int) - 2) = base := by
  have count : ((base ++ [marker, last]).length : Int) - 2 = (base.length : Int) := by
    rw [List.length_append]
    simp
  rw [count, getPrefix, if_neg (Int.not_lt.mpr (Int.natCast_nonneg _)), Int.toNat_natCast,
    List.take_left]

theorem getPrefix_concat (base : Name) (last : Component) :
    getPrefix (base ++ [last]) (((base ++ [last]).length : Int) - 1) = base := by
  have count : ((base ++ [last]).length : Int) - 1 = (base.length : Int) := by
    rw [List.length_append]
    simp
  rw [count, getPrefix, if_neg (Int.not_lt.mpr (Int.natCast_nonneg _)), Int.toNat_natCast,
    List.take_left]

end Ndnfs.Client

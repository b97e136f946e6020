import Ndnfs.Proof.TouchedPath
import Ndnfs.Fs.Operation
import Ndnfs.Server.Deployment

namespace Ndnfs
open MachineInteger Percent NdnCpp

/-- The bytes of a TLV type or length with this value. -/
def tlvNumberSize (number : Nat) : Nat :=
  if number < 253 then 1 else if number < 2 ^ 16 then 3 else if number < 2 ^ 32 then 5 else 9

/-- The bytes of a TLV with a small type and this many bytes in its value. -/
def tlvSize (length : Nat) : Nat := 1 + tlvNumberSize length + length

/-- An Interest holds its name and a nonce of four bytes. -/
def interestSize (name : Name) : Nat :=
  tlvSize (tlvSize (name.foldr (fun component size => tlvSize component.length + size) 0) +
    tlvSize 4)

/-- The transport accepts packets of at most this size. -/
def MAX_NDN_PACKET_SIZE : Nat := 8800

namespace Server

variable (server : Server)

/-- Each path that the server builds for the Interest fits the buffer with its last zero byte. -/
def FitsBuffers (environment : Environment) (state : State) (name : Name) : Prop :=
  server.TouchesOnly (fun path => path.length < PATH_MAX) environment state name

/-- The path of a file and the path of a directory, without a last "_list", leave room for the
root. -/
def LeavesRoom (state : State) (name : Name) : Prop :=
  ∀ version seg, server.Accepted name version seg →
    server.fsPrefix.length ≤ (plainText name).length →
      (server.AsksFile state name version seg →
        server.fsPath.length + (server.cutPath name).length < PATH_MAX) ∧
      (server.AsksDirectory state name version seg →
        server.fsPath.length + (queryPath (server.cutPath name)).length < PATH_MAX)

theorem length_filePath (path : Bytes) :
    (server.filePath path).length = server.fsPath.length + path.length := List.length_append

/-- The buffers are large enough exactly for the names that leave room. -/
theorem fitsBuffers_iff (server : Server) (environment : Environment) (state : State)
    (name : Name) : server.FitsBuffers environment state name ↔ server.LeavesRoom state name := by
  rw [FitsBuffers, touchesOnly_iff]
  simp only [length_filePath]
  exact Iff.rfl

/-- A component of many letters is the path of a directory that is not recorded. -/
theorem not_leavesRoom {served : Name} {component : Component} {state : State}
    (plain : ∀ other ∈ served, componentKind other = .plain)
    (length : server.fsPrefix.length = (plainText served).length)
    (letters : ∀ byte ∈ component, byte = 97) (nonempty : component ≠ [])
    (absent : ¬ state.db.fileSystem.Has (slash :: component))
    (long : PATH_MAX ≤ server.fsPath.length + component.length) :
    ¬ server.LeavesRoom state (served ++ [component]) := by
  intro room
  obtain ⟨last, member⟩ := List.exists_mem_of_ne_nil component nonempty
  have noPeriods : ¬ AllPeriods component := by
    intro periods
    have period := periods last member
    rw [letters last member] at period
    revert period
    decide
  have text : escapeComponent component = component := by
    rw [escapeComponent, if_neg noPeriods, escape_of_plain]
    intro byte inside
    rw [letters byte inside]
    decide
  have kind : componentKind component = .plain := by
    cases component with
    | nil => exact absurd rfl nonempty
    | cons first rest =>
        rw [letters first List.mem_cons_self]
        exact (componentKind_of_head rfl).trans (by decide)
  have path : server.cutPath (served ++ [component]) = slash :: component := by
    rw [server.cutPath_prefix length, plainText_cons_plain kind, text, plainText_nil,
      List.append_nil, if_neg (List.cons_ne_nil _ _)]
  have notList : ¬ contentMetaString <:+ slash :: component := by
    intro list
    have underscore : (95 : UInt8) ∈ slash :: component := list.subset (by decide)
    rcases List.mem_cons.mp underscore with same | inside
    · exact absurd same (by decide)
    · exact absurd (letters 95 inside) (by decide)
  have accepted : server.Accepted (served ++ [component]) (-1) (-1) := by
    apply accepted_of_isFront
    apply isFront_of_plain
    simp only [List.forall_mem_append, List.forall_mem_singleton]
    exact ⟨plain, kind⟩
  have enough : server.fsPrefix.length ≤ (plainText (served ++ [component])).length := by
    rw [plainText_append, List.length_append, length]
    exact Nat.le_add_right _ _
  have short := (room (-1) (-1) accepted enough).2 ⟨.inl rfl, path ▸ absent⟩
  rw [path, queryPath, if_neg notList, List.length_cons] at short
  omega

/-- The path of an Interest for a directory is not bounded. -/
theorem fitsBuffers_fails : ¬ ∀ (deployment : Deployment) (served rest : Name) (disk : Disk)
    (clock : Int) (requests : List Request) (environment : Environment),
    deployment.Canonical served → deployment.rootPath.length < PATH_MAX →
      interestSize (served ++ rest) ≤ MAX_NDN_PACKET_SIZE →
        deployment.server.FitsBuffers environment
          (Run.after deployment.fs.step ⟨⟨.empty, disk, []⟩, clock⟩ requests).state
          (served ++ rest) := by
  intro claim
  obtain ⟨component, length, letters⟩ : ∃ component : Component, component.length = PATH_MAX ∧
      ∀ byte ∈ component, byte = 97 :=
    ⟨List.replicate PATH_MAX 97, List.length_replicate, fun byte => List.eq_of_mem_replicate⟩
  have small : interestSize ([ascii "ndn", ascii "broadcast", ascii "ndnfs"] ++ [component]) ≤
      MAX_NDN_PACKET_SIZE := by
    simp only [interestSize, List.foldr_append, List.foldr_cons, List.foldr_nil, length]
    decide
  have fits := claim Reference.deployment _ [component] .bare 0 [] (Reference.calm 1)
    Reference.canonical (by decide) small
  rw [FitsBuffers, touchesOnly_iff] at fits
  simp only [length_filePath] at fits
  apply Reference.deployment.server.not_leavesRoom _ _ letters _ _ _ fits
  · decide
  · decide
  · rintro rfl
    cases length
  · exact fun row => row rfl
  · rw [length]
    exact Nat.le_add_left _ _

end Server

end Ndnfs

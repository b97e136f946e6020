import Ndnfs.Fs.Execution
import Ndnfs.Fs.Operation
import Ndnfs.System.Tables

namespace Ndnfs
open Effect Program MachineInteger Percent

namespace FileSystem

section Truncation

variable (fs : FileSystem) (buffer path : Bytes) (ver : Int) (seg : Nat) (content : Bytes)
  (environment : Environment) (state : State)

/-- The state after truncate_segment for the bytes that the file has in this segment. -/
def truncated : State :=
  (exec (fs.truncateSegment buffer path ver seg (segmentBytes content seg).length) environment
    state).2

/-- The state after sign_segment for the same bytes. -/
def signed : State :=
  (exec (fs.signSegment path ver seg (segmentBytes content seg)) environment state).2

/-- Truncation leaves the rows of the segments as signing does, and all other rows as they were. -/
structure TruncateAgrees : Prop where
  fileSegments : ∀ key,
    (fs.truncated buffer path ver seg content environment state).db.fileSegments.lookup key =
      (fs.signed path ver seg content environment state).db.fileSegments.lookup key
  others : ∀ key, key ≠ (path, ver, (seg : Int)) →
    (fs.truncated buffer path ver seg content environment state).db.fileSegments.lookup key =
      state.db.fileSegments.lookup key
  fileSystem : (fs.truncated buffer path ver seg content environment state).db.fileSystem =
    state.db.fileSystem
  fileVersions : (fs.truncated buffer path ver seg content environment state).db.fileVersions =
    state.db.fileVersions

/-- The open or the read fails, the latter also at a negative offset. -/
def StopsEarly (environment : Environment) (seg : Int) : Prop :=
  environment.faults.head?.join ≠ none ∨ environment.next.faults.head?.join ≠ none ∨
    segmentToSize seg < 0

/-- The packet that truncate_segment signs has no name. -/
def namelessPortion (data : Bytes) : SignedPortion :=
  ⟨[], ⟨none, none⟩, data, ⟨some (fs.ndn.keyLocatorName fs.certificateName)⟩⟩

end Truncation

variable {fs : FileSystem} {path : Bytes} {ver : Int} {seg : Nat} {content : Bytes} {state : State}
  {location : Location}

theorem nameless_ne_signed (data other : Bytes) :
    fs.namelessPortion data ≠ fs.signedPortion path ver seg other := by
  intro same
  have names := congrArg SignedPortion.name same
  exact List.append_ne_nil_of_right_ne_nil _ (List.cons_ne_nil _ _) names.symm

/-- A segment with a row is signed anew after its file was opened and read. -/
theorem exec_truncateSegment (fs : FileSystem) (buffer : Bytes) (environment : Environment)
    {seg length : Int} (nonzero : length ≠ 0)
    (row : state.db.fileSegments.Has (path, ver, seg)) :
    (exec (fs.truncateSegment buffer path ver seg length) environment state).2 =
      match environment.outcome (state.disk.lookupText (absPath fs.rootPath path)) with
      | .error _ => state
      | .ok found =>
          match environment.next.outcome
            (state.disk.pread found.1 (toUInt64 length) (segmentToSize seg)) with
          | .error _ => state
          | .ok data => { state with
              db := state.db.replaceFileSegment path ver seg ⟨fs.namelessPortion
                ((data ++ buffer.drop data.length).take (toUInt64 length))⟩ } := by
  unfold truncateSegment
  simp only [exec, run_bind, run_perform, handle, Database.execute,
    code_select_lookup, if_pos row, ne_eq, not_true_eq_false, if_false, if_neg nonzero,
    World.attempt, Disk.openText_readOnly, Environment.outcome_map]
  cases environment.outcome (state.disk.lookupText (absPath fs.rootPath path)) with
  | error error => rfl
  | ok found =>
      simp only [Except.map, run_bind, run_perform, handle, World.inspect]
      cases environment.next.outcome
        (state.disk.pread found.1 (toUInt64 length) (segmentToSize seg)) <;> rfl

/-- The file is opened and read unless a fault or a negative offset stops it. -/
theorem read_or_stopsEarly (environment : Environment) {disk : Disk} {text : Bytes}
    (file : disk.lookupText text = .ok (location, ⟨.regular, content⟩)) (count : Nat) (seg : Int) :
    ¬ StopsEarly environment seg ∧ (∃ data,
        environment.outcome (disk.lookupText text) = .ok (location, ⟨.regular, content⟩) ∧
          environment.next.outcome (disk.pread location count (segmentToSize seg)) = .ok data) ∨
      StopsEarly environment seg ∧
        ((∃ error, environment.outcome (disk.lookupText text) = .error error) ∨ ∃ error,
          environment.outcome (disk.lookupText text) = .ok (location, ⟨.regular, content⟩) ∧
            environment.next.outcome (disk.pread location count (segmentToSize seg)) =
              .error error) := by
  have present := disk.entry_of_lookupText file
  by_cases opens : environment.faults.head?.join = none
  · have opened : environment.outcome (disk.lookupText text) =
        .ok (location, ⟨.regular, content⟩) := (environment.outcome_eq opens _).trans file
    by_cases reads : environment.next.faults.head?.join = none
    · by_cases negative : segmentToSize seg < 0
      · have refused : disk.pread location count (segmentToSize seg) = .error .EINVAL := by
          simp only [Disk.pread, present, if_pos negative]
        exact .inr ⟨.inr (.inr negative), .inr ⟨_, opened,
          (environment.next.outcome_eq reads _).trans refused⟩⟩
      · have given : disk.pread location count (segmentToSize seg) =
            .ok ((content.drop (segmentToSize seg).toNat).take count) := by
          simp only [Disk.pread, present, if_neg negative]
        left
        refine ⟨?_, _, opened, (environment.next.outcome_eq reads _).trans given⟩
        rintro (failed | failed | failed)
        · exact failed opens
        · exact failed reads
        · exact negative failed
    · right
      obtain ⟨error, fault⟩ := Option.ne_none_iff_exists'.mp reads
      refine ⟨.inr (.inl reads), .inr ⟨error, opened, ?_⟩⟩
      rw [Environment.outcome, fault]
  · right
    obtain ⟨error, fault⟩ := Option.ne_none_iff_exists'.mp opens
    refine ⟨.inl opens, .inl ⟨error, ?_⟩⟩
    rw [Environment.outcome, fault]

/-- Either nothing has changed, or the row has a signature without a name. -/
theorem truncated_eq (fs : FileSystem) (buffer : Bytes) (environment : Environment)
    (row : state.db.fileSegments.Has (path, ver, (seg : Int)))
    (file : state.disk.lookupText (absPath fs.rootPath path) = .ok (location, ⟨.regular, content⟩))
    (nonempty : segmentBytes content seg ≠ []) :
    StopsEarly environment seg ∧ fs.truncated buffer path ver seg content environment state = state ∨
      ¬ StopsEarly environment seg ∧ ∃ data,
        fs.truncated buffer path ver seg content environment state = { state with
          db := state.db.replaceFileSegment path ver seg ⟨fs.namelessPortion data⟩ } := by
  have nonzero : ((segmentBytes content seg).length : Int) ≠ 0 := by
    simpa using nonempty
  have closed := exec_truncateSegment fs buffer environment nonzero row
  obtain ⟨reads, data, opened, read⟩ | ⟨stops, ⟨error, failed⟩ | ⟨error, opened, failed⟩⟩ :=
    read_or_stopsEarly environment file
      (toUInt64 ((segmentBytes content seg).length : Int)) seg
  · rw [opened] at closed
    dsimp only at closed
    rw [read] at closed
    exact .inr ⟨reads, _, closed⟩
  · rw [failed] at closed
    exact .inl ⟨stops, closed⟩
  · rw [opened] at closed
    dsimp only at closed
    rw [failed] at closed
    exact .inl ⟨stops, closed⟩

/-- Truncation agrees with signing exactly when it stops before it signs and the row has the
signature that signing stores. -/
theorem truncateAgrees_iff (fs : FileSystem) (buffer path : Bytes) (ver : Int) (seg : Nat)
    (environment : Environment) {state : State} {location : Location} {content : Bytes}
    (row : state.db.fileSegments.Has (path, ver, (seg : Int)))
    (file : state.disk.lookupText (absPath fs.rootPath path) = .ok (location, ⟨.regular, content⟩))
    (nonempty : segmentBytes content seg ≠ []) :
    fs.TruncateAgrees buffer path ver seg content environment state ↔
      StopsEarly environment seg ∧ state.db.fileSegments.lookup (path, ver, (seg : Int)) =
        some ⟨fs.signedPortion path ver seg (segmentBytes content seg)⟩ := by
  have signs (key : Bytes × Int × Int) :
      (fs.signed path ver seg content environment state).db.fileSegments.lookup key =
        if key = (path, ver, (seg : Int)) then
          some ⟨fs.signedPortion path ver seg (segmentBytes content seg)⟩
        else state.db.fileSegments.lookup key :=
    Database.lookup_replaceFileSegment _ _ _ _ _ key
  obtain ⟨stops, same⟩ | ⟨signs', data, same⟩ :=
    truncated_eq fs buffer environment row file nonempty
  · rw [and_iff_right stops]
    constructor
    · intro agrees
      have here := agrees.fileSegments (path, ver, seg)
      rw [same, signs, if_pos rfl] at here
      exact here
    · intro current
      exact {
        fileSegments := by
          intro key
          rw [same, signs]
          split
          · rename_i here
            rw [here, current]
          · rfl
        others := by
          intro key _
          rw [same]
        fileSystem := by rw [same]
        fileVersions := by rw [same] }
  · apply iff_of_false
    · intro agrees
      have here := agrees.fileSegments (path, ver, seg)
      rw [same, signs, if_pos rfl, Database.lookup_replaceFileSegment, if_pos rfl] at here
      exact nameless_ne_signed data _ (congrArg SignatureBits.signed (Option.some.inj here))
    · exact fun condition => signs' condition.1

end FileSystem

namespace Reference

theorem releasedState_row :
    releasedState.db.fileSegments.Has (ascii "/a", 2, ((0 : Nat) : Int)) := by decide +kernel

theorem releasedState_file :
    releasedState.disk.lookupText (absPath fileSystem.rootPath (ascii "/a")) =
      .ok ([ascii "a"], ⟨.regular, ascii "x"⟩) := by decide +kernel

end Reference

namespace FileSystem

/-- The open fails, so the signature of the release stays. -/
theorem truncateAgrees_iff_stopped : Reference.fileSystem.TruncateAgrees [] (ascii "/a") 2 0
      (ascii "x") { Reference.calm 3 with faults := [some .EACCES] } Reference.releasedState ↔
    StopsEarly { Reference.calm 3 with faults := [some .EACCES] } (0 : Nat) ∧
      Reference.releasedState.db.fileSegments.lookup (ascii "/a", 2, ((0 : Nat) : Int)) =
        some ⟨Reference.fileSystem.signedPortion (ascii "/a") 2 (0 : Nat)
          (segmentBytes (ascii "x") 0)⟩ :=
  truncateAgrees_iff Reference.fileSystem [] (ascii "/a") 2 0
    { Reference.calm 3 with faults := [some .EACCES] }
    Reference.releasedState_row Reference.releasedState_file (by decide)

/-- The signature of the release covers the name, and the one of the truncation does not. -/
theorem truncateAgrees_fails : ¬ ∀ (fs : FileSystem) (buffer path : Bytes) (ver : Int) (seg : Nat)
    (environment : Environment) (state : State) (location : Location) (content : Bytes),
    state.db.fileSegments.Has (path, ver, (seg : Int)) →
      state.disk.lookupText (absPath fs.rootPath path) = .ok (location, ⟨.regular, content⟩) →
        0 < (segmentBytes content seg).length → (segmentBytes content seg).length < segSize →
          fs.TruncateAgrees buffer path ver seg content environment state := by
  intro all
  have agrees := all Reference.fileSystem (List.replicate segSize 0) (ascii "/a") 2 0 (Reference.calm 3)
    Reference.releasedState _ _ Reference.releasedState_row Reference.releasedState_file
    (by decide) (by decide)
  have here := agrees.fileSegments (ascii "/a", 2, 0)
  revert here
  decide +kernel

end FileSystem

end Ndnfs

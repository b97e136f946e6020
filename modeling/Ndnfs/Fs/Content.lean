import Ndnfs.Fs.Effect

namespace Ndnfs
open MachineInteger KeyedTable

namespace Disk

/-- The bytes of a segment of the file at a location; other objects have none. -/
def segmentAt (disk : Disk) (location : Location) (seg : Nat) : Bytes :=
  match disk.entry location with
  | some ⟨.regular, content⟩ => segmentBytes content seg
  | _ => []

variable {disk disk' : Disk} {location other : Location}

theorem segmentAt_regular {content : Bytes} (regular : disk.entry location = some ⟨.regular, content⟩)
    (seg : Nat) : disk.segmentAt location seg = segmentBytes content seg := by
  rw [segmentAt, regular]

theorem segmentAt_of_entry (same : disk'.entry other = disk.entry location) (seg : Nat) :
    disk'.segmentAt other seg = disk.segmentAt location seg := by
  rw [segmentAt, segmentAt, same]

theorem segmentAt_irregular (irregular : ∀ content, disk.entry location ≠ some ⟨.regular, content⟩)
    (seg : Nat) : disk.segmentAt location seg = [] := by
  unfold segmentAt
  split
  · exact absurd ‹_› (irregular _)
  · rfl

theorem segmentAt_none (absent : disk.entry location = none) (seg : Nat) :
    disk.segmentAt location seg = [] :=
  segmentAt_irregular (by simp [absent]) seg

/-- A new object has no bytes. -/
theorem segmentAt_create (free : disk.Free location) (kind : NodeKind) (now : Int) (seg : Nat) :
    (disk.create location kind now).segmentAt other seg = disk.segmentAt other seg := by
  by_cases here : other = location
  · subst other
    rw [segmentAt_none free.1]
    rw [segmentAt, disk.entry_create free, if_pos rfl]
    cases kind <;> simp [segmentBytes]
  · exact segmentAt_of_entry (by rw [disk.entry_create free, if_neg here]) seg

/-- A removed object loses its bytes. -/
theorem segmentAt_remove (below : location ≠ []) (empty : disk.NoChildren location) (now : Int)
    (seg : Nat) : (disk.remove location now).segmentAt other seg =
      if other = location then [] else disk.segmentAt other seg := by
  split
  · rename_i here
    exact segmentAt_none (by rw [disk.entry_remove below empty, if_pos here]) seg
  · rename_i here
    exact segmentAt_of_entry (by rw [disk.entry_remove below empty, if_neg here]) seg

theorem segmentAt_rewrites {change : Bytes → Bytes} {content : Bytes}
    (rewrites : disk.Rewrites location change disk')
    (regular : disk.entry location = some ⟨.regular, content⟩) (seg : Nat) :
    disk'.segmentAt other seg =
      if other = location then segmentBytes (change content) seg else disk.segmentAt other seg := by
  obtain ⟨old, present, entries⟩ := rewrites
  obtain rfl : old = content := by
    rw [regular] at present
    exact (Entry.mk.inj (Option.some.inj present)).2.symm
  split
  · rename_i here
    exact segmentAt_regular (by rw [entries, if_pos here]) seg
  · rename_i here
    exact segmentAt_of_entry (by rw [entries, if_neg here]) seg

/-- A rename takes the bytes at and below the source to the target. -/
theorem segmentAt_move {source target : Location} (safe : disk.MoveSafe source target) (now : Int)
    (seg : Nat) : (disk.move source target now).segmentAt location seg =
      if target <+: location then disk.segmentAt (source ++ location.drop target.length) seg
      else if source <+: location then [] else disk.segmentAt location seg := by
  have entries := disk.entry_move safe now location
  split
  · rename_i inside
    rw [if_pos inside] at entries
    exact segmentAt_of_entry entries seg
  · rename_i outside
    rw [if_neg outside] at entries
    split
    · rename_i below
      rw [if_pos below] at entries
      exact segmentAt_none entries seg
    · rename_i free
      rw [if_neg free] at entries
      exact segmentAt_of_entry entries seg

end Disk

namespace FileSystem

variable (fs : FileSystem)

/-- The signed segments have new rows, the others keep theirs. -/
theorem lookup_signSegments (path : Bytes) (ver : Int) (content : Bytes) (db : Database)
    (count : Nat) (file : Bytes) (version seg : Int) :
    (fs.signSegments path ver content db count).fileSegments.lookup (file, version, seg) =
      if file = path ∧ version = ver ∧ 0 ≤ seg ∧ seg < count then
        some ⟨fs.signedPortion path ver seg (segmentBytes content seg.toNat)⟩
      else db.fileSegments.lookup (file, version, seg) := by
  induction count with
  | zero =>
      rw [if_neg (by omega)]
      rfl
  | succ count ih =>
      rw [signSegments, Database.lookup_replaceFileSegment, ih]
      by_cases here : (file, version, seg) = (path, ver, (count : Int))
      · obtain ⟨rfl, rfl, rfl⟩ : file = path ∧ version = ver ∧ seg = count := by simpa using here
        rw [if_pos rfl, if_pos ⟨rfl, rfl, by omega, by omega⟩, Int.toNat_natCast]
      · rw [if_neg here]
        have other : file = path → version = ver → seg ≠ count := by
          rintro rfl rfl rfl
          exact here rfl
        refine if_congr (and_congr_right fun same => and_congr_right fun same' => ?_) rfl rfl
        have different := other same same'
        omega

variable {fs} {root : Path} (path : Path) (environment : Environment) (state : State)

/-- The open and the read of each round up to this one meet no fault. -/
theorem quiet_iff_reads {content : Bytes} {seg : Nat}
    (opened : environment.faults.head?.join = none) (early : seg < lastRound)
    (inside : segSize * seg ≤ content.length) :
    environment.Quiet (seg + 2) ↔ ReadsSegment content environment.next.faults seg := by
  rw [environment.quiet_succ_iff, and_iff_right opened, ReadsSegment, and_iff_right inside,
    and_iff_right early]
  exact forall_congr' fun call => imp_congr_left Nat.lt_succ_iff

/-- A writing release signs segments of the file in their order, up to the first fault. -/
theorem effect_release (rooted : fs.rootPath = root.rootText) (access : AccessMode) :
    (access = .readOnly ∨ ¬ state.db.fileSystem.Has path.text) ∧
        (exec (fs.ndnfsRelease path.text { access }) environment state).2 = state ∨
      state.db.fileSystem.Has path.text ∧ access ≠ .readOnly ∧ ∃ content count, count ≤ lastRound ∧
        (∀ seg, seg < count → environment.Quiet (seg + 2) ∧
          segmentBytes content seg = state.disk.segmentAt (root.locate path) seg) ∧
        (∀ file, state.disk.entry (root.locate path) = some ⟨.regular, file⟩ →
          ∀ seg, seg < lastRound → segSize * seg ≤ file.length → environment.Quiet (seg + 2) →
            seg < count) ∧
        (exec (fs.ndnfsRelease path.text { access }) environment state).2 = { state with
          db := fs.signSegments path.text (toInt environment.now) content
            (releaseRows path.text environment.now state.db) count } := by
  by_cases present : state.db.fileSystem.Has path.text
  · by_cases reading : access = .readOnly
    · refine .inl ⟨.inl reading, ?_⟩
      rw [fs.exec_ndnfsRelease_reading path.text environment state present reading]
    · right
      refine ⟨present, reading, ?_⟩
      have writing : ({ access } : OpenFlags).access ≠ .readOnly := reading
      rcases fs.exec_ndnfsRelease_writing path.text environment state present writing with
        ⟨error, run, missing⟩ | ⟨location, content, count, result, found, bound, -, reads, run⟩
      · refine ⟨[], 0, by omega, fun seg early => by omega, ?_, by rw [run]; rfl⟩
        intro file regular seg _ _ quiet
        have opened := ((environment.quiet_succ_iff _).mp quiet).1
        rw [fullPath_text rooted, environment.outcome_eq opened] at missing
        exact absurd (state.disk.lookupText_some regular) (missing _ file)
      · have opened := Environment.quiet_of_outcome found
        rw [fullPath_text rooted] at found
        obtain ⟨-, regular⟩ := state.disk.lookupText_ok (Environment.outcome_ok found)
        refine ⟨content, count, bound, fun seg before => ?_, ?_, by rw [run]⟩
        · have read := (reads seg).mp before
          exact ⟨(quiet_iff_reads environment opened read.2.1 read.1).mpr read,
            (Disk.segmentAt_regular regular seg).symm⟩
        · intro file present seg early inside quiet
          rw [regular] at present
          obtain rfl := (Entry.mk.inj (Option.some.inj present)).2
          exact (reads seg).mpr ((quiet_iff_reads environment opened early inside).mp quiet)
  · refine .inl ⟨.inr present, ?_⟩
    rw [fs.exec_ndnfsRelease_absent path.text environment state _ present]

end FileSystem

end Ndnfs

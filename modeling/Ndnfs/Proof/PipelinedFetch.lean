import Mathlib.Data.List.Nodup
import Mathlib.Data.List.Perm.Subperm
import Ndnfs.Client.Pipe
import Ndnfs.Foundation.Run

namespace Ndnfs.Client
open MachineInteger NdnCpp Percent

namespace CatFilePipe

section Exchange

variable (client : CatFilePipe) (asked base : Name) (version : Int) (total : Nat)

/-- The Interest for the segment whose number is this value of the counter. -/
def segmentInterest (number : Nat) : BoundInterest PipeCallback :=
  ⟨base ++ [client.ndn.versionComponent version] ++ [client.ndn.segmentComponent (toInt number)],
    .onFileData⟩

/-- The program after it has asked for the metadata and received them. -/
def start (metadata : Data) : PipeSession :=
  client.step { interests := ⟨[⟨asked, .onMetaData⟩], []⟩ } (.data ⟨asked, .onMetaData⟩ metadata)

/-- The Data for an expressed Interest arrive, in any order; the file has so many segments. -/
def Arrives (session : PipeSession) : PipeEvent → Prop
  | .data interest data => session.interests.Outstanding interest ∧ data.name = interest.name ∧
      ∃ seg < total, interest = client.segmentInterest base version seg
  | .timeout _ => False

instance decidableArrives (session : PipeSession) : (event : PipeEvent) →
    Decidable (client.Arrives base version total session event)
  | .data interest data => inferInstanceAs (Decidable (session.interests.Outstanding interest ∧
      data.name = interest.name ∧
        ∃ seg < total, interest = client.segmentInterest base version seg))
  | .timeout _ => .isFalse id

/-- Each segment is requested exactly once when no Interest for one is left open, never twice
before, and done is set only when all have arrived. -/
structure FetchesWhole (session : PipeSession) (events : List PipeEvent) : Prop where
  never_twice : ∀ seg < total, (Run.after client.step session events).interests.requested.count
    (client.segmentInterest base version seg) ≤ 1
  once : (∀ seg < total, ¬ (Run.after client.step session events).interests.Outstanding
    (client.segmentInterest base version seg)) →
      ∀ seg < total, (Run.after client.step session events).interests.requested.count
        (client.segmentInterest base version seg) = 1
  done : Run.Holds client.step (fun now => now.done = true →
    ∀ seg < total, client.segmentInterest base version seg ∈ now.interests.answered) session events

/-- No segment but the one after the window is missing. -/
def OthersArrive (events : List PipeEvent) : Prop :=
  ∀ seg < total, seg ≠ interestPipeSize →
    client.segmentInterest base version seg ∈ events.map PipeEvent.interest

/-- When the last segment arrives, all the others have arrived. -/
def LastArrivesLast (events : List PipeEvent) : Prop :=
  ∀ early, early <+: events →
    client.segmentInterest base version (total - 1) ∈ early.map PipeEvent.interest →
      ∀ seg < total, client.segmentInterest base version seg ∈ early.map PipeEvent.interest

/-- The counter gives these numbers after so many arrivals; it skips the one after the loop. -/
structure Counted (count : Nat) (numbers : List Nat) : Prop where
  distinct : numbers.Nodup
  bounded : ∀ number ∈ numbers, number ≠ interestPipeSize ∧ number ≤ interestPipeSize + count
  all : ∀ number < total, number ≠ interestPipeSize → number ≤ interestPipeSize + count →
    number ∈ numbers

/-- This holds when these segments have arrived. -/
structure Piped (arrived : List Nat) (session : PipeSession) : Prop where
  running : session.ended = false
  fileName : session.fileName = base ++ [client.ndn.versionComponent version]
  totalSeg : session.totalSeg = total
  currentSeg : session.currentSeg = toInt (interestPipeSize + arrived.length : Nat)
  answered : session.interests.answered =
    ⟨asked, .onMetaData⟩ :: arrived.map (client.segmentInterest base version)
  distinct : arrived.Nodup
  small : ∀ seg ∈ arrived, seg < total
  requested : ∃ numbers, Counted total arrived.length numbers ∧ session.interests.requested =
    ⟨asked, .onMetaData⟩ :: numbers.map (client.segmentInterest base version)
  done : session.done = true ↔ total - 1 ∈ arrived

end Exchange

/-- The answers of a run are its events, in their order. -/
theorem answered_after (client : CatFilePipe) (session : PipeSession) (events : List PipeEvent) :
    (Run.after client.step session events).interests.answered =
      session.interests.answered ++ events.map PipeEvent.interest := by
  induction events generalizing session with
  | nil => exact (List.append_nil _).symm
  | cons event events ih =>
      have rest := ih (client.step session event)
      rw [answered_step, List.append_assoc] at rest
      exact rest

section Counted

variable {total count : Nat} {numbers : List Nat}

theorem counted_range : Counted total 0 (List.range interestPipeSize) where
  distinct := List.nodup_range
  bounded := by
    intro number member
    rw [List.mem_range] at member
    omega
  all := by
    intro number _ other bound
    rw [List.mem_range]
    omega

/-- The arrival of the last segment uses no number, and the file has no more. -/
theorem Counted.later (counted : Counted total count numbers)
    (last : total ≤ interestPipeSize + count + 1) : Counted total (count + 1) numbers where
  distinct := counted.distinct
  bounded := by
    intro number member
    have bound := counted.bounded number member
    omega
  all := by
    intro number known other _
    exact counted.all number known other (by omega)

/-- The counter is increased before its number is used. -/
theorem Counted.next (counted : Counted total count numbers) :
    Counted total (count + 1) (numbers ++ [interestPipeSize + (count + 1)]) where
  distinct := by
    rw [List.nodup_append_comm]
    apply List.nodup_cons.mpr
    constructor
    · intro member
      have bound := counted.bounded _ member
      omega
    · exact counted.distinct
  bounded := by
    intro number member
    rcases List.mem_append.mp member with before | same
    · have bound := counted.bounded number before
      omega
    · rw [List.mem_singleton.mp same]
      omega
  all := by
    intro number known other bound
    rw [List.mem_append, List.mem_singleton]
    by_cases before : number ≤ interestPipeSize + count
    · exact .inl (counted.all number known other before)
    · exact .inr (by omega)

end Counted

section Piped

variable {client : CatFilePipe} {asked base : Name} {version : Int} {total : Nat}

theorem segmentInterest_inj {first second : Nat} (small : first < 2 ^ 32) (small' : second < 2 ^ 32)
    (same : client.segmentInterest base version first =
      client.segmentInterest base version second) : first = second := by
  have last := congrArg (fun interest => interest.name.getLast?) same
  simp only [segmentInterest, List.getLast?_concat, Option.some.injEq] at last
  have numbers := client.ndn.segmentComponent_inj (toInt_isInt _) (toInt_isInt _) last
  exact toInt_inj small small' numbers

/-- The loop asks for the next numbers of the counter. -/
theorem burst_eq (rounds number : Nat) {session : PipeSession}
    (fileName : session.fileName = base ++ [client.ndn.versionComponent version])
    (currentSeg : session.currentSeg = toInt number) :
    client.burst rounds session = { session with
      currentSeg := toInt (number + rounds : Nat)
      interests := session.interests.request
        ((List.range' number rounds).map (client.segmentInterest base version)) } := by
  induction rounds generalizing number session with
  | zero =>
      rw [burst, Nat.add_zero, ← currentSeg]
      simp [Ledger.request]
  | succ rounds ih =>
      have increased : toInt (session.currentSeg + 1) = toInt (number + 1 : Nat) := by
        rw [currentSeg, toInt_add_one]
      have next : client.burst (rounds + 1) session = _ := ih (number + 1) fileName increased
      rw [next]
      simp only [expressInterest, fileName, currentSeg, Ledger.request, List.range'_succ,
        List.map_cons, List.append_assoc, List.cons_append, List.nil_append, segmentInterest,
        Nat.add_right_comm number 1 rounds, Nat.add_assoc]

/-- The metadata start the window. -/
theorem piped_start {metadata : Data}
    (announces : Announces client.ndn client.protobuf base version total metadata) :
    client.Piped asked base version total [] (client.start asked metadata) := by
  obtain ⟨⟨marker, last, name, isFile⟩, infof, parsed, rfl, totalSame⟩ := announces
  have other : fileComponentName ≠ dirComponentName := by decide
  rw [start, step, onMetaData, name, getComponent_marker, getPrefix_marker]
  simp only [isFile, if_neg other, if_true, parsed]
  rw [burst_eq interestPipeSize 0 rfl rfl]
  exact {
    running := rfl
    fileName := rfl
    totalSeg := totalSame
    currentSeg := rfl
    answered := rfl
    distinct := List.nodup_nil
    small := by simp
    requested := ⟨List.range interestPipeSize, counted_range, by
      rw [List.range_eq_range']
      rfl⟩
    done := by simp }

section Session

variable {arrived : List Nat} {session : PipeSession}
  (piped : client.Piped asked base version total arrived session)

include piped

/-- At most all segments have arrived. -/
theorem Piped.length_le : arrived.length ≤ total := by
  have inside : arrived ⊆ List.range total := fun seg member =>
    List.mem_range.mpr (piped.small seg member)
  have shorter := (List.subperm_of_subset piped.distinct inside).length_le
  rwa [List.length_range] at shorter

/-- No Interest is expressed twice. -/
theorem Piped.once (fits : total < 2 ^ 31) : session.interests.requested.Nodup := by
  obtain ⟨numbers, counted, requested⟩ := piped.requested
  have length := piped.length_le
  rw [requested, List.nodup_cons]
  constructor
  · intro member
    obtain ⟨number, -, same⟩ := List.mem_map.mp member
    cases congrArg BoundInterest.onData same
  · apply List.Nodup.map_on _ counted.distinct
    intro first member second member' same
    have bound := (counted.bounded first member).2
    have bound' := (counted.bounded second member').2
    unfold interestPipeSize at bound bound'
    exact segmentInterest_inj (by omega) (by omega) same

theorem Piped.answered_iff (fits : total < 2 ^ 31) {seg : Nat} (known : seg < total) :
    client.segmentInterest base version seg ∈ session.interests.answered ↔ seg ∈ arrived := by
  rw [piped.answered]
  constructor
  · intro member
    cases member with
    | tail _ member =>
        obtain ⟨other, arrives, same⟩ := List.mem_map.mp member
        have below := piped.small other arrives
        rwa [← segmentInterest_inj (by omega) (by omega) same]
  · intro arrives
    exact List.mem_cons_of_mem _ (List.mem_map_of_mem arrives)

/-- The counter has passed every number but the one after the loop. -/
theorem Piped.requested_iff (fits : total < 2 ^ 31) {seg : Nat} (known : seg < total) :
    client.segmentInterest base version seg ∈ session.interests.requested ↔
      seg ≠ interestPipeSize ∧ seg ≤ interestPipeSize + arrived.length := by
  obtain ⟨numbers, counted, requested⟩ := piped.requested
  have length := piped.length_le
  rw [requested]
  constructor
  · intro made
    cases made with
    | tail _ member =>
        obtain ⟨number, inside, same⟩ := List.mem_map.mp member
        have bound := counted.bounded number inside
        have size : interestPipeSize + total < 2 ^ 32 := by
          unfold interestPipeSize
          omega
        rwa [segmentInterest_inj (by omega) (by omega) same] at bound
  · rintro ⟨other, bound⟩
    exact List.mem_cons_of_mem _ (List.mem_map_of_mem (counted.all seg known other bound))

theorem Piped.outstanding_iff (fits : total < 2 ^ 31) {seg : Nat} (known : seg < total) :
    session.interests.Outstanding (client.segmentInterest base version seg) ↔
      (seg ≠ interestPipeSize ∧ seg ≤ interestPipeSize + arrived.length) ∧ seg ∉ arrived := by
  rw [Ledger.outstanding_iff (piped.once fits), piped.requested_iff fits known,
    piped.answered_iff fits known]

/-- The window is always larger than what has not arrived, so that no request is left open only
when all segments but the one after the loop have arrived. -/
theorem Piped.finished_iff (fits : total < 2 ^ 31) :
    (∀ seg < total, ¬ session.interests.Outstanding (client.segmentInterest base version seg)) ↔
      ∀ seg < total, seg ≠ interestPipeSize → seg ∈ arrived := by
  constructor
  · intro none
    have passed : ∀ seg < total, seg ≠ interestPipeSize →
        seg ≤ interestPipeSize + arrived.length → seg ∈ arrived := by
      intro seg known other bound
      by_contra missing
      exact none seg known ((piped.outstanding_iff fits known).mpr ⟨⟨other, bound⟩, missing⟩)
    have enough : total ≤ interestPipeSize + arrived.length + 1 := by
      by_contra more
      have inside : (List.range (interestPipeSize + arrived.length + 1)).erase interestPipeSize ⊆
          arrived := by
        intro seg member
        rw [List.nodup_range.mem_erase_iff, List.mem_range] at member
        exact passed seg (by omega) member.1 (by omega)
      have shorter := (List.subperm_of_subset (List.nodup_range.erase _) inside).length_le
      rw [List.length_erase_of_mem (List.mem_range.mpr (by omega)), List.length_range] at shorter
      unfold interestPipeSize at shorter
      omega
    intro seg known other
    exact passed seg known other (by omega)
  · intro all seg known outstanding
    obtain ⟨⟨other, -⟩, missing⟩ := (piped.outstanding_iff fits known).mp outstanding
    exact missing (all seg known other)

/-- Nobody asks for the segment after the window. -/
theorem Piped.once_iff (fits : total < 2 ^ 31) :
    ((∀ seg < total, ¬ session.interests.Outstanding (client.segmentInterest base version seg)) →
      ∀ seg < total, session.interests.requested.count
        (client.segmentInterest base version seg) = 1) ↔
      ((∀ seg < total, seg ≠ interestPipeSize → seg ∈ arrived) → total ≤ interestPipeSize) := by
  rw [piped.finished_iff fits]
  apply imp_congr_right
  intro _
  constructor
  · intro each
    by_contra longer
    have known : interestPipeSize < total := Nat.lt_of_not_le longer
    have made : client.segmentInterest base version interestPipeSize ∈
        session.interests.requested := by
      rw [← List.count_pos_iff, each interestPipeSize known]
      exact Nat.one_pos
    exact ((piped.requested_iff fits known).mp made).1 rfl
  · intro short seg known
    apply List.count_eq_one_of_mem (piped.once fits)
    exact (piped.requested_iff fits known).mpr ⟨by omega, by omega⟩

/-- One more segment arrives. -/
theorem Piped.segment (fits : total < 2 ^ 31) {seg : Nat} (known : seg < total) {data : Data}
    (outstanding : session.interests.Outstanding (client.segmentInterest base version seg))
    (name : data.name = (client.segmentInterest base version seg).name) :
    client.Piped asked base version total (arrived ++ [seg])
      (client.step session (.data (client.segmentInterest base version seg) data)) := by
  obtain ⟨⟨-, bound⟩, fresh⟩ := (piped.outstanding_iff fits known).mp outstanding
  have last : data.name.getLast?.bind client.ndn.toSegment = some (toUInt64 (toInt seg)) := by
    rw [name, segmentInterest, List.getLast?_concat, Option.bind_some,
      client.ndn.toSegment_segmentComponent]
  have final_iff : toInt (toInt (toUInt64 (toInt seg)) + 1) = session.totalSeg ↔
      seg + 1 = total := by
    rw [toInt_toUInt64 (toInt_isInt _), toInt_add_one, toInt_natCast (by omega), piped.totalSeg]
    exact Int.ofNat_inj
  have increased : toInt (session.currentSeg + 1) =
      toInt (interestPipeSize + (arrived ++ [seg]).length : Nat) := by
    rw [piped.currentSeg, toInt_add_one, List.length_append]
    rfl
  have answered : (session.interests.answer (client.segmentInterest base version seg)).answered =
      ⟨asked, .onMetaData⟩ :: (arrived ++ [seg]).map (client.segmentInterest base version) := by
    rw [Ledger.answered_answer, piped.answered, List.map_append]
    rfl
  have distinct : (arrived ++ [seg]).Nodup := by
    rw [List.nodup_append_comm]
    exact List.nodup_cons.mpr ⟨fresh, piped.distinct⟩
  have small : ∀ other ∈ arrived ++ [seg], other < total := by
    intro other member
    rcases List.mem_append.mp member with before | same
    · exact piped.small other before
    · rw [List.mem_singleton.mp same]
      exact known
  have longer : (arrived ++ [seg]).length = arrived.length + 1 := List.length_append
  obtain ⟨numbers, counted, requested⟩ := piped.requested
  change client.Piped asked base version total (arrived ++ [seg]) (client.onFileData data
    { session with interests := session.interests.answer _ })
  rw [onFileData, last]
  dsimp only
  by_cases final : seg + 1 = total
  · rw [if_pos (final_iff.mpr final)]
    have same : total - 1 = seg := by omega
    exact {
      running := piped.running
      fileName := piped.fileName
      totalSeg := piped.totalSeg
      currentSeg := increased
      answered, distinct, small
      requested := ⟨numbers, longer ▸ counted.later (by omega), requested⟩
      done := by simp [same] }
  · rw [if_neg (mt final_iff.mp final)]
    have other : total - 1 ≠ seg := by omega
    have asks : session.interests.requested ++ [⟨session.fileName ++
        [client.ndn.segmentComponent (toInt (session.currentSeg + 1))], .onFileData⟩] =
        ⟨asked, .onMetaData⟩ :: (numbers ++ [interestPipeSize + (arrived ++ [seg]).length]).map
          (client.segmentInterest base version) := by
      rw [requested, piped.fileName, increased, List.map_append]
      rfl
    exact {
      running := piped.running
      fileName := piped.fileName
      totalSeg := piped.totalSeg
      currentSeg := increased
      answered, distinct, small
      requested := ⟨_, longer ▸ counted.next, asks⟩
      done := by
        have before := piped.done
        simpa [expressInterest, other] using before }

end Session

/-- What has arrived in a run, as the run tells it. -/
theorem Piped.arrives_iff (fits : total < 2 ^ 31) {metadata : Data} {arrived : List Nat}
    {events : List PipeEvent}
    (piped : client.Piped asked base version total arrived
      (Run.after client.step (client.start asked metadata) events))
    {seg : Nat} (known : seg < total) :
    client.segmentInterest base version seg ∈ events.map PipeEvent.interest ↔ seg ∈ arrived := by
  rw [← piped.answered_iff fits known, answered_after, start, answered_step]
  constructor
  · intro member
    exact List.mem_append_right _ member
  · intro member
    rcases List.mem_append.mp member with before | after
    · have metadata := List.mem_singleton.mp before
      cases congrArg BoundInterest.onData metadata
    · exact after

section Exchange

variable {metadata : Data} {events : List PipeEvent}
  (announces : Announces client.ndn client.protobuf base version total metadata)
  (fits : total < 2 ^ 31)
  (steps : Run.Steps client.step (client.Arrives base version total)
    (client.start asked metadata) events)

include announces fits steps

theorem piped_run : Run.Holds client.step
    (fun now => ∃ arrived, client.Piped asked base version total arrived now)
    (client.start asked metadata) events := by
  apply Run.invariant _ steps ⟨[], piped_start announces⟩
  intro now event piped arrives
  obtain ⟨arrived, piped⟩ := piped
  cases event with
  | timeout interest => exact arrives.elim
  | data interest data =>
      obtain ⟨outstanding, name, seg, known, rfl⟩ := arrives
      exact ⟨arrived ++ [seg], piped.segment fits known outstanding name⟩

/-- The variable done tells the truth exactly when the last segment comes last. -/
theorem done_iff (positive : 1 ≤ total) :
    Run.Holds client.step (fun now => now.done = true → ∀ seg < total,
      client.segmentInterest base version seg ∈ now.interests.answered)
        (client.start asked metadata) events ↔
          client.LastArrivesLast base version total events := by
  rw [Run.holds_iff_prefix]
  apply forall_congr'
  intro early
  apply imp_congr_right
  intro start
  have all := piped_run announces fits steps
  obtain ⟨arrived, piped⟩ := all.after_prefix start
  rw [piped.done, piped.arrives_iff fits (by omega : total - 1 < total)]
  apply imp_congr_right
  intro last
  apply forall_congr'
  intro seg
  apply imp_congr_right
  intro known
  rw [piped.answered_iff fits known, piped.arrives_iff fits known]

end Exchange

end Piped

/-- The whole file is fetched exactly when it is no longer than the window or the exchange is not
over, and its last segment comes last. -/
theorem fetchesWhole_iff (client : CatFilePipe) (asked base : Name) (version : Int) {total : Nat}
    (positive : 1 ≤ total) (fits : total < 2 ^ 31) {metadata : Data}
    (announces : Announces client.ndn client.protobuf base version total metadata)
    {events : List PipeEvent}
    (steps : Run.Steps client.step (client.Arrives base version total)
      (client.start asked metadata) events) :
    client.FetchesWhole base version total (client.start asked metadata) events ↔
      (client.OthersArrive base version total events → total ≤ interestPipeSize) ∧
        client.LastArrivesLast base version total events := by
  have all := piped_run announces fits steps
  obtain ⟨arrived, piped⟩ := all.after_prefix (List.prefix_refl events)
  have others : client.OthersArrive base version total events ↔
      ∀ seg < total, seg ≠ interestPipeSize → seg ∈ arrived := by
    apply forall_congr'
    intro seg
    apply imp_congr_right
    intro known
    rw [piped.arrives_iff fits known]
  rw [others, ← piped.once_iff fits, ← done_iff announces fits steps positive]
  constructor
  · intro whole
    exact ⟨whole.once, whole.done⟩
  · intro condition
    have twice : ∀ seg < total, (Run.after client.step (client.start asked metadata)
        events).interests.requested.count (client.segmentInterest base version seg) ≤ 1 :=
      fun _ _ => List.nodup_iff_count_le_one.mp (piped.once fits) _
    exact ⟨twice, condition.1, condition.2⟩

end CatFilePipe

namespace Reference

def catFilePipe : CatFilePipe := ⟨Reference.ndn, Reference.protobuf⟩

/-- The metadata of a file that has so many full segments before a last one of one byte. -/
def pipeMetadata (full : Nat) : Data where
  name := [ascii "ndnfs", ascii "a"] ++
    [metaMarker :: ascii ".FS.file", Reference.ndn.versionComponent 2]
  content := Reference.protobuf.serialize ⟨8192 * full + 1, full + 1, 2, none, some 0⟩

theorem announces_pipeMetadata {full : Nat} (small : full < 2 ^ 18 - 1) :
    Announces Reference.ndn Reference.protobuf [ascii "ndnfs", ascii "a"] 2 (full + 1)
      (pipeMetadata full) where
  name := ⟨metaMarker :: ascii ".FS.file", Reference.ndn.versionComponent 2, rfl, by decide⟩
  info := by
    apply Exists.intro ⟨8192 * full + 1, full + 1, 2, none, some 0⟩
    constructor
    · apply Reference.protobuf.parse_serialize
      constructor
      · unfold IsInt
        dsimp only
        omega
      · unfold IsInt
        dsimp only
        omega
      · show IsInt 2
        decide
      · show ∀ value ∈ some (0 : Int), IsInt value
        decide
    · exact ⟨rfl, by simp⟩

/-- The segment with this number arrives. -/
def pipeArrival (seg : Nat) : PipeEvent :=
  .data (catFilePipe.segmentInterest [ascii "ndnfs", ascii "a"] 2 seg)
    { name := (catFilePipe.segmentInterest [ascii "ndnfs", ascii "a"] 2 seg).name, content := [] }

end Reference

namespace CatFilePipe

/-- Two segments arrive in their order. -/
theorem fetchesWhole_iff_two : Reference.catFilePipe.FetchesWhole [ascii "ndnfs", ascii "a"] 2 2
    (Reference.catFilePipe.start [ascii "ndnfs", ascii "a"] (Reference.pipeMetadata 1))
    [Reference.pipeArrival 0, Reference.pipeArrival 1] ↔
      (Reference.catFilePipe.OthersArrive [ascii "ndnfs", ascii "a"] 2 2
        [Reference.pipeArrival 0, Reference.pipeArrival 1] → 2 ≤ interestPipeSize) ∧
          Reference.catFilePipe.LastArrivesLast [ascii "ndnfs", ascii "a"] 2 2
            [Reference.pipeArrival 0, Reference.pipeArrival 1] :=
  fetchesWhole_iff Reference.catFilePipe _ _ 2 (by decide) (by decide)
    (Reference.announces_pipeMetadata (by decide)) (by decide +kernel)

/-- All Interests for a file of nine segments are answered, and segment 8 is never requested. -/
theorem fetchesWhole_fails : ¬ ∀ (client : CatFilePipe) (asked base : Name) (version : Int)
    (total : Nat) (metadata : Data) (events : List PipeEvent), 1 ≤ total → total < 2 ^ 31 →
    Announces client.ndn client.protobuf base version total metadata →
      Run.Steps client.step (client.Arrives base version total)
        (client.start asked metadata) events →
          client.FetchesWhole base version total (client.start asked metadata) events := by
  intro claim
  have whole := claim Reference.catFilePipe [ascii "ndnfs", ascii "a"] [ascii "ndnfs", ascii "a"] 2
    9 (Reference.pipeMetadata 8) ((List.range 8).map Reference.pipeArrival) (by decide) (by decide)
    (Reference.announces_pipeMetadata (by decide)) (by decide +kernel)
  have once := whole.once (by decide +kernel) 8 (by decide)
  revert once
  decide +kernel

end CatFilePipe

end Ndnfs.Client

import Ndnfs.Foundation.Refinement
import Ndnfs.Proof.SequentialFetch
import Ndnfs.Server.Scan

namespace Ndnfs.Client
open MachineInteger NdnCpp Percent

/-- The name of a segment of a version. -/
def segmentName (ndn : NdnCpp) (base : Name) (version : Int) (seg : Nat) : Name :=
  base ++ [ndn.versionComponent version, ndn.segmentComponent seg]

/-- The packet can be taken for metadata or for a segment of the version only if it is that; its
name does not go on behind the file. -/
structure Genuine (ndn : NdnCpp) (protobuf : Protobuf) (base : Name) (version : Int)
    (pieces : List Bytes) (data : Data) : Prop where
  long : 2 ≤ data.name.length
  metadata : ∀ front marker last, data.name = front ++ [marker, last] →
    ndn.toEscapedString marker = fileComponentName →
      Announces ndn protobuf base version pieces.length data
  segment : ∀ seg content, pieces[seg]? = some content →
    segmentName ndn base version seg <+: data.name →
      data.name = segmentName ndn base version seg ∧ data.content = content
  final : ∀ seg content, pieces[seg]? = some content →
    segmentName ndn base version seg <+: data.name →
      data.metaInfo.finalBlockId.bind ndn.toSegment = some (pieces.length - 1)
  behind : ∀ component, componentKind component = .plain → ¬ base ++ [component] <+: data.name

/-- A long name has a component before its last one. -/
theorem exists_marker {name : Name} (long : 2 ≤ name.length) : ∃ front marker last,
    name = front ++ [marker, last] ∧
      getComponent name ((name.length : Int) - 2) = some marker := by
  obtain ⟨back, rfl⟩ : ∃ back : Name, name = back.reverse := ⟨name.reverse, by simp⟩
  match back with
  | [] => exact absurd long (by decide)
  | [only] => exact absurd long (by simp)
  | last :: second :: front =>
      have shape : (last :: second :: front).reverse = front.reverse ++ [second, last] := by simp
      rw [shape]
      exact ⟨front.reverse, second, last, rfl, getComponent_marker _ _ _⟩

namespace Handler

variable {handler : Handler}

/-- Data that is no metadata of a file ends the exchange or leads to another Interest. -/
theorem onAttrData_other {data : Data} (long : 2 ≤ data.name.length)
    (other : ∀ front marker last, data.name = front ++ [marker, last] →
      handler.ndn.toEscapedString marker ≠ fileComponentName)
    (interestName : Name) (session : HandlerSession) :
    (∃ done ended,
        handler.onAttrData interestName data session = { session with done, ended }) ∨
      ∃ component, handler.onAttrData interestName data session =
        session.expressInterest (interestName ++ [component]) .onAttrData := by
  unfold onAttrData
  split
  · exact .inl ⟨_, _, rfl⟩
  · rename_i marker found
    obtain ⟨front, same, last, name, found'⟩ := exists_marker long
    obtain rfl : same = marker := Option.some.inj (found'.symm.trans found)
    dsimp only
    split
    · exact .inl ⟨_, _, rfl⟩
    · rw [if_neg (other front same last name)]
      split
      · exact .inl ⟨_, _, rfl⟩
      · exact .inr ⟨_, rfl⟩

/-- The session has received its last segment. -/
def Finished (session : HandlerSession) : Prop :=
  session.totalSegment ≠ 0 ∧ session.currentSegment = session.totalSegment

instance (session : HandlerSession) : Decidable (Finished session) :=
  inferInstanceAs (Decidable (_ ∧ _))

/-- The network delivers packets that were sent, and only to Interests that they satisfy; Interests
time out, and each verdict is for a packet that waits for one. -/
def Arrives (sent : List Data) (session : HandlerSession) : HandlerEvent → Prop
  | .data interest data =>
      session.interests.Outstanding interest ∧ data ∈ sent ∧ interest.name <+: data.name
  | .timeout interest => session.interests.Outstanding interest
  | .verified data | .verifyFailed data => data ∈ session.verifying

instance (sent : List Data) (session : HandlerSession) (event : HandlerEvent) :
    Decidable (Arrives sent session event) := by
  unfold Arrives
  split <;> infer_instance

/-- The session waits for this segment and has saved the ones before it. -/
structure Fetching (handler : Handler) (base : Name) (version : Int) (pieces : List Bytes)
    (before : Bytes) (seg : Nat) (session : HandlerSession) : Prop where
  known : seg < pieces.length
  next : session.interests.requested =
    session.interests.answered ++ [handler.segmentInterest base version seg]
  total : session.totalSegment = pieces.length
  current : session.currentSegment = seg
  file : session.localFile = before ++ (pieces.take seg).flatten

/-- The session waits for metadata. -/
structure Asking (base : Name) (before : Bytes) (name : Name) (session : HandlerSession) :
    Prop where
  under : base <+: name
  next : session.interests.requested = session.interests.answered ++ [⟨name, .onAttrData⟩]
  total : session.totalSegment = 0
  current : session.currentSegment = 0
  file : session.localFile = before

/-- The session has no Interest left. -/
structure Stopped (pieces : List Bytes) (before : Bytes) (count : Nat) (session : HandlerSession) :
    Prop where
  idle : session.interests.requested = session.interests.answered
  total : session.totalSegment = 0 ∨
    session.totalSegment = pieces.length ∧ session.currentSegment = count
  bound : count ≤ pieces.length
  file : session.localFile = before ++ (pieces.take count).flatten

/-- These are all states that genuine packets lead to. -/
inductive Tracks (handler : Handler) (base : Name) (version : Int) (pieces : List Bytes)
    (before : Bytes) (session : HandlerSession) : Prop where
  | asking (name : Name) (asking : Asking base before name session)
  | fetching (seg : Nat) (fetching : handler.Fetching base version pieces before seg session)
  | stopped (count : Nat) (stopped : Stopped pieces before count session)

section Tracks

variable {base : Name} {version : Int} {pieces : List Bytes} {before : Bytes}
  {session : HandlerSession}

theorem Fetching.not_finished {seg : Nat}
    (fetching : handler.Fetching base version pieces before seg session) : ¬ Finished session := by
  rintro ⟨-, last⟩
  have known := fetching.known
  rw [fetching.current, fetching.total] at last
  omega

/-- The local file has the bytes of whole segments, in order and from the first one. -/
theorem Tracks.written (tracks : handler.Tracks base version pieces before session) :
    ∃ count, session.localFile = before ++ (pieces.take count).flatten := by
  cases tracks with
  | asking name asking => exact ⟨0, by simp [asking.file]⟩
  | fetching seg fetching => exact ⟨seg, fetching.file⟩
  | stopped count stopped => exact ⟨count, stopped.file⟩

/-- With the last segment the whole file has been saved. -/
theorem Tracks.finished (tracks : handler.Tracks base version pieces before session)
    (finished : Finished session) : session.localFile = before ++ pieces.flatten := by
  cases tracks with
  | asking name asking => exact absurd asking.total finished.1
  | fetching seg fetching => exact absurd finished fetching.not_finished
  | stopped count stopped =>
      obtain ⟨all, here⟩ := stopped.total.resolve_left finished.1
      have last := finished.2
      rw [here, all] at last
      rw [stopped.file, Int.ofNat_inj.mp last, List.take_length]

/-- A verdict changes nothing that is tracked. -/
theorem Tracks.verdict (tracks : handler.Tracks base version pieces before session)
    (verifying : List Data) :
    handler.Tracks base version pieces before { session with verifying } := by
  cases tracks with
  | asking name asking =>
      exact .asking name ⟨asking.under, asking.next, asking.total, asking.current, asking.file⟩
  | fetching seg fetching =>
      exact .fetching seg
        ⟨fetching.known, fetching.next, fetching.total, fetching.current, fetching.file⟩
  | stopped count stopped =>
      exact .stopped count ⟨stopped.idle, stopped.total, stopped.bound, stopped.file⟩

theorem Tracks.timeout (tracks : handler.Tracks base version pieces before session)
    {interest : BoundInterest HandlerCallback}
    (outstanding : session.interests.Outstanding interest) :
    handler.Tracks base version pieces before (handler.step session (.timeout interest)) := by
  cases tracks with
  | asking name asking =>
      obtain rfl := (Ledger.outstanding_last_iff asking.next).mp outstanding
      exact .stopped 0 ⟨asking.next, .inl asking.total, Nat.zero_le _,
        by simp [Handler.step, onTimeout, asking.file]⟩
  | fetching seg fetching =>
      obtain rfl := (Ledger.outstanding_last_iff fetching.next).mp outstanding
      exact .stopped seg ⟨fetching.next, .inr ⟨fetching.total, fetching.current⟩,
        fetching.known.le, fetching.file⟩
  | stopped count stopped =>
      exact absurd outstanding (Ledger.not_outstanding stopped.idle interest)

/-- The metadata of the file lead to its first segment. -/
theorem Asking.announced (fetch : handler.fetchFile = true) (nonempty : pieces ≠ []) {name : Name}
    (asking : Asking base before name session) {data : Data}
    (announces : Announces handler.ndn handler.protobuf base version pieces.length data) :
    handler.Fetching base version pieces before 0
      (handler.step session (.data ⟨name, .onAttrData⟩ data)) := by
  simp only [Handler.step, handler.onAttrData_announces fetch announces]
  refine ⟨List.length_pos_iff.mpr nonempty, ?_, rfl, asking.current, by simp [asking.file]⟩
  rw [Ledger.requested_request, Ledger.requested_answer, Ledger.answered_request,
    Ledger.answered_answer, asking.next]
  rfl

/-- Another packet in place of the metadata does not. -/
theorem Asking.answer (fetch : handler.fetchFile = true) (nonempty : pieces ≠ []) {name : Name}
    (asking : Asking base before name session) {data : Data}
    (genuine : Genuine handler.ndn handler.protobuf base version pieces data) :
    handler.Fetching base version pieces before 0
        (handler.step session (.data ⟨name, .onAttrData⟩ data)) ∨
      handler.Tracks base version pieces before
          (handler.step session (.data ⟨name, .onAttrData⟩ data)) ∧
        (handler.step session (.data ⟨name, .onAttrData⟩ data)).totalSegment = 0 := by
  by_cases metadata : ∃ front marker last, data.name = front ++ [marker, last] ∧
      handler.ndn.toEscapedString marker = fileComponentName
  · obtain ⟨front, marker, last, shape, isFile⟩ := metadata
    exact .inl (asking.announced fetch nonempty (genuine.metadata front marker last shape isFile))
  · have other : ∀ front marker last, data.name = front ++ [marker, last] →
        handler.ndn.toEscapedString marker ≠ fileComponentName :=
      fun front marker last shape isFile => metadata ⟨front, marker, last, shape, isFile⟩
    simp only [Handler.step]
    rcases handler.onAttrData_other genuine.long other name
        { session with interests := session.interests.answer ⟨name, .onAttrData⟩ } with
      ⟨done, ended, run⟩ | ⟨component, run⟩
    · rw [run]
      exact .inr ⟨.stopped 0 ⟨asking.next, .inl asking.total, Nat.zero_le _, by simp [asking.file]⟩,
        asking.total⟩
    · rw [run]
      refine .inr ⟨.asking (name ++ [component]) ⟨asking.under.trans (List.prefix_append _ _), ?_,
        asking.total, asking.current, asking.file⟩, asking.total⟩
      simp only [HandlerSession.expressInterest, Ledger.requested_request, Ledger.requested_answer,
        Ledger.answered_request, Ledger.answered_answer, asking.next]

/-- A genuine segment is appended, and the next one is asked for until the last one has come. -/
theorem Fetching.receive (named : handler.fileName ≠ []) (fits : pieces.length < 2 ^ 31) {seg : Nat}
    (fetching : handler.Fetching base version pieces before seg session) {content : Bytes}
    (piece : pieces[seg]? = some content) {data : Data}
    (name : data.name = segmentName handler.ndn base version seg)
    (same : data.content = content) :
    handler.Fetching base version pieces before (seg + 1)
        (handler.step session (.data (handler.segmentInterest base version seg) data)) ∨
      seg + 1 = pieces.length ∧
        Finished (handler.step session (.data (handler.segmentInterest base version seg) data)) ∧
        Stopped pieces before (seg + 1)
          (handler.step session (.data (handler.segmentInterest base version seg) data)) := by
  have known := fetching.known
  have shape : data.name = (base ++ [handler.ndn.versionComponent version]) ++
      [handler.ndn.segmentComponent seg] := by
    rw [name, segmentName, List.append_assoc]
    rfl
  have longer : session.localFile ++ data.content =
      before ++ (pieces.take (seg + 1)).flatten := by
    rw [fetching.file, same, List.append_assoc, List.take_add_one, piece, List.flatten_append]
    simp
  have run : handler.step session (.data (handler.segmentInterest base version seg) data) =
      handler.onFileData data { session with
        interests := session.interests.answer (handler.segmentInterest base version seg) } := rfl
  rw [run, handler.onFileData_segment named (Nat.lt_of_le_of_lt known fits) shape]
  dsimp only
  rw [fetching.total]
  by_cases last : ((seg + 1 : Nat) : Int) = pieces.length
  · rw [if_pos last]
    refine .inr ⟨Int.ofNat_inj.mp last, ⟨?_, last⟩, fetching.next, .inr ⟨rfl, rfl⟩, known, longer⟩
    dsimp only
    omega
  · rw [if_neg last]
    refine .inl ⟨by omega, ?_, rfl, rfl, longer⟩
    simp only [Ledger.requested_request, Ledger.requested_answer, Ledger.answered_request,
      Ledger.answered_answer, fetching.next, segmentInterest, List.append_assoc, List.cons_append,
      List.nil_append]

/-- Whatever genuine packets arrive, the session goes on from one segment to the next. -/
theorem Tracks.step (fetch : handler.fetchFile = true) (named : handler.fileName ≠ [])
    (nonempty : pieces ≠ []) (fits : pieces.length < 2 ^ 31) {sent : List Data}
    (genuine : ∀ data ∈ sent, base <+: data.name →
      Genuine handler.ndn handler.protobuf base version pieces data)
    (tracks : handler.Tracks base version pieces before session) {event : HandlerEvent}
    (delivered : Arrives sent session event) :
    handler.Tracks base version pieces before (handler.step session event) := by
  cases event with
  | timeout interest => exact tracks.timeout delivered
  | verified data => exact tracks.verdict _
  | verifyFailed data => exact tracks.verdict _
  | data interest data =>
      obtain ⟨outstanding, member, satisfied⟩ := delivered
      cases tracks with
      | asking name asking =>
          obtain rfl := (Ledger.outstanding_last_iff asking.next).mp outstanding
          rcases asking.answer fetch nonempty
              (genuine data member (asking.under.trans satisfied)) with
            first | ⟨tracks, -⟩
          · exact .fetching 0 first
          · exact tracks
      | fetching seg fetching =>
          obtain rfl := (Ledger.outstanding_last_iff fetching.next).mp outstanding
          obtain ⟨content, piece⟩ : ∃ content, pieces[seg]? = some content :=
            ⟨_, List.getElem?_eq_getElem fetching.known⟩
          have under : base <+: data.name := (List.prefix_append base _).trans satisfied
          obtain ⟨name, same⟩ := (genuine data member under).segment seg content piece satisfied
          rcases fetching.receive named fits piece name same with more | ⟨-, -, stopped⟩
          · exact .fetching (seg + 1) more
          · exact .stopped (seg + 1) stopped
      | stopped count stopped =>
          exact absurd outstanding (Ledger.not_outstanding stopped.idle interest)

end Tracks

end Handler

end Ndnfs.Client

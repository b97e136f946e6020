import Mathlib.Data.List.Nodup
import Ndnfs.Client.Handler
import Ndnfs.Foundation.Run

namespace Ndnfs.Client
open MachineInteger NdnCpp Percent

namespace Handler

section Exchange

variable (handler : Handler) (asked base : Name) (version : Int) (pieces : List Bytes)

def segmentInterest (seg : Nat) : BoundInterest HandlerCallback :=
  ⟨base ++ [handler.ndn.versionComponent version, handler.ndn.segmentComponent seg], .onFileData⟩

/-- The Interests for the metadata and then for one segment after the other. -/
def wholeExchange : List (BoundInterest HandlerCallback) :=
  ⟨asked, .onAttrData⟩ ::
    (List.range pieces.length).map (handler.segmentInterest base version)

/-- The metadata announces the version and the number of segments, and the Interest for each of
these segments is answered by the segment. -/
inductive Answers : BoundInterest HandlerCallback → Data → Prop where
  | metadata {data : Data}
      (announces : Announces handler.ndn handler.protobuf base version pieces.length data) :
      Answers ⟨asked, .onAttrData⟩ data
  | segment {data : Data} (seg : Nat) {content : Bytes} (piece : pieces[seg]? = some content)
      (name : data.name = (handler.segmentInterest base version seg).name)
      (contentSame : data.content = content) :
      Answers (handler.segmentInterest base version seg) data

/-- Outstanding Interests are answered, and verdicts come for packets that wait for one. -/
def Served (session : HandlerSession) : HandlerEvent → Prop
  | .data interest data => session.interests.Outstanding interest ∧
      handler.Answers asked base version pieces interest data
  | .timeout _ => False
  | .verified data | .verifyFailed data => data ∈ session.verifying

/-- The Interests are expressed in order, each once and no other, and the bytes of the segments are
appended in order; nothing is missing when no Interest is outstanding. -/
structure FetchesInOrder (before : Bytes) (session : HandlerSession) : Prop where
  running : session.ended = false
  requests : session.interests.requested <+: handler.wholeExchange asked base version pieces
  once : session.interests.requested.Nodup
  bounded : session.interests.answered.length ≤ pieces.length + 1
  written : ∃ seg, session.localFile = before ++ (pieces.take seg).flatten
  complete : (∀ interest, ¬ session.interests.Outstanding interest) →
    session.interests.requested = handler.wholeExchange asked base version pieces ∧
      session.localFile = before ++ pieces.flatten

/-- This holds after so many answers. -/
structure Reached (before : Bytes) (count : Nat) (session : HandlerSession) : Prop where
  running : session.ended = false
  small : count ≤ pieces.length + 1
  answered : session.interests.answered =
    (handler.wholeExchange asked base version pieces).take count
  requested : session.interests.requested =
    (handler.wholeExchange asked base version pieces).take (count + 1)
  written : session.localFile = before ++ (pieces.take (count - 1)).flatten
  total : 0 < count → session.totalSegment = pieces.length

end Exchange

section Reached

variable {handler : Handler} {asked base : Name} {version : Int} {pieces : List Bytes}
  {before : Bytes}

theorem segmentInterest_inj {first second : Nat} (small : first < 2 ^ 31) (small' : second < 2 ^ 31)
    (same : handler.segmentInterest base version first =
      handler.segmentInterest base version second) : first = second := by
  have last := congrArg (fun interest => interest.name.getLast?) same
  simp only [segmentInterest, List.getLast?_append, List.getLast?_cons_cons, List.getLast?_singleton,
    Option.some_or, Option.some.injEq] at last
  have range : IsInt first := by
    unfold IsInt
    omega
  have range' : IsInt second := by
    unfold IsInt
    omega
  exact Int.ofNat_inj.mp (handler.ndn.segmentComponent_inj range range' last)

theorem length_wholeExchange :
    (handler.wholeExchange asked base version pieces).length = pieces.length + 1 := by
  simp [wholeExchange]

theorem getElem_wholeExchange (seg : Nat) (known : seg < pieces.length) :
    (handler.wholeExchange asked base version pieces)[seg + 1]? =
      some (handler.segmentInterest base version seg) := by
  simp [wholeExchange, known]

/-- No Interest of the exchange is expressed twice. -/
theorem nodup_wholeExchange (fits : pieces.length < 2 ^ 31) :
    (handler.wholeExchange asked base version pieces).Nodup := by
  rw [wholeExchange, List.nodup_cons]
  constructor
  · intro member
    obtain ⟨seg, -, same⟩ := List.mem_map.mp member
    cases congrArg BoundInterest.onData same
  · apply List.Nodup.map_on _ List.nodup_range
    intro first member second member' same
    rw [List.mem_range] at member member'
    exact segmentInterest_inj (by omega) (by omega) same

section Session

variable {count : Nat} {session : HandlerSession}
  (reached : handler.Reached asked base version pieces before count session)

include reached

/-- There is one Interest more than answers until the exchange is over. -/
theorem Reached.next (more : count < (handler.wholeExchange asked base version pieces).length) :
    session.interests.requested = session.interests.answered ++
      [(handler.wholeExchange asked base version pieces)[count]] := by
  rw [reached.requested, reached.answered, List.take_succ_eq_append_getElem more]

/-- The next Interest is the only one that is outstanding. -/
theorem Reached.outstanding {interest : BoundInterest HandlerCallback}
    (outstanding : session.interests.Outstanding interest) :
    (handler.wholeExchange asked base version pieces)[count]? = some interest := by
  by_cases more : count < (handler.wholeExchange asked base version pieces).length
  · rw [Ledger.outstanding_last_iff (reached.next more)] at outstanding
    rw [outstanding, List.getElem?_eq_getElem more]
  · have enough := Nat.le_of_not_lt more
    have full : session.interests.requested = session.interests.answered := by
      rw [reached.requested, reached.answered, List.take_of_length_le enough,
        List.take_of_length_le (Nat.le_succ_of_le enough)]
    exact absurd outstanding (Ledger.not_outstanding full interest)

/-- What is reached after some answers is right. -/
theorem Reached.fetchesInOrder (fits : pieces.length < 2 ^ 31) :
    handler.FetchesInOrder asked base version pieces before session where
  running := reached.running
  requests := reached.requested ▸ List.take_prefix _ _
  once := by
    rw [reached.requested]
    exact (nodup_wholeExchange fits).sublist (List.take_sublist _ _)
  bounded := by
    rw [reached.answered, List.length_take]
    exact Nat.le_trans (Nat.min_le_left _ _) reached.small
  written := ⟨count - 1, reached.written⟩
  complete none := by
    have last : count = pieces.length + 1 := by
      by_contra other
      have more : count < (handler.wholeExchange asked base version pieces).length := by
        rw [length_wholeExchange]
        exact Nat.lt_of_le_of_ne reached.small other
      exact none _ ((Ledger.outstanding_last_iff (reached.next more)).mpr rfl)
    have whole : (handler.wholeExchange asked base version pieces).length ≤ count + 1 := by
      rw [length_wholeExchange, last]
      exact Nat.le_succ _
    rw [reached.requested, reached.written, List.take_of_length_le whole, last,
      Nat.add_sub_cancel, List.take_length]
    exact ⟨rfl, rfl⟩

end Session

/-- The metadata lead to the Interest for the first segment. -/
theorem Reached.metadata (fetch : handler.fetchFile = true) (nonempty : pieces ≠ [])
    {session : HandlerSession}
    (reached : handler.Reached asked base version pieces before 0 session) {data : Data}
    (announces : Announces handler.ndn handler.protobuf base version pieces.length data) :
    handler.Reached asked base version pieces before 1
      (handler.step session (.data ⟨asked, .onAttrData⟩ data)) := by
  have first : 0 < pieces.length := List.length_pos_iff.mpr nonempty
  have asks : (handler.wholeExchange asked base version pieces).take 2 =
      [⟨asked, .onAttrData⟩, handler.segmentInterest base version 0] := by
    rw [List.take_add_one, getElem_wholeExchange 0 first]
    rfl
  rw [step, handler.onAttrData_announces fetch announces]
  exact {
    running := reached.running
    small := by omega
    answered := by
      rw [Ledger.answered_request, Ledger.answered_answer, reached.answered]
      rfl
    requested := by
      rw [Ledger.requested_request, Ledger.requested_answer, reached.requested, asks]
      rfl
    written := reached.written
    total := fun _ => rfl }

/-- A segment is appended and leads to the Interest for the next one, or it is the last. -/
theorem Reached.segment (named : handler.fileName ≠ []) (fits : pieces.length < 2 ^ 31)
    {seg : Nat} {session : HandlerSession}
    (reached : handler.Reached asked base version pieces before (seg + 1) session)
    {data : Data} {content : Bytes} (piece : pieces[seg]? = some content)
    (name : data.name = (handler.segmentInterest base version seg).name)
    (contentSame : data.content = content) :
    handler.Reached asked base version pieces before (seg + 2)
      (handler.step session (.data (handler.segmentInterest base version seg) data)) := by
  have known : seg < pieces.length := (List.getElem?_eq_some_iff.mp piece).1
  have here : (handler.wholeExchange asked base version pieces)[seg + 1]? =
      some (handler.segmentInterest base version seg) := getElem_wholeExchange seg known
  have shape : data.name = (base ++ [handler.ndn.versionComponent version]) ++
      [handler.ndn.segmentComponent seg] := by
    rw [name, segmentInterest, List.append_assoc]
    rfl
  have total : session.totalSegment = pieces.length := reached.total (Nat.succ_pos seg)
  have small : seg + 1 < 2 ^ 31 := Nat.lt_of_le_of_lt known fits
  change handler.Reached asked base version pieces before (seg + 2) (handler.onFileData data
    { session with interests := session.interests.answer _ })
  rw [handler.onFileData_segment named small shape]
  exact {
    running := reached.running
    small := by omega
    answered := by
      have answers : (session.interests.answer (handler.segmentInterest base version seg)).answered =
          (handler.wholeExchange asked base version pieces).take (seg + 2) := by
        rw [Ledger.answered_answer, reached.answered, List.take_add_one (i := seg + 1), here]
        rfl
      dsimp only
      split
      · exact answers
      · exact answers
    requested := by
      dsimp only
      rw [total]
      split
      · rename_i last
        have whole : (handler.wholeExchange asked base version pieces).length ≤ seg + 2 := by
          rw [length_wholeExchange]
          omega
        rw [Ledger.requested_answer, reached.requested, List.take_of_length_le whole,
          List.take_of_length_le (Nat.le_succ_of_le whole)]
      · rename_i more
        have next : (handler.wholeExchange asked base version pieces)[seg + 2]? =
            some (handler.segmentInterest base version (seg + 1)) :=
          getElem_wholeExchange (seg + 1) (by omega)
        rw [Ledger.requested_request, Ledger.requested_answer, reached.requested,
          List.take_add_one (i := seg + 2), next, segmentInterest, List.append_assoc]
        rfl
    written := by
      dsimp only
      rw [reached.written, contentSame, Nat.add_sub_cancel, List.append_assoc,
        show seg + 2 - 1 = seg + 1 from rfl, List.take_add_one, piece, List.flatten_append]
      simp
    total := fun _ => total }

/-- Each answer in turn leads one step on. -/
theorem Reached.step (fetch : handler.fetchFile = true) (named : handler.fileName ≠ [])
    (nonempty : pieces ≠ []) (fits : pieces.length < 2 ^ 31) {count : Nat}
    {session : HandlerSession}
    (reached : handler.Reached asked base version pieces before count session)
    {interest : BoundInterest HandlerCallback} {data : Data}
    (outstanding : session.interests.Outstanding interest)
    (answers : handler.Answers asked base version pieces interest data) :
    handler.Reached asked base version pieces before (count + 1)
      (handler.step session (.data interest data)) := by
  have next := reached.outstanding outstanding
  cases count with
  | zero =>
      obtain rfl := Option.some.inj next
      cases answers with
      | metadata announces => exact reached.metadata fetch nonempty announces
  | succ seg =>
      have known : seg < pieces.length := by
        have inside := (List.getElem?_eq_some_iff.mp next).1
        rw [length_wholeExchange] at inside
        omega
      rw [getElem_wholeExchange seg known] at next
      obtain rfl := Option.some.inj next
      generalize same : handler.segmentInterest base version seg = interest at answers
      cases answers with
      | metadata => cases congrArg BoundInterest.onData same
      | segment other piece name contentSame =>
          have there := (List.getElem?_eq_some_iff.mp piece).1
          obtain rfl := segmentInterest_inj (by omega) (by omega) same
          exact reached.segment named fits piece name contentSame

end Reached

/-- A verdict changes nothing of the exchange. -/
theorem Reached.verdict {handler : Handler} {asked base : Name} {version : Int}
    {pieces : List Bytes} {before : Bytes} {count : Nat} {session : HandlerSession}
    (reached : handler.Reached asked base version pieces before count session)
    (verifying : List Data) :
    handler.Reached asked base version pieces before count { session with verifying } :=
  ⟨reached.running, reached.small, reached.answered, reached.requested, reached.written,
    reached.total⟩

/-- The whole file is fetched, one segment after the other. -/
theorem fetchesInOrder_run (handler : Handler) (fetch : handler.fetchFile = true)
    (named : handler.fileName ≠ []) (asked base : Name) (version : Int) {pieces : List Bytes}
    (nonempty : pieces ≠ []) (fits : pieces.length < 2 ^ 31) {session : HandlerSession}
    (fresh : session.interests = ⟨[⟨asked, .onAttrData⟩], []⟩) (running : session.ended = false)
    {events : List HandlerEvent}
    (steps : Run.Steps handler.step (handler.Served asked base version pieces) session events) :
    Run.Holds handler.step (handler.FetchesInOrder asked base version pieces session.localFile)
      session events := by
  have start : handler.Reached asked base version pieces session.localFile 0 session := {
    running
    small := Nat.zero_le _
    answered := by
      rw [fresh]
      rfl
    requested := by
      rw [fresh]
      rfl
    written := by simp
    total := fun positive => absurd positive (Nat.lt_irrefl 0) }
  have all : Run.Holds handler.step (fun now => ∃ count,
      handler.Reached asked base version pieces session.localFile count now) session events := by
    apply Run.invariant _ steps ⟨0, start⟩
    rintro now event ⟨count, reached⟩ served
    cases event with
    | data interest data =>
        exact ⟨count + 1, reached.step fetch named nonempty fits served.1 served.2⟩
    | timeout interest => exact served.elim
    | verified data => exact ⟨count, reached.verdict _⟩
    | verifyFailed data => exact ⟨count, reached.verdict _⟩
  exact all.imp fun now ⟨count, reached⟩ => reached.fetchesInOrder fits

end Handler

namespace Reference

def handler : Handler := ⟨Reference.ndn, Reference.protobuf, ascii "copy", true, true⟩

/-- The handler has just asked for the metadata of a file. -/
def asking : HandlerSession where
  interests := ⟨[⟨[ascii "ndnfs", ascii "a"], .onAttrData⟩], []⟩
  localFile := []

def attrData : Data where
  name := [ascii "ndnfs", ascii "a"] ++
    [metaMarker :: ascii ".FS.file", Reference.ndn.versionComponent 2]
  content := Reference.protobuf.serialize ⟨8193, 2, 2, none, some 0⟩

theorem announces_attrData :
    Announces Reference.ndn Reference.protobuf [ascii "ndnfs", ascii "a"] 2 2 attrData where
  name := ⟨metaMarker :: ascii ".FS.file", Reference.ndn.versionComponent 2, rfl, by decide⟩
  info := ⟨⟨8193, 2, 2, none, some 0⟩, by decide +kernel, rfl, rfl⟩

def fileData (seg : Nat) (content : Bytes) : Data where
  name := (handler.segmentInterest [ascii "ndnfs", ascii "a"] 2 seg).name
  content := content

end Reference

namespace Handler

/-- A file of two segments is fetched, and the verdict for the first one comes early. -/
theorem fetchesInOrder_run_two : Run.Holds Reference.handler.step
    (Reference.handler.FetchesInOrder [ascii "ndnfs", ascii "a"] [ascii "ndnfs", ascii "a"] 2
      [ascii "x", ascii "y"] Reference.asking.localFile)
    Reference.asking
    [.data ⟨[ascii "ndnfs", ascii "a"], .onAttrData⟩ Reference.attrData,
      .data (Reference.handler.segmentInterest [ascii "ndnfs", ascii "a"] 2 0)
        (Reference.fileData 0 (ascii "x")),
      .verified (Reference.fileData 0 (ascii "x")),
      .data (Reference.handler.segmentInterest [ascii "ndnfs", ascii "a"] 2 1)
        (Reference.fileData 1 (ascii "y"))] :=
  fetchesInOrder_run Reference.handler rfl (by decide) _ _ 2 (by decide) (by decide) rfl rfl
    ⟨⟨by decide +kernel, .metadata Reference.announces_attrData⟩,
      ⟨by decide +kernel, .segment 0 rfl rfl rfl⟩,
      show Reference.fileData 0 (ascii "x") ∈ (_ : HandlerSession).verifying by decide +kernel,
      ⟨by decide +kernel, .segment 1 rfl rfl rfl⟩, trivial⟩

end Handler

end Ndnfs.Client

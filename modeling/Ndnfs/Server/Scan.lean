import Mathlib.Data.List.TakeWhile
import Ndnfs.Server.ParseName

namespace Ndnfs
open MachineInteger Percent NdnCpp

/-- The first byte decides how the loop treats a component. -/
inductive ComponentKind where
  | empty
  | version
  | segment
  | marker
  | plain
  deriving DecidableEq

def componentKind : Component → ComponentKind
  | [] => .empty
  | first :: _ =>
      if first = versionMarker then .version
      else if first = segmentMarker then .segment
      else if first = metaMarker then .marker
      else .plain

namespace ComponentKind

/-- The loop passes these components while it has no version. -/
def isFront (kind : ComponentKind) : Bool := kind == .plain || kind == .marker

end ComponentKind

theorem componentKind_empty {component : Component} (kind : componentKind component = .empty) :
    component = [] := by
  unfold componentKind at kind
  split at kind
  · rfl
  · split_ifs at kind

theorem componentKind_version {component : Component} (kind : componentKind component = .version) :
    ∃ rest, component = versionMarker :: rest := by
  unfold componentKind at kind
  split at kind
  · cases kind
  · split_ifs at kind with version
    exact ⟨_, by rw [version]⟩

theorem componentKind_segment {component : Component} (kind : componentKind component = .segment) :
    ∃ rest, component = segmentMarker :: rest := by
  unfold componentKind at kind
  split at kind
  · cases kind
  · split_ifs at kind with _ segment
    exact ⟨_, by rw [segment]⟩

theorem componentKind_marker {component : Component} (kind : componentKind component = .marker) :
    ∃ rest, component = metaMarker :: rest := by
  unfold componentKind at kind
  split at kind
  · cases kind
  · split_ifs at kind with _ _ marker
    exact ⟨_, by rw [marker]⟩

theorem componentKind_plain {component : Component} (kind : componentKind component = .plain) :
    ∃ first rest, component = first :: rest ∧ first ≠ versionMarker ∧ first ≠ segmentMarker ∧
      first ≠ metaMarker := by
  unfold componentKind at kind
  split at kind
  · cases kind
  · split_ifs at kind with version segment marker
    exact ⟨_, _, rfl, version, segment, marker⟩

theorem componentKind_of_head {component : Component} {first : UInt8}
    (head : component.head? = some first) : componentKind component = componentKind [first] := by
  cases component with
  | nil => cases head
  | cons byte rest =>
      obtain rfl := Option.some.inj head
      rfl

namespace Server

variable (server : Server)

theorem componentKind_versionComponent (version : Int) :
    componentKind (server.ndn.versionComponent version) = .version :=
  componentKind_of_head (server.ndn.fromNumberWithMarker_head _ _)

theorem componentKind_segmentComponent (segment : Int) :
    componentKind (server.ndn.segmentComponent segment) = .segment :=
  componentKind_of_head (server.ndn.fromNumberWithMarker_head _ _)

theorem scanComponent_version {component : Component} (kind : componentKind component = .version)
    (scan : Scan) : server.scanComponent scan component =
      if scan.version = -1 then
        match server.ndn.toVersion component with
        | none => .error .badNumber
        | some number => .ok (some { scan with version := toInt number })
      else .ok none := by
  obtain ⟨rest, rfl⟩ := componentKind_version kind
  rw [scanComponent]
  exact if_pos rfl

theorem scanComponent_segment {component : Component} (kind : componentKind component = .segment)
    (scan : Scan) : server.scanComponent scan component =
      if scan.version = -1 then .ok none
      else if scan.seg ≠ -1 then .ok none
      else
        match server.ndn.toSegment component with
        | none => .error .badNumber
        | some number => .ok (some { scan with seg := toInt number }) := by
  obtain ⟨rest, rfl⟩ := componentKind_segment kind
  rw [scanComponent, if_neg (by decide)]
  exact if_pos rfl

theorem scanComponent_marker {component : Component} (kind : componentKind component = .marker)
    (scan : Scan) : server.scanComponent scan component =
      if scan.version ≠ -1 ∨ scan.seg ≠ -1 then .ok none
      else .ok (some { scan with hasMeta := true }) := by
  obtain ⟨rest, rfl⟩ := componentKind_marker kind
  rw [scanComponent, if_neg (by decide), if_neg (by decide), if_pos rfl]

theorem scanComponent_plain {component : Component} (kind : componentKind component = .plain)
    (scan : Scan) : server.scanComponent scan component =
      if scan.version = -1 ∧ scan.seg = -1 then
        .ok (some { scan with oss := scan.oss ++ slash :: server.ndn.toEscapedString component })
      else .ok none := by
  obtain ⟨first, rest, rfl, version, segment, marker⟩ := componentKind_plain kind
  rw [scanComponent, if_neg version, if_neg segment, if_neg marker]

/-- The components that are part of the path. -/
def plains (name : Name) : Name := name.filter fun component => componentKind component = .plain

def plainText (name : Name) : Bytes := joinSlash ((plains name).map escapeComponent)

/-- The name has a component like C1.FS.file. -/
def hasMarker (name : Name) : Bool := name.any fun component => componentKind component = .marker

/-- Every component is passed while there is no version. -/
def IsFront (name : Name) : Prop := ∀ component ∈ name, (componentKind component).isFront = true

instance (name : Name) : Decidable (IsFront name) :=
  inferInstanceAs (Decidable (∀ component ∈ name, (componentKind component).isFront = true))

@[simp] theorem plainText_nil : plainText [] = [] := rfl

@[simp] theorem plains_append (first second : Name) :
    plains (first ++ second) = plains first ++ plains second := List.filter_append first second

theorem length_plains_le (name : Name) : (plains name).length ≤ name.length :=
  List.length_filter_le _ name

@[simp] theorem plainText_append (first second : Name) :
    plainText (first ++ second) = plainText first ++ plainText second := by
  simp [plainText]

theorem plainText_cons_plain {component : Component} (kind : componentKind component = .plain)
    (name : Name) : plainText (component :: name) =
      slash :: (escapeComponent component ++ plainText name) := by
  simp [plainText, plains, kind]

theorem plainText_cons_other {component : Component} (kind : componentKind component ≠ .plain)
    (name : Name) : plainText (component :: name) = plainText name := by
  simp [plainText, plains, kind]

theorem plains_of_plain {name : Name} (plain : ∀ component ∈ name,
    componentKind component = .plain) : plains name = name :=
  List.filter_eq_self.mpr fun component member => by simp [plain component member]

/-- A name of plain components is the text of all of them. -/
theorem plainText_of_plain {name : Name} (plain : ∀ component ∈ name,
    componentKind component = .plain) : plainText name = joinSlash (name.map escapeComponent) := by
  rw [plainText, plains_of_plain plain]

theorem plains_other {name : Name} (other : ∀ component ∈ name,
    componentKind component ≠ .plain) : plains name = [] :=
  List.filter_eq_nil_iff.mpr fun component member => by simp [other component member]

theorem plainText_other {name : Name} (other : ∀ component ∈ name,
    componentKind component ≠ .plain) : plainText name = [] := by
  rw [plainText, plains_other other]
  rfl

theorem hasMarker_append (first second : Name) :
    hasMarker (first ++ second) = (hasMarker first || hasMarker second) := List.any_append

theorem hasMarker_of_plain {name : Name} (plain : ∀ component ∈ name,
    componentKind component = .plain) : hasMarker name = false := by
  simp only [hasMarker, List.any_eq_false, decide_eq_true_eq]
  intro component member
  rw [plain component member]
  simp

theorem IsFront.append {first second : Name} (front : IsFront first) (front' : IsFront second) :
    IsFront (first ++ second) := by
  intro component member
  rcases List.mem_append.mp member with before | after
  · exact front component before
  · exact front' component after

theorem isFront_of_plain {name : Name} (plain : ∀ component ∈ name,
    componentKind component = .plain) : IsFront name := by
  intro component member
  rw [plain component member]
  rfl

/-- Every name is a front and a rest that does not start with a front component. -/
theorem exists_front (name : Name) : ∃ front back, name = front ++ back ∧ IsFront front ∧
    ∀ component ∈ back.head?, (componentKind component).isFront = false := by
  have stop := List.head?_dropWhile_not (fun component => (componentKind component).isFront) name
  refine ⟨name.takeWhile fun component => (componentKind component).isFront,
    name.dropWhile fun component => (componentKind component).isFront,
    List.takeWhile_append_dropWhile.symm, fun component => List.mem_takeWhile_imp, ?_⟩
  intro component head
  rw [head] at stop
  exact stop

/-- Before the version the loop only collects the path and sees the markers. -/
theorem scanName_front {front : Name} (isFront : IsFront front) (back : Name) {scan : Scan}
    (version : scan.version = -1) (seg : scan.seg = -1) :
    server.scanName scan (front ++ back) = server.scanName
      { scan with hasMeta := scan.hasMeta || hasMarker front, oss := scan.oss ++ plainText front }
      back := by
  induction front generalizing scan with
  | nil =>
      simp [hasMarker]
  | cons component front ih =>
      have rest : IsFront front := fun other member => isFront other (List.mem_cons_of_mem _ member)
      have kinds := isFront component List.mem_cons_self
      rw [ComponentKind.isFront, Bool.or_eq_true, beq_iff_eq, beq_iff_eq] at kinds
      rw [List.cons_append, scanName]
      cases kinds with
      | inl plain =>
          rw [server.scanComponent_plain plain, if_pos ⟨version, seg⟩]
          change server.scanName _ (front ++ back) = _
          rw [ih rest, plainText_cons_plain plain, server.ndn.toEscapedString_eq]
          · simp [hasMarker, plain]
          · exact version
          · exact seg
      | inr marker =>
          rw [server.scanComponent_marker marker, if_neg (by simp [version, seg])]
          change server.scanName _ (front ++ back) = _
          rw [ih rest, plainText_cons_other (by simp [marker])]
          · simp [hasMarker, marker]
          · exact version
          · exact seg

/-- One round adds the text of the component to the path. -/
theorem scanComponent_some {scan next : Scan} {component : Component}
    (passed : server.scanComponent scan component = .ok (some next)) :
    componentKind component ≠ .empty ∧ next.oss = scan.oss ++ plainText [component] := by
  cases kind : componentKind component with
  | empty =>
      rw [componentKind_empty kind] at passed
      cases passed
  | version =>
      rw [server.scanComponent_version kind] at passed
      split at passed
      · split at passed
        · cases passed
        · rw [← Option.some.inj (Except.ok.inj passed), plainText_cons_other (by simp [kind])]
          simp
      · cases passed
  | segment =>
      rw [server.scanComponent_segment kind] at passed
      split at passed
      · cases passed
      · split at passed
        · cases passed
        · split at passed
          · cases passed
          · rw [← Option.some.inj (Except.ok.inj passed), plainText_cons_other (by simp [kind])]
            simp
  | marker =>
      rw [server.scanComponent_marker kind] at passed
      split at passed
      · cases passed
      · rw [← Option.some.inj (Except.ok.inj passed), plainText_cons_other (by simp [kind])]
        simp
  | plain =>
      rw [server.scanComponent_plain kind] at passed
      split at passed
      · rw [← Option.some.inj (Except.ok.inj passed), plainText_cons_plain kind,
          server.ndn.toEscapedString_eq]
        simp
      · cases passed

/-- A complete scan has seen no empty component and has collected the plain ones. -/
theorem scanName_complete {scan last : Scan} {name : Name}
    (complete : server.scanName scan name = .ok (true, last)) :
    (∀ component ∈ name, componentKind component ≠ .empty) ∧
      last.oss = scan.oss ++ plainText name := by
  induction name generalizing scan with
  | nil =>
      rw [scanName] at complete
      rw [← (Prod.mk.inj (Except.ok.inj complete)).2]
      simp
  | cons component name ih =>
      rw [scanName] at complete
      split at complete
      · cases complete
      · cases complete
      · rename_i next passed
        obtain ⟨nonempty, oss⟩ := server.scanComponent_some passed
        obtain ⟨rest, text⟩ := ih complete
        refine ⟨List.forall_mem_cons.mpr ⟨nonempty, rest⟩, ?_⟩
        rw [text, oss, List.append_assoc, ← plainText_append]
        rfl

/-- The loop passes a name in two parts. -/
theorem scanName_append (scan : Scan) (front back : Name) :
    server.scanName scan (front ++ back) =
      match server.scanName scan front with
      | .ok (true, middle) => server.scanName middle back
      | stopped => stopped := by
  induction front generalizing scan with
  | nil => rfl
  | cons component front ih =>
      rw [List.cons_append, scanName, scanName]
      cases server.scanComponent scan component with
      | error exception => rfl
      | ok next =>
          cases next with
          | none => rfl
          | some next => exact ih next

/-- The server can compute the result of a complete scan. -/
def finish (scan : Scan) : Except ParseException Parsed :=
  if scan.oss.length < server.fsPrefix.length then .error .outOfRange
  else
    let path := scan.oss.drop server.fsPrefix.length
    .ok ⟨Scan.ret scan, scan.version, scan.seg, if path = [] then ascii "/" else path⟩

theorem parseName_accepted {name : Name} {scan : Scan}
    (accepted : server.scanName {} name = .ok (true, scan)) :
    server.parseName name = server.finish scan := by
  rw [parseName, accepted]
  rfl

theorem parseName_rejected {name : Name} {scan : Scan}
    (rejected : server.scanName {} name = .ok (false, scan)) :
    server.parseName name = .ok ⟨-1, scan.version, scan.seg, []⟩ := by
  rw [parseName, rejected]

theorem finish_eq_ok {scan : Scan} {parsed : Parsed} (finished : server.finish scan = .ok parsed) :
    server.fsPrefix.length ≤ scan.oss.length ∧
      parsed = ⟨Scan.ret scan, scan.version, scan.seg,
        if scan.oss.drop server.fsPrefix.length = [] then ascii "/"
        else scan.oss.drop server.fsPrefix.length⟩ := by
  unfold finish at finished
  split at finished
  · cases finished
  · exact ⟨Nat.le_of_not_lt ‹_›, (Except.ok.inj finished).symm⟩

/-- Only a complete scan stands for a request. -/
theorem parseName_ok {name : Name} {parsed : Parsed} (parse : server.parseName name = .ok parsed)
    (request : parsed.ret ≠ -1) :
    ∃ scan, server.scanName {} name = .ok (true, scan) ∧ server.finish scan = .ok parsed := by
  cases scanned : server.scanName {} name with
  | error exception =>
      rw [parseName, scanned] at parse
      cases parse
  | ok result =>
      obtain ⟨complete, scan⟩ := result
      cases complete with
      | false =>
          rw [server.parseName_rejected scanned] at parse
          rw [← Except.ok.inj parse] at request
          exact absurd rfl request
      | true => exact ⟨scan, rfl, (server.parseName_accepted scanned).symm.trans parse⟩

/-- The text of the prefix goes away when fs_prefix has as many bytes. -/
theorem finish_prefix {scan : Scan} {before after : Bytes} (text : scan.oss = before ++ after)
    (length : server.fsPrefix.length = before.length) :
    server.finish scan = .ok ⟨Scan.ret scan, scan.version, scan.seg,
      if after = [] then ascii "/" else after⟩ := by
  have enough : ¬ scan.oss.length < server.fsPrefix.length := by
    rw [text, length, List.length_append]
    omega
  rw [finish, if_neg enough, text, length, List.drop_left]

/-- The scan of the components before the version. -/
def frontScan (front : Name) : Scan := ⟨-1, -1, hasMarker front, plainText front⟩

theorem scanName_start {front : Name} (isFront : IsFront front) (back : Name) :
    server.scanName {} (front ++ back) = server.scanName (frontScan front) back := by
  rw [server.scanName_front isFront back rfl rfl]
  simp [frontScan]

theorem scanName_version {scan : Scan} {component : Component} {number : Nat}
    (kind : componentKind component = .version) (read : server.ndn.toVersion component = some number)
    (version : scan.version = -1) (back : Name) :
    server.scanName scan (component :: back) =
      server.scanName { scan with version := toInt number } back := by
  rw [scanName, server.scanComponent_version kind, if_pos version, read]

theorem scanName_segment {scan : Scan} {component : Component} {number : Nat}
    (kind : componentKind component = .segment) (read : server.ndn.toSegment component = some number)
    (version : scan.version ≠ -1) (seg : scan.seg = -1) (back : Name) :
    server.scanName scan (component :: back) =
      server.scanName { scan with seg := toInt number } back := by
  rw [scanName, server.scanComponent_segment kind, if_neg version, if_neg (by simp [seg]), read]

/-- A segment without a version stops the loop. -/
theorem scanName_early {scan : Scan} {component : Component}
    (kind : componentKind component = .segment) (version : scan.version = -1) (back : Name) :
    server.scanName scan (component :: back) = .ok (false, scan) := by
  rw [scanName, server.scanComponent_segment kind, if_pos version]

/-- After the version only a first segment is accepted. -/
theorem scanName_late {scan : Scan} {component : Component} (version : scan.version ≠ -1)
    (nonempty : componentKind component ≠ .empty)
    (late : componentKind component = .segment → scan.seg ≠ -1) (back : Name) :
    server.scanName scan (component :: back) = .ok (false, scan) := by
  rw [scanName]
  cases kind : componentKind component with
  | empty => exact absurd kind nonempty
  | version => rw [server.scanComponent_version kind, if_neg version]
  | segment => rw [server.scanComponent_segment kind, if_neg version, if_pos (late kind)]
  | marker => rw [server.scanComponent_marker kind, if_pos (.inl version)]
  | plain => rw [server.scanComponent_plain kind, if_neg fun blank => version blank.1]

/-- The numbers of a segment name come back unless the version is the blank one. -/
theorem scanName_segmentName {front : Name} (isFront : IsFront front) {version seg : Int}
    (range : IsInt version) (rangeSeg : IsInt seg) (known : version ≠ -1) :
    server.scanName {} (front ++
        [server.ndn.versionComponent version, server.ndn.segmentComponent seg]) =
      .ok (true, ⟨version, seg, hasMarker front, plainText front⟩) := by
  rw [server.scanName_start isFront,
    server.scanName_version (server.componentKind_versionComponent version)
      (server.ndn.toVersion_versionComponent version) rfl, toInt_toUInt64 range,
    server.scanName_segment (server.componentKind_segmentComponent seg)
      (server.ndn.toSegment_segmentComponent seg), toInt_toUInt64 rangeSeg]
  · rfl
  · simpa only using known
  · rfl

end Server

end Ndnfs

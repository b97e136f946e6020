import Ndnfs.Server.Scan

namespace Ndnfs
open MachineInteger Percent NdnCpp

/-- The result that the header promises for the components after the prefix. -/
def documentedReturn (kinds : List ComponentKind) : Int :=
  match kinds.dropWhile (· == .plain) with
  | [.version, .segment] => 3
  | [.version] => 2
  | [] | [.marker] | [.marker, .version] => 1
  | _ => -1

/-- Plain and marker components come first, then at most a version and a segment. -/
def LoopAccepts (kinds : List ComponentKind) : Prop :=
  kinds.dropWhile ComponentKind.isFront ∈ [[], [.version], [.version, .segment]]

instance (kinds : List ComponentKind) : Decidable (LoopAccepts kinds) :=
  inferInstanceAs (Decidable (_ ∈ _))

/-- The result that the loop computes for such components. -/
def loopReturn (kinds : List ComponentKind) : Int :=
  match kinds.dropWhile ComponentKind.isFront with
  | [] => 1
  | [.version] => if .marker ∈ kinds then 1 else 2
  | _ => 3

theorem loopReturn_ne (kinds : List ComponentKind) : loopReturn kinds ≠ -1 := by
  unfold loopReturn
  split
  · decide
  · split <;> decide
  · decide

/-- A plain component changes none of the three results. -/
theorem documentedReturn_plain (kinds : List ComponentKind) :
    documentedReturn (.plain :: kinds) = documentedReturn kinds := rfl

theorem loopAccepts_plain (kinds : List ComponentKind) :
    LoopAccepts (.plain :: kinds) ↔ LoopAccepts kinds := Iff.rfl

theorem loopReturn_plain (kinds : List ComponentKind) :
    loopReturn (.plain :: kinds) = loopReturn kinds := by
  simp [loopReturn, ComponentKind.isFront]

/-- Only a marker that ends the name or stands before the last version is documented. -/
theorem documentedReturn_marker {kinds : List ComponentKind}
    (documented : documentedReturn (.marker :: kinds) ≠ -1) : kinds = [] ∨ kinds = [.version] := by
  rcases kinds with _ | ⟨kind, _ | ⟨next, kinds⟩⟩
  · exact .inl rfl
  · cases kind with
    | version => exact .inr rfl
    | empty => exact absurd rfl documented
    | segment => exact absurd rfl documented
    | marker => exact absurd rfl documented
    | plain => exact absurd rfl documented
  · cases kind <;> exact absurd rfl documented

/-- No documented shape is rejected. -/
theorem documentedReturn_rejected {kinds : List ComponentKind} (rejected : ¬ LoopAccepts kinds) :
    documentedReturn kinds = -1 := by
  by_contra documented
  apply rejected
  induction kinds with
  | nil => decide
  | cons kind kinds ih =>
      cases kind with
      | plain => exact (loopAccepts_plain kinds).mpr (ih rejected documented)
      | marker =>
          cases documentedReturn_marker documented with
          | inl last => rw [last]; decide
          | inr version => rw [version]; decide
      | version =>
          rcases kinds with _ | ⟨next, _ | ⟨last, kinds⟩⟩
          · decide
          · cases next <;> first | decide | exact absurd rfl documented
          · cases next <;> exact absurd rfl documented
      | segment => exact absurd rfl documented
      | empty => exact absurd rfl documented

theorem loopReturn_eq_iff {kinds : List ComponentKind} (accepted : LoopAccepts kinds) :
    loopReturn kinds = documentedReturn kinds ↔ documentedReturn kinds ≠ -1 := by
  constructor
  · intro same
    rw [← same]
    exact loopReturn_ne kinds
  · intro documented
    induction kinds with
    | nil => rfl
    | cons kind kinds ih =>
        cases kind with
        | plain =>
            rw [loopReturn_plain, documentedReturn_plain]
            exact ih ((loopAccepts_plain kinds).mp accepted) documented
        | marker =>
            cases documentedReturn_marker documented with
            | inl last => rw [last]; decide
            | inr version => rw [version]; decide
        | version =>
            have shape : kinds = [] ∨ kinds = [.segment] := by
              simpa [LoopAccepts, ComponentKind.isFront] using accepted
            cases shape with
            | inl last => rw [last]; decide
            | inr segment => rw [segment]; decide
        | segment => exact absurd rfl documented
        | empty => exact absurd rfl documented

namespace Server

variable (server : Server)

/-- The number in the first component of this kind. -/
def numberOf (read : Component → Option Nat) (kind : ComponentKind) (name : Name) : Int :=
  match (name.find? fun component => componentKind component = kind).bind read with
  | none => -1
  | some number => number

def versionNumber (name : Name) : Int := numberOf server.ndn.toVersion .version name

def segmentNumber (name : Name) : Int := numberOf server.ndn.toSegment .segment name

/-- The numbers of the name fit in a non-negative int. -/
structure NumbersFit (name : Name) : Prop where
  version : ∀ component ∈ name, componentKind component = .version →
    ∃ number, server.ndn.toVersion component = some number ∧ number < 2 ^ 31
  segment : ∀ component ∈ name, componentKind component = .segment →
    ∃ number, server.ndn.toSegment component = some number ∧ number < 2 ^ 31

/-- The path of a name, with a slash for no component. -/
def pathText (name : Name) : Bytes := if plainText name = [] then ascii "/" else plainText name

/-- The result of parseName follows the documented grammar. -/
structure FollowsGrammar (name : Name) (parsed : Parsed) : Prop where
  ret : parsed.ret = documentedReturn (name.map componentKind)
  path : parsed.ret ≠ -1 → parsed.path = pathText name
  version : parsed.ret ≠ -1 → parsed.version = server.versionNumber name
  seg : parsed.ret ≠ -1 → parsed.seg = server.segmentNumber name

/-- The name consists of the served prefix and these components. -/
def MeetsGrammar (name : Name) : Prop :=
  ∃ parsed, server.parseName (server.prefixName ++ name) = .ok parsed ∧
    server.FollowsGrammar name parsed

theorem numberOf_cons {read : Component → Option Nat} {kind : ComponentKind} {component : Component}
    {number : Nat} (same : componentKind component = kind) (value : read component = some number)
    (name : Name) : numberOf read kind (component :: name) = number := by
  simp [numberOf, same, value]

theorem numberOf_skip (read : Component → Option Nat) {kind : ComponentKind} {skipped : Name}
    (other : ∀ component ∈ skipped, componentKind component ≠ kind) (name : Name) :
    numberOf read kind (skipped ++ name) = numberOf read kind name := by
  have absent : (skipped.find? fun component => componentKind component = kind) = none :=
    List.find?_eq_none.mpr fun component member => by simp [other component member]
  rw [numberOf, List.find?_append, absent, Option.none_or]
  rfl

theorem numberOf_absent (read : Component → Option Nat) {kind : ComponentKind} {name : Name}
    (other : ∀ component ∈ name, componentKind component ≠ kind) :
    numberOf read kind name = -1 := by
  have skip := numberOf_skip read other []
  rwa [List.append_nil] at skip

/-- A readable component of this kind makes the number non-negative. -/
theorem numberOf_nonneg {read : Component → Option Nat} {kind : ComponentKind} {name : Name}
    (readable : ∀ component ∈ name, componentKind component = kind →
      ∃ number, read component = some number ∧ number < 2 ^ 31)
    (present : kind ∈ name.map componentKind) : 0 ≤ numberOf read kind name := by
  obtain ⟨component, member, same⟩ := List.mem_map.mp present
  cases found : name.find? fun component => componentKind component = kind with
  | none => simpa [same] using List.find?_eq_none.mp found component member
  | some first =>
      have firstKind : componentKind first = kind := by simpa using List.find?_some found
      obtain ⟨number, read, -⟩ := readable first (List.mem_of_find?_eq_some found) firstKind
      rw [numberOf, found, Option.bind_some, read]
      exact Int.natCast_nonneg number

/-- A number of the grammar is no blank number. -/
theorem toInt_number {number : Nat} (fits : number < 2 ^ 31) :
    toInt number = number ∧ toInt number ≠ -1 := by
  have same : toInt number = number := toInt_natCast fits
  rw [same]
  omega

/-- After the front the loop accepts nothing, a version, or a version and a segment. -/
theorem scanName_accepted (front : Name) {back : Name} (numbers : server.NumbersFit back)
    (shape : back.map componentKind ∈ [[], [.version], [.version, .segment]]) :
    server.scanName (frontScan front) back = .ok (true,
      ⟨server.versionNumber back, server.segmentNumber back, hasMarker front, plainText front⟩) := by
  rcases back with _ | ⟨version, back⟩
  · rfl
  have kind : componentKind version = .version := by
    rcases back with _ | ⟨segment, _ | ⟨last, back⟩⟩ <;> simp_all
  obtain ⟨number, read, fits⟩ := numbers.version version List.mem_cons_self kind
  obtain ⟨same, present⟩ := toInt_number fits
  have versionNumber : server.versionNumber (version :: back) = number :=
    numberOf_cons kind read back
  rw [server.scanName_version kind read rfl, versionNumber, same]
  rcases back with _ | ⟨segment, back⟩
  · have absent : server.segmentNumber [version] = -1 := by
      simp [segmentNumber, numberOf, kind]
    rw [absent]
    rfl
  · have next : componentKind segment = .segment ∧ back = [] := by
      simpa [kind] using shape
    obtain ⟨seg, readSeg, fitsSeg⟩ := numbers.segment segment (by simp) next.1
    have segmentNumber : server.segmentNumber [version, segment] = seg := by
      have skip : ∀ component ∈ [version], componentKind component ≠ .segment := by simp [kind]
      exact (numberOf_skip server.ndn.toSegment skip [segment]).trans
        (numberOf_cons next.1 readSeg [])
    rw [server.scanName_segment next.1 readSeg, next.2, segmentNumber, (toInt_number fitsSeg).1]
    · rfl
    · simpa only [same] using present
    · rfl

/-- Everything else after the front stops the loop. -/
theorem scanName_other (front : Name) {back : Name}
    (stop : ∀ component ∈ back.head?, (componentKind component).isFront = false)
    (nonempty : ∀ component ∈ back, componentKind component ≠ .empty)
    (numbers : server.NumbersFit back)
    (other : back.map componentKind ∉ [[], [.version], [.version, .segment]]) :
    ∃ scan, server.scanName (frontScan front) back = .ok (false, scan) := by
  rcases back with _ | ⟨version, back⟩
  · exact absurd (by simp) other
  cases kind : componentKind version with
  | empty => exact absurd kind (nonempty version List.mem_cons_self)
  | plain => exact absurd (stop version rfl) (by simp [kind, ComponentKind.isFront])
  | marker => exact absurd (stop version rfl) (by simp [kind, ComponentKind.isFront])
  | segment => exact ⟨_, server.scanName_early kind rfl back⟩
  | version =>
      obtain ⟨number, read, fits⟩ := numbers.version version List.mem_cons_self kind
      have present := (toInt_number fits).2
      rw [server.scanName_version kind read rfl]
      rcases back with _ | ⟨segment, back⟩
      · exact absurd (by simp [kind]) other
      by_cases next : componentKind segment = .segment
      · obtain ⟨seg, readSeg, fitsSeg⟩ := numbers.segment segment (by simp) next
        rw [server.scanName_segment next readSeg]
        · rcases back with _ | ⟨last, back⟩
          · exact absurd (by simp [kind, next]) other
          · refine ⟨_, server.scanName_late ?_ (nonempty last (by simp)) (fun _ => ?_) back⟩
            · simpa only using present
            · simpa only using (toInt_number fitsSeg).2
        · simpa only using present
        · rfl
      · refine ⟨_, server.scanName_late ?_ (nonempty segment (by simp)) ?_ back⟩
        · simpa only using present
        · exact fun segment => absurd segment next

/-- The kinds of the rest decide whether the loop accepts. -/
theorem dropWhile_kinds {front back : Name} (isFront : IsFront front)
    (stop : ∀ component ∈ back.head?, (componentKind component).isFront = false) :
    ((front ++ back).map componentKind).dropWhile ComponentKind.isFront =
      back.map componentKind := by
  have passed : ∀ kind ∈ front.map componentKind, kind.isFront = true := by
    intro kind member
    obtain ⟨component, inside, rfl⟩ := List.mem_map.mp member
    exact isFront component inside
  rw [List.map_append, List.dropWhile_append_of_pos passed]
  cases back with
  | nil => rfl
  | cons component back =>
      rw [List.map_cons, List.dropWhile_cons_of_neg (by simp [stop component rfl])]

theorem marker_mem_kinds {front back : Name} (other : .marker ∉ back.map componentKind) :
    .marker ∈ (front ++ back).map componentKind ↔ hasMarker front = true := by
  rw [List.map_append, List.mem_append, or_iff_left other]
  simp [hasMarker, List.any_eq_true]

/-- A complete scan stands for the request that its shape tells. -/
theorem ret_accepted {front back : Name} (isFront : IsFront front)
    (stop : ∀ component ∈ back.head?, (componentKind component).isFront = false)
    (numbers : server.NumbersFit back)
    (shape : back.map componentKind ∈ [[], [.version], [.version, .segment]]) (oss : Bytes) :
    Scan.ret ⟨server.versionNumber back, server.segmentNumber back, hasMarker front, oss⟩ =
      loopReturn ((front ++ back).map componentKind) := by
  have noVersion (other : .version ∉ back.map componentKind) : server.versionNumber back = -1 :=
    numberOf_absent _ fun component member same => other (List.mem_map.mpr ⟨_, member, same⟩)
  have noSegment (other : .segment ∉ back.map componentKind) : server.segmentNumber back = -1 :=
    numberOf_absent _ fun component member same => other (List.mem_map.mpr ⟨_, member, same⟩)
  have someVersion (present : .version ∈ back.map componentKind) :
      server.versionNumber back ≠ -1 := by
    have nonneg := numberOf_nonneg numbers.version present
    unfold versionNumber
    omega
  have someSegment (present : .segment ∈ back.map componentKind) :
      server.segmentNumber back ≠ -1 := by
    have nonneg := numberOf_nonneg numbers.segment present
    unfold segmentNumber
    omega
  rw [loopReturn, dropWhile_kinds isFront stop, Scan.ret]
  simp only [List.mem_cons, List.not_mem_nil, or_false] at shape
  rcases shape with shape | shape | shape
  · rw [shape] at noVersion ⊢
    simp [noVersion]
  · have marker : .marker ∈ (front ++ back).map componentKind ↔ hasMarker front = true :=
      marker_mem_kinds (by simp [shape])
    rw [shape] at someVersion noSegment ⊢
    simp only [marker, noSegment (by simp), someVersion (by simp), ne_eq, not_false_eq_true,
      not_true_eq_false, and_false, if_false, true_and]
    cases hasMarker front <;> rfl
  · rw [shape] at someVersion someSegment ⊢
    simp [someVersion, someSegment]

/-- The path of the name shows that exactly the prefix was cut off. -/
theorem length_of_path {scan : Scan} {before after : List Bytes} {parsed : Parsed}
    (text : scan.oss = joinSlash before ++ joinSlash after)
    (cleanBefore : ∀ part ∈ before, part ≠ [] ∧ slash ∉ part)
    (cleanAfter : ∀ part ∈ after, part ≠ [] ∧ slash ∉ part)
    (finished : server.finish scan = .ok parsed)
    (path : parsed.path = if joinSlash after = [] then ascii "/" else joinSlash after) :
    server.fsPrefix.length = (joinSlash before).length := by
  obtain ⟨enough, rfl⟩ := server.finish_eq_ok finished
  rw [text] at enough path
  simp only [List.length_append] at enough
  split at path
  · rename_i cut
    have bound := List.drop_eq_nil_iff.mp cut
    rw [List.length_append] at bound
    by_cases none : joinSlash after = []
    · rw [none, List.length_nil] at bound enough
      omega
    · rw [if_neg none] at path
      exact absurd path.symm (joinSlash_ne_slash cleanAfter)
  · have lengths := congrArg List.length path
    rw [List.length_drop, List.length_append] at lengths
    by_cases none : joinSlash after = []
    · rw [none, List.append_nil, if_pos rfl] at path
      have ending : (joinSlash before).getLast? = some slash := by
        dsimp only at path
        rw [← List.take_append_drop server.fsPrefix.length (joinSlash before), path,
          List.getLast?_append]
        rfl
      exact absurd ending (getLast_joinSlash cleanBefore)
    · rw [if_neg none] at lengths
      have nonempty := List.length_pos_iff.mpr none
      omega

/-- The path and the numbers of the name stand on their own sides of the shape. -/
theorem parts_of_shape {front back : Name} (isFront : IsFront front)
    (shape : back.map componentKind ∈ [[], [.version], [.version, .segment]]) :
    server.versionNumber (front ++ back) = server.versionNumber back ∧
      server.segmentNumber (front ++ back) = server.segmentNumber back ∧
      plainText (front ++ back) = plainText front := by
  have frontOther {kind : ComponentKind} (other : kind.isFront = false) :
      ∀ component ∈ front, componentKind component ≠ kind := by
    intro component member same
    rw [← same, isFront component member] at other
    cases other
  have backOther : ∀ component ∈ back, componentKind component ≠ .plain := by
    intro component member plain
    have inside : .plain ∈ back.map componentKind := List.mem_map.mpr ⟨component, member, plain⟩
    simp only [List.mem_cons, List.not_mem_nil, or_false] at shape
    rcases shape with shape | shape | shape <;> simp [shape] at inside
  refine ⟨numberOf_skip _ (frontOther rfl) back, numberOf_skip _ (frontOther rfl) back, ?_⟩
  rw [plainText_append, plainText_other backOther, List.append_nil]

/-- No marker comes too early and fs_prefix is as long as the canonical URI of the prefix. -/
def GrammarWhen (name : Name) : Prop :=
  LoopAccepts (name.map componentKind) →
    documentedReturn (name.map componentKind) ≠ -1 ∧
      server.fsPrefix.length = (joinSlash (server.prefixName.map escapeComponent)).length

instance (name : Name) : Decidable (server.GrammarWhen name) :=
  inferInstanceAs (Decidable (_ → _))

theorem meetsGrammar_iff {name : Name}
    (served : ∀ component ∈ server.prefixName, componentKind component = .plain)
    (nonempty : ∀ component ∈ name, componentKind component ≠ .empty)
    (numbers : server.NumbersFit name) :
    server.MeetsGrammar name ↔ server.GrammarWhen name := by
  obtain ⟨front, back, rfl, isFront, stop⟩ := exists_front name
  have inBack {component : Component} (member : component ∈ back) : component ∈ front ++ back :=
    List.mem_append_right front member
  have numbersBack : server.NumbersFit back :=
    ⟨fun component member => numbers.version component (inBack member),
      fun component member => numbers.segment component (inBack member)⟩
  have accepts : LoopAccepts ((front ++ back).map componentKind) ↔
      back.map componentKind ∈ [[], [.version], [.version, .segment]] := by
    rw [LoopAccepts, dropWhile_kinds isFront stop]
  have start : server.scanName {} (server.prefixName ++ (front ++ back)) =
      server.scanName (frontScan (server.prefixName ++ front)) back := by
    rw [← List.append_assoc]
    exact server.scanName_start ((isFront_of_plain served).append isFront) back
  by_cases shape : back.map componentKind ∈ [[], [.version], [.version, .segment]]
  · have accepted := accepts.mpr shape
    have scanned := server.scanName_accepted (server.prefixName ++ front) numbersBack shape
    have ret := server.ret_accepted isFront stop numbersBack shape
    obtain ⟨version, segment, path⟩ := server.parts_of_shape isFront shape
    rw [← start, hasMarker_append, hasMarker_of_plain served, Bool.false_or, plainText_append,
      plainText_of_plain served] at scanned
    constructor
    · rintro ⟨parsed, parse, follows⟩ -
      rw [server.parseName_accepted scanned] at parse
      have result := (congrArg Parsed.ret (server.finish_eq_ok parse).2).trans (ret _)
      have documented := (loopReturn_eq_iff accepted).mp (result.symm.trans follows.ret)
      have known : parsed.ret ≠ -1 := by
        rw [follows.ret]
        exact documented
      have textOf := follows.path known
      rw [pathText, path] at textOf
      exact ⟨documented, server.length_of_path rfl (clean_escape _) (clean_escape _) parse textOf⟩
    · intro condition
      obtain ⟨documented, length⟩ := condition accepted
      refine ⟨_, (server.parseName_accepted scanned).trans (server.finish_prefix rfl length), ?_⟩
      refine ⟨(ret _).trans ((loopReturn_eq_iff accepted).mpr documented), fun _ => ?_,
        fun _ => version.symm, fun _ => segment.symm⟩
      rw [pathText, path]
  · obtain ⟨scan, scanned⟩ := server.scanName_other (server.prefixName ++ front) stop
      (fun component member => nonempty component (inBack member)) numbersBack shape
    rw [← start] at scanned
    have undocumented := documentedReturn_rejected (fun accepted => shape (accepts.mp accepted))
    refine iff_of_true ⟨_, server.parseName_rejected scanned, ?_⟩ fun accepted =>
      absurd (accepts.mp accepted) shape
    exact ⟨undocumented.symm, fun same => absurd rfl same, fun same => absurd rfl same,
      fun same => absurd rfl same⟩

/-- The name of a segment meets the grammar. -/
theorem meetsGrammar_iff_segment : Reference.server.MeetsGrammar
    [ascii "a", Reference.ndn.versionComponent 7, Reference.ndn.segmentComponent 0] := by
  refine (Reference.server.meetsGrammar_iff (by decide) (by decide) ⟨?_, ?_⟩).mpr (by decide)
  · intro component member kind
    have last : component = Reference.ndn.versionComponent 7 := by
      revert component
      decide
    exact ⟨7, by rw [last]; decide, by decide⟩
  · intro component member kind
    have last : component = Reference.ndn.segmentComponent 0 := by
      revert component
      decide
    exact ⟨0, by rw [last]; decide, by decide⟩

/-- A component after C1.FS.file is taken for a part of the path. -/
theorem meetsGrammar_fails : ¬ ∀ (server : Server) (name : Name),
    (∀ component ∈ server.prefixName, componentKind component = .plain) →
    (∀ component ∈ name, componentKind component ≠ .empty) →
    server.NumbersFit name → server.MeetsGrammar name := by
  intro claim
  have numbers : Reference.server.NumbersFit
      [ascii "a", metaMarker :: ascii ".FS.file", ascii "b"] :=
    ⟨fun component member kind => by revert component; decide,
      fun component member kind => by revert component; decide⟩
  obtain ⟨parsed, parse, follows⟩ := claim Reference.server _ (by decide) (by decide) numbers
  have computed : Reference.server.parseName (Reference.server.prefixName ++
      [ascii "a", metaMarker :: ascii ".FS.file", ascii "b"]) =
        .ok ⟨1, -1, -1, ascii "/a/b"⟩ := by decide
  rw [computed] at parse
  have documented := follows.ret
  rw [← Except.ok.inj parse] at documented
  revert documented
  decide

end Server

end Ndnfs

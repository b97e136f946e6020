import Ndnfs.Fs.Operation
import Ndnfs.Ndn.Uri
import Ndnfs.Server.Session

namespace Ndnfs
open MachineInteger Percent NdnCpp

namespace Server

variable (server : Server)

/-- A request has no empty component, and its path is what follows the text of the prefix. -/
theorem path_of_parse {name : Name} {parsed : Parsed} (parse : server.parseName name = .ok parsed)
    (request : parsed.ret ≠ -1) : (∀ component ∈ name, componentKind component ≠ .empty) ∧
      server.fsPrefix.length ≤ (plainText name).length ∧
      parsed.path = if (plainText name).drop server.fsPrefix.length = [] then ascii "/"
        else (plainText name).drop server.fsPrefix.length := by
  obtain ⟨scan, scanned, finished⟩ := server.parseName_ok parse request
  obtain ⟨enough, shape⟩ := server.finish_eq_ok finished
  obtain ⟨nonempty, oss⟩ := server.scanName_complete scanned
  rw [show scan.oss = plainText name from oss] at enough shape
  exact ⟨nonempty, enough, by rw [shape]⟩

/-- A component that is not plain adds at least two bytes to the prefix and none to the path. -/
theorem length_plainText (name : Name) :
    (plainText name).length + 2 * (name.length - (plains name).length) ≤
      (joinSlash (name.map escapeComponent)).length := by
  induction name with
  | nil => exact Nat.le_refl _
  | cons component name ih =>
      have sublist := length_plains_le name
      have text := List.length_pos_iff.mpr (escapeComponent_ne_nil component)
      by_cases plain : componentKind component = .plain
      · have kept : plains (component :: name) = component :: plains name := by
          simp [plains, plain]
        rw [plainText_cons_plain plain, kept]
        simp only [List.map_cons, joinSlash_cons, List.length_cons, List.length_append]
        omega
      · have dropped : plains (component :: name) = plains name := by
          simp [plains, plain]
        rw [plainText_cons_other plain, dropped]
        simp only [List.map_cons, joinSlash_cons, List.length_cons, List.length_append]
        omega

/-- For a plain prefix the path names the plain components of the rest. -/
theorem nameOfUri_path {served rest : Name} (canonical : server.fsPrefix = server.ndn.toUri served)
    (plain : ∀ component ∈ served, componentKind component = .plain)
    (enough : server.fsPrefix.length ≤ (plainText (served ++ rest)).length) :
    server.ndn.nameOfUri
        (if (plainText (served ++ rest)).drop server.fsPrefix.length = [] then ascii "/"
          else (plainText (served ++ rest)).drop server.fsPrefix.length) = plains rest := by
  by_cases empty : served = []
  · subst empty
    rw [server.ndn.toUri_nil] at canonical
    rw [canonical, List.nil_append, plainText] at enough ⊢
    cases shape : plains rest with
    | nil =>
        rw [shape] at enough
        exact absurd enough (by decide)
    | cons component name =>
        have nonempty := escapeComponent_ne_nil component
        rw [List.map_cons, joinSlash_cons, List.length_singleton, List.drop_succ_cons,
          List.drop_zero, if_neg (by simp [nonempty])]
        exact server.ndn.nameOfUri_relativeText component name
  · have text : server.fsPrefix = plainText served :=
      canonical.trans ((server.ndn.toUri_join empty).trans (plainText_of_plain plain).symm)
    rw [plainText_append, text, List.drop_left]
    by_cases none : plainText rest = []
    · have noPlains : plains rest = [] := by
        cases shape : plains rest with
        | nil => rfl
        | cons component name =>
            rw [plainText, shape] at none
            cases none
      rw [if_pos none, noPlains]
      exact server.ndn.nameOfUri_slash
    · rw [if_neg none]
      exact server.ndn.nameOfUri_text (plains rest)

theorem length_of_prefix {first second : Name} (inside : first <+: second) :
    (joinSlash (first.map escapeComponent)).length ≤
      (joinSlash (second.map escapeComponent)).length := by
  obtain ⟨rest, rfl⟩ := inside
  rw [List.map_append, joinSlash_append, List.length_append]
  exact Nat.le_add_right _ _

/-- Behind a prefix with other components the path has lost bytes of the requested name. -/
theorem not_prefix_of_cut {served rest : Name} {marker version : Component}
    (canonical : server.fsPrefix = joinSlash (served.map escapeComponent))
    (other : ∃ component ∈ served, componentKind component ≠ .plain)
    (enough : server.fsPrefix.length ≤ (plainText (served ++ rest)).length)
    (marked : componentKind marker ≠ .plain) (versioned : componentKind version ≠ .plain) :
    ¬ rest <+: server.ndn.nameOfUri
        (if (plainText (served ++ rest)).drop server.fsPrefix.length = [] then ascii "/"
          else (plainText (served ++ rest)).drop server.fsPrefix.length) ++ [marker, version] := by
  intro inside
  have short : (plains served).length < served.length := by
    obtain ⟨component, member, plain⟩ := other
    exact List.length_filter_lt_length_iff_exists.mpr ⟨component, member, by simpa using plain⟩
  have cut := length_plainText served
  rw [← canonical] at cut
  have ends : plains [marker, version] = [] := plains_other (by simp [marked, versioned])
  have wanted (path : Bytes) (ahead : rest <+: server.ndn.nameOfUri path ++ [marker, version]) :
      (plainText rest).length ≤
        (joinSlash ((server.ndn.nameOfUri path).map escapeComponent)).length := by
    have plainAhead : plains rest <+: plains (server.ndn.nameOfUri path) := by
      have kept := ahead.filter fun component => componentKind component = .plain
      change plains rest <+: plains (_ ++ _) at kept
      rwa [plains_append, ends, List.append_nil] at kept
    have whole := length_plainText (server.ndn.nameOfUri path)
    have part := length_of_prefix plainAhead
    change (plainText rest).length ≤ (plainText (server.ndn.nameOfUri path)).length at part
    omega
  rw [plainText_append, List.length_append] at enough
  split at inside
  · have bound := wanted _ inside
    rw [show ascii "/" = [slash] from rfl, server.ndn.nameOfUri_slash] at bound
    rw [List.map_nil, joinSlash_nil, List.length_nil] at bound
    omega
  · have bound := wanted _ inside
    have rests := server.ndn.length_nameOfUri_suffix
      (List.drop_suffix server.fsPrefix.length (plainText (served ++ rest)))
    rw [List.length_drop, plainText_append, List.length_append] at rests
    rw [plainText_append] at bound
    omega

/-- A name that is as long as the front ends in the announced components. -/
theorem prefix_two_iff {front rest : Name} (long : front.length ≤ rest.length)
    (marker version : Component) : rest <+: front ++ [marker, version] ↔
      rest ∈ [front, front ++ [marker], front ++ [marker, version]] := by
  simp only [List.mem_cons, List.not_mem_nil, or_false]
  constructor
  · intro inside
    have short := inside.length_le
    have shape := List.prefix_iff_eq_take.mp inside
    have lengths : rest.length = front.length + 0 ∨ rest.length = front.length + 1 ∨
        rest.length = front.length + 2 := by
      simp only [List.length_append, List.length_cons, List.length_nil] at short
      omega
    rcases lengths with length | length | length <;>
      rw [length, List.take_length_add_append] at shape
    · exact .inl (shape.trans (List.append_nil front))
    · exact .inr (.inl shape)
    · exact .inr (.inr shape)
  · rintro (rfl | rfl | rfl)
    · exact List.prefix_append _ _
    · exact ⟨[version], List.append_assoc front [marker] [version]⟩
    · exact List.prefix_rfl

/-- The marker and the version that the reply for a path announces. -/
def announcement (path : Bytes) (environment : Environment) (state : State) :
    Option (Component × Int) :=
  match state.db.fileSystem.lookup path with
  | some row =>
      if state.db.fileVersions.Has (path, toInt row.currentVersion) then
        some (server.ndn.fromEscapedString fileComponentName, toInt row.currentVersion)
      else none
  | none =>
      match environment.outcome (state.disk.listText (server.filePath (queryPath path))) with
      | .error _ => none
      | .ok _ => some (server.ndn.fromEscapedString dirComponentName,
          server.dirTime environment state.disk path)

/-- The name under which the announcement is sent. -/
def announcedName (path : Bytes) (announced : Component × Int) : Name :=
  server.prefixName ++ server.ndn.nameOfUri path ++
    [announced.1, server.ndn.versionComponent announced.2]

theorem pathReply_name (path : Bytes) (environment : Environment) (state : State) :
    (server.pathReply path environment state).map Data.name =
      (server.announcement path environment state).map (server.announcedName path) := by
  unfold pathReply announcement
  cases state.db.fileSystem.lookup path with
  | some row =>
      simp only [metaReply]
      split <;> rfl
  | none =>
      simp only [dirReply]
      cases environment.outcome (state.disk.listText (server.filePath (queryPath path))) <;> rfl

/-- A reply to a request for content extends the name of the Interest. -/
theorem contentReply_name {path : Bytes} {environment : Environment} {state : State}
    {interestName : Name} {version seg : Int} {data : Data}
    (replied : server.contentReply path environment state interestName version seg = some data) :
    interestName <+: data.name := by
  obtain ⟨signature, content, -, -, -, rfl⟩ := server.contentReply_some replied
  change interestName <+: server.contentName interestName seg
  unfold contentName
  split
  · exact List.prefix_append _ _
  · exact List.prefix_rfl

/-- Neither marker is a plain component. -/
theorem announcement_marker {path : Bytes} {environment : Environment} {state : State}
    {announced : Component × Int}
    (found : server.announcement path environment state = some announced) :
    componentKind announced.1 ≠ .plain := by
  have file := server.kind_fileComponent
  have dir := server.kind_dirComponent
  unfold announcement at found
  split at found
  · split at found
    · rw [← Option.some.inj found]
      exact fun plain => absurd (file.symm.trans plain) (by decide)
    · cases found
  · split at found
    · cases found
    · rw [← Option.some.inj found]
      exact fun plain => absurd (dir.symm.trans plain) (by decide)

/-- The Interest's name is a prefix of the name of every packet that the callback puts. -/
def RepliesSatisfy (environment : Environment) (state : State) (interestName : Name) : Prop :=
  ∀ data ∈ (exec (server.onInterestCallback interestName) environment state).2.sent.drop
    state.sent.length, interestName <+: data.name

instance (environment : Environment) (state : State) (interestName : Name) :
    Decidable (server.RepliesSatisfy environment state interestName) :=
  inferInstanceAs (Decidable (∀ data ∈ _, _ <+: _))

/-- An answered request for metadata names the file or directory and at most what the reply
announces, under a prefix of plain components. -/
def SatisfiesWhen (served rest : Name) (environment : Environment) (state : State) : Prop :=
  ∀ version seg path, server.parseName (served ++ rest) = .ok ⟨1, version, seg, path⟩ →
    ∀ announced ∈ server.announcement path environment state,
      (∀ component ∈ served, componentKind component = .plain) ∧
        rest ∈ [plains rest, plains rest ++ [announced.1],
          plains rest ++ [announced.1, server.ndn.versionComponent announced.2]]

theorem repliesSatisfy_iff_reply (environment : Environment) (state : State)
    (interestName : Name) : server.RepliesSatisfy environment state interestName ↔
      ∀ data ∈ server.reply environment state interestName, interestName <+: data.name := by
  rw [RepliesSatisfy, exec_onInterestCallback, sendReply, List.drop_left]
  simp only [Option.mem_toList, Option.mem_def]

/-- The name of an announcement matches exactly the requests for it. -/
theorem announcedName_iff {served rest : Name} {environment : Environment} {state : State}
    (canonical : server.fsPrefix = server.ndn.toUri served) {parsed : Parsed}
    (parse : server.parseName (served ++ rest) = .ok parsed) (request : parsed.ret ≠ -1)
    {announced : Component × Int}
    (found : server.announcement parsed.path environment state = some announced) :
    served ++ rest <+: server.announcedName parsed.path announced ↔
      (∀ component ∈ served, componentKind component = .plain) ∧
        rest ∈ [plains rest, plains rest ++ [announced.1],
          plains rest ++ [announced.1, server.ndn.versionComponent announced.2]] := by
  have marked := server.announcement_marker found
  have versioned : componentKind (server.ndn.versionComponent announced.2) ≠ .plain := by
    rw [server.componentKind_versionComponent]
    simp
  have prefixName : server.prefixName = served := by
    rw [prefixName, canonical, server.ndn.nameOfUri_toUri]
  obtain ⟨-, enough, path⟩ := server.path_of_parse parse request
  rw [announcedName, prefixName, List.append_assoc, List.prefix_append_right_inj, path]
  by_cases plain : ∀ component ∈ served, componentKind component = .plain
  · rw [server.nameOfUri_path canonical plain enough, prefix_two_iff (length_plains_le rest)]
    exact (and_iff_right plain).symm
  · have other : ∃ component ∈ served, componentKind component ≠ .plain := by
      simpa using plain
    have nonempty : served ≠ [] := by
      rintro rfl
      exact plain (by simp)
    have text := canonical.trans (server.ndn.toUri_join nonempty)
    exact iff_of_false (server.not_prefix_of_cut text other enough marked versioned)
      fun condition => plain condition.1

/-- Every packet for a path has an announced name. -/
theorem pathReply_forall (path : Bytes) (environment : Environment) (state : State)
    (property : Name → Prop) :
    (∀ data ∈ server.pathReply path environment state, property data.name) ↔
      ∀ announced ∈ server.announcement path environment state,
        property (server.announcedName path announced) := by
  have names := server.pathReply_name path environment state
  generalize server.pathReply path environment state = replied at names ⊢
  generalize server.announcement path environment state = announced at names ⊢
  cases replied with
  | none =>
      cases announced with
      | none => simp
      | some announced => cases names
  | some data =>
      cases announced with
      | none => cases names
      | some announced =>
          have same : data.name = server.announcedName path announced := Option.some.inj names
          simp [same]

theorem repliesSatisfy_iff {served : Name} (canonical : server.fsPrefix = server.ndn.toUri served)
    (rest : Name) (environment : Environment) (state : State) :
    server.RepliesSatisfy environment state (served ++ rest) ↔
      server.SatisfiesWhen served rest environment state := by
  rw [repliesSatisfy_iff_reply, reply, SatisfiesWhen]
  cases parse : server.parseName (served ++ rest) with
  | error exception => simp
  | ok parsed =>
      obtain ⟨kind, version, seg, path⟩ := parsed
      simp only [Except.ok.injEq, Parsed.mk.injEq]
      by_cases request : kind = 1
      · subst request
        simp only [Int.reduceEq, if_false, if_true, pathReply_forall]
        constructor
        · rintro satisfied _ _ _ ⟨-, rfl, rfl, rfl⟩ announced found
          exact (server.announcedName_iff canonical parse (by simp) found).mp
            (satisfied announced found)
        · intro condition announced found
          exact (server.announcedName_iff canonical parse (by simp) found).mpr
            (condition version seg path ⟨trivial, rfl, rfl, rfl⟩ announced found)
      · refine iff_of_true (fun data replied => ?_) fun _ _ _ same => absurd same.1 request
        split at replied
        · exact server.contentReply_name replied
        · split at replied
          · split at replied
            · exact server.contentReply_name replied
            · cases replied
          · cases replied

/-- The bare name of a file is answered under a longer name. -/
theorem repliesSatisfy_iff_file : Reference.server.RepliesSatisfy (Reference.calm 2)
    (exec (Reference.fileSystem.ndnfsMknod (ascii "/a") Reference.regularMode) (Reference.calm 1)
      Reference.newState).2
    ([ascii "ndn", ascii "broadcast", ascii "ndnfs"] ++ [ascii "a"]) :=
  (Reference.server.repliesSatisfy_iff (by decide) _ _ _).mpr fun _ _ _ _ _ _ =>
    ⟨by decide, List.mem_cons.mpr (.inl (by decide))⟩

/-- A request for version 7 of a file is answered with version 1. -/
theorem repliesSatisfy_fails : ¬ ∀ (server : Server) (served rest : Name)
    (environment : Environment) (state : State), server.fsPrefix = server.ndn.toUri served →
    server.RepliesSatisfy environment state (served ++ rest) := by
  intro claim
  have satisfied := claim Reference.server [ascii "ndn", ascii "broadcast", ascii "ndnfs"]
    [ascii "a", metaMarker :: ascii ".FS.file", Reference.ndn.versionComponent 7]
    (Reference.calm 2)
    (exec (Reference.fileSystem.ndnfsMknod (ascii "/a") Reference.regularMode) (Reference.calm 1)
      Reference.newState).2 (by decide)
  revert satisfied
  decide

end Server

end Ndnfs

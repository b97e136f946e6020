import Ndnfs.Proof.DirectoryPage
import Ndnfs.Proof.Immutability
import Ndnfs.Proof.PublishedName
import Ndnfs.Proof.ReplyName
import Ndnfs.Proof.ServedTree

namespace Ndnfs
open MachineInteger Percent NdnCpp

namespace Disk

variable (disk : Disk)

/-- The names of all objects stand for themselves in an escaped path. -/
def Unescaped : Prop :=
  ∀ location, disk.nodes.Has location → ∀ name ∈ location, escapeComponent name = name

instance : Decidable disk.Unescaped :=
  inferInstanceAs (Decidable (∀ location, disk.nodes.Has location → _))

/-- A longer path is resolved from where the shorter one leads. -/
theorem walk_append (here : Location) (names rest : List Bytes) :
    disk.walk here (names ++ rest) =
      match disk.walk here names with
      | .error error => .error error
      | .ok location => disk.walk location rest := by
  induction names generalizing here with
  | nil => rfl
  | cons name names ih =>
      simp only [List.cons_append, walk, ih]
      split
      · rfl
      · split
        · split <;> rfl
        · split <;> rfl

theorem splitOn_append_joinSlash (text : Bytes) {parts : List Bytes}
    (clean : ∀ part ∈ parts, slash ∉ part) :
    (text ++ joinSlash parts).splitOn slash = text.splitOn slash ++ parts := by
  cases parts with
  | nil => simp
  | cons part parts =>
      have rest := splitOn_joinSlash clean
      rw [joinSlash_cons, ← List.nil_append (slash :: _), List.splitOn_append_cons_self,
        List.splitOn_nil, List.singleton_append, List.cons.injEq] at rest
      rw [joinSlash_cons, List.splitOn_append_cons_self, rest.2]

/-- Without its ending a name leads somewhere else. -/
theorem walk_shortened_ne {here location other : Location} {name ending : Bytes}
    (valid : ValidName (name ++ ending)) (filled : ending ≠ [])
    (whole : disk.walk here [name ++ ending] = .ok location)
    (shortened : disk.walk here [name] = .ok other) : other ≠ location := by
  obtain ⟨rfl, -⟩ := disk.walk_ok (by simpa using valid) whole
  simp only [walk] at shortened
  split at shortened
  · obtain rfl := Except.ok.inj shortened
    simp
  · split at shortened
    · split at shortened
      · obtain rfl := Except.ok.inj shortened
        intro same
        have lengths := congrArg List.length same
        simp only [List.length_dropLast, List.length_append, List.length_singleton] at lengths
        omega
      · obtain rfl := Except.ok.inj shortened
        simpa using fun same : name = name ++ ending => filled (List.self_eq_append_right.mp same)
    · split at shortened <;> cases shortened

/-- Both paths lead to the same object. -/
def Meet (first second : Bytes) : Prop :=
  ∃ found, disk.lookupText first = .ok found ∧ disk.lookupText second = .ok found

variable {disk}

theorem find_of_lookupText {text : Bytes} {location : Location} {entry : Entry}
    (success : disk.lookupText text = .ok (location, entry)) : disk.find text = .ok location := by
  unfold lookupText at success
  split at success
  · cases success
  · rename_i here found
    split at success
    · obtain ⟨rfl, -⟩ := Prod.mk.inj (Except.ok.inj success)
      exact found
    · cases success

theorem Meet.find {first second : Bytes} (meet : disk.Meet first second) :
    disk.find first = disk.find second := by
  obtain ⟨⟨location, entry⟩, here, there⟩ := meet
  rw [find_of_lookupText here, find_of_lookupText there]

theorem Meet.listText {first second : Bytes} (meet : disk.Meet first second) :
    disk.listText first = disk.listText second := by
  obtain ⟨found, here, there⟩ := meet
  rw [Disk.listText, Disk.listText, here, there]

theorem Meet.statText {first second : Bytes} (meet : disk.Meet first second) :
    disk.statText first = disk.statText second := by
  rw [Disk.statText, Disk.statText, meet.find]

theorem meet_of_find {first second : Bytes} (same : disk.find first = disk.find second)
    {names : List Bytes} (listed : disk.listText second = .ok names) : disk.Meet first second := by
  unfold Disk.listText at listed
  split at listed
  · cases listed
  · rename_i location entry found
    refine ⟨(location, entry), ?_, found⟩
    rw [← found, lookupText, lookupText, same]

end Disk

/-- The next call does not fail by itself. -/
def Environment.Succeeds (environment : Environment) : Prop := environment.faults.head?.join = none

instance (environment : Environment) : Decidable environment.Succeeds :=
  inferInstanceAs (Decidable (_ = _))

theorem Environment.outcome_eq_ok_iff {A : Type} {environment : Environment}
    {effect : Except Errno A} {value : A} :
    environment.outcome effect = .ok value ↔ environment.Succeeds ∧ effect = .ok value := by
  unfold outcome Succeeds
  cases environment.faults.head?.join with
  | some error => simp
  | none => simp

namespace Path

theorem joinSlash_ne_slash (path : Path) : joinSlash path.names ≠ ascii "/" :=
  Ndnfs.joinSlash_ne_slash fun name member =>
    ⟨(path.valid name member).nonempty, (path.valid name member).no_slash⟩

/-- A path that ends in "_list" has a last name that ends in it. -/
theorem names_of_list {path : Path} (list : contentMetaString <:+ path.text) :
    ∃ front name, path.names = front ++ [name ++ contentMetaString] := by
  rw [path.text_eq] at list
  split at list
  · exact absurd list (by decide)
  · rename_i below
    rcases List.eq_nil_or_concat path.names with empty | ⟨front, last, names⟩
    · rw [empty] at below
      exact absurd rfl below
    · rw [List.concat_eq_append] at names
      have suffix : slash :: last <:+ joinSlash path.names := by
        rw [names]
        exact ⟨joinSlash front, by simp⟩
      rcases List.suffix_or_suffix_of_suffix list suffix with inside | outside
      · rcases List.suffix_cons_iff.mp inside with same | ⟨name, rfl⟩
        · have first := congrArg List.head? same
          rw [List.head?_cons] at first
          exact absurd first (by decide)
        · exact ⟨front, name, names⟩
      · exact absurd (outside.subset List.mem_cons_self) (by decide)

end Path

namespace Server

variable (server : Server) (environment : Environment) (state : State)

/-- A directory is opened under its own path exactly when this does not end in "_list". -/
theorem meet_queryPath_iff {disk : Disk} {path : Path} {names : List Bytes}
    (directory : disk.listText (server.filePath path.text) = .ok names) :
    disk.Meet (server.filePath (queryPath path.text)) (server.filePath path.text) ↔
      ¬ contentMetaString <:+ path.text := by
  constructor
  · rintro ⟨⟨location, entry⟩, here, there⟩ list
    obtain ⟨front, name, parts⟩ := Path.names_of_list list
    have clean : ∀ part ∈ front ++ [name ++ contentMetaString], slash ∉ part := by
      rw [← parts]
      exact fun part member => (path.valid part member).no_slash
    have cleanName : ∀ part ∈ front ++ [name], slash ∉ part := by
      intro part member
      rcases List.mem_append.mp member with before | last
      · exact clean part (List.mem_append_left _ before)
      · rw [List.mem_singleton.mp last]
        exact fun inside => clean (name ++ contentMetaString) (by simp)
          (List.mem_append_left _ inside)
    have text : path.text = joinSlash (front ++ [name]) ++ contentMetaString := by
      rw [path.text_eq, parts, if_neg (by simp)]
      simp
    have whole := Disk.find_of_lookupText there
    have shortened := Disk.find_of_lookupText here
    rw [text, queryPath_append, filePath, absPath, Disk.find,
      Disk.splitOn_append_joinSlash _ cleanName, ← List.append_assoc, disk.walk_append] at shortened
    rw [path.text_eq, parts, if_neg (by simp), filePath, absPath, Disk.find,
      Disk.splitOn_append_joinSlash _ clean, ← List.append_assoc, disk.walk_append] at whole
    split at whole
    · cases whole
    · rename_i mid before
      rw [before] at shortened
      have valid : ValidName (name ++ contentMetaString) := path.valid _ (by simp [parts])
      exact disk.walk_shortened_ne valid (by decide) whole shortened rfl
  · intro other
    rw [queryPath, if_neg other]
    exact Disk.meet_of_find rfl directory

/-- Without its "_list" the marked path is that of the directory with one more slash. -/
theorem meet_marked {disk : Disk} {path : Path} {names : List Bytes}
    (directory : disk.listText (server.filePath path.text) = .ok names) :
    disk.Meet (server.filePath (queryPath (joinSlash (path.names ++ [contentMetaString]))))
      (server.filePath path.text) := by
  have shape : joinSlash (path.names ++ [contentMetaString]) =
      (joinSlash path.names ++ [slash]) ++ contentMetaString := by simp
  rw [shape, queryPath_append]
  apply Disk.meet_of_find _ directory
  rw [path.text_eq]
  split
  · rename_i root
    rw [root]
    rfl
  · rw [filePath, filePath, absPath, absPath, ← List.append_assoc, Disk.find,
      List.splitOn_append_cons_self, List.splitOn_nil, Disk.walk_append_empty, Disk.find]

/-- Both paths are the root or neither is. -/
theorem queryPath_marked_root (path : Path) :
    queryPath (joinSlash (path.names ++ [contentMetaString])) = ascii "/" ↔
      path.text = ascii "/" := by
  have shape : joinSlash (path.names ++ [contentMetaString]) =
      (joinSlash path.names ++ [slash]) ++ contentMetaString := by simp
  rw [shape, queryPath_append, path.text_eq]
  split
  · rename_i root
    rw [root]
    exact iff_of_true rfl rfl
  · rename_i below
    refine iff_of_false (fun root => below ?_) path.joinSlash_ne_slash
    exact List.append_cancel_right (show joinSlash path.names ++ [slash] = [] ++ [slash] from root)

/-- The listing of a directory under the name of an Interest: its page, signed by the server. -/
def listing (name : Name) (path : Path) (names : List Bytes) (mtime : Int) : Data :=
  server.ndn.sign server.certificateName {
    name := name ++ [server.ndn.fromEscapedString dirComponentName,
      server.ndn.versionComponent (toInt mtime)]
    metaInfo := ⟨some defaultFreshnessPeriod, none⟩
    content := dirPage path.text names }

variable (sends : Data → Prop)

/-- The Interest is answered with the listing of the directory at this path: no other object is
opened or inspected, and the library sends the packet. -/
structure AnswersListing (path : Path) (names : List Bytes) (mtime : Int) (name : Name) : Prop where
  listing : server.reply environment state name = some (server.listing name path names mtime)
  itself : server.TouchesOnly (fun text => state.disk.Meet text (server.filePath path.text))
    environment state name
  sent : sends (server.listing name path names mtime)

/-- The time of the directory is read, or the memory that is read instead has the same value. -/
def ReadsTime (environment : Environment) (mtime : Int) : Prop :=
  environment.next.Succeeds ∨ toInt environment.uninitialised = toInt mtime

instance (environment : Environment) (mtime : Int) : Decidable (ReadsTime environment mtime) :=
  inferInstanceAs (Decidable (_ ∨ _))

variable {server} {environment} {state} {sends}

theorem dirTime_eq_iff {path : Bytes} {st : Stat}
    (stat : state.disk.statText (server.filePath (queryPath path)) = .ok st) :
    server.dirTime environment state.disk path = toInt st.mtime ↔
      ReadsTime environment st.mtime := by
  unfold dirTime ReadsTime Environment.outcome Environment.Succeeds
  rw [stat]
  cases environment.next.faults.head?.join with
  | none => simp
  | some error => simp

/-- The name of a reply for a path ends in its kind and its time. -/
theorem pathReply_eq_listing {asked : Bytes} {path : Path} {names : List Bytes} {mtime : Int}
    {name : Name}
    (answered : server.pathReply asked environment state =
      some (server.listing name path names mtime)) :
    ¬ state.db.fileSystem.Has asked ∧ environment.Succeeds ∧
      server.dirTime environment state.disk asked = toInt mtime := by
  have ends {component : Bytes} {version : Int}
      (same : (server.listing name path names mtime).name =
        server.metaName asked component version) :
      server.ndn.fromEscapedString dirComponentName = server.ndn.fromEscapedString component ∧
        (IsInt version → version = toInt mtime) := by
    have last := congrArg (fun name => name.reverse.take 2) same
    have own : (server.listing name path names mtime).name =
        name ++ [server.ndn.fromEscapedString dirComponentName,
          server.ndn.versionComponent (toInt mtime)] := rfl
    rw [own] at last
    simp only [metaName, List.reverse_append, List.reverse_cons, List.reverse_nil, List.nil_append,
      List.cons_append, List.take_succ_cons, List.take_zero, List.cons.injEq, and_true] at last
    refine ⟨last.2, fun range => ?_⟩
    have numbers := congrArg server.ndn.toVersion last.1
    rw [server.ndn.toVersion_versionComponent, server.ndn.toVersion_versionComponent,
      Option.some.injEq] at numbers
    rw [← toInt_toUInt64 range, ← numbers, toInt_toUInt64 (toInt_isInt mtime)]
  rcases pathReply_origin answered with ⟨row, -, file⟩ | ⟨others, absent, listed, directory⟩
  · exact absurd (ends ((congrArg Data.name file).trans (name_metaPacket _ _))).1.symm
      fileComponent_ne_dirComponent
  · have succeeds : environment.Succeeds := by
      rw [pathReply, absent] at answered
      dsimp only [dirReply] at answered
      split at answered
      · cases answered
      · rename_i opened
        exact (Environment.outcome_eq_ok_iff.mp opened).1
    refine ⟨KeyedTable.not_has_iff.mpr absent, succeeds, ?_⟩
    apply (ends ((congrArg Data.name directory).trans (name_dirPacket _ _ _))).2
    unfold dirTime
    split <;> exact toInt_isInt _

/-- A directory without a row is answered with its listing when its own object is opened. -/
theorem dirReply_eq_listing {asked : Bytes} {name : Name} {path : Path} {names : List Bytes}
    {st : Stat} (announced : server.metaName asked dirComponentName (toInt st.mtime) =
      name ++ [server.ndn.fromEscapedString dirComponentName,
        server.ndn.versionComponent (toInt st.mtime)])
    (root : queryPath asked = ascii "/" ↔ path.text = ascii "/")
    (listed : state.disk.listText (server.filePath (queryPath asked)) = .ok names)
    (succeeds : environment.Succeeds)
    (timed : server.dirTime environment state.disk asked = toInt st.mtime) :
    server.dirReply asked environment state = some (server.listing name path names st.mtime) := by
  have opened := Environment.outcome_eq_ok_iff.mpr ⟨succeeds, listed⟩
  rw [dirReply, opened]
  dsimp only
  rw [timed, dirPacket, announced, dirPage_root root names]
  rfl

/-- A listing is no reply for a segment, so its name asks for a path. -/
theorem pathReply_of_listing {name : Name} {path : Path} {names : List Bytes} {mtime : Int}
    (answered : server.reply environment state name =
      some (server.listing name path names mtime)) :
    ∃ version seg asked, server.parseName name = .ok ⟨1, version, seg, asked⟩ ∧
      server.pathReply asked environment state = some (server.listing name path names mtime) := by
  have unsigned {asked : Bytes} {version seg : Int} :
      server.contentReply asked environment state name version seg ≠
        some (server.listing name path names mtime) := by
    intro replied
    obtain ⟨signature, content, -, -, -, same⟩ := server.contentReply_some replied
    cases congrArg Data.signatureInfo same
  unfold reply at answered
  split at answered
  · cases answered
  · rename_i kind version seg asked parse
    split at answered
    · exact absurd answered unsigned
    · split at answered
      · split at answered
        · exact absurd answered unsigned
        · cases answered
      · split at answered
        · rename_i one
          subst one
          exact ⟨version, seg, asked, parse, answered⟩
        · cases answered

end Server

namespace Deployment

variable {deployment : Deployment} {environment : Environment} {state : State}
  {sends : Data → Prop} {served : Name}

/-- A name is extended by its listing only under a prefix of plain components. -/
theorem plain_of_listing (canonical : deployment.Canonical served) {rest : Name} {path : Path}
    {names : List Bytes} {mtime : Int}
    (answered : deployment.server.reply environment state (served ++ rest) =
      some (deployment.server.listing (served ++ rest) path names mtime)) :
    ∀ component ∈ served, componentKind component = .plain := by
  obtain ⟨version, seg, asked, parse, replied⟩ := Server.pathReply_of_listing answered
  have announces := deployment.server.pathReply_name asked environment state
  rw [replied, Option.map_some] at announces
  obtain ⟨announced, found, same⟩ := Option.map_eq_some_iff.mp announces.symm
  have extended : served ++ rest <+: deployment.server.announcedName asked announced := by
    rw [same]
    exact List.prefix_append _ _
  exact ((deployment.server.announcedName_iff canonical.uri parse (by simp) found).mp extended).1

section Plain

variable (canonical : deployment.Canonical served)
  (plain : ∀ component ∈ served, componentKind component = .plain) {parts : List Bytes}
  (filled : ∀ part ∈ parts, part ≠ []) (unescaped : ∀ part ∈ parts, escapeComponent part = part)

include canonical plain filled unescaped

/-- For names of components that stand for themselves the path is their text. -/
theorem parse_parts : deployment.server.parseName (served ++ parts) =
    .ok ⟨1, -1, -1, if joinSlash parts = [] then ascii "/" else joinSlash parts⟩ := by
  have plainParts : ∀ part ∈ parts, componentKind part = .plain := by
    intro part member
    obtain ⟨first, rest, rfl⟩ := List.exists_cons_of_ne_nil (filled part member)
    have inside : first ∈ escapeComponent (first :: rest) := by
      rw [unescaped _ member]
      exact List.mem_cons_self
    exact kind_of_first (mem_escapeComponent inside) rest
  have front : Server.IsFront (served ++ parts) :=
    (Server.isFront_of_plain plain).append (Server.isFront_of_plain plainParts)
  have length : deployment.server.fsPrefix.length = (Server.plainText served).length := by
    rw [Server.plainText_of_plain plain]
    exact congrArg List.length canonical.uri_eq
  have enough : deployment.server.fsPrefix.length ≤ (Server.plainText (served ++ parts)).length := by
    rw [Server.plainText_append, List.length_append, length]
    exact Nat.le_add_right _ _
  have accepted : deployment.server.Accepted (served ++ parts) (-1) (-1) :=
    Server.accepted_of_isFront front
  have one : Server.Scan.ret ⟨-1, -1, Server.hasMarker (served ++ parts),
      Server.plainText (served ++ parts)⟩ = 1 := Server.Scan.ret_path (.inl rfl)
  rw [accepted.parse_ok enough, one, deployment.server.cutPath_prefix length,
    Server.plainText_of_plain plainParts, List.map_congr_left unescaped, List.map_id']

omit plain filled in
/-- The name of a listing for the text is the name with the text's components. -/
theorem metaName_parts (component : Bytes) (version : Int) :
    deployment.server.metaName (if joinSlash parts = [] then ascii "/" else joinSlash parts)
        component version =
      (served ++ parts) ++ [deployment.server.ndn.fromEscapedString component,
        deployment.server.ndn.versionComponent version] := by
  have prefixName : deployment.server.ndn.nameOfUri deployment.server.fsPrefix = served := by
    rw [show deployment.server.fsPrefix = deployment.server.ndn.toUri served from canonical.uri,
      deployment.server.ndn.nameOfUri_toUri]
  have text : parts.map escapeComponent = parts := by
    rw [List.map_congr_left unescaped, List.map_id']
  have name := deployment.server.ndn.nameOfUri_text parts
  rw [text] at name
  rw [Server.metaName, prefixName]
  cases parts with
  | nil =>
      rw [joinSlash_nil, if_pos rfl]
      exact congrArg (served ++ · ++ _) deployment.server.ndn.nameOfUri_slash
  | cons part parts => rw [if_neg (by simp), name]

variable {path : Path} {names : List Bytes} {st : Stat}

variable (environment) (sends) in
/-- Such a name is answered with the listing exactly when there is no row, the directory's own
object is opened and inspected, and the library sends the packet. -/
theorem answersListing_iff
    (directory : state.disk.listText (deployment.server.filePath path.text) = .ok names)
    (stat : state.disk.statText (deployment.server.filePath path.text) = .ok st)
    (root : state.disk.Meet (deployment.server.filePath (Server.queryPath
        (if joinSlash parts = [] then ascii "/" else joinSlash parts)))
          (deployment.server.filePath path.text) →
      (Server.queryPath (if joinSlash parts = [] then ascii "/" else joinSlash parts) = ascii "/" ↔
        path.text = ascii "/")) :
    deployment.server.AnswersListing environment state sends path names st.mtime
        (served ++ parts) ↔
      ¬ state.db.fileSystem.Has (if joinSlash parts = [] then ascii "/" else joinSlash parts) ∧
        state.disk.Meet (deployment.server.filePath (Server.queryPath
          (if joinSlash parts = [] then ascii "/" else joinSlash parts)))
            (deployment.server.filePath path.text) ∧
        environment.Succeeds ∧ Server.ReadsTime environment st.mtime ∧
        sends (deployment.server.listing (served ++ parts) path names st.mtime) := by
  have parse := parse_parts canonical plain filled unescaped
  have announced := metaName_parts canonical unescaped dirComponentName
    (toInt st.mtime)
  generalize (if joinSlash parts = [] then ascii "/" else joinSlash parts) = asked
    at parse announced root ⊢
  have reply : deployment.server.reply environment state (served ++ parts) =
      deployment.server.pathReply asked environment state := by
    rw [Server.reply, parse]
    rfl
  have touches : deployment.server.TouchesOnly (fun text =>
      state.disk.Meet text (deployment.server.filePath path.text)) environment state
        (served ++ parts) ↔ _ := Server.touchesOnly_path parse
  constructor
  · intro answers
    have replied := answers.listing
    rw [reply] at replied
    obtain ⟨absent, succeeds, timed⟩ := Server.pathReply_eq_listing replied
    have meet := (touches.mp answers.itself).2 absent
    rw [Server.dirTime_eq_iff (meet.statText.trans stat)] at timed
    exact ⟨absent, meet, succeeds, timed, answers.sent⟩
  · rintro ⟨absent, meet, succeeds, timed, sent⟩
    rw [← Server.dirTime_eq_iff (meet.statText.trans stat)] at timed
    have listed := Server.dirReply_eq_listing announced (root meet) (meet.listText.trans directory)
      succeeds timed
    refine ⟨?_, touches.mpr ⟨fun row found => ?_, fun _ => meet⟩, sent⟩
    · rw [reply, Server.pathReply, KeyedTable.not_has_iff.mp absent]
      exact listed
    · exact absurd (KeyedTable.has_iff.mpr ⟨row, found⟩) absent

end Plain

section Directory

variable (deployment) (environment) (state) (sends) (served) (path : Path) (names : List Bytes)
  (mtime : Int)

/-- The Interest for the directory is answered with its listing, and so is the one with "_list"
unless this is an entry. -/
structure ListsDirectory : Prop where
  itself : deployment.server.AnswersListing environment state sends path names mtime
    (served ++ path.names)
  marked : contentMetaString ∉ names → deployment.server.AnswersListing environment state sends path
    names mtime (served ++ (path.names ++ [contentMetaString]))

/-- The prefix has plain components, the path does not end in "_list", no row hides the path with
"/_list", and the system calls and the library do their part. -/
structure ListsDirectoryWhen : Prop where
  plain : ∀ component ∈ served, componentKind component = .plain
  ending : ¬ contentMetaString <:+ path.text
  succeeds : environment.Succeeds
  timed : Server.ReadsTime environment mtime
  sent : sends (deployment.server.listing (served ++ path.names) path names mtime)
  marked : contentMetaString ∉ names →
    ¬ state.db.fileSystem.Has (joinSlash (path.names ++ [contentMetaString])) ∧
      sends (deployment.server.listing (served ++ (path.names ++ [contentMetaString])) path names
        mtime)

variable {environment} {state} {sends} {served} {path} {names} {st : Stat}

/-- A directory without a row whose names need no escaping is listed under both names exactly under
this condition. -/
theorem listsDirectory_iff (canonical : deployment.Canonical served)
    (unescaped : ∀ name ∈ path.names, escapeComponent name = name)
    (directory : state.disk.listText (deployment.server.filePath path.text) = .ok names)
    (stat : state.disk.statText (deployment.server.filePath path.text) = .ok st)
    (unrecorded : ¬ state.db.fileSystem.Has path.text) :
    deployment.ListsDirectory environment state sends served path names st.mtime ↔
      deployment.ListsDirectoryWhen environment state sends served path names st.mtime := by
  by_cases plain : ∀ component ∈ served, componentKind component = .plain
  · have filled : ∀ name ∈ path.names, name ≠ [] := fun name member =>
      (path.valid name member).nonempty
    have filledMarked : ∀ name ∈ path.names ++ [contentMetaString], name ≠ [] :=
      List.forall_mem_append.mpr ⟨filled, by decide⟩
    have unescapedMarked : ∀ name ∈ path.names ++ [contentMetaString],
        escapeComponent name = name := List.forall_mem_append.mpr ⟨unescaped, by decide⟩
    have opened := deployment.server.meet_queryPath_iff directory
    have itself := answersListing_iff environment sends canonical plain filled
      unescaped directory stat
    rw [← path.text_eq, opened] at itself
    have marked := answersListing_iff environment sends canonical plain filledMarked
      unescapedMarked directory stat
    rw [if_neg (by simp), and_iff_right (deployment.server.meet_marked directory)] at marked
    have itself := itself fun other => by rw [Server.queryPath, if_neg other]
    have marked := marked fun _ => Server.queryPath_marked_root path
    constructor
    · intro lists
      obtain ⟨-, ending, succeeds, timed, sent⟩ := itself.mp lists.itself
      refine ⟨plain, ending, succeeds, timed, sent, fun absent => ?_⟩
      obtain ⟨free, -, -, sentMarked⟩ := marked.mp (lists.marked absent)
      exact ⟨free, sentMarked⟩
    · intro condition
      refine ⟨itself.mpr ⟨unrecorded, condition.ending, condition.succeeds, condition.timed,
        condition.sent⟩, fun absent => ?_⟩
      obtain ⟨free, sentMarked⟩ := condition.marked absent
      exact marked.mpr ⟨free, condition.succeeds, condition.timed, sentMarked⟩
  · exact iff_of_false (fun lists => plain (plain_of_listing canonical lists.itself.listing))
      fun condition => plain condition.plain

end Directory

end Deployment

namespace Reference

def dirPhotos : Path := ⟨[ascii "photos"], by decide⟩
def dirAList : Path := ⟨[ascii "a_list"], by decide⟩

def filePhotosB : Path := ⟨[ascii "photos", ascii "b"], by decide⟩
def dirPhotosA : Path := ⟨[ascii "photos", ascii "a"], by decide⟩

/-- A directory with a file and a directory in it. -/
def photos : State :=
  (Run.after deployment.fs.step ⟨⟨.empty, .bare, []⟩, 0⟩ [⟨.mkdir dirPhotos 0o755, calm 1⟩,
    ⟨.mknod filePhotosB regularMode, calm 2⟩, ⟨.mkdir dirPhotosA 0o755, calm 3⟩]).state

end Reference

namespace Deployment

/-- A directory with two entries is listed with a limit on the size of the content. -/
theorem listsDirectory_iff_photos :
    Reference.deployment.ListsDirectory (Reference.calm 4) Reference.photos
      (fun data => data.content.length ≤ 8000) [ascii "ndn", ascii "broadcast", ascii "ndnfs"]
      Reference.dirPhotos [ascii ".", ascii "..", ascii "a", ascii "b"] 3 := by
  have directory : Reference.photos.disk.listText (Reference.deployment.server.filePath
      Reference.dirPhotos.text) = .ok [ascii ".", ascii "..", ascii "a", ascii "b"] := by
    decide +kernel
  have stat : Reference.photos.disk.statText (Reference.deployment.server.filePath
      Reference.dirPhotos.text) = .ok ⟨0, 3⟩ := by
    decide +kernel
  exact (Reference.deployment.listsDirectory_iff Reference.canonical (by decide) directory stat
    (by decide +kernel)).mpr {
      plain := by decide
      ending := by decide
      succeeds := by decide
      timed := .inl (by decide)
      sent := by decide +kernel
      marked := fun _ => ⟨by decide +kernel, by decide +kernel⟩ }

/-- The directory "a_list" is looked up as "a", which does not exist. -/
theorem listsDirectory_fails : ¬ ∀ (deployment : Deployment) (served : Name) (disk : Disk)
    (clock : Int) (requests : List Request) (environment : Environment) (path : Path)
    (names : List Bytes) (st : Stat), deployment.Canonical served →
      (∀ component ∈ served, componentKind component = .plain) →
        Run.Steps deployment.fs.step ClockAdvances ⟨⟨.empty, disk, []⟩, clock⟩ requests →
          let state := (Run.after deployment.fs.step ⟨⟨.empty, disk, []⟩, clock⟩ requests).state
          state.disk.Unescaped → environment.faults = [] →
            state.disk.listText (deployment.server.filePath path.text) = .ok names →
              state.disk.statText (deployment.server.filePath path.text) = .ok st →
                ¬ state.db.fileSystem.Has path.text →
                  deployment.ListsDirectory environment state (fun _ => True) served path names
                    st.mtime := by
  intro claim
  have lists := claim Reference.deployment _ .bare 0 [⟨.mkdir Reference.dirAList 0o755,
    Reference.calm 1⟩] (Reference.calm 2) Reference.dirAList [ascii ".", ascii ".."] ⟨0, 1⟩
    Reference.canonical (by decide) (by decide +kernel) (by decide +kernel) rfl
    (by decide +kernel) (by decide +kernel) (by decide +kernel)
  have silent : Reference.deployment.server.reply (Reference.calm 2)
      (Run.after Reference.deployment.fs.step ⟨⟨.empty, .bare, []⟩, 0⟩
        [⟨.mkdir Reference.dirAList 0o755, Reference.calm 1⟩]).state
      ([ascii "ndn", ascii "broadcast", ascii "ndnfs"] ++ Reference.dirAList.names) = none := by
    decide +kernel
  cases silent.symm.trans lists.itself.listing

end Deployment

end Ndnfs

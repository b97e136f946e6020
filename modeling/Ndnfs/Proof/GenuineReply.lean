import Ndnfs.Proof.GenuineFetch
import Ndnfs.Proof.KeptFile
import Ndnfs.Proof.ReplyName
import Ndnfs.Proof.ServedTree
import Ndnfs.Proof.Segmentation

namespace Ndnfs
open MachineInteger Percent NdnCpp KeyedTable Client

/-- The name under which a path is served. -/
def servedName (served : Name) (path : Path) : Name := served ++ path.names.map uriComponent

/-- The prefix and the names of the path come back from the name. -/
structure Deployment.Addressed (deployment : Deployment) (served : Name) (path : Path) : Prop where
  canonical : deployment.Canonical served
  plain : ∀ component ∈ served, componentKind component = .plain
  carried : ∀ name ∈ path.names, Carried name
  below : path.names ≠ []

/-- The rows describe the file and cover its content, and no row stands for a path below it. -/
structure Served (root path : Path) (content : Bytes) (version : Int) (state : State) :
    Prop where
  entry : state.disk.entry (root.locate path) = some ⟨.regular, content⟩
  row : ∃ row, state.db.fileSystem.lookup path.text = some row ∧
    toInt row.currentVersion = version ∧ toInt row.type = FileType.regular.code
  recorded : state.db.fileVersions.Has (path.text, version)
  segments : ∀ seg : Nat, segSize * seg < content.length →
    state.db.fileSegments.Has (path.text, version, (seg : Int))
  rows : RowsHavePaths state.db
  alone : ∀ below : Path, path.names <+: below.names → below ≠ path →
    ¬ state.db.fileSystem.Has below.text

/-- A regular file with a row of its type, and no row stands for a path below it. -/
structure Servable (root path : Path) (content : Bytes) (state : State) : Prop where
  entry : state.disk.entry (root.locate path) = some ⟨.regular, content⟩
  row : ∃ row, state.db.fileSystem.lookup path.text = some row ∧
    toInt row.type = FileType.regular.code
  rows : RowsHavePaths state.db
  alone : ∀ below : Path, path.names <+: below.names → below ≠ path →
    ¬ state.db.fileSystem.Has below.text

/-- The segments that a file of this content has. -/
def pieces (content : Bytes) : List Bytes :=
  (List.range (content.length / segSize + 1)).map (segmentBytes content)

@[simp] theorem length_pieces (content : Bytes) :
    (pieces content).length = content.length / segSize + 1 := by
  simp [pieces]

theorem pieces_ne_nil (content : Bytes) : pieces content ≠ [] := by
  rw [← List.length_pos_iff, length_pieces]
  exact Nat.succ_pos _

theorem getElem?_pieces {content piece : Bytes} {seg : Nat} :
    (pieces content)[seg]? = some piece ↔
      seg ≤ content.length / segSize ∧ piece = segmentBytes content seg := by
  rw [pieces, List.getElem?_map]
  by_cases inside : seg < content.length / segSize + 1
  · rw [List.getElem?_range inside, Option.map_some, Option.some.injEq]
    exact ⟨fun same => ⟨Nat.le_of_lt_succ inside, same.symm⟩, fun same => same.2.symm⟩
  · rw [List.getElem?_eq_none (by simpa using inside)]
    exact iff_of_false (by simp) fun known => inside (Nat.lt_succ_of_le known.1)

theorem flatten_pieces (content : Bytes) : (pieces content).flatten = content :=
  flatten_all_segmentBytes content

section Avoids

/-- The operation leaves the file and makes nothing below its path. -/
def Operation.Avoids (path : Path) : Operation → Prop
  | .mknod other _ => ¬ path.names <+: other.names
  | .rename source target =>
      source = target ∨ ¬ path.names <+: target.names ∧ ¬ source.names <+: path.names
  | operation => operation.Leaves path

instance decidableAvoids (path : Path) : (operation : Operation) →
    Decidable (operation.Avoids path)
  | .mknod .. | .rename .. | .write .. | .truncate .. | .release .. | .openFile .. | .unlink _
  | .mkdir .. | .read .. | .rmdir _ => by
      dsimp only [Operation.Avoids]
      infer_instance

def Event.Avoids (path : Path) : Event → Prop
  | .operation request => request.operation.Avoids path
  | .interest _ => True

instance (path : Path) : (event : Event) → Decidable (event.Avoids path)
  | .operation request => decidableAvoids path request.operation
  | .interest _ => .isTrue trivial

theorem Operation.Avoids.leaves {path : Path} {operation : Operation}
    (avoids : operation.Avoids path) : operation.Leaves path := by
  cases operation with
  | mknod other mode => trivial
  | rename source target =>
      refine avoids.imp_right fun ⟨outside, above⟩ => ⟨?_, above⟩
      rintro rfl
      exact outside (List.prefix_refl _)
  | _ => exact avoids

namespace FileSystem

/-- A new row stands for the path of a mknod or for the target of a rename. -/
theorem has_step (fs : FileSystem) {operation : Operation} {environment : Environment}
    {state : State} {text : Bytes}
    (present : (exec (operation.program fs) environment state).2.db.fileSystem.Has text) :
    state.db.fileSystem.Has text ∨ (∃ path mode, operation = .mknod path mode ∧ text = path.text) ∨
      ∃ source target, operation = .rename source target ∧ source ≠ target ∧
        text = target.text := by
  cases operation with
  | mknod path mode =>
      simp only [Operation.program, db_ndnfsMknod] at present
      split at present
      · exact .inl present
      · rename_i absent
        rw [Has, mknodRows, Database.lookup_insertFileSystem (by simpa using absent)] at present
        split at present
        · rename_i here
          exact .inr (.inl ⟨path, mode, rfl, here⟩)
        · rw [Database.fileSystem_insertFileVersion] at present
          exact .inl present
  | release path access =>
      simp only [Operation.program] at present
      rcases fs.state_ndnfsRelease path.text environment state { access } with
        same | ⟨content, count, same⟩
      · rw [same] at present
        exact .inl present
      · rw [same, fileSystem_signSegments, releaseRows, Database.fileSystem_insertFileVersion,
          Database.has_updateCurrentVersion] at present
        exact .inl present
  | unlink path =>
      simp only [Operation.program, db_ndnfsUnlink] at present
      rw [Has, Database.lookup_deleteFileSystem] at present
      split at present
      · exact absurd rfl present
      · exact .inl present
  | rename source target =>
      simp only [Operation.program, db_ndnfsRename] at present
      by_cases same : source = target
      · subst target
        rw [Database.renameAll_same] at present
        exact .inl present
      · rw [Database.has_renameAll_fileSystem _ (mt Path.text_injective same)] at present
        split at present
        · rename_i here
          exact .inl (here ▸ present.1)
        · split at present
          · rename_i there
            exact .inr (.inr ⟨source, target, rfl, same, there⟩)
          · exact .inl present
  | _ =>
      rw [fs.db_of_not_changesVersions id] at present
      exact .inl present

end FileSystem

namespace Served

variable {deployment : Deployment} {root path : Path} {content : Bytes} {version : Int}

theorem file {state : State} (published : Served root path content version state) :
    IsFile (state.disk.entry (root.locate path)) := by
  rw [published.entry, isFile_some]
  simp

theorem isInt {state : State} (published : Served root path content version state) :
    IsInt version := by
  obtain ⟨row, -, same, -⟩ := published.row
  exact same ▸ toInt_isInt row.currentVersion

theorem has {state : State} (published : Served root path content version state) :
    state.db.fileSystem.Has path.text := by
  obtain ⟨row, found, -⟩ := published.row
  exact has_iff.mpr ⟨row, found⟩

theorem operation (rooted : deployment.rootPath = root.rootText) {history : History}
    (published : Served root path content version history.state) {request : Request}
    (avoids : request.operation.Avoids path) :
    Served root path content version (deployment.fs.step history request).state := by
  have same : SameFile root path history.state (deployment.fs.step history request).state :=
    FileSystem.sameFile_step rooted avoids.leaves request.environment published.has published.file
  refine ⟨same.entry.trans published.entry, ?_, (same.versions version).mpr published.recorded, ?_,
    FileSystem.rowsHavePaths_step request published.rows, ?_⟩
  · obtain ⟨row, found, known⟩ := published.row
    exact ⟨row, same.row.trans found, known⟩
  · intro seg inside
    rw [Has, same.segments]
    exact published.segments seg inside
  · intro below inside other present
    rcases deployment.fs.has_step present with
      before | ⟨made, mode, shape, text⟩ | ⟨source, target, shape, different, text⟩
    · exact published.alone below inside other before
    · rw [shape] at avoids
      exact avoids (Path.text_injective text ▸ inside)
    · rw [shape] at avoids
      exact (avoids.resolve_left different).1 (Path.text_injective text ▸ inside)

theorem interest {history : History}
    (published : Served root path content version history.state) (interest : Interest) :
    Served root path content version (deployment.step history (.interest interest)).state := by
  rw [deployment.step_interest]
  exact ⟨published.entry, published.row, published.recorded, published.segments, published.rows,
    published.alone⟩

/-- A release without a fault publishes the content that it finds. -/
theorem of_release (rooted : deployment.rootPath = root.rootText) {state : State}
    (publishable : Servable root path content state) (fits : content.length < 2 ^ 31)
    {access : AccessMode} (writing : access ≠ .readOnly) {environment : Environment}
    (calm : environment.faults = []) :
    Served root path content (toInt environment.now)
      (exec ((Operation.release path access).program deployment.fs) environment state).2 := by
  obtain ⟨entry, ⟨old, found, regular⟩, rows, alone⟩ := publishable
  have known : state.db.fileSystem.Has path.text := has_iff.mpr ⟨old, found⟩
  simp only [Operation.program]
  rcases FileSystem.effect_release path environment state
      (show deployment.fs.rootPath = root.rootText from rooted) access with
    ⟨reading | absent, -⟩ | ⟨-, -, bytes, count, -, -, complete, same⟩
  · exact absurd reading writing
  · exact absurd known absent
  · rw [same]
    have has (text : Bytes) : (deployment.fs.signSegments path.text (toInt environment.now) bytes
        (FileSystem.releaseRows path.text environment.now state.db) count).fileSystem.Has text ↔
          state.db.fileSystem.Has text := by
      rw [FileSystem.fileSystem_signSegments, FileSystem.releaseRows,
        Database.fileSystem_insertFileVersion, Database.has_updateCurrentVersion]
    refine ⟨entry, ⟨{ old with currentVersion := toInt environment.now }, ?_, toInt_toInt _,
      regular⟩, ?_, ?_, fun text present => rows text ((has text).mp present),
      fun below inside other present => alone below inside other ((has _).mp present)⟩
    · dsimp only
      rw [FileSystem.fileSystem_signSegments, FileSystem.releaseRows,
        Database.fileSystem_insertFileVersion, Database.lookup_updateCurrentVersion, found,
        Option.map_some, if_pos rfl]
    · dsimp only
      rw [FileSystem.fileVersions_signSegments, FileSystem.releaseRows,
        Database.has_insertFileVersion]
      exact .inl rfl
    · intro seg inside
      have early : seg < FileSystem.lastRound := by
        unfold segSize at inside
        unfold FileSystem.lastRound
        omega
      have quiet := environment.quiet_of_nil calm (seg + 2)
      have signed := complete content entry seg early (Nat.le_of_lt inside) quiet
      dsimp only
      rw [Has, deployment.fs.lookup_signSegments, if_pos ⟨rfl, rfl, by omega, by omega⟩]
      simp

end Served

end Avoids

section Walk

variable {disk : Disk} {here location : Location}

theorem walk_append (here : Location) (first second : List Bytes) :
    disk.walk here (first ++ second) = match disk.walk here first with
      | .ok middle => disk.walk middle second
      | .error error => .error error := by
  induction first generalizing here with
  | nil => rfl
  | cons part first ih =>
      simp only [List.cons_append, Disk.walk]
      split
      · exact ih here
      · split
        · split
          · exact ih _
          · exact ih _
        · split <;> rfl

/-- No way leads on from an object that is no directory. -/
theorem walk_stops (file : ¬ IsDirectory (disk.entry here)) {parts : List Bytes}
    (found : disk.walk here parts = .ok location) : location = here := by
  induction parts with
  | nil => exact (Except.ok.inj found).symm
  | cons part parts ih =>
      rw [Disk.walk] at found
      split at found
      · exact ih found
      · split at found <;> cases found

/-- A text that goes on behind the path of a file names at most the file. -/
theorem find_behind {root path : Path} (below : path.names ≠ [])
    (file : IsFile (disk.entry (root.locate path))) {tail : Bytes}
    (found : disk.find (root.rootText ++ (path.text ++ slash :: tail)) = .ok location) :
    location = root.locate path := by
  obtain ⟨parts, -, shape, clean⟩ :=
    joinSlash_of_head (show (slash :: tail).head? = some slash from rfl)
  have text : path.text = joinSlash path.names := by
    rw [Path.text, Path.parts, if_neg below]
  have cleaned : ∀ part ∈ root.locate path ++ parts, slash ∉ part := by
    intro part member
    rcases List.mem_append.mp member with inside | behind
    · exact (root.locate_valid path part inside).no_slash
    · exact clean part behind
  rw [text, shape, Path.rootText, ← joinSlash_append, ← joinSlash_append, ← List.append_assoc,
    Disk.find, ← Path.locate, Disk.splitOn_joinSlash cleaned, Disk.walk, if_pos (.inl rfl),
    walk_append, disk.walk_of_entry (root.locate_valid path) [] file.1] at found
  exact walk_stops file.2 found

/-- The path of no component leads on from a file. -/
theorem lookupText_behind {root path : Path} (below : path.names ≠ [])
    (file : IsFile (disk.entry (root.locate path))) (component : Component) (rest : Name) :
    disk.lookupText (root.rootText ++ (path.text ++
      joinSlash ((component :: rest).map escapeComponent))) = .error .ENOTDIR := by
  have text : path.text = joinSlash path.names := by
    rw [Path.text, Path.parts, if_neg below]
  have clean : ∀ part ∈ root.locate path ++ (component :: rest).map escapeComponent,
      slash ∉ part := by
    intro part member
    rcases List.mem_append.mp member with inside | behind
    · exact (root.locate_valid path part inside).no_slash
    · obtain ⟨other, -, rfl⟩ := List.mem_map.mp behind
      exact slash_notMem_escapeComponent other
  have proper := properPart_escapeComponent component
  rw [Disk.lookupText, text, Path.rootText, ← joinSlash_append, ← joinSlash_append,
    ← List.append_assoc, Disk.find, ← Path.locate, Disk.splitOn_joinSlash clean, Disk.walk,
    if_pos (.inl rfl), walk_append, disk.walk_of_entry (root.locate_valid path) [] file.1]
  dsimp only
  rw [List.map_cons, Disk.walk, if_neg (not_or.mpr ⟨proper.nonempty, proper.not_dot⟩),
    List.nil_append, if_neg file.2, if_neg file.1]

end Walk

section Directory

variable {server : Server} {root path : Path} {state : State}

/-- What is cut away for a listing stands behind the last slash. -/
theorem queryPath_behind (path tail : Bytes) :
    ∃ cut, Server.queryPath (path ++ slash :: tail) = path ++ slash :: cut := by
  by_cases list : contentMetaString <:+ path ++ slash :: tail
  · have split : path ++ slash :: tail = (path ++ [slash]) ++ tail := by simp
    rw [split] at list
    have inside : contentMetaString <:+ tail := by
      rcases suffix_append_cases list with inside | ⟨rest, ending, shape⟩
      · exact inside
      · by_cases empty : rest = []
        · have whole : contentMetaString = tail := by rw [shape, empty, List.nil_append]
          exact whole ▸ List.suffix_rfl
        · obtain ⟨front, last, rfl⟩ := List.eq_nil_or_concat rest |>.resolve_left empty
          have same : last = slash := by
            obtain ⟨before, whole⟩ := ending
            have ends := congrArg List.getLast? whole
            simpa using ends
          have member : slash ∈ contentMetaString := by simp [shape, same]
          exact absurd member (by decide)
    obtain ⟨front, rfl⟩ := inside
    refine ⟨front, ?_⟩
    rw [← List.cons_append, ← List.append_assoc, Server.queryPath_append]
  · exact ⟨tail, if_neg list⟩

/-- A path that goes on behind a file is no directory. -/
theorem dirReply_behind (rooted : server.fsPath = root.rootText) (below : path.names ≠ [])
    (file : IsFile (state.disk.entry (root.locate path))) (tail : Bytes)
    (environment : Environment) :
    server.dirReply (path.text ++ slash :: tail) environment state = none := by
  obtain ⟨cut, shape⟩ := queryPath_behind path.text tail
  have fails : ∃ error, environment.outcome (state.disk.listText
      (server.filePath (Server.queryPath (path.text ++ slash :: tail)))) = .error error := by
    cases listed : environment.outcome (state.disk.listText
        (server.filePath (Server.queryPath (path.text ++ slash :: tail)))) with
    | error error => exact ⟨error, rfl⟩
    | ok names =>
        have success := Environment.outcome_ok listed
        rw [shape, Server.filePath, absPath, rooted, Disk.listText] at success
        split at success
        · cases success
        · rename_i location entry found
          have present := state.disk.entry_of_lookupText found
          have walked : state.disk.find (root.rootText ++ (path.text ++ slash :: cut)) =
              .ok location := by
            unfold Disk.lookupText at found
            split at found
            · cases found
            · rename_i place walked
              split at found
              · obtain ⟨rfl, -⟩ := Prod.mk.inj (Except.ok.inj found)
                exact walked
              · cases found
          rw [find_behind below file walked] at present
          have other : entry.kind ≠ .directory := by
            have known := file
            rw [present, isFile_some] at known
            exact known
          rw [if_neg other] at success
          cases success
  obtain ⟨error, failed⟩ := fails
  rw [Server.dirReply, failed]

end Directory

section Names

variable {deployment : Deployment} {served : Name} {path : Path} {version : Int}
  (addressed : deployment.Addressed served path)

include addressed

theorem servedName_plain : ∀ component ∈ servedName served path,
    componentKind component = .plain := by
  intro component member
  rcases List.mem_append.mp member with upper | lower
  · exact addressed.plain component upper
  · obtain ⟨name, inside, rfl⟩ := List.mem_map.mp lower
    exact (addressed.carried name inside).kind_plain (path.valid name inside).proper

theorem text_eq_joinSlash : path.text = joinSlash path.names := by
  rw [Path.text, Path.parts, if_neg addressed.below]

/-- The names of the path are the escapes of their components. -/
theorem escape_names : (path.names.map uriComponent).map escapeComponent = path.names := by
  rw [List.map_map]
  exact (List.map_congr_left fun name member => (addressed.carried name member).escape_uriComponent
    (path.valid name member).proper).trans (List.map_id _)

theorem plainText_servedName :
    Server.plainText (servedName served path) = deployment.uri ++ path.text := by
  rw [Server.plainText_of_plain (servedName_plain addressed), servedName, List.map_append,
    joinSlash_append, escape_names addressed, ← addressed.canonical.uri_eq,
    text_eq_joinSlash addressed]

theorem text_ne_nil : path.text ≠ [] := by
  rw [text_eq_joinSlash addressed]
  obtain ⟨name, names, shape⟩ := List.exists_cons_of_ne_nil addressed.below
  rw [shape, joinSlash_cons]
  exact List.cons_ne_nil _ _

/-- The server reads the version and the segment of the path from the name of a segment. -/
theorem scanName_segment (range : IsInt version) (known : version ≠ -1) {seg : Nat}
    (small : seg < 2 ^ 31) :
    deployment.server.scanName {}
        (segmentName deployment.ndn (servedName served path) version seg) =
      .ok (true, ⟨version, seg, false, deployment.uri ++ path.text⟩) := by
  have rangeSeg : IsInt (seg : Int) := by
    unfold IsInt
    omega
  have plain := servedName_plain addressed
  have scanned := deployment.server.scanName_segmentName (Server.isFront_of_plain plain) range
    rangeSeg known
  rw [Server.hasMarker_of_plain plain, plainText_servedName addressed] at scanned
  exact scanned

theorem parseName_segment (range : IsInt version) (known : version ≠ -1) {seg : Nat}
    (small : seg < 2 ^ 31) :
    deployment.server.parseName
        (segmentName deployment.ndn (servedName served path) version seg) =
      .ok ⟨3, version, seg, path.text⟩ := by
  rw [deployment.server.parseName_accepted (scanName_segment addressed range known small),
    deployment.server.finish_prefix rfl (show deployment.server.fsPrefix.length = _ from rfl),
    if_neg (text_ne_nil addressed), Server.Scan.ret,
    if_pos ⟨known, by
      dsimp only
      omega⟩]

/-- No request for content goes on behind the segment. -/
theorem segment_of_parse (range : IsInt version) (known : version ≠ -1) {seg : Nat}
    (small : seg < 2 ^ 31) {name : Name} {ver number : Int} {text : Bytes}
    (parse : deployment.server.parseName name = .ok ⟨3, ver, number, text⟩)
    (under : segmentName deployment.ndn (servedName served path) version seg <+: name) :
    name = segmentName deployment.ndn (servedName served path) version seg := by
  obtain ⟨rest, rfl⟩ := under
  obtain ⟨scan, scanned, -⟩ := deployment.server.parseName_ok parse (by simp)
  rw [deployment.server.scanName_append, scanName_segment addressed range known small] at scanned
  dsimp only at scanned
  cases rest with
  | nil => exact List.append_nil _
  | cons component rest =>
      have nonempty := (deployment.server.scanName_complete scanned).1 component List.mem_cons_self
      have seen : ((seg : Nat) : Int) ≠ -1 := by omega
      rw [deployment.server.scanName_late known nonempty fun _ => seen] at scanned
      cases (Prod.mk.inj (Except.ok.inj scanned)).1

end Names

/-- Without a version no round finds a segment. -/
theorem seg_of_scanComponent (server : Server) {scan next : Scan} {component : Component}
    (blank : scan.version = -1)
    (passed : server.scanComponent scan component = .ok (some next)) : next.seg = scan.seg := by
  cases kind : componentKind component with
  | empty =>
      rw [componentKind_empty kind] at passed
      cases passed
  | version =>
      rw [server.scanComponent_version kind, if_pos blank] at passed
      split at passed
      · cases passed
      · rw [← Option.some.inj (Except.ok.inj passed)]
  | segment =>
      rw [server.scanComponent_segment kind, if_pos blank] at passed
      cases passed
  | marker =>
      rw [server.scanComponent_marker kind] at passed
      split at passed
      · cases passed
      · rw [← Option.some.inj (Except.ok.inj passed)]
  | plain =>
      rw [server.scanComponent_plain kind] at passed
      split at passed
      · rw [← Option.some.inj (Except.ok.inj passed)]
      · cases passed

/-- A name with a marker before its last component is no request for a segment. -/
theorem parseName_marker_last (server : Server) {front : Name} {marker last : Component}
    (kind : componentKind marker = .marker) {version seg : Int} {path : Bytes}
    (parse : server.parseName (front ++ [marker, last]) = .ok ⟨3, version, seg, path⟩) : False := by
  obtain ⟨scan, scanned, finished⟩ := server.parseName_ok parse (by simp)
  obtain ⟨-, parsed⟩ := server.finish_eq_ok finished
  have known := (Server.Scan.ret_eq_three_iff scan).mp (Parsed.mk.inj parsed).1.symm
  rw [server.scanName_append] at scanned
  split at scanned
  · rename_i middle before
    rw [Server.scanName, server.scanComponent_marker kind] at scanned
    by_cases blank : middle.version ≠ -1 ∨ middle.seg ≠ -1
    · rw [if_pos blank] at scanned
      cases (Prod.mk.inj (Except.ok.inj scanned)).1
    · obtain ⟨noVersion, noSeg⟩ := not_or.mp blank
      rw [if_neg blank] at scanned
      dsimp only at scanned
      rw [Server.scanName] at scanned
      cases shape : server.scanComponent { middle with hasMeta := true } last with
      | error exception =>
          rw [shape] at scanned
          cases scanned
      | ok next =>
          rw [shape] at scanned
          cases next with
          | none => cases (Prod.mk.inj (Except.ok.inj scanned)).1
          | some next =>
              obtain rfl := (Prod.mk.inj (Except.ok.inj scanned)).2
              have passed : ({ middle with hasMeta := true } : Scan).version = -1 :=
                not_not.mp noVersion
              have kept := seg_of_scanComponent server passed shape
              exact known.2 (kept.trans (not_not.mp noSeg))
  · rename_i stopped
    exact stopped scan scanned

/-- Only the marker component has this escape. -/
theorem kind_of_marker (ndn : NdnCpp) {marker : Component}
    (escaped : ndn.toEscapedString marker = fileComponentName) :
    componentKind marker = .marker := by
  rw [ndn.toEscapedString_eq] at escaped
  have other : ¬ AllPeriods marker := by
    intro periods
    rw [escapeComponent, if_pos periods] at escaped
    have first : some period = fileComponentName.head? := congrArg List.head? escaped
    exact absurd first (by decide)
  have back := ndn.fromEscapedString_escape marker other
  have back' := ndn.fromEscapedString_escape (metaMarker :: ascii ".FS.file") (by decide)
  rw [escapeComponent, if_neg other] at escaped
  have same : escape (metaMarker :: ascii ".FS.file") = fileComponentName := by decide
  rw [escaped] at back
  rw [same] at back'
  rw [← back, back']
  rfl

theorem escape_marker (ndn : NdnCpp) :
    ndn.toEscapedString (ndn.fromEscapedString fileComponentName) = fileComponentName := by
  have back := ndn.fromEscapedString_escape (metaMarker :: ascii ".FS.file") (by decide)
  have same : escape (metaMarker :: ascii ".FS.file") = fileComponentName := by decide
  rw [same] at back
  rw [back, ndn.toEscapedString_eq]
  decide

/-- Plain components end before the marker. -/
theorem prefix_of_marked {front name : Name} {marker last : Component}
    (plain : ∀ component ∈ front, componentKind component = .plain)
    (marked : componentKind marker ≠ .plain) (under : front <+: name ++ [marker, last]) :
    front <+: name := by
  rcases List.prefix_or_prefix_of_prefix under (List.prefix_append name _) with inside | ⟨rest, rfl⟩
  · exact inside
  · rw [List.prefix_append_right_inj] at under
    cases rest with
    | nil => simp
    | cons component rest =>
        obtain rfl := (List.cons_prefix_cons.mp under).1
        exact absurd (plain component (by simp)) marked

theorem totalSeg_pieces {content : Bytes} (fits : content.length < 2 ^ 31) :
    Server.totalSeg (toInt content.length) = (pieces content).length := by
  rw [Deployment.totalSeg_length content fits, length_pieces]

section Reply

variable {deployment : Deployment} {root path : Path} {served : Name} {content : Bytes}
  {version : Int} {state : State} (rooted : deployment.rootPath = root.rootText)
  (addressed : deployment.Addressed served path)
  (published : Served root path content version state) (fits : content.length < 2 ^ 31)
  {environment : Environment} {data : Data}

include addressed

theorem long_of_under (under : servedName served path <+: data.name) : 2 ≤ data.name.length := by
  have length := under.length_le
  have prefixed := List.length_pos_iff.mpr addressed.canonical.nonempty
  have names := List.length_pos_iff.mpr addressed.below
  rw [servedName, List.length_append, List.length_map] at length
  omega

include published

include rooted fits

omit fits in
/-- The bytes of a content packet are not read behind a file. -/
theorem content_not_behind {text : Bytes} {interestName : Name} {ver seg : Int}
    (replied :
      deployment.server.contentReply text environment state interestName ver seg = some data)
    (parse : deployment.server.parseName data.name = .ok ⟨3, ver, Server.contentSeg seg, text⟩)
    {component : Component} (plain : componentKind component = .plain) :
    ¬ servedName served path ++ [component] <+: data.name := by
  rintro ⟨rest, name⟩
  have shape : data.name = servedName served path ++ (component :: rest) := by
    rw [← name, List.append_assoc]
    rfl
  obtain ⟨-, -, place⟩ := deployment.server.path_of_parse parse (by simp)
  have behind : (Server.plainText data.name).drop deployment.server.fsPrefix.length =
      path.text ++ joinSlash ((component :: Server.plains rest).map escapeComponent) := by
    rw [shape, Server.plainText_append, Server.plainText_of_plain (servedName_plain addressed),
      ← Server.plainText_of_plain (servedName_plain addressed), plainText_servedName addressed,
      show deployment.uri = deployment.server.fsPrefix from rfl, List.append_assoc, List.drop_left,
      Server.plainText_cons_plain plain]
    rfl
  dsimp only at place
  rw [behind, if_neg fun empty => text_ne_nil addressed (List.append_eq_nil_iff.mp empty).1]
    at place
  obtain ⟨signature, bytes, -, found, -, -⟩ := deployment.server.contentReply_some replied
  rw [Server.readContent, place, Server.filePath, absPath,
    show deployment.server.fsPath = root.rootText from rooted] at found
  split at found
  · cases found
  · rename_i opened
    have success := Environment.outcome_ok opened
    rw [lookupText_behind addressed.below published.file] at success
    cases success

/-- A content packet below the name of the file is the segment that its name says. -/
theorem genuine_content (known : version ≠ -1) (calm : environment.faults = []) {text : Bytes}
    {interestName : Name} {ver seg : Int}
    (replied :
      deployment.server.contentReply text environment state interestName ver seg = some data)
    (parse : deployment.server.parseName data.name = .ok ⟨3, ver, Server.contentSeg seg, text⟩)
    (under : servedName served path <+: data.name) :
    Genuine deployment.ndn deployment.protobuf (servedName served path) version (pieces content)
      data where
  long := long_of_under addressed under
  metadata front marker last shape isFile := by
    rw [shape] at parse
    exact (parseName_marker_last deployment.server (kind_of_marker deployment.ndn isFile)
      parse).elim
  segment number piece here below := by
    obtain ⟨bound, rfl⟩ := getElem?_pieces.mp here
    have early : number < FileSystem.lastRound := by
      unfold segSize at bound
      unfold FileSystem.lastRound
      omega
    have small : number < 2 ^ 31 := by
      unfold FileSystem.lastRound at early
      omega
    have range := published.isInt
    have name := segment_of_parse addressed range known small parse below
    have read := parseName_segment addressed range known small
    rw [← name, parse] at read
    obtain ⟨-, -, place, rfl⟩ := Parsed.mk.inj (Except.ok.inj read)
    obtain ⟨signature, bytes, -, found, -, same⟩ := deployment.server.contentReply_some replied
    have contents := deployment.server.readContent_segment rooted place early found
    refine ⟨name, ?_⟩
    rw [same]
    exact contents.trans (Disk.segmentAt_regular published.entry number)
  final number piece here below := by
    obtain ⟨bound, rfl⟩ := getElem?_pieces.mp here
    have small : number < 2 ^ 31 := by
      unfold segSize at bound
      omega
    have range := published.isInt
    have name := segment_of_parse addressed range known small parse below
    have read := parseName_segment addressed range known small
    rw [← name, parse] at read
    obtain ⟨-, -, -, rfl⟩ := Parsed.mk.inj (Except.ok.inj read)
    obtain ⟨signature, bytes, -, -, -, same⟩ := deployment.server.contentReply_some replied
    have size := deployment.server.fileSize_calm rooted published.entry calm
    dsimp only at size
    have nonempty := List.length_pos_iff.mpr (pieces_ne_nil content)
    rw [same, Server.contentPacket, size, totalSeg_pieces fits,
      if_pos (Int.natCast_pos.mpr nonempty)]
    have last : deployment.ndn.toSegment (deployment.server.finalBlockId (pieces content).length) =
        some (toUInt64 ((pieces content).length - 1)) :=
      deployment.ndn.toNumberWithMarker_from _ _ (toUInt64_lt _)
    refine last.trans (congrArg Option.some ?_)
    have limit := length_pieces content
    unfold segSize at limit
    unfold toUInt64
    omega
  behind component plain := content_not_behind rooted addressed published replied parse plain

omit addressed in
/-- The metadata of the file announce its version and all its segments. -/
theorem genuine_meta (calm : environment.faults = []) {row : FileSystemRow}
    (current : toInt row.currentVersion = version)
    (regular : toInt row.type = FileType.regular.code)
    (replied : deployment.server.metaReply path.text environment state [] (toInt row.currentVersion)
      (toInt row.type) = some data)
    (name : data.name = servedName served path ++
      [deployment.ndn.fromEscapedString fileComponentName,
        deployment.ndn.versionComponent version]) :
    Genuine deployment.ndn deployment.protobuf (servedName served path) version (pieces content)
      data where
  long := by
    rw [name, List.length_append]
    simp
  metadata _ _ _ _ _ := by
    rw [Server.metaReply, if_pos (current ▸ published.recorded)] at replied
    obtain rfl := Option.some.inj replied
    refine ⟨⟨_, _, name, escape_marker deployment.ndn⟩, _,
      deployment.protobuf.parse_serialize _ (deployment.server.fileInfo_valid environment state.disk
        path.text [] row.currentVersion row.type), current, ?_⟩
    have size := deployment.server.fileSize_calm rooted published.entry calm
    simp only [Server.fileInfo, regular, if_true, size]
    exact totalSeg_pieces fits
  segment number _ _ below := by
    rw [name, segmentName, List.prefix_append_right_inj] at below
    have kind := deployment.server.componentKind_versionComponent version
    have marked := deployment.server.kind_fileComponent
    obtain ⟨same, -⟩ := List.cons_prefix_cons.mp below
    rw [show deployment.ndn = deployment.server.ndn from rfl] at same
    rw [same, marked] at kind
    cases kind
  final number _ _ below := by
    rw [name, segmentName, List.prefix_append_right_inj] at below
    have kind := deployment.server.componentKind_versionComponent version
    have marked := deployment.server.kind_fileComponent
    obtain ⟨same, -⟩ := List.cons_prefix_cons.mp below
    rw [show deployment.ndn = deployment.server.ndn from rfl] at same
    rw [same, marked] at kind
    cases kind
  behind component plain below := by
    rw [name, List.prefix_append_right_inj] at below
    obtain ⟨same, -⟩ := List.cons_prefix_cons.mp below
    have marked := deployment.server.kind_fileComponent
    rw [same] at plain
    exact absurd (plain.symm.trans marked) (by simp)

omit rooted fits in
/-- A row below the file would stand for a path below it. -/
theorem no_row_behind {more : List Bytes} (clean : ∀ part ∈ more, slash ∉ part) (some : more ≠ []) :
    state.db.fileSystem.lookup (path.text ++ joinSlash more) = none := by
  rw [← not_has_iff]
  intro present
  obtain ⟨below, text⟩ := published.rows _ present
  have parts : below.parts = path.names ++ more := by
    refine joinSlash_injective (fun part member => below.slash_notMem_parts part member) ?_ ?_
    · intro part member
      rcases List.mem_append.mp member with inside | behind
      · exact (path.valid part inside).no_slash
      · exact clean part behind
    · rw [joinSlash_append, ← text_eq_joinSlash addressed]
      exact text
  have names : below.names = path.names ++ more := by
    unfold Path.parts at parts
    split at parts
    · obtain ⟨name, names, shape⟩ := List.exists_cons_of_ne_nil addressed.below
      rw [shape] at parts
      obtain rfl := (List.cons.inj parts).1
      exact absurd rfl (path.valid [] (by simp [shape])).nonempty
    · exact parts
  refine published.alone below (names ▸ List.prefix_append _ _) ?_ (text ▸ present)
  rintro rfl
  exact some (List.append_right_eq_self.mp names.symm)

/-- Every packet that the server sends below the name of the file is genuine. -/
theorem genuine_reply (known : version ≠ -1) (calm : environment.faults = []) {name : Name}
    (registered : served <+: name)
    (replied : deployment.server.reply environment state name = some data)
    (under : servedName served path <+: data.name) :
    Genuine deployment.ndn deployment.protobuf (servedName served path) version (pieces content)
      data := by
  rcases deployment.server.reply_cases replied with
    ⟨text, ver, seg, content, parse⟩ | ⟨text, ver, seg, parse, answer⟩
  · exact genuine_content rooted addressed published fits known calm content parse under
  · obtain ⟨rest, rfl⟩ := registered
    have canonical : deployment.server.fsPrefix = deployment.server.ndn.toUri served :=
      addressed.canonical.uri
    have prefixName : deployment.server.prefixName = served := by
      rw [Server.prefixName, canonical, deployment.server.ndn.nameOfUri_toUri]
    obtain ⟨-, enough, place⟩ := deployment.server.path_of_parse parse (by simp)
    have names := deployment.server.nameOfUri_path canonical addressed.plain enough
    dsimp only at place
    rw [← place] at names
    -- The name of the reply is the path that was asked for and what is announced for it.
    have shape := deployment.server.pathReply_name text environment state
    rw [answer, Option.map_some] at shape
    obtain ⟨announced, found, named⟩ := Option.map_eq_some_iff.mp shape.symm
    have marked := deployment.server.announcement_marker found
    rw [← named, Server.announcedName, prefixName, names, servedName, List.append_assoc,
      List.prefix_append_right_inj] at under
    have plain : ∀ component ∈ path.names.map uriComponent, componentKind component = .plain :=
      fun component member =>
        servedName_plain addressed component (List.mem_append_right served member)
    obtain ⟨more, split⟩ := prefix_of_marked plain marked under
    have behind : text = path.text ++ joinSlash (more.map escapeComponent) := by
      have whole : (Server.plainText (served ++ rest)).drop deployment.server.fsPrefix.length =
          path.text ++ joinSlash (more.map escapeComponent) := by
        rw [Server.plainText_append, Server.plainText_of_plain addressed.plain,
          ← addressed.canonical.uri_eq, show deployment.server.fsPrefix = deployment.uri from rfl,
          List.drop_left, Server.plainText, ← split, List.map_append, joinSlash_append,
          escape_names addressed, ← text_eq_joinSlash addressed]
      rw [place, whole, if_neg]
      intro empty
      exact text_ne_nil addressed (List.append_eq_nil_iff.mp empty).1
    by_cases here : more = []
    · rw [here, List.map_nil, joinSlash_nil, List.append_nil] at behind
      rw [here, List.append_nil] at split
      subst behind
      obtain ⟨row, present, current, regular⟩ := published.row
      rw [Server.pathReply, present] at answer
      dsimp only at answer
      refine genuine_meta rooted published fits calm current regular answer ?_
      rw [Server.metaReply, if_pos (current ▸ published.recorded)] at answer
      obtain rfl := Option.some.inj answer
      change deployment.server.prefixName ++ deployment.server.ndn.nameOfUri path.text ++
        [deployment.server.ndn.fromEscapedString fileComponentName,
          deployment.server.ndn.versionComponent (toInt row.currentVersion)] = _
      rw [prefixName, names, ← split, current]
      rfl
    · have clean : ∀ part ∈ more.map escapeComponent, slash ∉ part :=
        List.forall_mem_map.mpr fun component _ => slash_notMem_escapeComponent component
      have absent := no_row_behind addressed published clean (by simpa using here)
      rw [Server.pathReply, behind, absent] at answer
      obtain ⟨component, others, shape'⟩ := List.exists_cons_of_ne_nil here
      rw [shape', List.map_cons, joinSlash_cons] at answer
      dsimp only at answer
      rw [dirReply_behind rooted addressed.below published.file] at answer
      cases answer

end Reply

namespace Reference

/-- The name of the first file. -/
def fileName : Name := [ascii "ndn", ascii "broadcast", ascii "ndnfs", ascii "a"]

theorem addressed : deployment.Addressed [ascii "ndn", ascii "broadcast", ascii "ndnfs"] fileA where
  canonical := canonical
  plain := by decide
  carried := by decide
  below := by decide

/-- The file with one byte is the only one. -/
theorem publishable : Servable root fileA (ascii "x") (filledState (ascii "x")) := by
  have only : ∀ text, createdState.db.fileSystem.Has text → text = fileA.text := by
    intro text present
    have made : (exec ((Operation.mknod fileA regularMode).program fileSystem) (calm 1)
        newState).2.db.fileSystem.Has text := present
    rcases fileSystem.has_step made with
      none | ⟨path, mode, same, here⟩ | ⟨source, target, same, -⟩
    · exact absurd rfl none
    · cases same
      exact here
    · cases same
  have row : (filledState (ascii "x")).db.fileSystem.lookup fileA.text =
      some ⟨1, [], SignatureState.notReady.code, FileType.regular.code⟩ := by decide +kernel
  exact {
    entry := by decide +kernel
    row := ⟨_, row, by decide⟩
    rows := fun text present => ⟨fileA, (only text present).symm⟩
    alone := fun below _ other present => other (Path.text_injective (only _ present)) }

end Reference

end Ndnfs

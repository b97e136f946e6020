import Ndnfs.Foundation.Interleaving
import Ndnfs.Server.Visit

namespace Ndnfs
open Effect Program MachineInteger KeyedTable Call

def Call.commits : Call Cursor Location → Nat
  | .step stmt => if stmt.statement.Writes then 1 else 0
  | _ => 0

/-- How many statements the release had committed when the server asked for the row of the file and
for the record of its version, and whether it has put a packet. -/
structure Notes where
  asked : Nat := 0
  looked : Nat := 0
  sent : Bool := false

def Notes.note (notes : Notes) (committed : Nat) : Call Cursor Location → Notes
  | .step ⟨.selectFileMeta _, _⟩ => { notes with asked := committed }
  | .step ⟨.selectFileVersion .., _⟩ => { notes with looked := committed }
  | .putData _ => { notes with sent := true }
  | _ => notes

/-- The server is in the middle of an Interest. -/
structure Visit where
  interest : Interest
  program : Source Cursor Location (Except ParseException Unit)
  environment : Environment
  notes : Notes := {}

/-- The server puts this packet next. -/
def Visit.packet (visit : Visit) : Option Data :=
  match visit.program with
  | .call (.putData data) _ => some data
  | _ => none

/-- The progress of a release counts the changing statements that it has committed. -/
structure Progress where
  world : World
  committed : Nat
  visit : Option Visit := none

def countingHandle : Program.Handler (Call Cursor Location) Call.Reply Progress :=
  fun call progress =>
    ((handle call progress.world).1, { progress with
      world := (handle call progress.world).2
      committed := progress.committed + call.commits })

/-- Between two calls of the release the server gets an Interest or makes one call of its own. -/
inductive ServerMove where
  | receive (interest : Interest)
  | advance

namespace Server

variable (server : Server)

/-- The face hands over one Interest after the other. -/
def receive (progress : Progress) (interest : Interest) : Progress :=
  match progress.visit with
  | some _ => progress
  | none =>
      let program := server.onInterestCallback interest.name
      { progress with visit := some ⟨interest, program, interest.environment, {}⟩ }

/-- An Interest that ends the server is its last one. -/
def advance (progress : Progress) : Progress :=
  match progress.visit with
  | none => progress
  | some visit =>
      match visit.program with
      | .ret _ =>
          if server.Survives visit.interest.name then { progress with visit := none } else progress
      | .call request next =>
          let result := callIn request (progress.world.state, visit.environment)
          { progress with
            world.state := result.2.1
            visit := some { visit with
              program := next result.1
              environment := result.2.2
              notes := visit.notes.note progress.committed request } }

def move (progress : Progress) : ServerMove → Progress
  | .receive interest => server.receive progress interest
  | .advance => server.advance progress

end Server

/-- The server only reads the tables and the disk. -/
structure SameView (first second : Progress) : Prop where
  committed : second.committed = first.committed
  environment : second.world.environment = first.world.environment
  db : second.world.state.db = first.world.state.db
  disk : second.world.state.disk = first.world.state.disk
  reads : ∀ visit ∈ second.visit, visit.program.Guards Comes Reads fun _ => True

/-- The packets that were sent change neither the reply of a call nor its effect. -/
theorem handle_sent (call : Call Cursor Location) (world : World) (sent : List Data) :
    (handle call { world with state.sent := sent }).1 = (handle call world).1 ∧
      (handle call { world with state.sent := sent }).2.environment =
        (handle call world).2.environment ∧
      (handle call { world with state.sent := sent }).2.state.db =
        (handle call world).2.state.db ∧
      (handle call { world with state.sent := sent }).2.state.disk =
        (handle call world).2.state.disk := by
  cases call <;> simp only [handle, World.attempt, World.change, World.inspect, and_self] <;>
    split <;> simp

theorem unobserved_move (server : Server) :
    Unobserved countingHandle server.move SameView where
  reply call first second same := by
    obtain ⟨⟨⟨db, disk, sent⟩, environment⟩, committed, visit⟩ := second
    obtain ⟨rfl, rfl, rfl, rfl, reads⟩ := same
    obtain ⟨reply, environment, db, disk⟩ := handle_sent call first.world sent
    exact ⟨reply.symm, ⟨rfl, environment, db, disk, reads⟩⟩
  interfere event first second same := by
    cases event with
    | receive interest =>
        simp only [Server.move, Server.receive]
        split
        · exact same
        · refine ⟨same.committed, same.environment, same.db, same.disk, ?_⟩
          intro visit here
          obtain rfl := Option.some.inj here
          exact server.onlyReads_onInterestCallback interest.name
    | advance =>
        simp only [Server.move, Server.advance]
        split
        · exact same
        · rename_i visit here
          have reads := same.reads visit here
          split
          · split
            · exact ⟨same.committed, same.environment, same.db, same.disk, fun _ none => nomatch none⟩
            · exact same
          · rename_i request next program
            rw [program] at reads
            obtain ⟨db, disk⟩ := reads.1.keeps ⟨second.world.state, visit.environment⟩
            refine ⟨same.committed, same.environment, db.trans same.db, disk.trans same.disk, ?_⟩
            intro after there
            obtain rfl := Option.some.inj there
            exact reads.2 _ ⟨_, rfl⟩

/-- Rows stand for the segments before the announced number. -/
def Database.CompleteAt (db : Database) (path : Bytes) (version total : Int) : Prop :=
  ∀ seg : Nat, (seg : Int) < total → db.fileSegments.Has (path, version, (seg : Int))

/-- The rows of the version stand for a whole content: segments of full size and a last one that is
shorter. -/
def Database.FullySigned (db : Database) (path : Bytes) (version : Int) : Prop :=
  ∃ last : Nat, ∀ seg ≤ last, ∃ signature,
    db.fileSegments.lookup (path, version, (seg : Int)) = some signature ∧
      (signature.signed.content.length < segSize ↔ seg = last)

/-- The file is answered, and a recorded version of it is fully signed. -/
structure Database.HadSigned (db : Database) (path : Bytes) : Prop where
  answered : ∃ row, db.fileSystem.lookup path = some row ∧
    db.fileVersions.Has (path, toInt row.currentVersion)
  signed : ∃ version, db.fileVersions.Has (path, version) ∧ db.FullySigned path version

/-- The tables after the first changing statements of a release: the UPDATE of the current version,
the INSERT of the version and then one row for each segment. -/
structure Published (start : Database) (path : Bytes) (version : Int) (committed : Nat)
    (db : Database) : Prop where
  fileSystem : db.fileSystem = if committed = 0 then start.fileSystem
    else (start.updateCurrentVersion version path).fileSystem
  fileVersions : ∀ key, db.fileVersions.Has key ↔
    start.fileVersions.Has key ∨ 2 ≤ committed ∧ key = (path, version)
  fileSegments : ∀ key, db.fileSegments.Has key ↔
    start.fileSegments.Has key ∨ ∃ seg : Nat, seg + 2 < committed ∧ key = (path, version, (seg : Int))

namespace Published

variable {start db : Database} {path : Bytes} {version : Int}

theorem first (start : Database) (path : Bytes) (version : Int) :
    Published start path version 0 start where
  fileSystem := rfl
  fileVersions _ := by simp
  fileSegments _ := by simp

/-- The UPDATE of the current version is the first change. -/
theorem updated (start : Database) (path : Bytes) (version : Int) :
    Published start path version 1 (start.updateCurrentVersion version path) where
  fileSystem := rfl
  fileVersions _ := by simp
  fileSegments _ := by simp

/-- The INSERT of the version is the second change. -/
theorem inserted (published : Published start path version 1 db) :
    Published start path version 2 (db.insertFileVersion path version) where
  fileSystem := by
    rw [Database.fileSystem_insertFileVersion]
    exact published.fileSystem
  fileVersions key := by
    rw [Database.has_insertFileVersion, published.fileVersions]
    simp [or_comm]
  fileSegments key := by
    rw [Database.fileSegments_insertFileVersion, published.fileSegments]
    simp

/-- The row of the file shows the version of the release from the first change on. -/
theorem lookup {committed : Nat} (published : Published start path version committed db) :
    db.fileSystem.lookup path = (start.fileSystem.lookup path).map fun row =>
      { row with currentVersion := if committed = 0 then row.currentVersion else version } := by
  rw [published.fileSystem]
  split
  · simp
  · rw [Database.lookup_updateCurrentVersion]
    simp

/-- A version is recorded from before or by the second change. -/
theorem recorded {committed : Nat} (published : Published start path version committed db)
    (shown : Int) : db.fileVersions.Has (path, shown) ↔
      start.fileVersions.Has (path, shown) ∨ shown = version ∧ 2 ≤ committed := by
  rw [published.fileVersions, Prod.mk.injEq, and_iff_right rfl, and_comm]

/-- A segment has a row from before or from its own change. -/
theorem completeAt {committed : Nat} (published : Published start path version committed db)
    (shown total : Int) : db.CompleteAt path shown total ↔
      ∀ seg : Nat, (seg : Int) < total →
        start.fileSegments.Has (path, shown, (seg : Int)) ∨
          shown = version ∧ seg + 2 < committed := by
  refine forall₂_congr fun seg _ => ?_
  rw [published.fileSegments]
  refine or_congr_right ⟨?_, ?_⟩
  · rintro ⟨other, changed, same⟩
    simp only [Prod.mk.injEq, Int.natCast_inj, true_and] at same
    obtain ⟨rfl, rfl⟩ := same
    exact ⟨rfl, changed⟩
  · rintro ⟨rfl, changed⟩
    exact ⟨seg, changed, rfl⟩

/-- The next segment is signed. -/
theorem signed {seg : Nat} (published : Published start path version (seg + 2) db)
    (signature : SignatureBits) :
    Published start path version (seg + 3) (db.replaceFileSegment path version seg signature) where
  fileSystem := published.fileSystem
  fileVersions key := by
    rw [Database.fileVersions_replaceFileSegment, published.fileVersions]
    simp
  fileSegments key := by
    rw [Has, Database.lookup_replaceFileSegment]
    split
    · rename_i here
      exact iff_of_true (by simp) (.inr ⟨seg, by omega, here⟩)
    · rename_i other
      refine (published.fileSegments key).trans (or_congr_right ⟨?_, ?_⟩)
      · rintro ⟨earlier, bound, same⟩
        exact ⟨earlier, by omega, same⟩
      · rintro ⟨earlier, bound, same⟩
        have different : earlier ≠ seg := by
          rintro rfl
          exact other same
        exact ⟨earlier, by omega, same⟩

end Published

/-- The release has come this far and has left the disk alone. -/
def Moment (start : State) (path : Bytes) (version : Int) (committed : Nat) (state : State) : Prop :=
  state.disk = start.disk ∧ Published start.db path version committed state.db

def AtMoment (start : State) (path : Bytes) (version : Int) (progress : Progress) : Prop :=
  Moment start path version progress.committed progress.world.state

namespace FileSystem

variable (fs : FileSystem) {path : Bytes} {version : Int} {start : State}

theorem always_signLoop (fd : Location) (rounds seg : Nat) (progress : Progress)
    (disk : progress.world.state.disk = start.disk) (count : progress.committed = seg + 2)
    (published : Published start.db path version (seg + 2) progress.world.state.db) :
    (fs.signLoop path version fd rounds seg : Source Cursor Location _).Always countingHandle
      (AtMoment start path version) progress := by
  have moment : AtMoment start path version progress := ⟨disk, count ▸ published⟩
  induction rounds generalizing seg progress with
  | zero => exact moment
  | succ rounds ih =>
      simp only [signLoop, always_bind, always_perform, run_perform]
      refine ⟨⟨moment, moment⟩, ?_⟩
      simp only [countingHandle, handle, World.inspect]
      cases progress.world.environment.outcome (progress.world.state.disk.pread fd segSize
        (shiftLeft seg segSizeShift)) with
      | error error => exact moment
      | ok buf =>
          have next := published.signed ⟨fs.signedPortion path version seg buf⟩
          have after : AtMoment start path version ⟨⟨{ progress.world.state with
              db := progress.world.state.db.replaceFileSegment path version seg
                ⟨fs.signedPortion path version seg buf⟩ }, progress.world.environment.next⟩,
              progress.committed + 1, progress.visit⟩ := ⟨disk, by rw [count]; exact next⟩
          simp only [always_bind]
          refine ⟨⟨moment, moment, after, after⟩, ?_⟩
          split
          · exact ih (seg + 1) _ disk (congrArg (· + 1) count) next after
          · exact after

/-- The file is opened, signed and closed. -/
theorem always_signFile (path : Bytes) (start : State) (progress : Progress)
    (disk : progress.world.state.disk = start.disk) (count : progress.committed = 2)
    (published : Published start.db path version 2 progress.world.state.db) :
    (do match ← invoke (.openFile (fs.fullPath path) O_RDONLY) with
        | .error errno => return errno.negative
        | .ok fd =>
            match ← fs.signLoop path version fd (lastRound + 1) 0 with
            | .error errno => return errno.negative
            | .ok () =>
                let _ ← invoke (.close fd)
                return 0 : Source Cursor Location Int).Always countingHandle
      (AtMoment start path version) progress := by
  have moment : AtMoment start path version progress := ⟨disk, count ▸ published⟩
  simp only [always_bind, always_perform, run_perform]
  simp only [countingHandle, handle, World.attempt, Disk.openText_readOnly,
    Environment.outcome_map]
  cases progress.world.environment.outcome
    (progress.world.state.disk.lookupText (fs.fullPath path)) with
  | error error => exact ⟨⟨moment, moment⟩, moment⟩
  | ok opened =>
      simp only [Except.map]
      refine ⟨⟨moment, moment⟩, ?_⟩
      have loop := fs.always_signLoop opened.1 (lastRound + 1) 0
        ⟨⟨progress.world.state, progress.world.environment.next⟩, progress.committed,
          progress.visit⟩ disk count published
      rw [always_bind]
      refine ⟨loop, ?_⟩
      have last := loop.last
      split
      · exact last
      · exact ⟨last, last⟩

theorem always_ndnfsRelease (path : Bytes) (flags : OpenFlags) (environment : Environment)
    (start : State) : (fs.ndnfsRelease path flags : Source Cursor Location Int).Always
      countingHandle (AtMoment start path (toInt environment.now))
        ⟨⟨start, environment⟩, 0, none⟩ := by
  have first := Published.first start.db path (toInt environment.now)
  have updated := Published.updated start.db path (toInt environment.now)
  have inserted := updated.inserted
  have moment : AtMoment start path (toInt environment.now) ⟨⟨start, environment⟩, 0, none⟩ :=
    ⟨rfl, first⟩
  simp only [ndnfsRelease, always_bind, always_perform, run_perform]
  refine ⟨⟨moment, moment⟩, ⟨moment, moment, moment, moment⟩, ?_⟩
  split
  · exact moment
  · split
    · exact moment
    · have changed : AtMoment start path (toInt environment.now) ⟨⟨{ start with
          db := start.db.updateCurrentVersion (toInt environment.now) path }, environment⟩, 1, none⟩ :=
        ⟨rfl, updated⟩
      have recorded : AtMoment start path (toInt environment.now) ⟨⟨{ start with
          db := FileSystem.releaseRows path environment.now start.db }, environment⟩, 2, none⟩ :=
        ⟨rfl, inserted⟩
      simp only [always_bind, always_perform]
      refine ⟨⟨moment, moment⟩, ⟨moment, changed⟩, ?_⟩
      split
      · exact changed
      · rw [always_bind]
        refine ⟨⟨changed, changed⟩, ?_⟩
        rw [always_bind]
        refine ⟨⟨changed, changed, recorded, recorded⟩, ?_⟩
        refine (congrArg (fun program => Always countingHandle _ program _) ?_).mpr
          (fs.always_signFile path start _ ?_ ?_ ?_)
        · congr 1
          funext opened
          cases opened with
          | error error => rfl
          | ok fd =>
              simp only
              congr 1
        · rfl
        · rfl
        · exact inserted

end FileSystem

namespace Server

variable (server : Server) {path : Bytes} {start : State} {now : Int} {row : FileSystemRow}

/-- The number of segments that sendFileMeta announces. -/
def announcedTotal (environment : Environment) (disk : Disk) (path : Bytes) (type : Int) : Int :=
  if type = FileType.regular.code then totalSeg (server.fileSize environment disk path) else 0

/-- The version that the server has found in the row of the file. -/
def shown (row : FileSystemRow) (now : Int) (notes : Notes) : Int :=
  toInt (if notes.asked = 0 then row.currentVersion else toInt now)

/-- The packet that announces the shown version. -/
def shownPacket (start : State) (path : Bytes) (row : FileSystemRow) (now : Int)
    (environment : Environment) (notes : Notes) : Data :=
  server.metaPacket path (server.fileInfo environment start.disk path [] (shown row now notes)
    (toInt row.type))

/-- The record of the shown version was there from before, or the release had made it. -/
def FoundRecord (start : State) (path : Bytes) (row : FileSystemRow) (now : Int) (notes : Notes) :
    Prop :=
  start.db.fileVersions.Has (path, shown row now notes) ∨
    shown row now notes = toInt now ∧ 2 ≤ notes.looked

/-- These are the calls of a metadata Interest: a packet is the one for the shown version. -/
def Announces (start : State) (path : Bytes) (row : FileSystemRow) (now : Int)
    (environment : Environment) (notes : Notes) (_ : Nat) (call : Call Cursor Location) : Prop :=
  ∀ data, call = .putData data → data = server.shownPacket start path row now environment notes

theorem announces_other {environment : Environment} {notes : Notes} {time : Nat}
    {call : Call Cursor Location} (other : ∀ data, call ≠ .putData data) :
    server.Announces start path row now environment notes time call :=
  fun data put => absurd put (other data)

/-- The size is that of the file from before the release. -/
theorem passes_readFileSize {announced environment : Environment} {notes : Notes}
    {post : Nat → Environment → Notes → Int × Int → Prop} {time : Nat}
    (all : ∀ later, time ≤ later → post later environment.next notes
      (server.fileSize environment start.disk path,
        totalSeg (server.fileSize environment start.disk path))) :
    (server.readFileSize path : Source Cursor Location _).Passes callIn
      (Moment start path (toInt now)) Notes.note (server.Announces start path row now announced) post
      time environment notes := by
  simp only [readFileSize, passes_bind, passes_perform, callIn, handle, World.inspect, Notes.note]
  intro later passed state moment
  refine ⟨server.announces_other (by simp), ?_⟩
  rw [moment.1]
  unfold fileSize at all
  cases stat : environment.outcome (start.disk.statText (server.filePath path)) with
  | ok st =>
      rw [stat] at all
      exact all later passed
  | error error =>
      rw [stat] at all
      simp only [passes_bind, passes_perform, callIn, handle, Notes.note]
      intro last after state _
      exact ⟨server.announces_other (by simp), all last (passed.trans after)⟩

/-- The packet is put exactly when the record of the shown version is found. -/
theorem passes_sendFileMeta (environment : Environment) {notes : Notes} (unsent : notes.sent = false)
    (time : Nat) : (server.sendFileMeta path [] (shown row now notes) (toInt row.type) :
      Source Cursor Location _).Passes callIn (Moment start path (toInt now)) Notes.note
      (server.Announces start path row now environment)
      (fun _ _ notes _ => notes.sent = true ↔ FoundRecord start path row now notes) time environment
      notes := by
  simp only [sendFileMeta, executeOnce, passes_bind, passes_perform, passes_pure, callIn, handle,
    Database.execute, code_select_lookup, Notes.note]
  intro time _ state _
  refine ⟨server.announces_other (by simp), ?_⟩
  intro looked _ state moment
  refine ⟨server.announces_other (by simp), ?_⟩
  intro time _ state' _
  refine ⟨server.announces_other (by simp), ?_⟩
  have recorded := moment.2.recorded (shown row now notes)
  by_cases found : state.db.fileVersions.Has (path, shown row now notes)
  · have announced : FoundRecord start path row now { notes with looked } := recorded.mp found
    rw [if_pos found, if_neg (not_not.mpr rfl)]
    split
    · rename_i regular
      rw [passes_bind]
      refine server.passes_readFileSize fun later _ => ?_
      simp only [passes_bind, passes_perform, passes_pure, Notes.note]
      intro last _ state _
      refine ⟨fun data put => ?_, iff_of_true trivial announced⟩
      rw [← putData.inj put, shownPacket, metaPacket, fileInfo, if_pos regular, if_pos regular]
      rfl
    · rename_i irregular
      simp only [passes_bind, passes_perform, passes_pure, Notes.note]
      intro last _ state _
      refine ⟨fun data put => ?_, iff_of_true trivial announced⟩
      rw [← putData.inj put, shownPacket, metaPacket, fileInfo, if_neg irregular, if_neg irregular]
      rfl
  · rw [if_neg found, if_pos done_ne_row, passes_pure]
    exact iff_of_false (by simp [unsent]) (mt recorded.mpr found)

/-- Whatever the release does between its calls, the server puts the packet for the version that
it has found, and only if it has found the record, too. -/
theorem passes_metadata {name : Name} {version seg : Int}
    (parse : server.parseName name = .ok ⟨1, version, seg, path⟩)
    (present : start.db.fileSystem.lookup path = some row) (environment : Environment) :
    (server.onInterestCallback name : Source Cursor Location _).Passes callIn
      (Moment start path (toInt now)) Notes.note
      (server.Announces start path row now environment)
      (fun _ _ notes _ => notes.sent = true ↔ FoundRecord start path row now notes) 0 environment
      {} := by
  rw [onInterestCallback, parse]
  have other : (1 : Int) ≠ 3 := by decide
  have other' : (1 : Int) ≠ 2 := by decide
  simp only [onParsedName, if_neg other, if_neg other', if_true, passes_bind, passes_perform,
    callIn, handle, Database.execute, code_select_lookup, Notes.note]
  intro time _ state _
  refine ⟨server.announces_other (by simp), ?_⟩
  intro asked _ state moment
  refine ⟨server.announces_other (by simp), ?_⟩
  have table := moment.2.lookup
  rw [present, Option.map_some] at table
  have known : state.db.fileSystem.Has path := has_iff.mpr ⟨_, table⟩
  rw [if_pos known, if_neg (not_not.mpr rfl), table]
  simp only [passes_bind, passes_perform, passes_pure, callIn, handle, Notes.note]
  intro time _ state _
  refine ⟨server.announces_other (by simp), ?_⟩
  intro time _ state _
  refine ⟨server.announces_other (by simp), ?_⟩
  have column : ((StepResult.select (Option.map (fun row =>
      [Column.integer row.currentVersion, Column.text row.mimeType, Column.integer row.type])
      (some (⟨if asked = 0 then row.currentVersion else toInt now, row.mimeType, row.readySigned,
        row.type⟩ : FileSystemRow)))).row.column 3).toText = none := rfl
  rw [column]
  simp only [passes_bind, passes_perform, callIn, handle, Notes.note]
  intro time _ state _
  refine ⟨server.announces_other (by simp), ?_⟩
  intro time _ state _
  refine ⟨server.announces_other (by simp), ?_⟩
  have unsent : (⟨asked, 0, false⟩ : Notes).sent = false := rfl
  exact server.passes_sendFileMeta environment unsent time

/-- An announced version is complete when its packet is put, and a file that had a signed version is
answered. -/
def AnswersWell (start : State) (path : Bytes) (progress : Progress) : Option ServerMove → Prop
  | some .advance => ∀ visit ∈ progress.visit, ∀ version seg,
      server.parseName visit.interest.name = .ok ⟨1, version, seg, path⟩ →
        start.db.fileSystem.Has path →
          (∀ data ∈ visit.packet, ∀ infof, server.protobuf.parse data.content = some infof →
            progress.world.state.db.CompleteAt path infof.version infof.totalseg) ∧
          (visit.program.value? ≠ none → start.db.HadSigned path → visit.notes.sent = true)
  | _ => True

/-- When its packet is put, the shown version has rows for all its segments, from before the release
or from the statements that it has committed; and a file that had a signed version was asked for when
the shown version had its record. -/
def ArrivesWell (start : State) (path : Bytes) (now : Int) (progress : Progress) :
    Option ServerMove → Prop
  | some .advance => ∀ visit ∈ progress.visit, ∀ version seg,
      server.parseName visit.interest.name = .ok ⟨1, version, seg, path⟩ →
        ∀ row, start.db.fileSystem.lookup path = some row →
          (visit.packet ≠ none → ∀ seg : Nat, (seg : Int) <
              server.announcedTotal visit.interest.environment start.disk path (toInt row.type) →
            start.db.fileSegments.Has (path, shown row now visit.notes, (seg : Int)) ∨
              shown row now visit.notes = toInt now ∧ seg + 2 < progress.committed) ∧
          (visit.program.value? ≠ none → start.db.HadSigned path →
            FoundRecord start path row now visit.notes)
  | _ => True

/-- What is left of the handling of a metadata Interest. -/
def Visits (start : State) (path : Bytes) (now : Int) (progress : Progress) : Prop :=
  ∀ visit ∈ progress.visit, ∀ version seg,
    server.parseName visit.interest.name = .ok ⟨1, version, seg, path⟩ →
      ∀ row, start.db.fileSystem.lookup path = some row →
        visit.program.Passes callIn (Moment start path (toInt now)) Notes.note
          (server.Announces start path row now visit.interest.environment)
          (fun _ _ notes _ => notes.sent = true ↔ FoundRecord start path row now notes)
          progress.committed visit.environment visit.notes

variable {server} {progress : Progress}

theorem visits_move (moment : AtMoment start path (toInt now) progress)
    (visits : server.Visits start path now progress) (move : ServerMove) :
    server.Visits start path now (server.move progress move) := by
  cases move with
  | receive interest =>
      simp only [Server.move, receive]
      split
      · exact visits
      · rintro visit here version seg parse row present
        obtain rfl := Option.some.inj here
        exact (server.passes_metadata parse present interest.environment).later (Nat.zero_le _)
  | advance =>
      simp only [Server.move, advance]
      split
      · exact visits
      · rename_i visit here
        split
        · split
          · exact fun _ none => (nomatch none)
          · exact visits
        · rename_i request next program
          rintro after there version seg parse row present
          obtain rfl := Option.some.inj there
          have passes := visits visit here version seg parse row present
          rw [program] at passes
          exact (passes _ (Nat.le_refl _) _ moment).2

/-- The packet carries the shown version and the number of its segments. -/
theorem parse_announcement (environment : Environment) (notes : Notes) :
    server.protobuf.parse (server.shownPacket start path row now environment notes).content =
      some (server.fileInfo environment start.disk path [] (shown row now notes)
        (toInt row.type)) :=
  server.protobuf.parse_serialize _ (server.fileInfo_valid environment start.disk path []
    (if notes.asked = 0 then row.currentVersion else toInt now) row.type)

/-- A request is answered well exactly when it arrives at a good moment of the release. -/
theorem answersWell_iff (moment : AtMoment start path (toInt now) progress)
    (visits : server.Visits start path now progress) (move : Option ServerMove) :
    server.AnswersWell start path progress move ↔
      server.ArrivesWell start path now progress move := by
  cases move with
  | none => exact Iff.rfl
  | some move =>
      cases move with
      | receive interest => exact Iff.rfl
      | advance =>
          refine forall₂_congr fun visit here => forall₃_congr fun version seg parse => ?_
          cases found : start.db.fileSystem.lookup path with
          | none => exact iff_of_true (fun known => absurd found known) (by simp)
          | some row =>
              have known : start.db.fileSystem.Has path := has_iff.mpr ⟨row, found⟩
              have passes := visits visit here version seg parse row found
              simp only [known, true_implies, Option.some.injEq, forall_eq']
              obtain ⟨interest, program, environment, notes⟩ := visit
              cases program with
              | ret value =>
                  refine and_congr (by simp [Visit.packet]) (imp_congr_right fun _ => ?_)
                  exact imp_congr_right fun _ => passes
              | call request next =>
                  refine and_congr ?_ (by simp [value?])
                  cases request with
                  | putData data =>
                      have announced : data = server.shownPacket start path row now
                          interest.environment notes := (passes _ (Nat.le_refl _) _ moment).1 data rfl
                      simp only [Visit.packet, Option.mem_def, Option.some.injEq, forall_eq',
                        announced, parse_announcement, ne_eq, reduceCtorEq, not_false_eq_true,
                        true_implies]
                      exact moment.2.completeAt _ _
                  | _ => simp [Visit.packet]

end Server

namespace Deployment

variable (deployment : Deployment)

/-- The release of a file is at work; other processes have not yet acted. -/
def releasing (path : Bytes) (flags : OpenFlags) (environment : Environment) (start : State) :
    Running (Call Cursor Location) Call.Reply Int Progress :=
  ⟨deployment.fs.ndnfsRelease path flags, ⟨⟨start, environment⟩, 0, none⟩⟩

/-- The release runs as on its own, and the server is somewhere in its handling of an Interest. -/
structure AtWork (start : State) (path : Bytes) (now : Int)
    (running : Running (Call Cursor Location) Call.Reply Int Progress) : Prop where
  follows : running.Follows countingHandle (AtMoment start path (toInt now)) SameView
  visits : deployment.server.Visits start path now running.state

section AtWork

variable {deployment} {start : State} {path : Bytes} {now : Int}
  {running : Running (Call Cursor Location) Call.Reply Int Progress}

theorem AtWork.moment (atWork : deployment.AtWork start path now running) :
    AtMoment start path (toInt now) running.state := by
  obtain ⟨alone, always, same⟩ := atWork.follows
  obtain ⟨disk, published⟩ := always.first
  refine ⟨same.disk.trans disk, ?_⟩
  rw [same.committed, same.db]
  exact published

theorem AtWork.step (atWork : deployment.AtWork start path now running) (move : Option ServerMove) :
    deployment.AtWork start path now
      (running.step countingHandle deployment.server.move move) where
  follows := Running.follows_step (unobserved_move deployment.server) move atWork.follows
  visits := by
    cases move with
    | some event => exact Server.visits_move atWork.moment atWork.visits event
    | none =>
        obtain ⟨program, progress⟩ := running
        cases program with
        | ret value => exact atWork.visits
        | call request next =>
            intro visit here version seg parse row present
            exact (atWork.visits visit here version seg parse row present).later
              (Nat.le_add_right _ _)

end AtWork

/-- Between any two calls of a release and of the server, the metadata Interests are answered as
promised exactly when they arrive at good moments. -/
theorem answersWell_run_iff (path : Bytes) (flags : OpenFlags) (environment : Environment)
    (start : State) (moves : List (Option ServerMove)) :
    Run.Steps (Running.step countingHandle deployment.server.move)
        (fun running => deployment.server.AnswersWell start path running.state)
        (deployment.releasing path flags environment start) moves ↔
      Run.Steps (Running.step countingHandle deployment.server.move)
        (fun running => deployment.server.ArrivesWell start path environment.now running.state)
        (deployment.releasing path flags environment start) moves := by
  have always := deployment.fs.always_ndnfsRelease path flags environment start
  have first : deployment.AtWork start path environment.now
      (deployment.releasing path flags environment start) :=
    ⟨⟨_, always, ⟨rfl, rfl, rfl, rfl, fun _ none => (nomatch none)⟩⟩, fun _ none => (nomatch none)⟩
  have holds : Run.Holds (Running.step countingHandle deployment.server.move)
      (deployment.AtWork start path environment.now)
      (deployment.releasing path flags environment start) moves :=
    Run.invariant (fun _ move atWork _ => atWork.step move) (Run.steps_true _ moves) first
  apply holds.steps_iff
  intro running move atWork
  exact Server.answersWell_iff atWork.moment atWork.visits move

/-- The empty file has version 2, and the release has recorded version 3 but not signed it. -/
theorem answersWell_run_fails : ¬ ∀ (deployment : Deployment) (path : Bytes) (flags : OpenFlags)
    (environment : Environment) (start : State) (moves : List (Option ServerMove)),
      Run.Steps (Running.step countingHandle deployment.server.move)
        (fun running => deployment.server.AnswersWell start path running.state)
        (deployment.releasing path flags environment start) moves := by
  intro claim
  have steps := claim Reference.deployment (ascii "/a") O_RDWR (Reference.calm 3)
    (exec (do
      let _ ← Reference.fileSystem.ndnfsMknod (ascii "/a") Reference.regularMode
      Reference.fileSystem.ndnfsRelease (ascii "/a") O_RDWR) (Reference.calm 2)
        Reference.newState).2
    (List.replicate 9 none ++ some (.receive
      ⟨[ascii "ndn", ascii "broadcast", ascii "ndnfs", ascii "a"], Reference.calm 4⟩) ::
        List.replicate 10 (some .advance) ++ [some .advance])
  have answers := steps.last
  generalize at_work : Run.after _ _ _ = running at answers
  have packet : running.state.visit.map (fun visit => (visit.interest.name, visit.packet)) =
      some ([ascii "ndn", ascii "broadcast", ascii "ndnfs", ascii "a"],
        some (Reference.server.metaPacket (ascii "/a") ⟨0, 1, 3, none, some 7⟩)) := by
    rw [← at_work]
    decide +kernel
  have unsigned : ¬ running.state.world.state.db.fileSegments.Has (ascii "/a", 3, 0) := by
    rw [← at_work]
    decide +kernel
  obtain ⟨visit, here, shown⟩ := Option.map_eq_some_iff.mp packet
  obtain ⟨name, put⟩ := Prod.mk.inj shown
  have complete := (answers visit here (-1) (-1) (by rw [name]; decide) (by decide)).1 _ put
    ⟨0, 1, 3, none, some 7⟩ (by decide +kernel)
  exact unsigned (complete 0 (by decide))

end Deployment

end Ndnfs

import Ndnfs.Foundation.Tokens
import Ndnfs.Proof.FileContents
import Ndnfs.Proof.SameObject
import Ndnfs.Server.Host

namespace Ndnfs
open Effect Program MachineInteger Patch FileSystem Percent

namespace Operation

/-- Writes to the path put parts of the whole there, and the other operations avoid it. -/
def Copies (path : Path) (whole : Bytes) : Operation → Prop
  | .write other data offset => other = path → Piece.Of whole (offset.toNat, data)
  | .release .. => True
  | operation => operation.Avoids path

instance decidableCopies (path : Path) (whole : Bytes) : (operation : Operation) →
    Decidable (operation.Copies path whole)
  | .write .. | .truncate .. | .release .. | .openFile .. | .unlink _ | .rename .. | .mknod ..
  | .mkdir .. | .read .. | .rmdir _ => by
      dsimp only [Copies]
      infer_instance

/-- Where the content agrees with the whole it stays so. -/
theorem Change.copies {root path : Path} {whole content : Bytes} {now : Int}
    {operation : Operation} {state state' : State}
    (change : operation.Change root now state state') (copies : operation.Copies path whole)
    (stored : Stored root path content state) {written : Nat → Prop}
    (agrees : Agrees whole content written) (bounded : ∀ index, written index → index < whole.length) :
    ∃ content', Stored root path content' state' ∧ Agrees whole content' written := by
  have left (avoids : operation.Avoids path) :
      ∃ content', Stored root path content' state' ∧ Agrees whole content' written := by
    have same := change.sameObject avoids stored.file
    refine ⟨content, ⟨same.entry.trans stored.entry, ?_⟩, agrees⟩
    rw [KeyedTable.Has, same.rows.rows path.text rfl]
    exact stored.known
  cases change with
  | writeContent other data offset count state regular =>
      by_cases here : other = path
      · subst other
        have part : Piece.Of whole (offset.toNat, data.take count) := (copies rfl).take count
        have now : Agrees whole (patch 0 content (data.take count) offset.toNat) _ :=
          agrees.patch part
        refine ⟨patch 0 content (data.take count) offset.toNat, ⟨?_, stored.known⟩, now.short, ?_⟩
        · rw [Disk.entry_modify, if_pos rfl, stored.entry]
          rfl
        · exact fun index old => now.same index (.inl ⟨bounded index old, old⟩)
      · exact left here
  | releaseRow other access state writing =>
      exact ⟨content, ⟨stored.entry, (Database.has_updateCurrentVersion ..).mpr stored.known⟩, agrees⟩
  | releaseVersion other access state writing =>
      refine ⟨content, ⟨stored.entry, ?_⟩, agrees⟩
      rw [Database.fileSystem_insertFileVersion]
      exact stored.known
  | releaseSegment other access state writing seg signature =>
      exact ⟨content, ⟨stored.entry, stored.known⟩, agrees⟩
  | _ => exact left copies

end Operation

/-- Where a write has put which bytes. -/
def putMark : (call : Call Cursor Location) → call.Reply → Option (Location × Bytes × Int)
  | .pwrite fd data offset, .ok count => some (fd, data.take count, offset)
  | _, _ => none

/-- A write succeeds only after it has put the bytes of its result into the file. -/
theorem FileSystem.write_puts {fs : FileSystem} {root path : Path}
    (rooted : fs.rootPath = root.rootText) (data : Bytes) (offset : Int) :
    ((Operation.write path data offset).answer fs : Source Cursor Location (Int × Bytes)).Ensures
      (fun call reply => ∃ world, (handle call world).1 = reply) putMark
      fun marks value => 0 ≤ value.1 →
        (root.locate path, data.take value.1.toNat, offset) ∈ marks := by
  have failed (errno : Errno) : ¬ 0 ≤ errno.negative := Int.not_le.mpr errno.negative_lt
  simp only [Operation.answer, Operation.program, ndnfsWrite, executeOnce, ensures_bind,
    ensures_perform, ensures_pure]
  intro stmt _ stepped _ finalized _
  split
  · exact fun wrong => absurd wrong (failed .ENOENT)
  · simp only [ensures_bind, ensures_perform]
    intro opened came
    cases opened with
    | error errno => exact fun wrong => absurd wrong (failed errno)
    | ok location =>
        obtain ⟨world, opened⟩ := came
        obtain rfl := opened_location (fullPath_text rooted path) .readWrite opened
        simp only [ensures_bind, ensures_perform]
        intro put _
        cases put with
        | error errno => exact fun wrong => absurd wrong (failed errno)
        | ok writeLen =>
            simp only [ensures_bind, ensures_perform, ensures_pure]
            intro closed _ _
            simp [putMark]

theorem eq_of_put {call : Call Cursor Location} {reply : call.Reply} {location : Location}
    {bytes : Bytes} {offset : Int} (marked : putMark call reply = some (location, bytes, offset)) :
    ∃ data, call = .pwrite location data offset := by
  cases call with
  | pwrite fd buf place =>
      cases reply with
      | error error => cases marked
      | ok _ =>
          cases marked
          exact ⟨buf, rfl⟩
  | _ => cases marked

/-- A write that is marked has changed the content of its file. -/
theorem put_changes {root path : Path} {bytes : Bytes} {offset : Int} {call : Call Cursor Location}
    {world : World} {content : Bytes} (stored : Stored root path content world.state)
    (marked : putMark call (handle call world).1 = some (root.locate path, bytes, offset)) :
    (handle call world).2.state.disk.entry (root.locate path) =
      some ⟨.regular, patch 0 content bytes offset.toNat⟩ := by
  obtain ⟨data, rfl⟩ := eq_of_put marked
  cases reply : (handle (.pwrite (root.locate path) data offset) world).1 with
  | error error =>
      rw [reply] at marked
      cases marked
  | ok count =>
      rw [reply] at marked
      obtain rfl : data.take count = bytes := (Prod.mk.inj (Prod.mk.inj (Option.some.inj marked)).2).1
      obtain ⟨disk, success, state⟩ := attempt_ok reply
      cases written : world.state.disk.pwrite (root.locate path) (world.environment.written data)
          offset world.environment.now with
      | error error =>
          rw [written] at success
          cases success
      | ok other =>
          rw [written] at success
          cases success
          obtain ⟨-, rfl⟩ := world.state.disk.pwrite_ok written
          have changed : (handle (.pwrite (root.locate path) data offset) world).2.state.disk = _ :=
            congrArg State.disk state
          rw [changed, Disk.entry_modify, if_pos rfl, stored.entry,
            ← world.environment.written_eq_take]
          rfl

namespace Deployment

/-- What a write with this answer puts where. -/
def putToken (root : Path) (request : Request) (answer : Int × Bytes) : Location × Bytes × Int :=
  match request.operation with
  | .write path data offset => (root.locate path, data.take answer.1.toNat, offset)
  | _ => ([], [], 0)

/-- The bytes of the answer of a write agree with the whole when the file has them. -/
def Put (root path : Path) (whole : Bytes) (request : Request) (answer : Int × Bytes)
    (state : State) : Prop :=
  ∀ data offset, request.operation = .write path data offset → Piece.Of whole (offset.toNat, data) →
    ∀ content, state.disk.entry (root.locate path) = some ⟨.regular, content⟩ →
      ∀ index < whole.length, Piece.Covers (offset.toNat, data.take answer.1.toNat) index →
        content[index]? = whole[index]?

def copyPromise {deployment : Deployment} {root : Path}
    (rooted : deployment.rootPath = root.rootText) (path : Path) (whole : Bytes) :
    Pool.Promise (contract rooted) (Location × Bytes × Int) where
  runs request := ∃ data offset, request.operation = .write path data offset
  wins answer := 0 ≤ answer.1
  allowed call reply := ∃ world, (handle call world).1 = reply
  mark := putMark
  token := putToken root
  replies call state environment := ⟨⟨state, environment⟩, rfl⟩
  needs_token := by
    rintro ⟨operation, environment⟩ ⟨data, offset, rfl⟩
    exact FileSystem.write_puts (show deployment.fs.rootPath = root.rootText from rooted) data offset
  good state := ∃ content, Stored root path content state ∧ Agrees whole content fun _ => False
  done := Put root path whole
  grants := by
    rintro ⟨operation, environment⟩ answer call state own ⟨data, offset, rfl⟩ _
      ⟨content, stored, agrees⟩ granted
    have marked : putMark call (handle call ⟨state, own⟩).1 =
        some (root.locate path, data.take answer.1.toNat, offset) := granted
    have now := put_changes stored marked
    intro data' offset' same part content' present index inside covers
    obtain ⟨-, rfl, rfl⟩ := Operation.write.inj same
    obtain rfl := congrArg Entry.content (Option.some.inj (now.symm.trans present))
    have after : Agrees whole (patch 0 content (data.take answer.1.toNat) offset.toNat) _ :=
      agrees.patch (part.take answer.1.toNat)
    exact after.same index (.inr covers)

/-- No turn of the host undoes what a write has put. -/
theorem put_change {root path : Path} {whole : Bytes} {request other : Request}
    {state state' : State} (copies : request.operation.Copies path whole)
    (good : ∃ content, Stored root path content state ∧ Agrees whole content fun _ => False)
    (change : request.operation.Change root request.environment.now state state')
    {answer : Int × Bytes} (put : Put root path whole other answer state) :
    Put root path whole other answer state' := by
  obtain ⟨content, stored, agrees⟩ := good
  intro data offset operation part content' present index inside covers
  have before : Agrees whole content
      fun index =>
        index < whole.length ∧ Piece.Covers (offset.toNat, data.take answer.1.toNat) index :=
    ⟨agrees.short, fun index place =>
      put data offset operation part content stored.entry index place.1 place.2⟩
  obtain ⟨later, stored', after⟩ := change.copies copies stored before fun index place => place.1
  rw [stored'.entry] at present
  obtain rfl := congrArg Entry.content (Option.some.inj present)
  exact after.same index ⟨inside, covers⟩

/-- Threads write parts of one byte string into an empty file side by side, again and again and in
any order. As soon as the bytes that they have reported cover it, every read returns it. -/
theorem copiedTogether_run {Id : Type} [DecidableEq Id] (deployment : Deployment) {root : Path}
    (rooted : deployment.rootPath = root.rootText) {path : Path} {state : State}
    (empty : Stored root path [] state) {whole : Bytes} {turns : List (Turn Id Request Interest)}
    (copies : ∀ turn ∈ turns,
      turn.Allows (fun _ request => request.operation.Copies path whole) fun _ => True) :
    Run.Holds deployment.hostStep
      (fun host => (∀ index < whole.length, ∃ id data offset answer,
          host.Ended id (.write path data offset) answer ∧ 0 ≤ answer.1 ∧
            Piece.Covers (offset.toNat, data.take answer.1.toNat) index) →
        ∀ environment : Environment, environment.faults = [] → ∀ size offset : Nat,
          (exec (deployment.fs.ndnfsRead path.text size offset) environment host.shared).1 =
            ((((whole.drop offset).take size).length : Int), (whole.drop offset).take size))
      (Host.idle state) turns := by
  have rooted' : deployment.fs.rootPath = root.rootText := rooted
  have nothing {content : Bytes} (short : content.length ≤ whole.length) :
      Agrees whole content fun _ => False := ⟨short, fun _ none => none.elim⟩
  have stays : ∀ (id : Id) request call state environment, request.operation.Copies path whole →
      (contract rooted).linked request environment → (contract rooted).permitted request call →
        (copyPromise rooted path whole).good state →
          (copyPromise rooted path whole).good (callIn call (state, environment)).2.1 ∧
            ∀ other answer, Put root path whole other answer state →
              Put root path whole other answer (callIn call (state, environment)).2.1 := by
    intro id request call state environment known clock calls good
    rcases change_callIn clock calls state with same | change
    · rw [same]
      exact ⟨good, fun _ _ put => put⟩
    · obtain ⟨content, stored, agrees⟩ := good
      obtain ⟨later, stored', agrees'⟩ :=
        change.copies known stored agrees fun index none => none.elim
      exact ⟨⟨later, stored', agrees'⟩,
        fun other answer put => put_change known ⟨content, stored, agrees⟩ change put⟩
  have events : ∀ interest state, True → (copyPromise rooted path whole).good state →
      (copyPromise rooted path whole).good (deployment.sendReply state interest) ∧
        ∀ other answer, Put root path whole other answer state →
          Put root path whole other answer (deployment.sendReply state interest) := by
    intro interest state _ good
    rw [sendReply, deployment.server.exec_onInterestCallback]
    obtain ⟨content, stored, agrees⟩ := good
    exact ⟨⟨content, ⟨stored.entry, stored.known⟩, agrees⟩, fun _ _ put => put⟩
  have kept : (copyPromise rooted path whole).Kept (Host.idle state : Host Id) := by
    intro id thread found
    cases found
  apply (Pool.Promise.kept_run stays events (sound_idle rooted _ state)
    ⟨[], empty, nothing (Nat.zero_le _)⟩ kept copies).imp
  intro host all covered environment calm size offset
  obtain ⟨⟨content, stored, agrees⟩, done⟩ := all
  have complete : content = whole := by
    apply List.ext_getElem?
    intro index
    by_cases inside : index < whole.length
    · obtain ⟨id, data, place, answer, ended, success, covers⟩ := covered index inside
      obtain ⟨thread, found, operation, value⟩ := ended
      obtain ⟨known, put⟩ := done id thread found ⟨data, place, operation⟩ answer value success
      have part : Piece.Of whole (place.toNat, data) := by
        rw [operation] at known
        exact known rfl
      exact put data place operation part content stored.entry index inside covers
    · rw [List.getElem?_eq_none (Nat.le_of_not_lt inside),
        List.getElem?_eq_none (Nat.le_trans agrees.short (Nat.le_of_not_lt inside))]
  rw [complete] at stored
  exact FileSystem.ndnfsRead_stored rooted' stored calm size offset

/-- Two threads write the halves, one of them only its first byte, and a third one writes the middle
again. -/
theorem copiedTogether_run_halves : Run.Holds Reference.deployment.hostStep
    (fun host => (∀ index < (ascii "abcd").length, ∃ id data offset answer,
        host.Ended id (.write Reference.fileA data offset) answer ∧ 0 ≤ answer.1 ∧
          Piece.Covers (offset.toNat, data.take answer.1.toNat) index) →
      ∀ environment : Environment, environment.faults = [] → ∀ size offset : Nat,
        (exec (Reference.deployment.fs.ndnfsRead Reference.fileA.text size offset) environment
          host.shared).1 = (((((ascii "abcd").drop offset).take size).length : Int),
            ((ascii "abcd").drop offset).take size))
    (Host.idle Reference.createdState)
    (.start 0 ⟨.write Reference.fileA (ascii "ab") 0, { Reference.calm 2 with room := some 1 }⟩ ::
      .start 1 ⟨.write Reference.fileA (ascii "cd") 2, Reference.calm 2⟩ ::
        .start 2 ⟨.write Reference.fileA (ascii "bc") 1, Reference.calm 2⟩ ::
          (List.replicate 6 [.advance 1, .advance 2, .advance 0]).flatten) :=
  copiedTogether_run Reference.deployment
    (show Reference.deployment.rootPath = Reference.root.rootText from rfl)
    ⟨by decide +kernel, by decide +kernel⟩ (by decide)

end Deployment

end Ndnfs

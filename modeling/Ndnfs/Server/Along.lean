import Ndnfs.Server.Execution

namespace Ndnfs
open Effect Program MachineInteger

/-- The property says nothing about the calls for the rows of a path. -/
structure IgnoresRows (property : (call : Call Cursor Location) → call.Reply → Prop) : Prop where
  prepare : ∀ statement cursor, property (.prepare statement) cursor
  step : ∀ cursor reply, property (.step cursor) reply
  columnInt : ∀ cursor index value, property (.columnInt cursor index) value
  columnText : ∀ cursor index value, property (.columnText cursor index) value
  finalize : ∀ cursor, property (.finalize cursor) ()

namespace Server

variable {server : Server} {property : (call : Call Cursor Location) → call.Reply → Prop}
  (ignores : IgnoresRows property) {name : Name} {version seg : Int} {path : Bytes} (state : State)
  (environment : Environment)

/-- The calls of the callback are those for the parsed name. -/
theorem along_parsed_iff {parsed : Parsed} (parse : server.parseName name = .ok parsed) :
    (server.onInterestCallback name : Source Cursor Location _).Along handle property
        ⟨state, environment⟩ ↔
      (server.onParsedName name parsed : Source Cursor Location _).Along handle property
        ⟨state, environment⟩ := by
  rw [onInterestCallback, parse]
  simp only [along_bind, along_pure, and_true]

theorem along_segment_iff (parse : server.parseName name = .ok ⟨3, version, seg, path⟩) :
    (server.onInterestCallback name : Source Cursor Location _).Along handle property
        ⟨state, environment⟩ ↔
      (server.sendFileContent name path version seg : Source Cursor Location _).Along handle
        property ⟨state, environment⟩ := by
  rw [along_parsed_iff state environment parse, onParsedName, if_pos rfl]
  simp only [along_bind, along_pure, and_true]

/-- A name that stands for no request leads to no call. -/
theorem along_of_not_request
    (other : ∀ parsed, server.parseName name = .ok parsed → parsed.ret = -1) :
    (server.onInterestCallback name : Source Cursor Location _).Along handle property
      ⟨state, environment⟩ := by
  rw [onInterestCallback]
  cases parse : server.parseName name with
  | error exception => trivial
  | ok parsed =>
      have failed := other parsed parse
      obtain ⟨ret, version, seg, path⟩ := parsed
      dsimp only at failed ⊢
      rw [failed, onParsedName, if_neg (by decide), if_neg (by decide), if_neg (by decide)]
      trivial

include ignores

/-- Without a segment number only the row of the path is looked up first. -/
theorem along_version_iff (parse : server.parseName name = .ok ⟨2, version, seg, path⟩) :
    (server.onInterestCallback name : Source Cursor Location _).Along handle property
        ⟨state, environment⟩ ↔
      (state.db.fileSystem.Has path →
        (server.sendFileContent name path version (-1) : Source Cursor Location _).Along handle
          property ⟨state, environment⟩) := by
  rw [along_parsed_iff state environment parse, onParsedName, if_neg (by decide), if_pos rfl]
  simp only [along_bind, along_perform, run_perform, handle, Database.execute,
    code_select_lookup, ignores.prepare, ignores.step, true_and]
  by_cases present : state.db.fileSystem.Has path
  · simp only [present, if_true, ne_eq, not_true_eq_false, if_false, along_bind, along_perform,
      run_perform, handle, along_pure, and_true, ignores.columnInt, ignores.columnText,
      ignores.finalize, true_and, forall_const]
  · simp only [present, if_false, ne_eq, done_ne_row, not_false_eq_true, if_true, along_perform,
      ignores.finalize, false_implies]

/-- A path with a row is a file, and a path without one is tried as a directory. -/
theorem along_path_iff (parse : server.parseName name = .ok ⟨1, version, seg, path⟩) :
    (server.onInterestCallback name : Source Cursor Location _).Along handle property
        ⟨state, environment⟩ ↔
      (∀ row, state.db.fileSystem.lookup path = some row →
        (server.sendFileMeta path [] (toInt row.currentVersion) (toInt row.type) :
          Source Cursor Location _).Along handle property ⟨state, environment⟩) ∧
      (¬ state.db.fileSystem.Has path →
        (server.sendDirMetaBrowserFriendly path : Source Cursor Location _).Along handle property
          ⟨state, environment⟩) := by
  rw [along_parsed_iff state environment parse, onParsedName, if_neg (by decide),
    if_neg (by decide), if_pos rfl]
  simp only [along_bind, along_perform, run_perform, handle, Database.execute, code_select_lookup,
    ignores.prepare, ignores.step, true_and]
  cases found : state.db.fileSystem.lookup path with
  | none =>
      have absent : ¬ state.db.fileSystem.Has path := KeyedTable.not_has_iff.mpr found
      simp only [absent, if_false, ne_eq, done_ne_row, not_false_eq_true, if_true, along_bind,
        along_perform, along_pure, and_true, ignores.finalize, true_and, forall_const,
        reduceCtorEq, false_implies, implies_true]
      exact Iff.rfl
  | some row =>
      have present : state.db.fileSystem.Has path := KeyedTable.has_iff.mpr ⟨row, found⟩
      have noColumn : ((StepResult.select (some [.integer row.currentVersion,
          .text row.mimeType, .integer row.type])).row.column 3).toText = none := rfl
      simp only [present, if_true, ne_eq, not_true_eq_false, if_false, along_bind, along_perform,
        run_perform, handle, along_pure, and_true, ignores.columnInt, ignores.columnText,
        ignores.finalize, true_and, Option.map_some, noColumn, false_implies, Option.some.injEq, forall_eq']
      exact Iff.rfl

end Server

end Ndnfs

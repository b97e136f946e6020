import Ndnfs.Foundation.KeyedTable
import Ndnfs.Ndn.Library

namespace Ndnfs

/-- The file types of the type column and of FileInfo. -/
inductive FileType where
  | door
  | symbolicLink
  | blockSpecial
  | characterSpecial
  | fifoSpecial
  | eventPort
  | unixSocket
  | regular
  | directory
  deriving DecidableEq

def FileType.code : FileType → Int
  | .door => 0
  | .symbolicLink => 1
  | .blockSpecial => 2
  | .characterSpecial => 3
  | .fifoSpecial => 4
  | .eventPort => 5
  | .unixSocket => 6
  | .regular => 7
  | .directory => 8

inductive SignatureState where
  | ready
  | notReady
  | readyOld
  deriving DecidableEq

def SignatureState.code : SignatureState → Int
  | .ready => 0
  | .notReady => 1
  | .readyOld => 2

structure FileSystemRow where
  currentVersion : Int
  mimeType : Bytes
  readySigned : Int
  type : Int
  deriving DecidableEq

/-- No statement writes the size column. -/
structure FileVersionRow where
  size : Option Int
  deriving DecidableEq

/-- The keys are the primary keys of the three tables. -/
structure Database where
  fileSystem : KeyedTable Bytes FileSystemRow
  fileVersions : KeyedTable (Bytes × Int) FileVersionRow
  fileSegments : KeyedTable (Bytes × Int × Int) SignatureBits

def Database.empty : Database := ⟨∅, ∅, ∅⟩

/-- A result column; an index after the last column reads NULL. -/
inductive Column where
  | null
  | integer (value : Int)
  | text (value : Bytes)
  | blob (value : SignatureBits)
  deriving DecidableEq

abbrev Row := List Column

def Row.column (row : Row) (index : Nat) : Column := row.getD index .null

/-- Each SQL text of the two programs with its bound values. -/
inductive Statement where
  /-- `SELECT current_version FROM file_system WHERE path = ?;` -/
  | selectCurrentVersion (path : Bytes)
  /-- `SELECT * FROM file_system WHERE path = ?;` -/
  | selectFileSystem (path : Bytes)
  /-- `INSERT INTO file_versions (path, version) VALUES (?, ?);` -/
  | insertFileVersion (path : Bytes) (version : Int)
  /-- `INSERT INTO file_system (path, current_version, mime_type, ready_signed, type)
  VALUES (?, ?, ?, ?, ?);` -/
  | insertFileSystem (path : Bytes) (currentVersion : Int) (mimeType : Bytes)
      (readySigned type : Int)
  /-- `UPDATE file_system SET current_version = ? WHERE path = ?;` -/
  | updateCurrentVersion (version : Int) (path : Bytes)
  /-- `DELETE FROM file_system WHERE path = ?;` -/
  | deleteFileSystem (path : Bytes)
  /-- `UPDATE file_system SET PATH = ? WHERE path = ?;` -/
  | renameFileSystem (target source : Bytes)
  /-- `UPDATE file_versions SET PATH = ? WHERE path = ?;` -/
  | renameFileVersions (target source : Bytes)
  /-- `UPDATE file_segments SET PATH = ? WHERE path = ?;` -/
  | renameFileSegments (target source : Bytes)
  /-- `INSERT OR REPLACE INTO file_segments (path,version,segment,signature) VALUES (?,?,?,?);` -/
  | replaceFileSegment (path : Bytes) (version segment : Int) (signature : SignatureBits)
  /-- `DELETE FROM file_segments WHERE path = ? AND version = ? AND segment = ?;` -/
  | deleteFileSegment (path : Bytes) (version segment : Int)
  /-- `SELECT mime_type, type FROM file_system WHERE path = ?` -/
  | selectMimeType (path : Bytes)
  /-- `SELECT current_version, mime_type, type FROM file_system WHERE path = ?` -/
  | selectFileMeta (path : Bytes)
  /-- `SELECT path, version, segment, signature FROM file_segments WHERE path = ? AND version = ?
  AND segment = ?` -/
  | selectFileSegment (path : Bytes) (version segment : Int)
  /-- `SELECT * FROM file_versions WHERE path = ? AND version = ? ` -/
  | selectFileVersion (path : Bytes) (version : Int)
  deriving DecidableEq

def SQLITE_OK : Int := 0
def SQLITE_CONSTRAINT : Int := 19
def SQLITE_ROW : Int := 100
def SQLITE_DONE : Int := 101

/-- The result of sqlite3_step is a code and, for SQLITE_ROW, the current row. -/
structure StepResult where
  code : Int
  row : Row
  deriving DecidableEq

def StepResult.done : StepResult := ⟨SQLITE_DONE, []⟩

/-- A select by primary key gives one row or none. -/
def StepResult.select : Option Row → StepResult
  | some row => ⟨SQLITE_ROW, row⟩
  | none => .done

def movePath (source target path : Bytes) : Bytes := if path = source then target else path

def moveKey {A : Type} (source target : Bytes) (key : Bytes × A) : Bytes × A :=
  (movePath source target key.1, key.2)

theorem movePath_slide (source target : Bytes) : KeyedTable.Slide (movePath source target) where
  rest path := by
    unfold movePath
    split
    · split <;> rfl
    · rfl
  apart first second same := by
    unfold movePath at same ⊢
    split at same <;> split at same
    · rename_i here there
      exact .inl (here.trans there.symm)
    · rename_i here there
      rw [if_pos here]
      exact .inr (.inl same)
    · rename_i here there
      rw [if_pos there]
      exact .inr (.inr same)
    · exact .inl same

theorem moveKey_slide {A : Type} (source target : Bytes) :
    KeyedTable.Slide (moveKey source target : Bytes × A → Bytes × A) where
  rest key := by
    unfold moveKey
    rw [(movePath_slide source target).rest]
  apart first second same := by
    obtain ⟨path, value⟩ := first
    obtain ⟨path', value'⟩ := second
    simp only [moveKey, Prod.mk.injEq] at same ⊢
    obtain ⟨paths, rfl⟩ := same
    simpa using (movePath_slide source target).apart path path' paths

namespace Database

variable (db : Database)

/-- An UPDATE that meets another row's primary key changes no row. -/
def renameFileSystem (source target : Bytes) : Database :=
  { db with fileSystem := db.fileSystem.slideTo (movePath source target) }

def renameFileVersions (source target : Bytes) : Database :=
  { db with fileVersions := db.fileVersions.slideTo (moveKey source target) }

def renameFileSegments (source target : Bytes) : Database :=
  { db with fileSegments := db.fileSegments.slideTo (moveKey source target) }

/-- The three UPDATEs of a rename are separate. -/
def renameAll (source target : Bytes) : Database :=
  ((db.renameFileSystem source target).renameFileVersions source target).renameFileSegments source
    target

/-- An INSERT that meets its primary key changes nothing. -/
def insertFileVersion (path : Bytes) (version : Int) : Database :=
  if db.fileVersions.Has (path, version) then db
  else { db with fileVersions := db.fileVersions.insert (path, version) ⟨none⟩ }

def insertFileSystem (path : Bytes) (row : FileSystemRow) : Database :=
  if db.fileSystem.Has path then db
  else { db with fileSystem := db.fileSystem.insert path row }

def updateCurrentVersion (version : Int) (path : Bytes) : Database :=
  match db.fileSystem.lookup path with
  | some row =>
      { db with fileSystem := db.fileSystem.insert path { row with currentVersion := version } }
  | none => db

def deleteFileSystem (path : Bytes) : Database :=
  { db with fileSystem := db.fileSystem.erase path }

def replaceFileSegment (path : Bytes) (version segment : Int) (signature : SignatureBits) :
    Database :=
  { db with fileSegments := db.fileSegments.insert (path, version, segment) signature }

def deleteFileSegment (path : Bytes) (version segment : Int) : Database :=
  { db with fileSegments := db.fileSegments.erase (path, version, segment) }

def insertCode (clash : Prop) [Decidable clash] : StepResult :=
  if clash then ⟨SQLITE_CONSTRAINT, []⟩ else .done

/-- SQLite executes each statement in its own transaction. -/
def execute : Statement → StepResult × Database
  | .selectCurrentVersion path =>
      (.select ((db.fileSystem.lookup path).map fun row => [.integer row.currentVersion]), db)
  | .selectFileSystem path =>
      (.select ((db.fileSystem.lookup path).map fun row =>
        [.text path, .integer row.currentVersion, .text row.mimeType, .integer row.readySigned,
          .integer row.type]), db)
  | .insertFileVersion path version =>
      (insertCode (db.fileVersions.Has (path, version)), db.insertFileVersion path version)
  | .insertFileSystem path currentVersion mimeType readySigned type =>
      (insertCode (db.fileSystem.Has path),
        db.insertFileSystem path ⟨currentVersion, mimeType, readySigned, type⟩)
  | .updateCurrentVersion version path => (.done, db.updateCurrentVersion version path)
  | .deleteFileSystem path => (.done, db.deleteFileSystem path)
  | .renameFileSystem target source =>
      (insertCode (db.fileSystem.rekey (movePath source target) = none),
        db.renameFileSystem source target)
  | .renameFileVersions target source =>
      (insertCode (db.fileVersions.rekey (moveKey source target) = none),
        db.renameFileVersions source target)
  | .renameFileSegments target source =>
      (insertCode (db.fileSegments.rekey (moveKey source target) = none),
        db.renameFileSegments source target)
  | .replaceFileSegment path version segment signature =>
      (.done, db.replaceFileSegment path version segment signature)
  | .deleteFileSegment path version segment => (.done, db.deleteFileSegment path version segment)
  | .selectMimeType path =>
      (.select ((db.fileSystem.lookup path).map fun row =>
        [.text row.mimeType, .integer row.type]), db)
  | .selectFileMeta path =>
      (.select ((db.fileSystem.lookup path).map fun row =>
        [.integer row.currentVersion, .text row.mimeType, .integer row.type]), db)
  | .selectFileSegment path version segment =>
      (.select ((db.fileSegments.lookup (path, version, segment)).map fun signature =>
        [.text path, .integer version, .integer segment, .blob signature]), db)
  | .selectFileVersion path version =>
      (.select ((db.fileVersions.lookup (path, version)).map fun row =>
        [.text path, .integer version, (row.size.map Column.integer).getD .null]), db)

end Database

end Ndnfs

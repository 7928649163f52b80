import Grizol.Interface.StoredFiles
import Grizol.Model.BepState

/-!
# What the writers of indices leave of a file

Three calls write files, each with its blocks and its version. `RowsOf` says that what the
tables hold of a file is what was written, and nothing of an earlier version of it.
-/

set_option autoImplicit false

namespace Grizol.Interface

open Grizol.Library
open Grizol.Model Grizol.Model.Syncthing

/-- The functions that write files to the database. -/
inductive IndexWriter where
  | insertFileInfo
  | replaceFileInfo (moveFile : Bool)
  | replaceIndex

/-- The row of a block that is new. -/
def newBlock (key : FileKey) (block : BlockInfo) : BlockKey × BlockRow :=
  (BepState.blockKey key block, ⟨block.weakHash, .notStored⟩)

/-- **Exactly what was written.** The block rows of a file are its blocks, none of them stored,
and its version rows are its counters. -/
structure RowsOf (db : Database) (key : FileKey) (file : FileInfo) : Prop where
  blocks : ∀ e, e ∈ db.blockRowsOf key ↔ ∃ block ∈ file.blocks, e = newBlock key block
  versions : ∀ c, c ∈ db.countersOf key ↔ c ∈ countersOf file

/-- What is there of a file already is part of the new one. -/
structure NothingElse (db : Database) (key : FileKey) (file : FileInfo) : Prop where
  blocks : ∀ e ∈ db.blockRowsOf key, ∃ block ∈ file.blocks, e = newBlock key block
  versions : ∀ c ∈ db.countersOf key, c ∈ countersOf file

namespace IndexWriter

variable (w : IndexWriter) (folder : String) (deviceId : DeviceId) (files : List FileInfo)

/-- The call of the function for these files. -/
def call : RustM BepState Unit :=
  match w with
  | .insertFileInfo => BepState.insertFileInfo folder deviceId files
  | .replaceFileInfo moveFile => BepState.replaceFileInfo folder deviceId files moveFile
  | .replaceIndex => BepState.replaceIndex ⟨folder, files⟩ deviceId

/-- The files that are written. -/
def written : List FileInfo :=
  match w with
  | .insertFileInfo | .replaceIndex => files
  | .replaceFileInfo _ => files.filter fun f => !f.deleted

/-- What is needed for nothing else to remain: of an upsert, that nothing else is there. -/
def Clears (db : Database) : Prop :=
  match w with
  | .insertFileInfo => ∀ file ∈ files, NothingElse db ⟨folder, deviceId, file.name⟩ file
  | .replaceFileInfo _ | .replaceIndex => True

end IndexWriter

end Grizol.Interface

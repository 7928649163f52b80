import Grizol.Interface.MovedFiles

/-!
# Where a rename from the lists records a file

From the lists a file is moved by writing it anew and deleting the old row. What the tables
hold of it should be the same afterwards, with the storage status of its blocks and with the
backends it is on, and so for all that is below it (`SubtreeRecorded`).
-/

set_option autoImplicit false

namespace Grizol.Interface

open Grizol.Library
open Grizol.Model Grizol.Model.Syncthing

/-- The lists are those a refresh reads from the database. Row ids are unique. -/
structure ListsMatch (db : Database) (deviceId : DeviceId) (folders : List GrizolFolder)
    (files : List GrizolFileInfo) : Prop where
  folderRows : ∃ bepFolders : BepFolders db.bepIndex,
    folders.Perm (BepState.topFoldersFuse bepFolders deviceId)
  fileRows : ∃ rowid : FileKey → Int64, files.Perm (BepState.filesFuse rowid db deviceId)
  rowIds : (files.map GrizolFileInfo.id).Nodup

/-- The inode number is that of the folder or the file at this path. -/
def AtPath (folders : List GrizolFolder) (files : List GrizolFileInfo) (ino : ℕ)
    (path : List String) : Prop :=
  (∃ f ∈ folders, [f.folder.id] = path ∧ topDirId f.id = .ok ino) ∨
    ∃ f ∈ files, GrizolFsMem.splitPath f = path ∧ entryId f.id = .ok ino

/-- A rename from one directory to another, to a name that is free there. -/
structure RenameFrom (db : Database) (deviceId : DeviceId) (folders : List GrizolFolder)
    (files : List GrizolFileInfo) (request : RenameRequest) (origFolder : String)
    (origParent : List String) (destFolder : String) (destParent : List String) : Prop where
  orig : AtPath folders files request.origParentDirIno (origFolder :: origParent)
  dest : AtPath folders files request.destParentDirIno (destFolder :: destParent)
  free : db.bepFileInfo.contains
    ⟨destFolder, deviceId, Path.join (destParent ++ [request.destName])⟩ = false

/-- The file has a location on this backend. -/
def StoredOn (db : Database) (key : FileKey) (storageBackend : String) : Prop :=
  ∃ location, db.bepFileLocation.contains ⟨key, storageBackend, location⟩ = true

/-- **The subtree is recorded at its new path**: the rows have moved, the files are on the same
remote backends, and nothing is left under the old path. -/
structure SubtreeRecorded (deviceId : DeviceId) (paths : GrizolFS.RenamePaths)
    (db db' : Database) : Prop where
  rows : FilesMoved (SubtreeMoves db deviceId paths) db db'
  backends : ∀ key dest, SubtreeMoves db deviceId paths key dest →
    ∀ storageBackend, storageBackend ≠ "local" →
      (StoredOn db' dest storageBackend ↔ StoredOn db key storageBackend)
  nothing : ∀ rel, Below rel → db'.bepFileInfo.contains
    ⟨paths.origFolder, deviceId, paths.origName ++ rel⟩ = false

/-- **What a rename from the lists can move as it is**: an entry with nothing below it and no
stored block, that is on all the backends there are and no others. It does not go below
itself. -/
structure MovesAsItIs {ν : Type} (fs : GrizolFS ν) (paths : GrizolFS.RenamePaths) : Prop where
  alone : ∀ rel, Below rel → fs.state.db.bepFileInfo.contains
    ⟨paths.origFolder, fs.config.localDeviceId, paths.origName ++ rel⟩ = true → rel = ""
  unstored : ∀ k row,
    k.file = ⟨paths.origFolder, fs.config.localDeviceId, paths.origName⟩ →
      fs.state.db.bepBlockInfo.get k = some row → row.storageStatus = .notStored
  backends : ∀ storageBackend, storageBackend ≠ "local" →
    (storageBackend ∈ fs.storageBackends ↔ StoredOn fs.state.db
      ⟨paths.origFolder, fs.config.localDeviceId, paths.origName⟩ storageBackend)
  apart : paths.destFolder = paths.origFolder →
    ¬ ∃ rel, Below rel ∧ paths.destName = paths.origName ++ rel

end Grizol.Interface

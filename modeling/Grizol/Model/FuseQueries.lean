import Grizol.Model.FsMem

/-!
# What a refresh queries

The queries behind a refresh of the file system: the folders of a device and its files,
each with its row id and its locations. The order of the rows is not asked for, and the
files pass through a hash map. The table of folders and the row ids of files are
nowhere else in the model.
-/

set_option autoImplicit false

namespace Grizol.Model

open Grizol.Library
open Grizol.Model.Syncthing

/-- `bep_folders`, with the key that `bep_index` refers to. -/
structure BepFolders (bepIndex : List (String × DeviceId)) where
  rows : List GrizolFolder
  primaryKey : (rows.map fun r => r.folder.id).Nodup
  rowIds : (rows.map GrizolFolder.id).Nodup
  folderOfIndex : ∀ k ∈ bepIndex, ∃ r ∈ rows, r.folder.id = k.1

namespace BepState

/-- The folders of which this device has an index, with their row ids. -/
def topFoldersFuse {db : Database} (bepFolders : BepFolders db.bepIndex) (deviceId : DeviceId) :
    List GrizolFolder :=
  bepFolders.rows.filter fun r => db.bepIndex.contains (r.folder.id, deviceId)

/-- The locations of a file but for those on this device. -/
def remoteLocations (db : Database) (key : FileKey) : List FileLocation :=
  (db.bepFileLocation.entries.filter fun l =>
    l.1.file = key && l.1.storageBackend ≠ "local").map fun l =>
      ⟨l.1.location, .remote l.1.storageBackend⟩

/-- The files of a device, of all folders. The query reads no blocks and no counters. -/
def filesFuse (rowid : FileKey → Int64) (db : Database) (deviceId : DeviceId) :
    List GrizolFileInfo :=
  (db.bepFileInfo.entries.filter fun e => e.1.device = deviceId).map fun e =>
    { fileInfo := { e.2.toFileInfo e.1.name [] [] with version := none }
      fileLocations := remoteLocations db e.1
      folder := e.1.folder
      id := rowid e.1 }

end BepState

end Grizol.Model

import Grizol.Library.AssocMap
import Grizol.Model.Syncthing

/-!
# The indices in memory

`core/indices.rs`: the index of every folder and device that was read or written, kept
to save a query. A file is found by its name.
-/

set_option autoImplicit false

namespace Grizol.Model

open Grizol.Library
open Grizol.Model.Syncthing

/-- The key of a cached index. -/
structure FolderDevice where
  folder : String
  deviceId : DeviceId
  deriving DecidableEq, Repr

/-- A cached index: its files by name. -/
structure GrizolIndex where
  folder : String
  files : AssocMap String FileInfo
  deriving DecidableEq

namespace GrizolIndex

/-- `Default::default()`. -/
def default : GrizolIndex := ⟨"", .empty⟩

/-- Files put into a map under their names, a later one in place of an earlier. -/
def insertAll (files : AssocMap String FileInfo) (fileInfo : List FileInfo) :
    AssocMap String FileInfo :=
  fileInfo.foldl (fun files f => files.insert f.name f) files

/-- `GrizolIndex::from`. -/
def ofIndex (value : Index) : GrizolIndex := ⟨value.folder, insertAll .empty value.files⟩

/-- `Index::from`. -/
def toIndex (value : GrizolIndex) : Index := ⟨value.folder, value.files.values⟩

end GrizolIndex

/-- The cached indices, of all devices and folders. -/
structure GrizolIndices where
  indices : AssocMap FolderDevice GrizolIndex
  deriving DecidableEq

namespace GrizolIndices

/-- `Default::default()`. -/
def default : GrizolIndices := ⟨.empty⟩

variable (s : GrizolIndices)

/-- Caches an index in place of the one that was there. -/
def insert (deviceId : DeviceId) (index : Index) : GrizolIndices :=
  ⟨s.indices.insert ⟨index.folder, deviceId⟩ (.ofIndex index)⟩

/-- The cached index, if there is one. -/
def index (folderDevice : FolderDevice) : Option Index :=
  (s.indices.get folderDevice).map GrizolIndex.toIndex

/-- Puts files into the cached index, which is made if there is none. -/
def insertFileInfo (folder : String) (deviceId : DeviceId) (fileInfo : List FileInfo) :
    GrizolIndices :=
  let (indices, entry) := s.indices.entryOrInsert ⟨folder, deviceId⟩ .default
  ⟨indices.insert ⟨folder, deviceId⟩
    { entry with files := GrizolIndex.insertAll entry.files fileInfo }⟩

/-- Takes a file out of the cached index, which is made if there is none. -/
def removeFileInfo (folder : String) (deviceId : DeviceId) (fileName : String) : GrizolIndices :=
  let (indices, entry) := s.indices.entryOrInsert ⟨folder, deviceId⟩ .default
  ⟨indices.insert ⟨folder, deviceId⟩ { entry with files := entry.files.erase fileName }⟩

end GrizolIndices

end Grizol.Model

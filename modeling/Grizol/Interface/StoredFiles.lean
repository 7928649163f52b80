import Grizol.Model.BepState

/-!
# The files a database holds

`stored` reads the tables as what they stand for: for every folder, device and name at
most one file, with its counters and its blocks. The writers of `BepState` differ in
what happens to the counters and blocks that are there already: an upsert adds
(`upserted`), a replacement starts anew (`replaced`). Of equal blocks, and of equal
counters, the first stays.
-/

set_option autoImplicit false

namespace Grizol.Interface

open Grizol.Library
open Grizol.Model Grizol.Model.Syncthing

/-- The file under a key. -/
def stored (db : Database) (key : FileKey) : Option FileInfo :=
  (db.bepFileInfo.get key).map fun row =>
    row.toFileInfo key.name (db.countersOf key) (db.blocksOf key)

/-- Two blocks the database takes for the same one: all but the weak hash is the key. -/
def sameBlock (a b : BlockInfo) : Bool := a.offset = b.offset && a.size = b.size && a.hash = b.hash

/-- A block that is there already is not added. -/
def addBlock (blocks : List BlockInfo) (block : BlockInfo) : List BlockInfo :=
  if blocks.any (sameBlock block) then blocks else blocks ++ [block]

/-- A counter put where the order of the primary key has it. -/
def addCounter (counters : List Counter) (counter : Counter) : List Counter :=
  if counter ∈ counters then counters
  else counters.orderedInsert Database.CounterLE counter

/-- Blocks added to those that are there. -/
def addBlocks (blocks added : List BlockInfo) : List BlockInfo := added.foldl addBlock blocks

/-- Counters added to those that are there. -/
def addCounters (counters added : List Counter) : List Counter := added.foldl addCounter counters

/-- The counters of a file; a file without a version has none. -/
def countersOf (file : FileInfo) : List Counter := (file.version.map (·.counters)).getD []

/-- The same file with other counters and blocks. -/
def withParts (file : FileInfo) (counters : List Counter) (blocks : List BlockInfo) : FileInfo :=
  { file with version := some { counters := counters }, blocks := blocks }

/-- What is stored after a file was written over `old` by an upsert. -/
def upserted (old : Option FileInfo) (file : FileInfo) : FileInfo :=
  withParts file (addCounters ((old.map countersOf).getD []) (countersOf file))
    (addBlocks ((old.map FileInfo.blocks).getD []) file.blocks)

/-- What is stored after a file was replaced. -/
def replaced (file : FileInfo) : FileInfo :=
  withParts file (addCounters [] (countersOf file)) file.blocks

/-- A map of files with one changed. -/
def setFile (files : FileKey → Option FileInfo) (key : FileKey) (file : FileInfo) :
    FileKey → Option FileInfo :=
  Function.update files key (some file)

/-- The effect of a list of upserts. -/
def upsertAll (folder : String) (deviceId : DeviceId) (files : FileKey → Option FileInfo)
    (fileInfo : List FileInfo) : FileKey → Option FileInfo :=
  fileInfo.foldl (fun files file =>
    setFile files ⟨folder, deviceId, file.name⟩
      (upserted (files ⟨folder, deviceId, file.name⟩) file)) files

/-- The effect of a list of replacements. -/
def replaceAll (folder : String) (deviceId : DeviceId) (files : FileKey → Option FileInfo)
    (fileInfo : List FileInfo) : FileKey → Option FileInfo :=
  fileInfo.foldl (fun files file =>
    setFile files ⟨folder, deviceId, file.name⟩ (replaced file)) files

/-- The last file of a list with this name. -/
def lastNamed (files : List FileInfo) (name : String) : Option FileInfo :=
  files.reverse.find? fun f => f.name = name

/-- The files that are written: `rm_replace_file_info` leaves out those flagged deleted. -/
def notDeleted (files : List FileInfo) : List FileInfo := files.filter fun f => !f.deleted

/-- Every file of a map is under its name. -/
def Named (files : AssocMap String FileInfo) : Prop :=
  ∀ name file, files.get name = some file → file.name = name

end Grizol.Interface

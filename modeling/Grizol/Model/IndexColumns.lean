import Grizol.Library.BigEndian
import Grizol.Model.BepState

/-!
# The columns of an index

The values that the statements of `replace_index` bind and those of `index` read. SQLite has
64-bit integers and byte strings for what the program has in other types, so every row
is converted when it is written, and again, with a panic where it does not fit, when
it is read. `indexOfRows` is the part of `index` that comes after its two queries.
-/

set_option autoImplicit false

namespace Grizol.Model

open Grizol.Library
open Grizol.Model.Syncthing

/-! ## Conversions -/

/-- `i32::try_from(x).unwrap()`. -/
def tryIntoI32 (x : Int64) : Rust Int32 :=
  if -2 ^ 31 ≤ x.toInt ∧ x.toInt < 2 ^ 31 then .ok x.toInt32 else .error .unwrap

/-- `u32::try_from(x).unwrap()`. -/
def tryIntoU32 (x : Int64) : Rust UInt32 :=
  if 0 ≤ x.toInt ∧ x.toInt < 2 ^ 32 then .ok (UInt32.ofNat x.toInt.toNat) else .error .unwrap

/-- `u64::try_from(x).unwrap()`. -/
def tryIntoU64 (x : Int64) : Rust UInt64 :=
  if 0 ≤ x.toInt then .ok (UInt64.ofNat x.toInt.toNat) else .error .unwrap

/-- The bytes are copied into `short_id`, an array of eight, and read with `from_be_bytes`. -/
def shortId (bytes : Bytes) : Rust UInt64 :=
  if bytes.length ≤ 8 then
    .ok (UInt64.ofNat (ofBe (bytes ++ List.replicate (8 - bytes.length) 0)))
  else .error .index

/-- A flag as a column. -/
def flag (b : Bool) : Int64 := if b then 1 else 0

/-! ## Rows -/

/-- The columns of `bep_file_info` that are not in its key. -/
structure FileColumns where
  type : Int64
  size : Int64
  permissions : Int64
  modifiedS : Int64
  modifiedNs : Int64
  modifiedBy : Bytes
  deleted : Int64
  invalid : Int64
  noPermissions : Int64
  sequence : Int64
  blockSize : Int64
  symlinkTarget : String

/-- The columns of `bep_block_info` that `index` reads. -/
structure BlockColumns where
  offset : Int64
  biSize : Int64
  hash : Bytes
  weakHash : Int64

/-- The columns of `bep_file_version` that `index` reads. -/
structure VersionColumns where
  id : Bytes
  value : Int64

/-- What is bound for a file. -/
def FileColumns.ofRow (file : FileRow) : FileColumns where
  type := file.type.toInt64
  size := file.size
  permissions := Int64.ofInt file.permissions.toNat
  modifiedS := file.modifiedS
  modifiedNs := file.modifiedNs.toInt64
  modifiedBy := toBe 8 file.modifiedBy.toNat
  deleted := flag file.deleted
  invalid := flag file.invalid
  noPermissions := flag file.noPermissions
  sequence := file.sequence
  blockSize := file.blockSize.toInt64
  symlinkTarget := file.symlinkTarget

/-- What is bound for a block. -/
def BlockColumns.ofBlock (block : BlockInfo) : BlockColumns where
  offset := block.offset
  biSize := block.size.toInt64
  hash := block.hash
  weakHash := Int64.ofInt block.weakHash.toNat

/-- What is bound for a counter, whose value was converted to `i64`. -/
def VersionColumns.ofCounter (counter : Counter) : VersionColumns where
  id := toBe 8 counter.id.toNat
  value := Int64.ofInt counter.value.toNat

/-- The file `index` makes of a row, without counters and blocks. -/
def FileColumns.toFileInfo (file : FileColumns) (name : String) : Rust FileInfo := do
  let modifiedBy ← shortId file.modifiedBy
  let type ← tryIntoI32 file.type
  let permissions ← tryIntoU32 file.permissions
  let modifiedNs ← tryIntoI32 file.modifiedNs
  let blockSize ← tryIntoI32 file.blockSize
  pure {
    name := name
    type := type
    size := file.size
    permissions := permissions
    modifiedS := file.modifiedS
    modifiedNs := modifiedNs
    modifiedBy := modifiedBy
    deleted := file.deleted == 1
    invalid := file.invalid == 1
    noPermissions := file.noPermissions == 1
    version := some { counters := [] }
    sequence := file.sequence
    blockSize := blockSize
    blocks := []
    symlinkTarget := file.symlinkTarget }

/-- The block of a row; a column out of range is a panic. -/
def BlockColumns.toBlockInfo (bi : BlockColumns) : Rust BlockInfo := do
  let size ← tryIntoI32 bi.biSize
  let weakHash ← tryIntoU32 bi.weakHash
  pure { offset := bi.offset, size := size, hash := bi.hash, weakHash := weakHash }

/-- The counter of a row; a column out of range is a panic. -/
def VersionColumns.toCounter (version : VersionColumns) : Rust Counter := do
  let id ← shortId version.id
  let value ← tryIntoU64 version.value
  pure { id := id, value := value }

/-! ## The loops of `index` -/

/-- One row of the query of the files with their blocks. -/
def readFileBlock (existingFiles : AssocMap String FileInfo) :
    FileKey × FileColumns × Option BlockColumns → Rust (AssocMap String FileInfo)
  | (key, file, block) =>
      if existingFiles.contains key.name then
        match block with
        | some bi => do
            let bi ← bi.toBlockInfo
            pure (existingFiles.modify key.name fun f => { f with blocks := f.blocks ++ [bi] })
        | none => pure existingFiles
      else do
        let fi ← file.toFileInfo key.name
        match block with
        | some bi => do
            let bi ← bi.toBlockInfo
            pure (existingFiles.insert key.name { fi with blocks := fi.blocks ++ [bi] })
        | none => pure (existingFiles.insert key.name fi)

/-- One row of the query of the versions. -/
def readFileVersion (existingFiles : AssocMap String FileInfo) :
    String × VersionColumns → Rust (AssocMap String FileInfo)
  | (name, version) =>
      if existingFiles.contains name then do
        let counter ← version.toCounter
        pure (existingFiles.modify name fun f =>
          { f with version := f.version.map fun v => { counters := v.counters ++ [counter] } })
      else pure existingFiles

/-- The index that `index` makes of the rows of its queries. -/
def indexOfRows (folder : String) (fileBlocks : List (FileKey × FileColumns × Option BlockColumns))
    (fileVersions : List (String × VersionColumns)) : Rust Index := do
  let existingFiles ← fileBlocks.foldlM readFileBlock .empty
  let existingFiles ← fileVersions.foldlM readFileVersion existingFiles
  pure { folder := folder, files := existingFiles.values }

/-- The rows of the query of the files with their blocks. -/
def fileBlockRows (db : Database) (folder : String) (deviceId : DeviceId) :
    List (FileKey × FileColumns × Option BlockColumns) :=
  (BepState.fileBlocks db folder deviceId).map fun e =>
    (e.1, .ofRow e.2.1, e.2.2.map .ofBlock)

/-- The rows of the query of the versions. -/
def fileVersionRows (db : Database) (folder : String) (deviceId : DeviceId) :
    List (String × VersionColumns) :=
  (BepState.fileVersions db folder deviceId).map fun e => (e.1, .ofCounter e.2)

end Grizol.Model

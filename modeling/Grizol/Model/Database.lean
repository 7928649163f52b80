import Mathlib.Data.List.Sort
import Grizol.Library.AssocMap
import Grizol.Library.Rust
import Grizol.Model.Syncthing

/-!
# The database

The tables of the migration that hold indices, each a map from the primary key to the
other columns. A column has the type the program reads and writes it with: the ids
that are stored as eight bytes are the numbers they encode. The constraints of the
schema are fields, so a statement that would break one cannot build a database: it
fails, and with it the transaction. The queries of the program ask for no order. The counters
of a file come back in the order of their primary key, in which the query finds them: it
decides which of two greatest counters is compared. Other rows come back in the order of
the map.
-/

set_option autoImplicit false

namespace Grizol.Model

open Grizol.Library
open Grizol.Model.Syncthing

/-- The primary key of `bep_file_info`. -/
structure FileKey where
  folder : String
  device : DeviceId
  name : String
  deriving DecidableEq, Repr

/-- A row of `bep_file_info`, without its key. -/
structure FileRow where
  type : Int32
  size : Int64
  permissions : UInt32
  modifiedS : Int64
  modifiedNs : Int32
  modifiedBy : UInt64
  deleted : Bool
  invalid : Bool
  noPermissions : Bool
  sequence : Int64
  blockSize : Int32
  symlinkTarget : String
  deriving DecidableEq, Repr

/-- The two values of `storage_status`. -/
inductive StorageStatus where
  | notStored
  | storedLocally
  deriving DecidableEq, Repr

/-- The primary key of `bep_block_info`. -/
structure BlockKey where
  file : FileKey
  offset : Int64
  size : Int32
  hash : Bytes
  deriving DecidableEq, Repr

/-- A row of `bep_block_info`, without its key. -/
structure BlockRow where
  weakHash : UInt32
  storageStatus : StorageStatus
  deriving DecidableEq, Repr

/-- The columns of `bep_file_version`, all in the primary key. The value is an `i64` there:
what is inserted is below `2^63`. -/
structure VersionKey where
  file : FileKey
  id : UInt64
  value : UInt64
  deriving DecidableEq, Repr

/-- The columns of `bep_file_location`, all in the primary key. -/
structure LocationKey where
  file : FileKey
  storageBackend : String
  location : String
  deriving DecidableEq, Repr

/-- A foreign key to `bep_file_info`. -/
def Refers {κ ν : Type} [DecidableEq κ] (file : κ → FileKey) (rows : AssocMap κ ν)
    (files : AssocMap FileKey FileRow) : Prop :=
  ∀ k v, rows.get k = some v → files.contains (file k) = true

namespace Refers

variable {κ ν : Type} [DecidableEq κ] {file : κ → FileKey} {rows : AssocMap κ ν}
  {files : AssocMap FileKey FileRow}

/-- More rows to refer to break no reference. -/
theorem insert_file (h : Refers file rows files) (key : FileKey) (row : FileRow) :
    Refers file rows (files.insert key row) := by
  intro k v hk
  have hfile := h k v hk
  rw [AssocMap.contains, AssocMap.get_insert]
  split_ifs
  · rfl
  · exact hfile

/-- A new row refers to one that is there. -/
theorem entryOrInsert (h : Refers file rows files) {k : κ} {v : ν}
    (hfile : files.contains (file k) = true) : Refers file (rows.entryOrInsert k v).1 files := by
  intro k' v' hk'
  rw [AssocMap.get_entryOrInsert] at hk'
  split_ifs at hk' with hkey
  · rw [hkey]
    exact hfile
  · exact h k' v' hk'

/-- Fewer rows break no reference. -/
theorem retain (h : Refers file rows files) (p : κ → ν → Bool) :
    Refers file (rows.retain p) files := by
  intro k v hk
  rw [AssocMap.get_retain, Option.filter_eq_some_iff] at hk
  exact h k v hk.1

/-- A reference does not depend on the values. -/
theorem mapValues (h : Refers file rows files) (f : κ → ν → ν) :
    Refers file (rows.mapValues f) files := by
  intro k v hk
  rw [AssocMap.get_mapValues, Option.map_eq_some_iff] at hk
  obtain ⟨v', hv', -⟩ := hk
  exact h k v' hv'

/-- `ON DELETE CASCADE`. -/
theorem cascade (h : Refers file rows files) (p : FileKey → Bool) :
    Refers file (rows.retain fun k _ => !p (file k)) (files.retain fun k _ => !p k) := by
  intro k v hk
  rw [AssocMap.get_retain, Option.filter_eq_some_iff] at hk
  obtain ⟨row, hrow⟩ := AssocMap.contains_iff.mp (h k v hk.1)
  refine AssocMap.contains_iff.mpr ⟨row, ?_⟩
  rw [AssocMap.get_retain, Option.filter_eq_some_iff]
  exact ⟨hrow, hk.2⟩

/-- `ON UPDATE CASCADE`. -/
theorem rename {rows' : AssocMap κ ν} {move : κ → κ} (h : Refers file rows files)
    {key dest : FileKey} {row : FileRow} (hrows : rows.rekey move = some rows')
    (hmove : ∀ k, file (move k) = if file k = key then dest else file k) :
    Refers file rows' ((files.erase key).insert dest row) := by
  intro k v hk
  obtain ⟨k₀, hk₀, rfl⟩ := (AssocMap.get_rekey hrows).mp hk
  obtain ⟨row₀, hrow₀⟩ := AssocMap.contains_iff.mp (h k₀ v hk₀)
  rw [AssocMap.contains, AssocMap.get_insert, hmove]
  split_ifs with hkey hdest
  · rfl
  · exact absurd rfl hdest
  · rfl
  · rw [AssocMap.get_erase_of_ne _ hkey, hrow₀]
    rfl

end Refers

/-- The tables. -/
structure Database where
  bepIndex : List (String × DeviceId)
  bepFileInfo : AssocMap FileKey FileRow
  bepFileLocation : AssocMap LocationKey Unit
  bepLocalCache : AssocMap FileKey Int64
  bepBlockInfo : AssocMap BlockKey BlockRow
  bepFileVersion : AssocMap VersionKey Unit
  fileInIndex : ∀ k r, bepFileInfo.get k = some r → (k.folder, k.device) ∈ bepIndex
  sequenceUnique : ∀ k r k' r', bepFileInfo.get k = some r → bepFileInfo.get k' = some r' →
    r.sequence = r'.sequence → k = k'
  locationOfFile : Refers LocationKey.file bepFileLocation bepFileInfo
  cacheOfFile : Refers id bepLocalCache bepFileInfo
  blockOfFile : Refers BlockKey.file bepBlockInfo bepFileInfo
  versionOfFile : Refers VersionKey.file bepFileVersion bepFileInfo

namespace Database

/-- A database with indices and no files. -/
def ofIndex (bepIndex : List (String × DeviceId)) : Database where
  bepIndex := bepIndex
  bepFileInfo := .empty
  bepFileLocation := .empty
  bepLocalCache := .empty
  bepBlockInfo := .empty
  bepFileVersion := .empty
  fileInIndex := by simp
  sequenceUnique := by simp
  locationOfFile := by simp [Refers]
  cacheOfFile := by simp [Refers]
  blockOfFile := by simp [Refers]
  versionOfFile := by simp [Refers]

variable (db : Database)

/-- What a statement that breaks a constraint panics with. -/
def failedQuery : Fault := .expect "Failed to execute query"

/-- No file but the one at `key` has this sequence number. -/
def sequenceFree (key : FileKey) (sequence : Int64) : Bool :=
  db.bepFileInfo.entries.all fun e => e.1 = key || e.2.sequence ≠ sequence

/-- A sequence number is free for a row if no other row has it. -/
theorem sequenceFree_iff {db : Database} {key : FileKey} {sequence : Int64} :
    db.sequenceFree key sequence = true ↔
      ∀ k r, db.bepFileInfo.get k = some r → r.sequence = sequence → k = key := by
  simp only [sequenceFree, List.all_eq_true, Prod.forall, AssocMap.mem_entries_iff,
    Bool.or_eq_true, decide_eq_true_eq]
  constructor
  · intro h k r hk hseq
    exact (h k r hk).resolve_right fun hne => hne hseq
  · intro h k r hk
    by_cases hseq : r.sequence = sequence
    · exact Or.inl (h k r hk hseq)
    · exact Or.inr hseq

/-- `INSERT INTO bep_index ... ON CONFLICT(folder, device) DO UPDATE`. -/
def insertIndex (folder : String) (device : DeviceId) : Database :=
  { db with
    bepIndex := db.bepIndex.insert (folder, device)
    fileInIndex := fun k r hk => List.mem_insert_of_mem (db.fileInIndex k r hk) }

/-- `INSERT INTO bep_file_info ... ON CONFLICT(folder, device, name) DO UPDATE`. -/
def insertFileInfo (key : FileKey) (row : FileRow) : Rust Database :=
  if h : (key.folder, key.device) ∈ db.bepIndex ∧ (0 ≤ row.type ∧ row.type ≤ 4) ∧
      db.sequenceFree key row.sequence = true then
    .ok { db with
      bepFileInfo := db.bepFileInfo.insert key row
      fileInIndex := by
        intro k r hk
        rw [AssocMap.get_insert] at hk
        split_ifs at hk with hkey
        · rw [hkey]
          exact h.1
        · exact db.fileInIndex k r hk
      sequenceUnique := by
        have hfree := sequenceFree_iff.mp h.2.2
        intro k r k' r' hk hk' hseq
        rw [AssocMap.get_insert] at hk hk'
        split_ifs at hk hk' with hkey hkey' hkey'
        · rw [hkey, hkey']
        · obtain rfl := Option.some.inj hk
          rw [hkey, hfree k' r' hk' hseq.symm]
        · obtain rfl := Option.some.inj hk'
          rw [hkey', hfree k r hk hseq]
        · exact db.sequenceUnique k r k' r' hk hk' hseq
      locationOfFile := db.locationOfFile.insert_file key row
      cacheOfFile := db.cacheOfFile.insert_file key row
      blockOfFile := db.blockOfFile.insert_file key row
      versionOfFile := db.versionOfFile.insert_file key row }
  else .error failedQuery

/-- `DELETE FROM bep_file_info`, with the rows that refer to the deleted ones. -/
def deleteFileInfo (p : FileKey → Bool) : Database where
  bepIndex := db.bepIndex
  bepFileInfo := db.bepFileInfo.retain fun k _ => !p k
  bepFileLocation := db.bepFileLocation.retain fun k _ => !p k.file
  bepLocalCache := db.bepLocalCache.retain fun k _ => !p k
  bepBlockInfo := db.bepBlockInfo.retain fun k _ => !p k.file
  bepFileVersion := db.bepFileVersion.retain fun k _ => !p k.file
  fileInIndex := by
    intro k r hk
    rw [AssocMap.get_retain, Option.filter_eq_some_iff] at hk
    exact db.fileInIndex k r hk.1
  sequenceUnique := by
    intro k r k' r' hk hk'
    rw [AssocMap.get_retain, Option.filter_eq_some_iff] at hk hk'
    exact db.sequenceUnique k r k' r' hk.1 hk'.1
  locationOfFile := db.locationOfFile.cascade p
  cacheOfFile := db.cacheOfFile.cascade p
  blockOfFile := db.blockOfFile.cascade p
  versionOfFile := db.versionOfFile.cascade p

/-- A key with the file `key` renamed. -/
def moveFile (key dest k : FileKey) : FileKey := if k = key then dest else k

/-- `UPDATE OR ROLLBACK bep_file_info SET name = ?, sequence = ?` for one file, with the
rows that refer to it. -/
def renameFileInfo (key : FileKey) (name : String) (sequence : Int64) : Rust Database :=
  let dest : FileKey := { key with name := name }
  match hrow : db.bepFileInfo.get key with
  | none => .ok db
  | some row =>
      if h : (dest = key ∨ db.bepFileInfo.get dest = none) ∧
          db.sequenceFree key sequence = true then
        match hlocations : db.bepFileLocation.rekey
            (fun k => { k with file := moveFile key dest k.file }),
          hcache : db.bepLocalCache.rekey (moveFile key dest),
          hblocks : db.bepBlockInfo.rekey
            (fun k => { k with file := moveFile key dest k.file }),
          hversions : db.bepFileVersion.rekey
            (fun k => { k with file := moveFile key dest k.file }) with
        | some locations, some cache, some blocks, some versions =>
            .ok {
              bepIndex := db.bepIndex
              bepFileInfo := (db.bepFileInfo.erase key).insert dest { row with sequence := sequence }
              bepFileLocation := locations
              bepLocalCache := cache
              bepBlockInfo := blocks
              bepFileVersion := versions
              fileInIndex := by
                intro k r hk
                rw [AssocMap.get_insert] at hk
                split_ifs at hk with hkey
                · rw [hkey]
                  exact db.fileInIndex key row hrow
                · rw [AssocMap.get_erase] at hk
                  split_ifs at hk
                  exact db.fileInIndex k r hk
              sequenceUnique := by
                have hfree := sequenceFree_iff.mp h.2
                intro k r k' r' hk hk' hseq
                rw [AssocMap.get_insert, AssocMap.get_erase] at hk hk'
                split_ifs at hk hk' with h₁ h₂ h₃ h₄ h₅ h₆
                · rw [h₁, h₂]
                · obtain rfl := Option.some.inj hk
                  exact absurd (hfree k' r' hk' hseq.symm) h₃
                · obtain rfl := Option.some.inj hk'
                  exact absurd (hfree k r hk hseq) h₄
                · exact db.sequenceUnique k r k' r' hk hk' hseq
              locationOfFile := db.locationOfFile.rename hlocations fun _ => rfl
              cacheOfFile := db.cacheOfFile.rename hcache fun _ => rfl
              blockOfFile := db.blockOfFile.rename hblocks fun _ => rfl
              versionOfFile := db.versionOfFile.rename hversions fun _ => rfl }
        | _, _, _, _ => .error failedQuery
      else .error failedQuery

/-- `INSERT INTO bep_file_version ... ON CONFLICT DO NOTHING`. -/
def insertVersion (key : VersionKey) : Rust Database :=
  if h : db.bepFileInfo.contains key.file = true then
    .ok { db with
      bepFileVersion := (db.bepFileVersion.entryOrInsert key ()).1
      versionOfFile := db.versionOfFile.entryOrInsert h }
  else .error failedQuery

/-- `INSERT INTO bep_block_info ... ON CONFLICT DO NOTHING`. -/
def insertBlock (key : BlockKey) (row : BlockRow) : Rust Database :=
  if h : db.bepFileInfo.contains key.file = true then
    .ok { db with
      bepBlockInfo := (db.bepBlockInfo.entryOrInsert key row).1
      blockOfFile := db.blockOfFile.entryOrInsert h }
  else .error failedQuery

/-- `INSERT INTO bep_block_info` without a conflict clause. -/
def insertNewBlock (key : BlockKey) (row : BlockRow) : Rust Database :=
  if db.bepBlockInfo.contains key then .error failedQuery else db.insertBlock key row

/-- `UPDATE OR ROLLBACK bep_block_info SET storage_status = ?`. -/
def setStorageStatus (p : BlockKey → Bool) (status : StorageStatus) : Database :=
  { db with
    bepBlockInfo := db.bepBlockInfo.mapValues fun k r =>
      if p k then { r with storageStatus := status } else r
    blockOfFile := db.blockOfFile.mapValues _ }

/-- `INSERT INTO bep_file_location`, a conflict leaves the row as it is. -/
def insertLocation (key : LocationKey) : Rust Database :=
  if h : db.bepFileInfo.contains key.file = true then
    .ok { db with
      bepFileLocation := (db.bepFileLocation.entryOrInsert key ()).1
      locationOfFile := db.locationOfFile.entryOrInsert h }
  else .error failedQuery

/-- `DELETE FROM bep_file_location`. -/
def deleteLocations (p : LocationKey → Bool) : Database :=
  { db with
    bepFileLocation := db.bepFileLocation.retain fun k _ => !p k
    locationOfFile := db.locationOfFile.retain _ }

/-- `INSERT INTO bep_local_cache`, a conflict leaves the time as it is. -/
def insertLocalCache (key : FileKey) (timestampAdded : Int64) : Rust Database :=
  if h : db.bepFileInfo.contains key = true then
    .ok { db with
      bepLocalCache := (db.bepLocalCache.entryOrInsert key timestampAdded).1
      cacheOfFile := db.cacheOfFile.entryOrInsert h }
  else .error failedQuery

/-- `DELETE FROM bep_local_cache`. -/
def deleteLocalCache (p : FileKey → Bool) : Database :=
  { db with
    bepLocalCache := db.bepLocalCache.retain fun k _ => !p k
    cacheOfFile := db.cacheOfFile.retain _ }

/-- The block of a row. -/
def blockInfo (key : BlockKey) (row : BlockRow) : BlockInfo where
  offset := key.offset
  size := key.size
  hash := key.hash
  weakHash := row.weakHash

/-- The blocks of a file, with their storage status. -/
def blockRowsOf (key : FileKey) : List (BlockKey × BlockRow) :=
  db.bepBlockInfo.entries.filter fun e => e.1.file = key

/-- The blocks of a file. -/
def blocksOf (key : FileKey) : List BlockInfo :=
  (db.blockRowsOf key).map fun e => blockInfo e.1 e.2

/-- The order of the counters of one file in the primary key of `bep_file_version`: the eight
bytes of an id are compared from the highest on. -/
def CounterLE (a b : Counter) : Prop := a.id < b.id ∨ a.id = b.id ∧ a.value ≤ b.value

instance : DecidableRel CounterLE := fun _ _ => inferInstanceAs (Decidable (_ ∨ _))

/-- The counters of a file, in the order of the primary key. -/
def countersOf (key : FileKey) : List Counter :=
  ((db.bepFileVersion.entries.filter fun e => e.1.file = key).map fun e =>
    { id := e.1.id, value := e.1.value }).insertionSort CounterLE

end Database

/-- The columns of `bep_file_info` that a file gives. -/
def FileRow.ofFileInfo (file : FileInfo) : FileRow where
  type := file.type
  size := file.size
  permissions := file.permissions
  modifiedS := file.modifiedS
  modifiedNs := file.modifiedNs
  modifiedBy := file.modifiedBy
  deleted := file.deleted
  invalid := file.invalid
  noPermissions := file.noPermissions
  sequence := file.sequence
  blockSize := file.blockSize
  symlinkTarget := file.symlinkTarget

/-- The file of a row, with its counters and blocks. -/
def FileRow.toFileInfo (row : FileRow) (name : String) (counters : List Counter)
    (blocks : List BlockInfo) : FileInfo where
  name := name
  type := row.type
  size := row.size
  permissions := row.permissions
  modifiedS := row.modifiedS
  modifiedNs := row.modifiedNs
  modifiedBy := row.modifiedBy
  deleted := row.deleted
  invalid := row.invalid
  noPermissions := row.noPermissions
  version := some { counters := counters }
  sequence := row.sequence
  blockSize := row.blockSize
  blocks := blocks
  symlinkTarget := row.symlinkTarget

end Grizol.Model

import Mathlib.Data.List.Sort
import Grizol.Model.Database
import Grizol.Model.Indices
import Grizol.Model.OutgoingRequests

/-!
# The state of the server

`core/bep_state.rs`: the database, the sequence counter, the queue of requests and the
indices in memory. A transaction is a database that is written back when it is
committed, so a panic before that rolls it back; what was changed outside of it (the
counter) stays. A query outside the transaction sees what was committed.
-/

set_option autoImplicit false

namespace Grizol.Model

open Grizol.Library
open Grizol.Model.Syncthing

/-- `BlockInfoExt`. -/
structure BlockInfoExt where
  deviceId : DeviceId
  folder : String
  name : String
  hash : Bytes
  size : Int32
  offset : Int64
  deriving DecidableEq, Repr

/-- Whether all blocks of a file are stored. -/
inductive UploadStatus where
  | blocksMissing
  | allBlocks
  deriving DecidableEq, Repr

/-- Where a file is kept: each backend is an rclone remote. -/
inductive StorageBackend where
  | remote (name : String)
  deriving DecidableEq, Repr

/-- Where the content of a file is on one backend. -/
structure FileLocation where
  location : String
  storageBackend : StorageBackend
  deriving DecidableEq, Repr

/-- The state behind the lock of the server: the database, the counters of sequence numbers and
request ids, the queue of requests and the cached indices. -/
structure BepState where
  db : Database
  sequence : Option Int64
  requestId : Int32
  outgoingRequests : OutgoingRequests
  indices : GrizolIndices

namespace BepState

/-- `BepState::new` on the database of the last run. -/
def new (db : Database) : BepState where
  db := db
  sequence := none
  requestId := 0
  outgoingRequests := .default
  indices := .default

/-- An operation of the queue on the state that holds it. -/
def onQueue {α : Type} (x : RustM OutgoingRequests α) : RustM BepState α := fun s =>
  match x.run s.outgoingRequests with
  | .ok a q => .ok a { s with outgoingRequests := q }
  | .error e q => .error e { s with outgoingRequests := q }

/-! ## Sequence numbers -/

/-- `SELECT MAX(sequence) FROM bep_file_info`. -/
def maxSequence (db : Database) : Option Int64 :=
  (db.bepFileInfo.values.map FileRow.sequence).foldl
    (fun m x => some (match m with | some y => if y < x then x else y | none => x)) none

/-- The next sequence number, one more than the last; the first call after a start takes the
greatest of the database. -/
def nextSequenceId : RustM BepState Int64 := do
  if (← getThe BepState).sequence.isNone then
    modify fun s => { s with sequence := maxSequence s.db }
  match (← getThe BepState).sequence with
  | some n => do
      if n = Int64.maxValue then throw .overflow
      modify fun s => { s with sequence := some (n + 1) }
      pure (n + 1)
  | none => do
      modify fun s => { s with sequence := some 1 }
      pure 1

/-- Every file of a list gets the next sequence number. -/
def assignSequences : List FileInfo → RustM BepState (List FileInfo)
  | [] => pure []
  | file :: files => do
      let sequence ← nextSequenceId
      let files ← assignSequences files
      pure ({ file with sequence := sequence } :: files)

/-! ## Writing files -/

/-- The counters of a file; a value must be an `i64`. -/
def insertVersions (key : FileKey) : List Counter → Database → Rust Database
  | [], tx => .ok tx
  | counter :: counters, tx => do
      let _ ← Rust.tryInto 63 counter.value.toNat
      let tx ← tx.insertVersion ⟨key, counter.id, counter.value⟩
      insertVersions key counters tx

/-- The row of a block of a file. -/
def blockKey (key : FileKey) (block : BlockInfo) : BlockKey :=
  ⟨key, block.offset, block.size, block.hash⟩

/-- The blocks of a file, one statement each; a block that is there stays. -/
def insertBlocks (key : FileKey) : List BlockInfo → Database → Rust Database
  | [], tx => .ok tx
  | block :: blocks, tx => do
      let tx ← tx.insertBlock (blockKey key block) ⟨block.weakHash, .notStored⟩
      insertBlocks key blocks tx

/-- The blocks of a file as one statement; a block that is there makes it fail. -/
def insertNewBlocks (key : FileKey) : List BlockInfo → Database → Rust Database
  | [], tx => .ok tx
  | block :: blocks, tx => do
      let tx ← tx.insertNewBlock (blockKey key block) ⟨block.weakHash, .notStored⟩
      insertNewBlocks key blocks tx

/-- The most variables a statement may bind, as SQLite is built by default. -/
abbrev maxVariables : ℕ := 32766

/-- The statements of `replace_index` and `insert_file_info` for one file. -/
def upsertFile (folder : String) (deviceId : DeviceId) (file : FileInfo) (tx : Database) :
    Rust Database := do
  let key : FileKey := ⟨folder, deviceId, file.name⟩
  let tx ← tx.insertFileInfo key (.ofFileInfo file)
  let version ← Rust.expect "There must be a version" file.version
  let tx ← insertVersions key version.counters tx
  insertBlocks key file.blocks tx

/-- The statements of `replace_file_info` for one file that is not to be moved. -/
def replaceFile (folder : String) (deviceId : DeviceId) (file : FileInfo) (tx : Database) :
    Rust Database := do
  let key : FileKey := ⟨folder, deviceId, file.name⟩
  let tx ← (tx.deleteFileInfo fun k => k = key).insertFileInfo key (.ofFileInfo file)
  let version ← Rust.expect "There must be a version" file.version
  let tx ← insertVersions key version.counters tx
  if maxVariables < 8 * file.blocks.length then .error Database.failedQuery
  else insertNewBlocks key file.blocks tx

/-- One file after the other. -/
def writeFiles (write : FileInfo → Database → Rust Database) :
    List FileInfo → Database → Rust Database
  | [], tx => .ok tx
  | file :: files, tx => do
      let tx ← write file tx
      writeFiles write files tx

/-- Drops the files of a device in a folder and writes those of the index, with new sequence
numbers, and caches the index. -/
def replaceIndex (index : Index) (deviceId : DeviceId) : RustM BepState Unit := do
  let tx := (← getThe BepState).db.deleteFileInfo fun k =>
    k.folder = index.folder && k.device = deviceId
  let files ← assignSequences index.files
  let tx ← writeFiles (upsertFile index.folder deviceId) files tx
  modify fun s => { s with db := tx }
  modify fun s => { s with indices := s.indices.insert deviceId { index with files := files } }

/-- Writes files over the rows that are there, and their entries of the cached index. -/
def insertFileInfo (folder : String) (deviceId : DeviceId) (fileInfo : List FileInfo) :
    RustM BepState Unit := do
  let tx := (← getThe BepState).db
  let fileInfo ← assignSequences fileInfo
  let tx ← writeFiles (upsertFile folder deviceId) fileInfo tx
  modify fun s => { s with db := tx }
  modify fun s => { s with indices := s.indices.insertFileInfo folder deviceId fileInfo }

/-- `replace_file_info`; moving files is not implemented there. -/
def replaceFileInfo (folder : String) (deviceId : DeviceId) (fileInfo : List FileInfo)
    (moveFile : Bool) : RustM BepState Unit := do
  let tx := (← getThe BepState).db
  let fileInfo ← assignSequences fileInfo
  let fileInfo := fileInfo.filter fun f => !f.deleted
  Rust.assert (moveFile = false ∨ fileInfo = [])
  let tx ← writeFiles (replaceFile folder deviceId) fileInfo tx
  modify fun s => { s with db := tx }
  modify fun s => { s with indices := s.indices.insertFileInfo folder deviceId fileInfo }

/-- Drops the rows of each file and writes it anew; the blocks are all unstored again. -/
def rmReplaceFileInfo (folder : String) (deviceId : DeviceId) (fileInfo : List FileInfo) :
    RustM BepState Unit :=
  replaceFileInfo folder deviceId fileInfo false

/-- Drops the row of a file, and with it what belongs to it, and its entry of the cached index. -/
def rmFileInfo (folder : String) (deviceId : DeviceId) (fileName : String) :
    RustM BepState Unit := do
  modify fun s => { s with db := s.db.deleteFileInfo fun k => k = ⟨folder, deviceId, fileName⟩ }
  modify fun s => { s with indices := s.indices.removeFileInfo folder deviceId fileName }

/-- Rows of `bep_file_location`, one statement each. -/
def insertLocations (key : FileKey) : List (String × String) → Database → Rust Database
  | [], tx => .ok tx
  | (storageBackend, location) :: locations, tx => do
      let tx ← tx.insertLocation ⟨key, storageBackend, location⟩
      insertLocations key locations tx

/-- `mv_file_info`; the indices in memory are not touched. -/
def mvFileInfo (folder : String) (deviceId : DeviceId) (origFileInfo : FileInfo)
    (destFileName : String) (destFileLocations : List FileLocation) : RustM BepState Unit := do
  let nextSequenceId ← nextSequenceId
  let tx := (← getThe BepState).db
  let dest : FileKey := ⟨folder, deviceId, destFileName⟩
  let tx ← tx.renameFileInfo ⟨folder, deviceId, origFileInfo.name⟩ destFileName nextSequenceId
  let tx := tx.deleteLocations fun k => k.file = dest
  let tx := tx.deleteLocalCache fun k => k = dest
  let tx ← insertLocations dest
    (destFileLocations.map fun l => match l.storageBackend with
      | .remote storageBackend => (storageBackend, l.location)) tx
  modify fun s => { s with db := tx }

/-- Records the locations of a file. -/
def updateFileLocations (folder : String) (deviceId : DeviceId) (fileName : String)
    (locations : List (String × String)) : RustM BepState Unit := do
  let tx ← insertLocations ⟨folder, deviceId, fileName⟩ locations (← getThe BepState).db
  modify fun s => { s with db := tx }

/-- Drops the locations of a file on some backends. -/
def removeFileLocations (folder : String) (deviceId : DeviceId) (fileName : String)
    (storageBackends : List String) : RustM BepState Unit :=
  modify fun s => { s with
    db := s.db.deleteLocations fun k =>
      k.file = ⟨folder, deviceId, fileName⟩ && storageBackends.contains k.storageBackend }

/-! ## Reading files -/

/-- A file as the database has it. -/
def fileInfo (s : BepState) (folder : String) (deviceId : DeviceId) (fileName : String) :
    Option FileInfo :=
  let key : FileKey := ⟨folder, deviceId, fileName⟩
  (s.db.bepFileInfo.get key).map fun row =>
    row.toFileInfo fileName (s.db.countersOf key) (s.db.blocksOf key)

/-- The files of a folder and device. -/
def fileRows (db : Database) (folder : String) (deviceId : DeviceId) : List (FileKey × FileRow) :=
  db.bepFileInfo.entries.filter fun e => e.1.folder = folder && e.1.device = deviceId

/-- `bep_file_info f LEFT JOIN bep_block_info bi`. -/
def fileBlocks (db : Database) (folder : String) (deviceId : DeviceId) :
    List (FileKey × FileRow × Option BlockInfo) :=
  (fileRows db folder deviceId).flatMap fun e =>
    match db.blocksOf e.1 with
    | [] => [(e.1, e.2, none)]
    | blocks => blocks.map fun bi => (e.1, e.2, some bi)

/-- `bep_file_info f JOIN bep_file_version v`. -/
def fileVersions (db : Database) (folder : String) (deviceId : DeviceId) :
    List (String × Counter) :=
  (fileRows db folder deviceId).flatMap fun e =>
    (db.countersOf e.1).map fun counter => (e.1.name, counter)

/-- The loop of `index` over the files with their blocks. -/
def addFileBlock (existingFiles : AssocMap String FileInfo) :
    FileKey × FileRow × Option BlockInfo → AssocMap String FileInfo
  | (key, row, block) =>
      if existingFiles.contains key.name then
        match block with
        | some bi => existingFiles.modify key.name fun f => { f with blocks := f.blocks ++ [bi] }
        | none => existingFiles
      else existingFiles.insert key.name (row.toFileInfo key.name [] block.toList)

/-- The loop of `index` over the versions. -/
def addFileVersion (existingFiles : AssocMap String FileInfo) :
    String × Counter → AssocMap String FileInfo
  | (name, counter) =>
      existingFiles.modify name fun f =>
        { f with version := f.version.map fun v => { counters := v.counters ++ [counter] } }

/-- The index the database holds for a folder and device. -/
def loadIndex (db : Database) (folder : String) (deviceId : DeviceId) : Index :=
  let existingFiles := (fileBlocks db folder deviceId).foldl addFileBlock .empty
  let existingFiles := (fileVersions db folder deviceId).foldl addFileVersion existingFiles
  { folder := folder, files := existingFiles.values }

/-- The index of a device for a folder; one that is not cached is read from the database, and stays
cached. -/
def index (folder : String) (deviceId : DeviceId) : RustM BepState (Option Index) := do
  match (← getThe BepState).indices.index ⟨folder, deviceId⟩ with
  | some i => pure (some i)
  | none => do
      let index := loadIndex (← getThe BepState).db folder deviceId
      modify fun s => { s with indices := s.indices.insert deviceId index }
      pure (some index)

/-- The blocks of a device with this storage status, in all folders. -/
def blocksInfo (s : BepState) (deviceId : DeviceId) (storageStatus : StorageStatus) :
    List BlockInfoExt :=
  (s.db.bepBlockInfo.entries.filter fun e =>
      e.1.file.device = deviceId && e.2.storageStatus = storageStatus).map fun e =>
    { deviceId := deviceId, folder := e.1.file.folder, name := e.1.file.name, hash := e.1.hash,
      size := e.1.size, offset := e.1.offset }

/-! ## The storage status -/

/-- The result of an operation on `i64`. -/
def i64 (x : ℤ) : Rust ℤ :=
  if -(2 ^ 63) ≤ x ∧ x < 2 ^ 63 then .ok x else .error .overflow

/-- The number of blocks a file of this size has: an empty one has one, too. -/
def expectedBlocks (byteSize : Int64) (blockSize : Int32) : Rust ℤ := do
  let sum ← i64 (byteSize.toInt + blockSize.toInt)
  let sum ← i64 (sum - 1)
  if blockSize = 0 then .error .divideByZero
  else do
    let blocks ← i64 (sum.tdiv blockSize.toInt)
    pure (max blocks 1)

/-- The blocks of a file that are stored. -/
def storedBlocks (db : Database) (key : FileKey) : ℕ :=
  (db.blockRowsOf key).countP fun e => e.2.storageStatus = .storedLocally

/-- Marks the block of a request as stored and counts what the file still lacks. The blocks are
found by their hash. -/
def updateBlockStorageState (requestId : Int32) (deviceId : DeviceId) :
    RustM BepState (Except String UploadStatus) := do
  let s ← getThe BepState
  let request ← Rust.unwrap (s.outgoingRequests.get requestId)
  let key : FileKey := ⟨request.folder, deviceId, request.name⟩
  let tx := s.db.setStorageStatus (fun k => k.file = key && k.hash = request.hash) .storedLocally
  match tx.bepFileInfo.get key, storedBlocks tx key with
  | some row, storedBlocks@(_ + 1) => do
      let expectedBlocks ← expectedBlocks row.size row.blockSize
      set { s with db := tx }
      match compare (storedBlocks : ℤ) expectedBlocks with
      | .eq => pure (.ok .allBlocks)
      | .lt => pure (.ok .blocksMissing)
      | .gt => pure (.error
          ("We ended up storing too many blocks for file: " ++ request.name ++
            ", expected blocks " ++ toString expectedBlocks ++ ", actual blocks " ++
            toString storedBlocks))
  | _, _ => throw Database.failedQuery

/-! ## Requests -/

/-- `fetch_add_request_id`: the value before. -/
def fetchAddRequestId (val : Int32) : RustM BepState Int32 := do
  let oldValue := (← getThe BepState).requestId
  if oldValue.toInt + val.toInt < -(2 ^ 31) ∨ 2 ^ 31 ≤ oldValue.toInt + val.toInt then
    throw .overflow
  modify fun s => { s with requestId := oldValue + val }
  pure oldValue

/-- The requests of a list the queue takes; `clock n` is what the `n`-th reads. -/
def insertEach (clock : ℕ → ℕ) : ℕ → List Request → RustM BepState (List Request)
  | _, [] => pure []
  | n, request :: requests => do
      let inserted ← onQueue (OutgoingRequests.insert request.id request (clock n))
      let rest ← insertEach clock (n + 1) requests
      pure (inserted.toList ++ rest)

/-- Drops what has waited too long, then puts the requests on the queue, each with its own time. -/
def insertRequests (requests : List Request) (clock : ℕ → ℕ) : RustM BepState (List Request) := do
  onQueue (OutgoingRequests.removeOldRequests (clock 0))
  insertEach clock 1 requests

/-- Takes the next requests to send off the queue, as many as the limits allow. -/
def updatePendingRequests (maxPending maxStorageArea : ℕ) : RustM BepState (List Request) :=
  onQueue (OutgoingRequests.updatePendingRequests maxPending maxStorageArea)

/-- The queued or pending request of this id. -/
def getRequest (s : BepState) (requestId : Int32) : Option Request :=
  s.outgoingRequests.get requestId

/-- Forgets a request, queued or pending. -/
def removeRequest (requestId : Int32) : RustM BepState (Option Request) :=
  onQueue (OutgoingRequests.remove requestId)

/-! ## The read cache -/

/-- There is a row in the read cache for this file. -/
def isFileInReadCache (s : BepState) (deviceId : DeviceId) (folder file : String) : Bool :=
  s.db.bepLocalCache.contains ⟨folder, deviceId, file⟩

/-- A row of the query of `free_read_cache`. -/
structure CachedFile where
  key : FileKey
  timestampAdded : Int64
  size : Int64

/-- The regular files in the cache, the oldest first. -/
def cachedFiles (db : Database) : List CachedFile :=
  (db.bepLocalCache.entries.filterMap fun e =>
    ((db.bepFileInfo.get e.1).filter fun row => row.type = 0).map fun row =>
      { key := e.1, timestampAdded := e.2, size := row.size }).insertionSort
    fun a b => a.timestampAdded ≤ b.timestampAdded

/-- `u64::try_from(size).unwrap()`. -/
def u64 (x : Int64) : Rust ℕ := if 0 ≤ x.toInt then .ok x.toInt.toNat else .error .unwrap

/-- The sizes of a list of cached files added to `sum`. -/
def usedBytes : ℕ → List CachedFile → Rust ℕ
  | sum, [] => pure sum
  | sum, file :: files => do
      let size ← u64 file.size
      let sum ← Rust.add 64 sum size
      usedBytes sum files

/-- The files that are removed until enough bytes are available. -/
def filesToRemove (neededBytes : ℕ) : ℕ → List CachedFile → Rust (List CachedFile)
  | _, [] => pure []
  | availableBytes, file :: files =>
      if neededBytes ≤ availableBytes then pure []
      else do
        let size ← u64 file.size
        let availableBytes ← Rust.add 64 availableBytes size
        let rest ← filesToRemove neededBytes availableBytes files
        pure (file :: rest)

/-- Makes room in the read cache: the rows to remove are found oldest first, and the files they
stand for are answered. -/
def freeReadCache (cacheSize neededBytes : ℕ) :
    RustM BepState (Except String (List (String × String))) := do
  let files := cachedFiles (← getThe BepState).db
  let usedBytes ← usedBytes 0 files
  let availableBytes ← Rust.sub cacheSize usedBytes
  let removedFiles ← filesToRemove neededBytes availableBytes files
  modify fun s => { s with
    db := s.db.deleteLocalCache fun k => removedFiles.any fun file => file.key = k }
  pure (.ok (removedFiles.map fun file => (file.key.folder, file.key.name)))

/-- `update_read_cache`; `now` is what the clock says. -/
def updateReadCache (deviceId : DeviceId) (folder file : String) (now : Int64) :
    RustM BepState Unit := do
  let tx ← (← getThe BepState).db.insertLocalCache ⟨folder, deviceId, file⟩ now
  modify fun s => { s with db := tx }

end BepState

end Grizol.Model

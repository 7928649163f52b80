import Grizol.Model.FileWriter

/-!
# The storage manager

`storage.rs`: blocks go to the local disk through one `FileWriter` for each file, kept
in a map for the life of the process; complete files are copied to the remote
backends with `rclone`. The local disk is part of the state here. The calls that
leave the program (file operations, commands) have the outcomes they are given.
-/

set_option autoImplicit false

namespace Grizol.Model

open Grizol.Library
open Grizol.Model.Syncthing

/-- Whether a complete file stays on this host as well. -/
inductive StorageStrategy where
  | remote
  | localRemote
  deriving DecidableEq, Repr

/-- `GrizolConfig`, the fields the storage depends on. -/
structure GrizolConfig where
  localDeviceId : DeviceId
  localBaseDir : String
  storageStrategy : StorageStrategy
  rcloneConfig : Option String
  remoteBaseDir : String
  deriving DecidableEq, Repr

/-- The file writers by their path, and the disk they write to. -/
structure StorageManager where
  config : GrizolConfig
  storageBackends : List String
  fileWriters : AssocMap String FileWriter
  disk : FileStore
  deriving DecidableEq

/-- How a child process ends: it is not started, waiting for it fails, or it exits with a
status. -/
inductive CommandOutcome where
  | notStarted
  | waitFails
  | exits (success : Bool)
  deriving DecidableEq, Repr

/-- The file operations of one call that stores or concludes. -/
structure StorageOutcomes where
  createDir : Outcome
  file : ℕ → Outcome

namespace StorageManager

/-- `StorageManager::new`; the backends are those `rclone config show` lists. -/
def new (config : GrizolConfig) (storageBackends : List String) (disk : FileStore) :
    StorageManager where
  config := config
  storageBackends := storageBackends
  fileWriters := AssocMap.empty
  disk := disk

/-- `format!("{}/{}", folder, name)`, the key of the map of writers. -/
def fileRelPath (request : Request) : String := request.folder ++ "/" ++ request.name

/-- Where a file is under the local directory. -/
def absPath (m : StorageManager) (fileRelPath : String) : String :=
  m.config.localBaseDir ++ "/" ++ fileRelPath

/-- Whether `Path::parent` has an answer: the path has a component besides its root. -/
def hasParent (path : String) : Bool :=
  let parts := path.toList.splitOn '/'
  parts.any (fun c => c ≠ [] && c ≠ ['.']) || parts.head? = some ['.']

/-- `i64` to `usize`. -/
def toUsize (x : Int64) : Option ℕ := if 0 ≤ x.toInt then some x.toInt.toNat else none

variable (hash : String → ℕ → ℕ → UInt64)

/-- `file_writers.entry(key).or_insert(FileWriter::new(path, file_size, chunk_size))`: the
new writer is built whether or not it is used. -/
def entryWriter (key path : String) (fileSize chunkSize : ℕ) :
    RustM StorageManager FileWriter := do
  let fresh ← FileWriter.new hash path fileSize chunkSize
  let m ← getThe StorageManager
  let (fileWriters, w) := m.fileWriters.entryOrInsert key fresh
  set { m with fileWriters := fileWriters }
  pure w

/-- Writes a block through the writer of its file, which is made with the sizes of the first call.
-/
def storeBlockConcurrently (data : Bytes) (request : Request) (fileSize chunkSize : ℕ)
    (outcomes : StorageOutcomes) : RustM StorageManager (Except IoError Unit) := do
  let fileRelPath := fileRelPath request
  let absPath := (← getThe StorageManager).absPath fileRelPath
  let _ ← Rust.unwrap (if hasParent absPath then some () else none)
  match outcomes.createDir with
  | .fails _ => pure (.error FileWriter.osError)
  | .ok => do
      let w ← entryWriter hash fileRelPath absPath fileSize chunkSize
      let offset ← Rust.unwrap (toUsize request.offset)
      let m ← getThe StorageManager
      let (w, disk, pc) := w.writeChunk m.disk data offset outcomes.file
      set { m with fileWriters := m.fileWriters.insert fileRelPath w, disk := disk }
      match pc with
      | .returned result => pure result
      | .panicked fault => throw fault
      | _ => throw .divergence

/-- Consolidates through the writer of the file; a writer that is made here gets the relative path.
-/
def concludeBlockStorage (request : Request) (fileSize chunkSize : ℕ)
    (outcomes : StorageOutcomes) : RustM StorageManager (Except IoError Unit) := do
  let fileRelPath := fileRelPath request
  let w ← entryWriter hash fileRelPath fileRelPath fileSize chunkSize
  let m ← getThe StorageManager
  let (w, disk, pc) := w.consolidate m.disk outcomes.file
  set { m with fileWriters := m.fileWriters.insert fileRelPath w, disk := disk }
  match pc with
  | .returned result => pure result
  | _ => throw .divergence

/-- `orig` of `cp_local_to_remote` and `rm_local_file`: the file on the local disk. -/
def localPath (m : StorageManager) (folder name : String) : String :=
  m.config.localBaseDir ++ "/" ++ folder ++ "/" ++ name

/-- `dest` of `cp_local_to_remote`. -/
def copyDest (m : StorageManager) (folder name storageBackend : String) : String :=
  storageBackend ++ ":" ++ m.config.remoteBaseDir ++ "/" ++ folder ++ "/" ++ name

/-- The command that copies a file to a backend. -/
def copyCommand (m : StorageManager) (folder name storageBackend : String) : List String :=
  let configLocation := (m.config.rcloneConfig.map ("--config=" ++ ·)).getD ""
  ["rclone", configLocation, "copyto", m.localPath folder name,
    m.copyDest folder name storageBackend]

/-- The loop of `cp_local_to_remote`; the exit status of a command is not looked at. -/
def copyLoop (m : StorageManager) (run : ℕ → List String → CommandOutcome)
    (folder name : String) :
    ℕ → List String → List (String × String) → Rust (List (String × String))
  | _, [], res => pure res
  | n, storageBackend :: rest, res =>
      match run n (m.copyCommand folder name storageBackend) with
      | .notStarted => .error (.expect "command failed to start")
      | .waitFails => .error (.expect "command failed to run")
      | .exits _ =>
          copyLoop m run folder name (n + 1) rest
            (res ++ [(storageBackend, m.copyDest folder name storageBackend)])

/-- `cp_local_to_remote`; `run n` is the end of its `n`-th command. -/
def cpLocalToRemote (m : StorageManager) (run : ℕ → List String → CommandOutcome)
    (folder name : String) : Rust (Except String (List (String × String))) := do
  let res ← m.copyLoop run folder name 0 m.storageBackends []
  pure (.ok res)

/-- `rm_local_file`. -/
def rmLocalFile (folder name : String) (outcome : Outcome) :
    RustM StorageManager (Except String Unit) := do
  let m ← getThe StorageManager
  match outcome, m.disk.get (m.localPath folder name) with
  | .ok, some _ => do
      set { m with disk := m.disk.erase (m.localPath folder name) }
      pure (.ok ())
  | _, _ => pure (.error "os error")

end StorageManager

end Grizol.Model

import Grizol.Interface.Backups
import Grizol.Model.Fuse
import Grizol.Model.MessageHandlers

/-!
# The read cache

A row of `bep_local_cache` says that a file is in the directory of the cache, so what is
there should be a copy of the file as it is recorded now (`NoStaleEntry`). Handlers of
messages take turns with the calls of the file system; a file that is copied to the
directory holds the tables of that moment. No statement on `bep_file_info` names the
cache, its rows go with the rows they refer to.
-/

set_option autoImplicit false

namespace Grizol.Interface

open Grizol.Library
open Grizol.Model Grizol.Model.Syncthing

/-- What is recorded of a file: its version, its size and its blocks. -/
def recorded (db : Database) (key : FileKey) :
    Option (Option VersionVector × Int64 × List BlockInfo) :=
  (stored db key).map fun file => (file.version, file.size, file.blocks)

/-- The tasks of a server, and the directory of the read cache. -/
structure CacheNode (ι : Type) where
  server : Processes ι ServerTask BepProcessor
  copied : AssocMap String Database

/-- What can happen on a node: a turn of the server, a read, or a rename of one of the two kinds. -/
inductive CacheEvent (ι : Type) where
  | turn (t : Turn ι TurnOutcome)
  | read (file : GrizolFileInfo) (outcomes : ReadOutcomes)
  | renameMem (file : GrizolFileInfo) (destFileName : String) (outcomes : RenameOutcomes)
  | renameDb (origFolder origName destFolder destName : String) (outcomes : RenameOutcomes)

namespace CacheNode

variable {ι : Type}

/-- The state behind the lock of the server. -/
def state (n : CacheNode ι) : BepState := n.server.shared.state

/-- The configuration of the node. -/
def config (n : CacheNode ι) : GrizolConfig := n.server.shared.config

variable (readCache : ReadCacheConfig) (storageBackends : List String)

/-- What a call of the file system works on. -/
def fileSystem (n : CacheNode ι) : GrizolFS Database where
  config := n.config
  readCache := readCache
  storageBackends := storageBackends
  state := n.state
  copied := n.copied

/-- A call of the file system. -/
def call {α : Type} (n : CacheNode ι) (x : RustM (GrizolFS Database) α) : CacheNode ι :=
  let fs := RustM.endState (x.run (n.fileSystem readCache storageBackends))
  { server := { n.server with shared := { n.server.shared with state := fs.state } }
    copied := fs.copied }

section Step

variable [DecidableEq ι] (hash : String → ℕ → ℕ → UInt64) (sha256 : Bytes → Bytes)
  (debugRequest : Request → String) (debugFiles : List (String × String) → String)

/-- One event. A call of the file system keeps the lock from its first section to its last, and
leaves the tasks of the server as they are. -/
def step (n : CacheNode ι) : CacheEvent ι → Option (CacheNode ι)
  | .turn t =>
      (Processes.step (ServerTask.act hash sha256 debugRequest) n.server t).map fun server =>
        { n with server := server }
  | .read file outcomes =>
      some (n.call readCache storageBackends
        (GrizolFS.readFromLocalCache debugFiles file outcomes n.state.db))
  | .renameMem file destFileName outcomes =>
      some (n.call readCache storageBackends (GrizolFS.renameMem file destFileName outcomes))
  | .renameDb origFolder origName destFolder destName outcomes =>
      some (n.call readCache storageBackends
        (GrizolFS.renameDb origFolder origName destFolder destName outcomes))

end Step

/-- **Nothing in the cache is stale**: a file with a row was copied, the last time, when what
is recorded of it now was recorded. -/
def NoStaleEntry (n : CacheNode ι) : Prop :=
  ∀ key timestampAdded, n.state.db.bepLocalCache.get key = some timestampAdded →
    ∃ db, n.copied.get (GrizolFS.cachePath readCache key.folder key.name) = some db ∧
      recorded db key = recorded n.state.db key

/-- What is recorded of a file changes in a step that leaves it no row. -/
def DropsReplaced (n : CacheNode ι) (_ : CacheEvent ι) (n' : CacheNode ι) : Prop :=
  ∀ key, recorded n'.state.db key ≠ recorded n.state.db key →
    n'.state.db.bepLocalCache.get key = none

end CacheNode

/-! ## When no entry goes stale -/

/-- Written over the old file by an upsert, a file changes nothing of what is recorded. -/
structure AddsNothing (old file : FileInfo) : Prop where
  size : file.size = old.size
  counters : ∀ counter ∈ countersOf file, counter ∈ countersOf old
  blocks : ∀ block ∈ file.blocks, old.blocks.any (sameBlock block) = true

/-- The files of a list that are put over cached ones add nothing to them. -/
def SparesCached (db : Database) (folder : String) (deviceId : DeviceId) (files : List FileInfo) :
    Prop :=
  ∀ file ∈ files, db.bepLocalCache.contains ⟨folder, deviceId, file.name⟩ = true →
    ∀ old, stored db ⟨folder, deviceId, file.name⟩ = some old → AddsNothing old file

/-- The files an `Index` brings to this device spare the cached ones, if the database takes
them. -/
def IndexSparesCached (s : BepState) (localDeviceId : DeviceId) (received : Index)
    (peer : DeviceId) : Prop :=
  peer ≠ localDeviceId → (∀ file ∈ received.files, Accepted s.db received.folder peer file) →
    ∀ diff, diffIndices received.folder received (known s received.folder localDeviceId) =
        .ok (.ok diff) →
      (∀ file ∈ diff.newlyAddedFiles, Accepted s.db received.folder localDeviceId file) →
      SparesCached s.db received.folder localDeviceId diff.newlyAddedFiles

/-- A read that gets as far as the copy of its file succeeds at it. -/
def CopySucceeds (fs : GrizolFS Database) (file : GrizolFileInfo) (outcomes : ReadOutcomes) :
    Prop :=
  fs.state.isFileInReadCache fs.config.localDeviceId file.folder file.fileInfo.name = false →
  fs.state.db.bepFileInfo.contains
      ⟨file.folder, fs.config.localDeviceId, file.fileInfo.name⟩ = true →
  ∀ neededBytes removedFiles s, BepState.u64 file.fileInfo.size = .ok neededBytes →
    (BepState.freeReadCache fs.readCache.readCacheSize neededBytes).run fs.state =
      .ok removedFiles s →
    outcomes.remove = .ok () →
    ∀ fileLocation listed, GrizolFS.preferredLocation file.fileLocations = some fileLocation →
      outcomes.rclone (GrizolFS.rcloneCommand fs.config ["ls", fileLocation.location]) =
        .ok listed → listed.stdout ≠ [] →
      ∀ output, outcomes.rclone (GrizolFS.rcloneCommand fs.config ["copyto",
          fileLocation.location,
          GrizolFS.cachePath fs.readCache file.folder file.fileInfo.name]) = .ok output →
        output.success = true

/-- What is needed of an event: an `Index`, or a rename in the database, puts nothing new over
a cached file, and no copy fails. -/
def KeepsFresh {ι : Type} (readCache : ReadCacheConfig) (storageBackends : List String)
    (n : CacheNode ι) : CacheEvent ι → Prop
  | .turn t =>
      ∀ h received, n.server.process t.process = .index h → h.pc = .writeIndices →
        h.message = .index received →
        IndexSparesCached n.state n.config.localDeviceId received h.clientDeviceId
  | .read file outcomes =>
      CopySucceeds (n.fileSystem readCache storageBackends) file outcomes
  | .renameMem _ _ _ => True
  | .renameDb origFolder origName destFolder destName outcomes =>
      ∀ file res, n.state.fileInfo origFolder n.config.localDeviceId origName = some file →
        GrizolFS.backendLoop n.config.remoteBaseDir destFolder destName outcomes.copy 0
          storageBackends = .ok res →
        SparesCached n.state.db destFolder n.config.localDeviceId
          [{ file with name := destName }]

end Grizol.Interface

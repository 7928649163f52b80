import Grizol.Interface.ReadCache

/-!
# The size of the read cache

The regular files with a row in `bep_local_cache` count with their recorded sizes, and
should count for no more than the cache may hold: `free_read_cache` subtracts what they
count for from that size before it makes room. What a file counts for is looked up in
`bep_file_info` each time, where other calls write.
-/

set_option autoImplicit false

namespace Grizol.Interface

open Grizol.Library
open Grizol.Model Grizol.Model.Syncthing

/-- What a file of the cache counts for. -/
def regularSize (file : FileInfo) : ℤ := if file.type = 0 then file.size.toInt else 0

/-- The sizes of the regular files in the cache together. -/
def cachedTotal (db : Database) : ℤ := ((BepState.cachedFiles db).map fun f => f.size.toInt).sum

namespace CacheNode

variable {ι : Type} (readCache : ReadCacheConfig)

/-- **The cache holds no more than it may.** -/
def WithinBound (n : CacheNode ι) : Prop := cachedTotal n.state.db ≤ readCache.readCacheSize

/-- Room for any file that fits the cache can be made: `free_read_cache` returns and leaves it. -/
def MakesRoom (n : CacheNode ι) : Prop :=
  ∀ neededBytes ≤ readCache.readCacheSize, ∃ removedFiles s',
    (BepState.freeReadCache readCache.readCacheSize neededBytes).run n.state =
      .ok (.ok removedFiles) s' ∧
    cachedTotal s'.db + neededBytes ≤ readCache.readCacheSize

end CacheNode

/-- A turn of a handler, or the read of a file that fits the cache. -/
def ReadOrMessage {ι : Type} (readCache : ReadCacheConfig) : CacheEvent ι → Prop
  | .turn _ => True
  | .read file _ => file.fileInfo.size.toInt ≤ readCache.readCacheSize
  | .renameMem _ _ _ => False
  | .renameDb _ _ _ _ _ => False

/-- No cached file comes to count for more, or for less than nothing, by what an `Index` brings
to this device, if the database takes it. -/
def IndexKeepsSizes (s : BepState) (localDeviceId : DeviceId) (received : Index)
    (peer : DeviceId) : Prop :=
  peer ≠ localDeviceId → (∀ file ∈ received.files, Accepted s.db received.folder peer file) →
    ∀ diff, diffIndices received.folder received (known s received.folder localDeviceId) =
        .ok (.ok diff) →
      (∀ file ∈ diff.newlyAddedFiles, Accepted s.db received.folder localDeviceId file) →
      ∀ name file old, lastNamed diff.newlyAddedFiles name = some file →
        s.db.bepLocalCache.contains ⟨received.folder, localDeviceId, name⟩ = true →
        stored s.db ⟨received.folder, localDeviceId, name⟩ = some old →
        0 ≤ regularSize file ∧ regularSize file ≤ regularSize old

/-- What is needed of an event: an `Index` lets no cached file count for more, and a file is read
with a size that is not below the recorded one. -/
def KeepsSizes {ι : Type} (n : CacheNode ι) : CacheEvent ι → Prop
  | .turn t =>
      ∀ h received, n.server.process t.process = .index h → h.pc = .writeIndices →
        h.message = .index received →
        IndexKeepsSizes n.state n.config.localDeviceId received h.clientDeviceId
  | .read file _ =>
      n.state.isFileInReadCache n.config.localDeviceId file.folder file.fileInfo.name = false →
        ∀ old, stored n.state.db ⟨file.folder, n.config.localDeviceId, file.fileInfo.name⟩ =
            some old →
          0 ≤ regularSize old ∧ regularSize old ≤ file.fileInfo.size.toInt
  | .renameMem _ _ _ => True
  | .renameDb _ _ _ _ _ => True

end Grizol.Interface

import Grizol.Interface.CacheBound

/-!
# Which files leave the read cache

`free_read_cache` takes the files that came into the cache first, and no more of them than
it has to (`EvictsOldest`). A file comes with the read that finds it missing, and keeps the
time of that read as long as it is there, however often it is read again (`firstInserted`).
-/

set_option autoImplicit false

namespace Grizol.Interface

open Grizol.Library
open Grizol.Model Grizol.Model.Syncthing

section Times

variable {ι : Type}

/-- What the clock says at an event that may bring a file into the cache. -/
def CacheEvent.now : CacheEvent ι → Option Int64
  | .turn _ => none
  | .read _ outcomes => some outcomes.now
  | .renameMem _ _ _ => none
  | .renameDb _ _ _ _ _ => none

/-- When the files of the cache came into it: those that were there keep their time, and those
that came have the time of the event. -/
def firstInserted (times : FileKey → Option Int64) (_ : CacheNode ι) (e : CacheEvent ι)
    (n' : CacheNode ι) (key : FileKey) : Option Int64 :=
  if n'.state.db.bepLocalCache.contains key = true then (times key).or e.now else none

end Times

/-- A regular file with a row in the cache. -/
def InCache (db : Database) (key : FileKey) : Prop :=
  db.bepLocalCache.contains key = true ∧
    ∃ row, db.bepFileInfo.get key = some row ∧ row.type = 0

/-- The size of a file as the database has it. -/
def recordedSize (db : Database) (key : FileKey) : ℤ :=
  ((db.bepFileInfo.get key).map fun row => row.size.toInt).getD 0

/-- The size of several files. -/
def recordedTotal (db : Database) (keys : List FileKey) : ℤ := (keys.map (recordedSize db)).sum

/-- **First in, first out**: the regular files of the cache in the order in which they came are
those that are removed and then those that are kept. What is kept leaves the room that is needed,
and any prefix of which that can be said is at least as long. -/
structure EvictsOldest (cacheSize neededBytes : ℕ) (times : FileKey → Option Int64)
    (db : Database) (removed kept : List FileKey) : Prop where
  nodup : (removed ++ kept).Nodup
  files : ∀ key, key ∈ removed ++ kept ↔ InCache db key
  oldestFirst : (removed ++ kept).Pairwise fun a b =>
    ∃ t t', times a = some t ∧ times b = some t' ∧ t ≤ t'
  room : recordedTotal db kept + neededBytes ≤ cacheSize
  least : ∀ first rest, removed ++ kept = first ++ rest →
    recordedTotal db rest + neededBytes ≤ cacheSize → removed.length ≤ first.length

end Grizol.Interface

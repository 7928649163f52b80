import Grizol.Interface.IndexCache
import Grizol.Model.MessageHandlers

/-!
# What messages do to the files of this device

A message of a peer brings files, which are compared with those known of this device. One
that is there may be replaced by a newer one only (`OnlyNewer`), and a message that is
handled again brings nothing (`SameRowsOf`). What is known of this device is its entry in
memory, or what the entry would be, so much depends on whether that follows the tables
(`Knows`).
-/

set_option autoImplicit false

namespace Grizol.Interface

open Grizol.Library
open Grizol.Model Grizol.Model.Syncthing

/-! ## Messages -/

/-- A message of a peer, with what its handler reads of the clock. -/
structure Received where
  message : IndexMessage
  peer : DeviceId
  clock : ℕ → ℕ

namespace Received

variable (m : Received)

/-- The files of the message. -/
def files : List FileInfo :=
  match m.message with
  | .index received => received.files
  | .indexUpdate received => received.files

/-- The handler of the message on its own. -/
def handle : RustM BepProcessor (List (Except BepProcessorError GrizolEvent)) :=
  match m.message with
  | .index received => BepProcessor.handleIndex received m.peer m.clock
  | .indexUpdate received => BepProcessor.handleIndexUpdate received m.peer m.clock

/-- The state a message leaves, whether its handler returns or panics. -/
def receive (p : BepProcessor) (m : Received) : Option BepProcessor :=
  some (RustM.endState (m.handle.run p))

/-- An `Index` replaces all files of the device it comes from, which should not be this one. -/
def FromOther (localDeviceId : DeviceId) : Prop :=
  ∀ received, m.message = .index received → m.peer ≠ localDeviceId

end Received

/-! ## Newer files -/

/-- The greatest value of a counter of a file. -/
def topValue (file : FileInfo) : Option UInt64 := (maxCounter (countersOf file)).map Counter.value

/-- The second file is strictly newer. -/
def Newer (old new : FileInfo) : Prop := partialCmpFileVersion old new = .ok (some .lt)

/-- The entry `index` answers from, once it was called. -/
def entryFor (s : BepState) (folder : String) (deviceId : DeviceId) : GrizolIndex :=
  (s.indices.indices.get ⟨folder, deviceId⟩).getD
    (.ofIndex (BepState.loadIndex s.db folder deviceId))

/-- The files of every entry in memory are under their names. -/
def NamedEntries (s : BepState) : Prop :=
  ∀ key entry, s.indices.indices.get key = some entry → Named entry.files

/-- The files of a device that are stored are known, each with its greatest counter value. -/
structure Knows (s : BepState) (deviceId : DeviceId) : Prop where
  named : NamedEntries s
  files : ∀ folder name old, stored s.db ⟨folder, deviceId, name⟩ = some old →
    ∃ file, (entryFor s folder deviceId).files.get name = some file ∧
      topValue file = topValue old

/-- A file of a device that is stored, or known, stays or is replaced by a newer one. -/
structure OnlyNewer (deviceId : DeviceId) (s s' : BepState) : Prop where
  stored : ∀ key old, key.device = deviceId → stored s.db key = some old →
    ∃ new, stored s'.db key = some new ∧ (new = old ∨ Newer old new)
  known : ∀ folder name old, (entryFor s folder deviceId).files.get name = some old →
    ∃ new, (entryFor s' folder deviceId).files.get name = some new ∧ (new = old ∨ Newer old new)

/-- The rows of a file are the same in all tables. -/
structure SameRowsAt (key : FileKey) (db db' : Database) : Prop where
  file : db'.bepFileInfo.get key = db.bepFileInfo.get key
  locations : ∀ k : LocationKey, k.file = key → db'.bepFileLocation.get k = db.bepFileLocation.get k
  cache : db'.bepLocalCache.get key = db.bepLocalCache.get key
  blocks : ∀ k : BlockKey, k.file = key → db'.bepBlockInfo.get k = db.bepBlockInfo.get k
  versions : ∀ k : VersionKey, k.file = key → db'.bepFileVersion.get k = db.bepFileVersion.get k

namespace SameRowsAt

variable {key : FileKey} {db db' db'' : Database}

/-- Without a change the rows at a key stay. -/
theorem refl (key : FileKey) (db : Database) : SameRowsAt key db db :=
  ⟨rfl, fun _ _ => rfl, rfl, fun _ _ => rfl, fun _ _ => rfl⟩

/-- The rows at a key that stay twice stay. -/
theorem trans (h : SameRowsAt key db db') (h' : SameRowsAt key db' db'') :
    SameRowsAt key db db'' where
  file := h'.file.trans h.file
  locations k hk := (h'.locations k hk).trans (h.locations k hk)
  cache := h'.cache.trans h.cache
  blocks k hk := (h'.blocks k hk).trans (h.blocks k hk)
  versions k hk := (h'.versions k hk).trans (h.versions k hk)

end SameRowsAt

/-- The rows of a device are the same in all tables. -/
structure SameRowsOf (deviceId : DeviceId) (db db' : Database) : Prop where
  files : ∀ k : FileKey, k.device = deviceId → db'.bepFileInfo.get k = db.bepFileInfo.get k
  locations : ∀ k : LocationKey, k.file.device = deviceId →
    db'.bepFileLocation.get k = db.bepFileLocation.get k
  cache : ∀ k : FileKey, k.device = deviceId → db'.bepLocalCache.get k = db.bepLocalCache.get k
  blocks : ∀ k : BlockKey, k.file.device = deviceId →
    db'.bepBlockInfo.get k = db.bepBlockInfo.get k
  versions : ∀ k : VersionKey, k.file.device = deviceId →
    db'.bepFileVersion.get k = db.bepFileVersion.get k

namespace SameRowsOf

variable {deviceId : DeviceId} {db db' db'' : Database}

/-- Without a change the rows of a device stay. -/
theorem refl (deviceId : DeviceId) (db : Database) : SameRowsOf deviceId db db :=
  ⟨fun _ _ => rfl, fun _ _ => rfl, fun _ _ => rfl, fun _ _ => rfl, fun _ _ => rfl⟩

/-- The rows of a device that stay twice stay. -/
theorem trans (h : SameRowsOf deviceId db db') (h' : SameRowsOf deviceId db' db'') :
    SameRowsOf deviceId db db'' where
  files k hk := (h'.files k hk).trans (h.files k hk)
  locations k hk := (h'.locations k hk).trans (h.locations k hk)
  cache k hk := (h'.cache k hk).trans (h.cache k hk)
  blocks k hk := (h'.blocks k hk).trans (h.blocks k hk)
  versions k hk := (h'.versions k hk).trans (h.versions k hk)

end SameRowsOf

/-- **Messages bring newer files only, and each brings its files once.** What a message does to
the files of this device; and when its handler returns, handling it again right away, at
whatever time, changes no row of this device. -/
def Monotone (p : BepProcessor) (m : Received) (p' : BepProcessor) : Prop :=
  OnlyNewer p.config.localDeviceId p.state p'.state ∧
    ∀ events, m.handle.run p = .ok events p' → ∀ clock p'',
      Received.receive p' { m with clock := clock } = some p'' →
        SameRowsOf p.config.localDeviceId p'.state.db p''.state.db

end Grizol.Interface

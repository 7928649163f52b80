import Grizol.Model.MessageHandlers

/-!
# The block a response marks

A request asks for the block at an offset of a file; its row is found by the hash of the
data. `MarksOwn` says that no other row is touched, `StoresWritten` that a block comes to
be stored by a response for its own offset that was written.
-/

set_option autoImplicit false

namespace Grizol.Interface

open Grizol.Library
open Grizol.Model Grizol.Model.Syncthing

/-- The row of the block a request asks for. -/
def requestedBlock (deviceId : DeviceId) (r : Request) : BlockKey :=
  ⟨⟨r.folder, deviceId, r.name⟩, r.offset, r.size, r.hash⟩

/-- The status of a block, if there is a row of it. -/
def statusOf (db : Database) (k : BlockKey) : Option StorageStatus :=
  (db.bepBlockInfo.get k).map BlockRow.storageStatus

/-- The storage status of no block changes but that of the one that was asked for. -/
def MarksOwn (deviceId : DeviceId) (r : Request) (db db' : Database) : Prop :=
  ∀ k, k ≠ requestedBlock deviceId r → statusOf db' k = statusOf db k

/-- The sizes of the file give a number of blocks, so that the transaction commits. -/
def Counted (db : Database) (key : FileKey) : Prop :=
  ∃ row n, db.bepFileInfo.get key = some row ∧
    BepState.expectedBlocks row.size row.blockSize = .ok n

/-- Of the blocks of the file that have the hash all but the one that was asked for are stored
already. -/
def OnlyOfHash (db : Database) (deviceId : DeviceId) (r : Request) : Prop :=
  ∀ k row, db.bepBlockInfo.get k = some row → k.file = ⟨r.folder, deviceId, r.name⟩ →
    k.hash = r.hash → row.storageStatus = .notStored → k = requestedBlock deviceId r

/-- What is needed of the state in which a block is marked. -/
def MarkedAlone (db : Database) (deviceId : DeviceId) (r : Request) : Prop :=
  Counted db ⟨r.folder, deviceId, r.name⟩ → OnlyOfHash db deviceId r

variable {ι : Type}

/-- The turn of a handler that marks meets it. -/
def MarksAlone (s : Processes ι ServerTask BepProcessor) (t : Turn ι TurnOutcome) : Prop :=
  ∀ h request fileSize blockSize r, s.process t.process = .response h →
    h.pc = .updateState request fileSize blockSize →
    s.shared.state.getRequest h.response.id = some r →
    MarkedAlone s.shared.state.db s.shared.config.localDeviceId r

/-- A block that is stored after a turn was stored before, or the turn is that of a handler that
wrote the response for it: to this file, at this offset. -/
def StoresWritten (s : Processes ι ServerTask BepProcessor) (t : Turn ι TurnOutcome)
    (s' : Processes ι ServerTask BepProcessor) : Prop :=
  ∀ k row, s'.shared.state.db.bepBlockInfo.get k = some row →
    row.storageStatus = .storedLocally →
    s.shared.state.db.bepBlockInfo.get k = some row ∨
      ∃ h request fileSize blockSize, s.process t.process = .response h ∧
        h.pc = .updateState request fileSize blockSize ∧ h.stored = some (.ok ()) ∧
        k = requestedBlock s.shared.config.localDeviceId request

end Grizol.Interface

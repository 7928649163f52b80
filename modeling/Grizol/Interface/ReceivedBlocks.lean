import Grizol.Interface.Connections

/-!
# Bytes that came

A block is marked as stored by the handler of a response, several turns after it has compared
the data with the hash that was asked for; meanwhile the queue, the rows and the files are
those of others, too.
-/

set_option autoImplicit false

namespace Grizol.Interface

open Grizol.Library
open Grizol.Model Grizol.Model.Syncthing

/-- The response a step takes. -/
def respondedBy (_ : ServerState) (connection : Connection) (event : ConnectionEvent) :
    List Response :=
  (takenMessage connection event).filterMap fun m =>
    match m with
    | .response x => some x
    | _ => none

/-- The responses that all connections took in a run. -/
def respondedIn (codec : Codec) (hash : String → ℕ → ℕ → UInt64) (sha256 : Bytes → Bytes)
    (debugRequest : Request → String) (config : ConnectionConfig) (s : Server)
    (es : List ServerEvent) : List Response :=
  Transition.collect (serverStep codec hash sha256 debugRequest config) (handedOver respondedBy) s
    es

/-- A response without an error brings bytes with the hash. -/
def BringsBlock (sha256 : Bytes → Bytes) (blockHash : Bytes) (x : Response) : Prop :=
  ErrorCode.ofInt32 x.code = some .noError ∧ sha256 x.data = blockHash

/-- **A block is stored only when its bytes have come.** A row that is marked was so before, or it
is one of this device, and bytes with its hash were received. -/
def StoresReceived (sha256 : Bytes → Bytes) (db : Database) (localDeviceId : DeviceId)
    (responded : List Response) (s : BepState) : Prop :=
  ∀ key row, s.db.bepBlockInfo.get key = some row → row.storageStatus = .storedLocally →
    db.bepBlockInfo.get key = some row ∨
      key.file.device = localDeviceId ∧ ∃ x ∈ responded, BringsBlock sha256 key.hash x

end Grizol.Interface

import Grizol.Model.MessageHandlers

/-!
# Requests for blocks that are stored

A handler of an index reads the blocks that are not stored in its first section and
enqueues requests for them in its second one. In between a block may be stored and its
request leave the queue; then the second section asks for it again. `Undisturbed` is the
condition under which that does not happen.
-/

set_option autoImplicit false

namespace Grizol.Interface

open Grizol.Library
open Grizol.Model Grizol.Model.Syncthing

/-- The row of the block a request asks for. -/
def blockOf (device : DeviceId) (k : OutgoingRequest) : BlockKey :=
  ⟨⟨k.folder, device, k.name⟩, k.offset, k.size, k.hash.toList⟩

/-- The block of a request is stored. -/
def Stored (p : BepProcessor) (k : OutgoingRequest) : Prop :=
  ∃ row, p.state.db.bepBlockInfo.get (blockOf p.config.localDeviceId k) = some row ∧
    row.storageStatus = .storedLocally

/-- The request waits in the queue, or was sent and not answered. -/
def Queued (p : BepProcessor) (k : OutgoingRequest) : Prop :=
  p.state.outgoingRequests.requestsByRequest.contains k = true

/-- A list of blocks has the one that a request asks for. -/
def Lists (blocks : List BlockInfoExt) (k : OutgoingRequest) : Prop :=
  k.fromTemporary = false ∧ ∃ b ∈ blocks, b.folder = k.folder ∧ b.name = k.name ∧
    b.offset = k.offset ∧ b.size = k.size ∧ b.hash = k.hash.toList

/-- An entry of the queue that was not there before is for a block that is not stored. -/
def EnqueuesUnstored (p p' : BepProcessor) : Prop :=
  ∀ k v, p'.state.outgoingRequests.requestsByRequest.get k = some v →
    p.state.outgoingRequests.requestsByRequest.get k = some v ∨ ¬ Stored p k

variable {ι : Type}

/-- A handler between its two sections has the block on its list. -/
def Awaited (s : Processes ι ServerTask BepProcessor) (k : OutgoingRequest) : Prop :=
  ∃ i h blocks, s.process i = .index h ∧ h.pc = .enqueue blocks ∧ Lists blocks k

/-- The turn leaves the blocks alone that a handler between its sections has on its list: it
marks none whose request is not queued, and drops no request of one that is stored, be
it answered or too old. -/
structure Undisturbed (s : Processes ι ServerTask BepProcessor) (t : Turn ι TurnOutcome) :
    Prop where
  marked : ∀ h request fileSize blockSize r k, s.process t.process = .response h →
    h.pc = .updateState request fileSize blockSize →
    s.shared.state.getRequest h.response.id = some r → Awaited s k →
    k.folder = r.folder → k.name = r.name → k.hash.toList = r.hash → Queued s.shared k
  answered : ∀ h stored r k, s.process t.process = .response h → h.pc = .removeRequest stored →
    s.shared.state.getRequest h.response.id = some r → OutgoingRequest.ofRequest r = .ok k →
    Awaited s k → ¬ Stored s.shared k
  expired : ∀ h blocks k v, s.process t.process = .index h → h.pc = .enqueue blocks →
    Awaited s k → Stored s.shared k →
    s.shared.state.outgoingRequests.requestsByRequest.get k = some v →
    OutgoingRequests.inQueueLessThanMax (h.clock 0) v.2 = true

end Grizol.Interface

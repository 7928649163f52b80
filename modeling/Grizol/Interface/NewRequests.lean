import Grizol.Library.Transition
import Grizol.Model.MessageHandlers

/-!
# New requests

`store_outgoing_requests` numbers a request for every block of a list and lets the queue take
those it does not have. `EnqueuesEach` says what the queue is then, `handedOut` which
ids were used for it.
-/

set_option autoImplicit false

namespace Grizol.Interface

open Grizol.Library
open Grizol.Model Grizol.Model.Syncthing

/-- The request is for the block. -/
structure Asks (r : Request) (block : BlockInfoExt) : Prop where
  folder : r.folder = block.folder
  name : r.name = block.name
  offset : r.offset = block.offset
  size : r.size = block.size
  hash : r.hash = block.hash

/-- **Every block has one request.** Those of the queue that are not too old stay as they are,
and the others are the inserted ones. -/
structure EnqueuesEach (blocks : List BlockInfoExt) (now : ℕ) (inserted : List Request)
    (q q' : OutgoingRequests) : Prop where
  one : ∀ b ∈ blocks, ∃! id, ∃ r, q'.requestsById.get id = some r ∧ Asks r b
  kept : ∀ k id t, q.requestsByRequest.get k = some (id, t) → now - t < maxTimeInQueue →
    q'.requestsByRequest.get k = some (id, t) ∧
      q'.requestsById.get id = q.requestsById.get id ∧
      (k ∈ q'.pendingRequests ↔ k ∈ q.pendingRequests)
  added : ∀ id r, q'.requestsById.get id = some r →
    q.requestsById.get id = some r ∨ r ∈ inserted
  queued : ∀ r ∈ inserted, q'.requestsById.get r.id = some r
  distinct : (inserted.map Request.id).Nodup

variable {ι : Type}

/-- The ids a turn gives to requests, whether the queue takes these or not. -/
def handedOut (s : Processes ι ServerTask BepProcessor) (t : Turn ι TurnOutcome) : List Int32 :=
  match s.process t.process with
  | .index h =>
      match h.pc with
      | .enqueue blocks =>
          match requestsFromBlocks s.shared.state.requestId blocks with
          | .ok requests => requests.map Request.id
          | .error _ => []
      | .writeIndices | .returned | .panicked _ => []
  | .response _ | .connection _ _ => []

end Grizol.Interface

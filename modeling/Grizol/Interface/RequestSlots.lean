import Grizol.Model.BepProcessor

/-!
# The slot of a pending request

A request that was sent and not answered takes one of the slots `update_pending_requests`
counts, and its size. `FreesSlot` is what is to be the case when a response for it has
been handled.
-/

set_option autoImplicit false

namespace Grizol.Interface

open Grizol.Library
open Grizol.Model Grizol.Model.Syncthing

/-- The request with this id was sent and is not answered; `k` is its key. -/
def IsPending (q : OutgoingRequests) (requestId : Int32) (k : OutgoingRequest) : Prop :=
  ∃ r, q.requestsById.get requestId = some r ∧ OutgoingRequest.ofRequest r = .ok k ∧
    k ∈ q.pendingRequests

/-- No structure has the request any more, one request less is pending, and the running sum is
lower by its size. -/
structure FreesSlot (q q' : OutgoingRequests) (requestId : Int32) (k : OutgoingRequest) :
    Prop where
  requestsById : q'.requestsById.get requestId = none
  requestsByRequest : q'.requestsByRequest.get k = none
  pendingRequests : q'.pendingRequests = q.pendingRequests.erase k
  card : q'.pendingRequests.card + 1 = q.pendingRequests.card
  requestedSize : q'.requestedSize + asUsize k.size = q.requestedSize

/-- The code is one of the errors of the protocol. -/
def IsError (response : Response) : Prop :=
  ∃ code, ErrorCode.ofInt32 response.code = some code ∧ code ≠ .noError

end Grizol.Interface

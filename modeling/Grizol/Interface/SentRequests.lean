import Grizol.Interface.Connections
import Grizol.Interface.RequestQueue

/-!
# The requests of a server

Every connection asks the one queue for the requests to send, whenever one of its events
says that there may be some. Whoever asks first gets them: which client a request goes to
does not depend on who offered the file. `AsksOnce` says what is kept to all the same.
-/

set_option autoImplicit false

namespace Grizol.Interface

open Grizol.Library
open Grizol.Model Grizol.Model.Syncthing

/-- The requests a step of a connection writes. -/
def writtenRequests (codec : Codec) (config : ConnectionConfig) (s : ServerState)
    (connection : Connection) (event : ConnectionEvent) : List Request :=
  (writtenEvent codec config s connection event).flatMap Prod.snd

/-- The requests that all connections write in a run, in the order in which they do. -/
def requestsIn (codec : Codec) (hash : String → ℕ → ℕ → UInt64) (sha256 : Bytes → Bytes)
    (debugRequest : Request → String) (config : ConnectionConfig) (s : Server)
    (es : List ServerEvent) : List Request :=
  Transition.collect (serverStep codec hash sha256 debugRequest config)
    (handedOver (writtenRequests codec config)) s es

/-- **Every request is sent once.** No two that were sent have one id, whichever connections they
went out on; one that was sent is pending for as long as it is queued, and the queue is within
its limits. -/
structure AsksOnce (config : ConnectionConfig) (sent : List Request) (q : OutgoingRequests) :
    Prop where
  once : (sent.map Request.id).Nodup
  pending : ∀ r ∈ sent, ∀ r', q.get r.id = some r' →
    r' = r ∧ ∃ k ∈ q.pendingRequests, OutgoingRequest.ofRequest r = .ok k
  limits : WithinLimits config.maxPendingRequests config.maxTotalPendingRequestsSize q

end Grizol.Interface

import Grizol.Library.Transition
import Grizol.Model.BepProcessor

/-!
# What keeps a download going

Requests are sent when the loop of a connection consumes a `RequestCreated` or
`RequestProcessed` event; such events come from the handlers of messages. An error among
the results of a handler is logged and is no event, and a handler that panics takes its
task with it.

`NotStalled` says that as long as something could be sent, something will make the loop
send it. A run handles messages one after the other, and the loops consume what was
emitted whenever they get to it.
-/

set_option autoImplicit false

namespace Grizol.Interface

open Grizol.Library
open Grizol.Model Grizol.Model.Syncthing

/-- `max_pending_requests` and `max_total_pending_requests_size` of the configuration. -/
structure PendingLimits where
  maxPendingRequests : ℕ
  maxTotalPendingRequestsSize : ℕ

/-- A server, and the events that were emitted and not consumed yet. -/
structure Download where
  processor : BepProcessor
  unconsumed : List GrizolEvent

/-- What can happen to a download: a message that is handled, or events that the loop takes off the
channel. -/
inductive DownloadEvent where
  | index (received : Index) (peer : DeviceId) (clock : ℕ → ℕ)
  | indexUpdate (received : IndexUpdate) (peer : DeviceId) (clock : ℕ → ℕ)
  | response (response : Response) (outcomes : BepProcessor.ResponseOutcomes)
  | consume (n : ℕ)

/-- The events of the results of a handler. -/
def emitted (results : List (Except BepProcessorError GrizolEvent)) : List GrizolEvent :=
  results.filterMap Except.toOption

/-- The event makes the loop of a connection ask for the requests to send. -/
def Wakes (event : GrizolEvent) : Prop :=
  event = .requestCreated ∨ event = .requestProcessed

namespace Download

/-- A message is handled, and its events are emitted if the handler returns. -/
def handle (x : RustM BepProcessor (List (Except BepProcessorError GrizolEvent)))
    (s : Download) : Download :=
  match x.run s.processor with
  | .ok results p => { processor := p, unconsumed := s.unconsumed ++ emitted results }
  | .error _ p => { s with processor := p }

/-- The loop of a connection consumes an event. -/
def consume (limits : PendingLimits) (event : GrizolEvent) (p : BepProcessor) : BepProcessor :=
  match event with
  | .message _ => p
  | .requestProcessed | .requestCreated => RustM.endState
      ((BepProcessor.throttledRequests limits.maxPendingRequests
        limits.maxTotalPendingRequestsSize).run p)

variable (hash : String → ℕ → ℕ → UInt64) (sha256 : Bytes → Bytes)
  (debugRequest : Request → String) (limits : PendingLimits)

/-- One event. -/
def step (s : Download) : DownloadEvent → Option Download
  | .index received peer clock => some (s.handle (BepProcessor.handleIndex received peer clock))
  | .indexUpdate received peer clock =>
      some (s.handle (BepProcessor.handleIndexUpdate received peer clock))
  | .response response outcomes =>
      some (s.handle
        (BepProcessor.handleResponse hash sha256 debugRequest response outcomes))
  | .consume n => do
      let event ← s.unconsumed[n]?
      some { processor := consume limits event s.processor, unconsumed := s.unconsumed.eraseIdx n }

end Download

/-- `update_pending_requests` would send something now. -/
def Sendable (limits : PendingLimits) (q : OutgoingRequests) : Prop :=
  ∃ requests q', (OutgoingRequests.updatePendingRequests limits.maxPendingRequests
    limits.maxTotalPendingRequestsSize).run q = .ok requests q' ∧ requests ≠ []

/-- **The download does not stall.** What could be sent waits for an answer to what was sent,
or for an event that will be consumed. -/
def NotStalled (limits : PendingLimits) (s : Download) : Prop :=
  Sendable limits s.processor.state.outgoingRequests →
    s.processor.state.outgoingRequests.pendingRequests.Nonempty ∨ ∃ e ∈ s.unconsumed, Wakes e

/-- A queue that may be left to itself: something is awaited, or nothing could be sent. -/
def Awaits (limits : PendingLimits) (q : OutgoingRequests) : Prop :=
  q.pendingRequests.Nonempty ∨ ¬ Sendable limits q

/-- The request of the response leaves the queue without an event: what came is not stored, or
the request was not sent yet. -/
def LosesEvent (hash : String → ℕ → ℕ → UInt64) (sha256 : Bytes → Bytes)
    (debugRequest : Request → String) (p : BepProcessor) (response : Response)
    (outcomes : BepProcessor.ResponseOutcomes) : Prop :=
  ∃ request, p.state.getRequest response.id = some request ∧
    ((∃ e p', (BepProcessor.storeResponseData hash sha256 debugRequest request response
        outcomes).run p = .ok (.error e) p') ∨
      ∀ k, OutgoingRequest.ofRequest request = .ok k →
        k ∉ p.state.outgoingRequests.pendingRequests)

/-- The list of blocks an index makes the server ask for has hashes of 32 bytes. -/
def WellHashed (section₁ : RustM BepState (List BlockInfoExt)) (s : BepState) : Prop :=
  ∀ blocks s', section₁.run s = .ok blocks s' → ∀ b ∈ blocks, b.hash.length = 32

/-- The steps that lose no event the download needs: while nothing else is unconsumed, a
request that leaves the queue without one leaves a queue that may be left to itself, and
no index asks for a block without a hash. -/
def KeepsGoing (hash : String → ℕ → ℕ → UInt64) (sha256 : Bytes → Bytes)
    (debugRequest : Request → String) (limits : PendingLimits) (s : Download) :
    DownloadEvent → Prop
  | .index received peer _ =>
      (∃ e ∈ s.unconsumed, Wakes e) ∨
        WellHashed (BepProcessor.replaceIndices s.processor.config.localDeviceId received peer)
          s.processor.state
  | .indexUpdate received peer _ =>
      (∃ e ∈ s.unconsumed, Wakes e) ∨
        WellHashed (BepProcessor.updateIndices s.processor.config.localDeviceId
          { folder := received.folder, files := received.files } peer) s.processor.state
  | .response response outcomes =>
      (∃ e ∈ s.unconsumed, Wakes e) ∨
        (ErrorCode.ofInt32 response.code = some .noError →
          LosesEvent hash sha256 debugRequest s.processor response outcomes →
          Awaits limits (RustM.endState
            ((OutgoingRequests.remove response.id).run s.processor.state.outgoingRequests)))
  | .consume _ => True

end Grizol.Interface

import Mathlib.Algebra.BigOperators.Group.Finset.Basic
import Mathlib.Data.List.Sort
import Grizol.Library.AssocMap
import Grizol.Model.Syncthing

/-!
# The queue of outgoing requests

`core/outgoing_requests.rs`: the requests that wait to be sent or answered, held in
two maps, a set of those already sent and the sum of their sizes. Iteration over the
tree map is in the order of its keys. The clock is read once by an operation that
needs it and is an argument here, in nanoseconds.
-/

set_option autoImplicit false

namespace Grizol.Model

open Grizol.Library
open Grizol.Model.Syncthing

/-- `MAX_TIME_IN_QUEUE`, 12 hours. -/
def maxTimeInQueue : ℕ := 60 * 60 * 12 * 1000000000

/-- `x as usize`: a negative value wraps around. -/
def asUsize (x : Int32) : ℕ := (x.toInt % 2 ^ 64).toNat

/-- `OutgoingRequest`: a request without its id, compared field by field. -/
structure OutgoingRequest where
  folder : String
  name : String
  offset : Int64
  size : Int32
  hash : Vector UInt8 32
  fromTemporary : Bool
  deriving DecidableEq, Repr, Ord

/-- `OutgoingRequest::from`; the hash must have 32 bytes. -/
def OutgoingRequest.ofRequest (other : Request) : Rust OutgoingRequest :=
  if h : other.hash.toArray.size = 32 then
    .ok {
      folder := other.folder
      name := other.name
      offset := other.offset
      size := other.size
      hash := ⟨other.hash.toArray, h⟩
      fromTemporary := other.fromTemporary }
  else .error .unwrap

/-- `OutgoingRequests`: the same requests in several structures. -/
structure OutgoingRequests where
  requestsById : AssocMap Int32 Request
  requestsByRequest : AssocMap OutgoingRequest (Int32 × ℕ)
  pendingRequests : Finset OutgoingRequest
  requestedSize : ℕ
  deriving DecidableEq

namespace OutgoingRequests

/-- `Default::default()`. -/
def default : OutgoingRequests := ⟨.empty, .empty, ∅, 0⟩

/-- The request of this id. -/
def get (s : OutgoingRequests) (requestId : Int32) : Option Request :=
  s.requestsById.get requestId

/-- Forgets a request in all three tables. -/
def remove (requestId : Int32) : RustM OutgoingRequests (Option Request) := do
  let request := (← getThe OutgoingRequests).requestsById.get requestId
  modify fun s => { s with requestsById := s.requestsById.erase requestId }
  match request with
  | none => pure none
  | some r => do
      let outgoingRequest ← OutgoingRequest.ofRequest r
      let requestId := (← getThe OutgoingRequests).requestsByRequest.get outgoingRequest
      modify fun s => { s with requestsByRequest := s.requestsByRequest.erase outgoingRequest }
      Rust.assert (requestId.isSome = true)
      let pending := (← getThe OutgoingRequests).pendingRequests
      modify fun s => { s with pendingRequests := s.pendingRequests.erase outgoingRequest }
      Rust.assert (outgoingRequest ∈ pending)
      let requestedSize := (← getThe OutgoingRequests).requestedSize
      Rust.assert (asUsize outgoingRequest.size ≤ requestedSize)
      let requestedSize ← Rust.sub requestedSize (asUsize outgoingRequest.size)
      modify fun s => { s with requestedSize := requestedSize }
      pure (some r)

/-- Queues a request, unless one for the same block is there. -/
def insert (requestId : Int32) (request : Request) (now : ℕ) :
    RustM OutgoingRequests (Option Request) := do
  let outgoingRequest ← OutgoingRequest.ofRequest request
  if (← getThe OutgoingRequests).requestsByRequest.contains outgoingRequest then pure none
  else do
    modify fun s =>
      { s with requestsByRequest := s.requestsByRequest.insert outgoingRequest (requestId, now) }
    modify fun s => { s with requestsById := s.requestsById.insert requestId request }
    pure (some request)

/-- `in_queue_less_than_max`; the difference of two instants is never negative. -/
def inQueueLessThanMax (now creationTime : ℕ) : Bool := now - creationTime < maxTimeInQueue

/-- The sum of the sizes of a set of requests, in whatever order they are added. -/
def sumSizes (requests : Finset OutgoingRequest) : Rust ℕ :=
  if ∑ r ∈ requests, asUsize r.size < 2 ^ 64 then .ok (∑ r ∈ requests, asUsize r.size)
  else .error .overflow

/-- Forgets what has waited too long; by the time, pending requests go as well as queued ones. -/
def removeOldRequests (now : ℕ) : RustM OutgoingRequests Unit := do
  let waitingRequestsIds :=
    ((← getThe OutgoingRequests).requestsByRequest.values.filter
      fun v => inQueueLessThanMax now v.2).map Prod.fst
  modify fun s =>
    { s with requestsById := s.requestsById.retain fun requestId _ =>
        requestId ∈ waitingRequestsIds }
  modify fun s =>
    { s with requestsByRequest := s.requestsByRequest.retain fun _ v =>
        v.1 ∈ waitingRequestsIds }
  let s ← getThe OutgoingRequests
  let sizeToRemove ← sumSizes
    (s.pendingRequests.filter fun r => s.requestsByRequest.contains r = false)
  Rust.assert (sizeToRemove ≤ s.requestedSize)
  let requestedSize ← Rust.sub s.requestedSize sizeToRemove
  modify fun s => { s with requestedSize := requestedSize }
  modify fun s =>
    { s with pendingRequests := s.pendingRequests.filter fun r =>
        s.requestsByRequest.contains r = true }

/-- The entries of the tree map in the order of its keys. -/
def inKeyOrder (m : AssocMap OutgoingRequest (Int32 × ℕ)) :
    List (OutgoingRequest × Int32 × ℕ) :=
  m.entries.insertionSort fun a b => (compare a.1 b.1).isLE = true

/-- At most so many files are fetched at the same time. -/
abbrev maxFiles : ℕ := 10

/-- The loop of `update_pending_requests` over the entries still to come. -/
def updateLoop (freeSlots maxStorageArea : ℕ) :
    List (OutgoingRequest × Int32 × ℕ) → List Request → Finset String →
      RustM OutgoingRequests (List Request)
  | [], processedRequests, _ => pure processedRequests
  | (outgoingRequest, id, _) :: rest, processedRequests, fileNames => do
      if maxFiles ≤ fileNames.card ∧ outgoingRequest.name ∉ fileNames then
        return processedRequests
      if freeSlots ≤ processedRequests.length then
        return processedRequests
      let s ← getThe OutgoingRequests
      let newSize ← Rust.add 64 s.requestedSize (asUsize outgoingRequest.size)
      if maxStorageArea < newSize then
        return processedRequests
      if outgoingRequest ∈ s.pendingRequests then
        updateLoop freeSlots maxStorageArea rest processedRequests fileNames
      else do
        let request ← Rust.unwrap (s.requestsById.get id)
        set { s with
          pendingRequests := Insert.insert outgoingRequest s.pendingRequests
          requestedSize := newSize }
        updateLoop freeSlots maxStorageArea rest (processedRequests ++ [request])
          (Insert.insert outgoingRequest.name fileNames)

/-- Moves requests from the queue to the pending ones, in the order of the queue, until a limit is
met. -/
def updatePendingRequests (maxPending maxStorageArea : ℕ) :
    RustM OutgoingRequests (List Request) := do
  let s ← getThe OutgoingRequests
  let freeSlots ← Rust.sub maxPending s.pendingRequests.card
  let fileNames := s.pendingRequests.image OutgoingRequest.name
  updateLoop freeSlots maxStorageArea (inKeyOrder s.requestsByRequest) [] fileNames

end OutgoingRequests

end Grizol.Model

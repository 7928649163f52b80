import Grizol.Library.Transition
import Grizol.Model.OutgoingRequests

/-!
# Runs of the request queue

The four operations of `OutgoingRequests` as the events of one system, with the two
limits of `update_pending_requests` fixed. An operation runs under the lock of the
state, so its effect is one step; if it panics the queue stays as far as it got.

`QueueInvariant` says what the four structures of the queue have to do with one
another, `WithinLimits` what the throttling promises, and `WorkConserving` that it holds
nothing back without need.
-/

set_option autoImplicit false

namespace Grizol.Interface

open Grizol.Library
open Grizol.Model Grizol.Model.Syncthing

/-- The operations on the queue. -/
inductive RequestEvent where
  | insert (id : Int32) (request : Request) (now : ℕ)
  | remove (id : Int32)
  | removeOldRequests (now : ℕ)
  | updatePendingRequests
  deriving DecidableEq, Repr

/-- An id is removed when its request is pending, or when it is not in use. -/
def removable (s : OutgoingRequests) (id : Int32) : Bool :=
  match s.requestsById.get id with
  | none => true
  | some r =>
      match OutgoingRequest.ofRequest r with
      | .ok k => k ∈ s.pendingRequests
      | .error _ => false

/-- What the callers keep to: a request is inserted under an id that is not in use and
with a size that is not negative, and removed when it is pending. -/
def admissible (s : OutgoingRequests) : RequestEvent → Bool
  | .insert id r _ => (s.requestsById.get id).isNone && 0 ≤ r.size.toInt
  | .remove id => removable s id
  | .removeOldRequests _ => true
  | .updatePendingRequests => true

variable (maxPending maxStorageArea : ℕ)

/-- The operation of an event, with the requests it hands out for sending. -/
def perform : RequestEvent → RustM OutgoingRequests (List Request)
  | .insert id r now => do
      let _ ← OutgoingRequests.insert id r now
      pure []
  | .remove id => do
      let _ ← OutgoingRequests.remove id
      pure []
  | .removeOldRequests now => do
      OutgoingRequests.removeOldRequests now
      pure []
  | .updatePendingRequests => OutgoingRequests.updatePendingRequests maxPending maxStorageArea

/-- One admissible operation. -/
def queueStep (s : OutgoingRequests) (e : RequestEvent) : Option OutgoingRequests :=
  if admissible s e then
    some (RustM.endState ((perform maxPending maxStorageArea e).run s))
  else none

/-- The requests an operation returns for sending. -/
def sentBy (s : OutgoingRequests) (e : RequestEvent) : List Request :=
  match (perform maxPending maxStorageArea e).run s with
  | .ok sent _ => sent
  | .error _ _ => []

/-- The requests all operations of a run return for sending. -/
def sentIn : OutgoingRequests → List RequestEvent → List Request
  | _, [] => []
  | s, e :: es =>
      sentBy maxPending maxStorageArea s e ++
        match queueStep maxPending maxStorageArea s e with
        | some s' => sentIn s' es
        | none => []

/-- The request `r` waits in the queue under `id`. -/
def QueuedAs (s : OutgoingRequests) (id : Int32) (r : Request) : Prop :=
  s.requestsById.get id = some r

/-- **The representation invariant.** Both maps hold the same requests, the sent ones
are among them, and the running sum is the sum of their sizes. -/
structure QueueInvariant (s : OutgoingRequests) : Prop where
  keyed : ∀ id r, s.requestsById.get id = some r → ∃ k, OutgoingRequest.ofRequest r = .ok k
  same : ∀ id k, (∃ r, s.requestsById.get id = some r ∧ OutgoingRequest.ofRequest r = .ok k) ↔
    ∃ t, s.requestsByRequest.get k = some (id, t)
  pending_queued : ∀ k ∈ s.pendingRequests, ∃ v, s.requestsByRequest.get k = some v
  requestedSize_eq : s.requestedSize = ∑ k ∈ s.pendingRequests, asUsize k.size
  size_nonneg : ∀ id r, s.requestsById.get id = some r → 0 ≤ r.size.toInt

/-- What is left of it when the sizes are whatever a peer announces: their sum may be any
that fits a `usize`. -/
structure Consistent (s : OutgoingRequests) : Prop where
  keyed : ∀ id r, s.requestsById.get id = some r → ∃ k, OutgoingRequest.ofRequest r = .ok k
  same : ∀ id k, (∃ r, s.requestsById.get id = some r ∧ OutgoingRequest.ofRequest r = .ok k) ↔
    ∃ t, s.requestsByRequest.get k = some (id, t)
  pending_queued : ∀ k ∈ s.pendingRequests, ∃ v, s.requestsByRequest.get k = some v
  requestedSize_eq : s.requestedSize = ∑ k ∈ s.pendingRequests, asUsize k.size
  requestedSize_lt : s.requestedSize < 2 ^ 64

/-- **The throttling invariant.** At most `maxPending` requests have been sent and not
yet answered, of at most `maxStorageArea` bytes and of at most ten files. -/
structure WithinLimits (s : OutgoingRequests) : Prop where
  pending_le : s.pendingRequests.card ≤ maxPending
  size_le : ∑ k ∈ s.pendingRequests, asUsize k.size ≤ maxStorageArea
  names_le : (s.pendingRequests.image OutgoingRequest.name).card ≤ 10

/-- The keys of the queue in the order in which the requests are sent. -/
def queuedKeys (s : OutgoingRequests) : List OutgoingRequest :=
  (OutgoingRequests.inKeyOrder s.requestsByRequest).map Prod.fst

/-- The first queued request that is not pending, if there is one, could not have been sent:
for its number, its size or its file. -/
def WorkConserving (s : OutgoingRequests) : Prop :=
  ∀ before k rest, queuedKeys s = before ++ k :: rest → (∀ e ∈ before, e ∈ s.pendingRequests) →
    k ∉ s.pendingRequests →
      s.pendingRequests.card = maxPending ∨
      maxStorageArea < s.requestedSize + asUsize k.size ∨
      (k.name ∉ s.pendingRequests.image OutgoingRequest.name ∧
        10 ≤ (s.pendingRequests.image OutgoingRequest.name).card)

/-- There is room for one more request next to those of a set. -/
structure HasRoom (taken : Finset OutgoingRequest) (k : OutgoingRequest) : Prop where
  slot : taken.card < maxPending
  storage : ∑ r ∈ taken, asUsize r.size + asUsize k.size ≤ maxStorageArea
  file : k.name ∈ taken.image OutgoingRequest.name ∨ (taken.image OutgoingRequest.name).card < 10

/-- There is room for each of the requests in turn. -/
def RoomForEach (taken : Finset OutgoingRequest) : List OutgoingRequest → Prop
  | [] => True
  | k :: keys =>
      HasRoom maxPending maxStorageArea taken k ∧ RoomForEach (Insert.insert k taken) keys

/-- If the first queued request for which there is no room is pending itself, there is none
for the first one behind it that is not pending either. -/
def NeverBlocked (s : OutgoingRequests) : Prop :=
  ∀ before k between w rest, queuedKeys s = before ++ k :: (between ++ w :: rest) →
    RoomForEach maxPending maxStorageArea s.pendingRequests before →
    ¬ HasRoom maxPending maxStorageArea (s.pendingRequests ∪ before.toFinset) k →
    k ∈ s.pendingRequests → (∀ e ∈ between, e ∈ s.pendingRequests) → w ∉ s.pendingRequests →
      ¬ HasRoom maxPending maxStorageArea (s.pendingRequests ∪ before.toFinset) w

end Grizol.Interface

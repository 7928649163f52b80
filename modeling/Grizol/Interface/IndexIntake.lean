import Grizol.Interface.NewerFiles
import Grizol.Interface.ReadCache

/-!
# What a message must bring to be taken in

A handler of an `Index` or an `IndexUpdate` compares the files it received with those it
knows, writes them for their device and for this one, and asks for the blocks that are
not stored. Nothing checks the message before that. `MessageTaken` says of a message and
the state it meets what these stages take for granted; a node runs the handlers beside
everything else that writes to the state.
-/

set_option autoImplicit false

namespace Grizol.Interface

open Grizol.Library
open Grizol.Model Grizol.Model.Syncthing

/-! ## Files -/

/-- What the columns of a file and of its counters take. -/
structure Storable (file : FileInfo) : Prop where
  type : 0 ≤ file.type ∧ file.type ≤ 4
  version : file.version.isSome = true
  values : ∀ counter ∈ countersOf file, counter.value.toNat < 2 ^ 63

/-- The blocks of a file go in with one statement. -/
structure FitsStatement (file : FileInfo) : Prop where
  bound : 8 * file.blocks.length ≤ BepState.maxVariables
  distinct : file.blocks.Pairwise fun a b => sameBlock a b = false

/-- A block of this hash and size can be asked for. -/
structure Requestable (hash : Bytes) (size : Int32) : Prop where
  hash : hash.length = 32
  size : 0 ≤ size.toInt

/-- The blocks of a device can be asked for. -/
def RequestableRows (db : Database) (deviceId : DeviceId) : Prop :=
  ∀ k, db.bepBlockInfo.contains k = true → k.file.device = deviceId → Requestable k.hash k.size

/-- Which file is newer can be told: both have counters, and if only the ids of the greatest
ones differ, the times do, too. -/
structure Comparable (old new : FileInfo) : Prop where
  oldCounters : countersOf old ≠ []
  newCounters : countersOf new ≠ []
  times : ∀ a b, maxCounter (countersOf old) = some a → maxCounter (countersOf new) = some b →
    a.value = b.value → a.id ≠ b.id →
      old.modifiedS ≠ new.modifiedS ∨ old.modifiedNs ≠ new.modifiedNs

instance (old new : FileInfo) : Decidable (Newer old new) :=
  inferInstanceAs (Decidable (partialCmpFileVersion old new = .ok (some .lt)))

/-- Of these files, those that are newer than the known one of their name, or have none. -/
def newFiles (existing added : List FileInfo) : List FileInfo :=
  added.filter fun f => (lastNamed existing f.name).all fun old => decide (Newer old f)

/-- Each file can be compared with the known one of its name. -/
def AllComparable (existing added : List FileInfo) : Prop :=
  ∀ file ∈ added, ∀ old, lastNamed existing file.name = some old → Comparable old file

/-! ## Messages -/

/-- The sequence number given out last. -/
def lastSequence (s : BepState) : Option Int64 := s.sequence <|> BepState.maxSequence s.db

/-- How many sequence numbers come after this one. -/
def sequencesAfter : Option Int64 → ℕ
  | some n => (2 ^ 63 - 1 - n.toInt).toNat
  | none => 2 ^ 63 - 1

/-- How many ids of requests are left. -/
def idsLeft (s : BepState) : ℕ := (2 ^ 31 - 1 - s.requestId.toInt).toNat

section Messages

variable (localDeviceId clientDeviceId : DeviceId) (received : Index) (s : BepState)

/-- The files known of a device. -/
def knownFiles (deviceId : DeviceId) : List FileInfo := (known s received.folder deviceId).files

/-- An `Index`: its files go in for the device it comes from, and can be compared with those of
this device, for which there are numbers left. -/
structure IndexTaken : Prop where
  storable : ∀ file ∈ received.files, Storable file
  comparable : AllComparable (knownFiles received s localDeviceId) received.files
  requestable : ∀ file ∈ newFiles (knownFiles received s localDeviceId) received.files,
    ∀ block ∈ file.blocks, Requestable block.hash block.size
  numbers : received.files.length +
      (newFiles (knownFiles received s localDeviceId) received.files).length ≤
    sequencesAfter (lastSequence s)

/-- The files an `IndexUpdate` has new for the device it comes from. -/
def updatedFiles : List FileInfo := newFiles (knownFiles received s clientDeviceId) received.files

/-- The files then known of that device. -/
def peerFiles : List FileInfo :=
  (GrizolIndex.insertAll (entryFor s received.folder clientDeviceId).files
    (notDeleted (updatedFiles clientDeviceId received s))).values

/-- The files it has new for this device. -/
def localFiles : List FileInfo :=
  newFiles (knownFiles received s localDeviceId) (peerFiles clientDeviceId received s)

/-- An `IndexUpdate`: what it has new goes in for its device, all files then known of that
device can be compared with those of this one, and what is new for this device goes in. -/
structure UpdateTaken : Prop where
  comparable : AllComparable (knownFiles received s clientDeviceId) received.files
  storable : ∀ file ∈ notDeleted (updatedFiles clientDeviceId received s),
    Storable file ∧ FitsStatement file
  comparableLocal : AllComparable (knownFiles received s localDeviceId)
    (peerFiles clientDeviceId received s)
  storableLocal : ∀ file ∈ notDeleted (localFiles localDeviceId clientDeviceId received s),
    Storable file ∧ FitsStatement file
  requestable : ∀ file ∈ notDeleted (localFiles localDeviceId clientDeviceId received s),
    ∀ block ∈ file.blocks, Requestable block.hash block.size
  numbers : (updatedFiles clientDeviceId received s).length +
      (localFiles localDeviceId clientDeviceId received s).length ≤
    sequencesAfter (lastSequence s)

/-- The folder is in the index of both devices, and they are different ones. -/
structure FolderShared (folder : String) : Prop where
  other : clientDeviceId ≠ localDeviceId
  client : (folder, clientDeviceId) ∈ s.db.bepIndex
  localDevice : (folder, localDeviceId) ∈ s.db.bepIndex

/-- What is needed of a message about an index: the folder is shared with its sender, and its files
can be taken in. -/
def MessageTaken : IndexMessage → Prop
  | .index received =>
      FolderShared localDeviceId clientDeviceId s received.folder ∧
        IndexTaken localDeviceId received s
  | .indexUpdate received =>
      FolderShared localDeviceId clientDeviceId s received.folder ∧
        UpdateTaken localDeviceId clientDeviceId
          { folder := received.folder, files := received.files } s

end Messages

/-- **What a handler needs**: in its first section a message that is taken in, in its second one
an id for each block on its list. -/
def HandlerTakes (localDeviceId : DeviceId) (h : IndexHandler) (s : BepState) : Prop :=
  match h.pc with
  | .writeIndices => MessageTaken localDeviceId h.clientDeviceId s h.message
  | .enqueue unstoredBlocks => unstoredBlocks.length ≤ idsLeft s
  | .returned | .panicked _ => True

/-! ## Runs -/

/-- A task that has not begun; connections share one limit. -/
structure Starts (maxPendingRequests : ℕ) (task : ServerTask) : Prop where
  fresh : task.Fresh
  limit : ∀ limit size, task = .connection limit size → limit = maxPendingRequests

/-- What goes on at a node: turns of tasks and calls of the file system, a folder is shared with
a device, and the server is started anew. -/
inductive IntakeEvent (ι : Type) where
  | call (e : CacheEvent ι)
  | initIndex (folder : String) (deviceId : DeviceId)
  | restart (tasks : ι → ServerTask)

section Step

variable {ι : Type} [DecidableEq ι] (readCache : ReadCacheConfig) (storageBackends : List String)
  (hash : String → ℕ → ℕ → UInt64) (sha256 : Bytes → Bytes) (debugRequest : Request → String)
  (debugFiles : List (String × String) → String)

/-- The node with another state. -/
def CacheNode.withState (n : CacheNode ι) (s : BepState) : CacheNode ι :=
  { n with server := { n.server with shared := { n.server.shared with state := s } } }

/-- One event on a node that also shares new folders and restarts. -/
def intakeStep (n : CacheNode ι) : IntakeEvent ι → Option (CacheNode ι)
  | .call e => n.step readCache storageBackends hash sha256 debugRequest debugFiles e
  | .initIndex folder deviceId =>
      some (n.withState { n.state with db := n.state.db.insertIndex folder deviceId })
  | .restart tasks =>
      some { n with server := ⟨{ n.server.shared with
          state := .new n.state.db
          storageManager := .new n.config storageBackends n.server.shared.storageManager.disk },
        tasks⟩ }

end Step

/-- What is needed of an event: the message of a handler whose turn it is is taken in. -/
def TakesIn {ι : Type} (maxPendingRequests : ℕ) (n : CacheNode ι) : IntakeEvent ι → Prop
  | .call (.turn t) => ∀ h, n.server.process t.process = .index h →
      HandlerTakes n.config.localDeviceId h n.state
  | .call _ | .initIndex _ _ => True
  | .restart tasks => ∀ i, Starts maxPendingRequests (tasks i)

/-- **Index handling is safe**: no handler has panicked, each goes on from a section it can take,
and requests can be throttled. -/
structure IndexingSafe {ι : Type} (maxPendingRequests : ℕ) (n : CacheNode ι) : Prop where
  noPanic : ∀ i h, n.server.process i = .index h → ∀ fault, h.pc ≠ .panicked fault
  writes : ∀ i h, n.server.process i = .index h → h.pc = .writeIndices →
    HandlerTakes n.config.localDeviceId h n.state →
      ∃ blocks, (h.act n.server.shared).1.pc = .enqueue blocks
  returns : ∀ i h blocks, n.server.process i = .index h → h.pc = .enqueue blocks →
    HandlerTakes n.config.localDeviceId h n.state →
      (h.act n.server.shared).1.pc = .returned
  throttles : ∀ maxTotalPendingRequestsSize, ∃ requests p',
    (BepProcessor.throttledRequests maxPendingRequests maxTotalPendingRequestsSize).run
      n.server.shared = .ok requests p'

end Grizol.Interface

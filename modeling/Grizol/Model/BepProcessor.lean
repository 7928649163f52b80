import Grizol.Model.BepState
import Grizol.Model.Serialize
import Grizol.Model.StorageManager

/-!
# The processor of messages

`core/bep_processor.rs`: the handlers of `Index`, `IndexUpdate` and `Response`. Each
section that holds the lock of the state is one block here. `debugRequest` is the
`Debug` text of a request, `sha256` the hash of the blocks; the clock and the ends of
file operations and commands are arguments.
-/

set_option autoImplicit false

namespace Grizol.Model

open Grizol.Library
open Grizol.Model.Syncthing

/-- What handling a message can fail with; the spelling of the first is the source's. -/
inductive BepProcessorError where
  | noAssociatedReqeust (message : String)
  | wrongDataInResponse (message : String)
  | errorInResponse (message : String)
  | fileNotInIndex (message : String)
  | storageError (message : String)
  | stateError (message : String)
  deriving DecidableEq, Repr

/-- The server behind its locks: what it was configured with, its state, and its file writers. -/
structure BepProcessor where
  config : GrizolConfig
  state : BepState
  storageManager : StorageManager

/-! ## The difference of two indices -/

/-- `Iterator::max_by_key` on the value of counters: of several the last. -/
def maxCounter : List Counter → Option Counter
  | [] => none
  | counter :: counters =>
      some (counters.foldl (fun m c => if c.value < m.value then m else c) counter)

/-- The counter of a file that decides; a file must have one. -/
def decidingCounter (file : FileInfo) : Rust Counter := do
  let version ← Rust.unwrap file.version
  Rust.unwrap (maxCounter version.counters)

/-- Compares two files by their greatest counters only: equal values at different ids are a
conflict. -/
def partialCmpFileVersion (a b : FileInfo) : Rust (Option Ordering) := do
  let maxCounterA ← decidingCounter a
  let maxCounterB ← decidingCounter b
  pure <|
    if maxCounterA.value < maxCounterB.value then some .lt
    else if maxCounterB.value < maxCounterA.value then some .gt
    else if maxCounterA.value = maxCounterB.value ∧ maxCounterA.id = maxCounterB.id then some .eq
    else none

/-- Compares two files in conflict by their times of change, and by their greatest values when the
times are equal. -/
def partialCmpFileTimestamp (a b : FileInfo) : Rust Ordering :=
  if a.modifiedS < b.modifiedS ∨ a.modifiedS = b.modifiedS ∧ a.modifiedNs < b.modifiedNs then
    pure .lt
  else if b.modifiedS < a.modifiedS ∨ a.modifiedS = b.modifiedS ∧ b.modifiedNs < a.modifiedNs then
    pure .gt
  else do
    let maxCounterA ← decidingCounter a
    let maxCounterB ← decidingCounter b
    pure (compare maxCounterA.value.toNat maxCounterB.value.toNat)

/-- How the files of an added index relate to the existing ones. -/
structure IndexDiff where
  newlyAddedFiles : List FileInfo
  newlyAddedConflictingFiles : List FileInfo
  existingConflictingFiles : List FileInfo
  deriving DecidableEq, Repr

/-- The list of the difference that a file goes to. -/
inductive DiffPlace where
  | newlyAdded
  | newlyAddedConflicting
  | existingConflicting
  | nowhere
  deriving DecidableEq, Repr

/-- The body of the loop of `diff_indices`. -/
def diffFile (existingFile : Option FileInfo) (newlyAddedFile : FileInfo) : Rust DiffPlace :=
  match existingFile with
  | some existingFile => do
      match ← partialCmpFileVersion existingFile newlyAddedFile with
      | some .lt => pure .newlyAdded
      | some .eq => pure .nowhere
      | some .gt => pure .nowhere
      | none => do
          match ← partialCmpFileTimestamp existingFile newlyAddedFile with
          | .lt => pure .newlyAddedConflicting
          | .gt => pure .existingConflicting
          | .eq => throw (.explicit
              "It should mean we are comparing the same file, which should not happen")
  | none => pure .newlyAdded

/-- The loop of `diff_indices`. -/
def diffFiles (existingFiles : AssocMap String FileInfo) : List FileInfo → Rust IndexDiff
  | [] => pure ⟨[], [], []⟩
  | file :: files => do
      let place ← diffFile (existingFiles.get file.name) file
      let rest ← diffFiles existingFiles files
      pure <| match place with
        | .newlyAdded => { rest with newlyAddedFiles := file :: rest.newlyAddedFiles }
        | .newlyAddedConflicting =>
            { rest with newlyAddedConflictingFiles := file :: rest.newlyAddedConflictingFiles }
        | .existingConflicting =>
            { rest with existingConflictingFiles := file :: rest.existingConflictingFiles }
        | .nowhere => rest

/-- Compares each file of the added index with the existing one of its name, the last of it if there
are several. Both folders have to be wrong for the error. -/
def diffIndices (folder : String) (addedIndex existingIndex : Index) :
    Rust (Except String IndexDiff) :=
  if addedIndex.folder ≠ folder ∧ existingIndex.folder ≠ folder then
    pure (.error "The indices cover different folders")
  else do
    let existingFiles := GrizolIndex.insertAll .empty existingIndex.files
    let diff ← diffFiles existingFiles addedIndex.files
    pure (.ok diff)

/-- `diff_indices(..).expect("Should pass the same folders")`. -/
def diffOrPanic (folder : String) (addedIndex existingIndex : Index) : Rust IndexDiff := do
  let diff ← diffIndices folder addedIndex existingIndex
  Rust.expect "Should pass the same folders" diff.toOption

/-! ## Requests for blocks -/

/-- A request for each block, with ids that follow one another. -/
def requestsFromBlocks : Int32 → List BlockInfoExt → Rust (List Request)
  | _, [] => pure []
  | requestId, blockId :: blockIds => do
      if requestId = Int32.maxValue then .error .overflow
      else do
        let request : Request :=
          { id := requestId + 1, folder := blockId.folder, name := blockId.name,
            offset := blockId.offset, size := blockId.size, hash := blockId.hash,
            fromTemporary := false }
        let requests ← requestsFromBlocks (requestId + 1) blockIds
        pure (request :: requests)

/-- Queues a request for each unstored block. The fold that keeps the greater id is written as the
source has it. -/
def storeOutgoingRequests (unstoredBlocks : List BlockInfoExt) (clock : ℕ → ℕ) :
    RustM BepState (List Request) := do
  let baseReqId := (← getThe BepState).requestId
  let requests ← requestsFromBlocks baseReqId unstoredBlocks
  let maxReqId := (requests.map Request.id).foldl (fun m i => if i < m then m else i) baseReqId
  let _ ← BepState.fetchAddRequestId (maxReqId - baseReqId)
  BepState.insertRequests requests clock

namespace BepProcessor

/-- A section that holds the lock of the state. -/
def onState {α : Type} (x : RustM BepState α) : RustM BepProcessor α := fun p =>
  match x.run p.state with
  | .ok a s => .ok a { p with state := s }
  | .error e s => .error e { p with state := s }

/-- A call on the storage manager leaves the rest as it is. -/
def onStorage {α : Type} (x : RustM StorageManager α) : RustM BepProcessor α := fun p =>
  match x.run p.storageManager with
  | .ok a m => .ok a { p with storageManager := m }
  | .error e m => .error e { p with storageManager := m }

/-- A call on the state changes the state only. -/
theorem onState_run {α : Type} (x : RustM BepState α) (p : BepProcessor) :
    RustM.endState ((onState x).run p) =
      { p with state := RustM.endState (x.run p.state) } := by
  unfold onState EStateM.run
  dsimp only
  cases x p.state <;> rfl

/-- A call on the state that returned. -/
theorem onState_eq_ok {α : Type} {x : RustM BepState α} {p : BepProcessor} {a : α}
    {s : BepState} (h : x.run p.state = .ok a s) :
    (onState x).run p = .ok a { p with state := s } := by
  have hrun : (onState x).run p = match x.run p.state with
      | .ok a s => .ok a { p with state := s }
      | .error e s => .error e { p with state := s } := rfl
  rw [hrun, h]

/-- A call on the state that panicked. -/
theorem onState_eq_error {α : Type} {x : RustM BepState α} {p : BepProcessor} {e : Fault}
    {s : BepState} (h : x.run p.state = .error e s) :
    (onState x).run p = .error e { p with state := s } := by
  have hrun : (onState x).run p = match x.run p.state with
      | .ok a s => .ok a { p with state := s }
      | .error e s => .error e { p with state := s } := rfl
  rw [hrun, h]

/-- A call on the storage manager changes the storage manager only. -/
theorem onStorage_run {α : Type} (x : RustM StorageManager α) (p : BepProcessor) :
    RustM.endState ((onStorage x).run p) =
      { p with storageManager := RustM.endState (x.run p.storageManager) } := by
  unfold onStorage EStateM.run
  dsimp only
  cases x p.storageManager <;> rfl

/-- A call on the storage manager that returned. -/
theorem onStorage_eq_ok {α : Type} {x : RustM StorageManager α} {p : BepProcessor} {a : α}
    {m : StorageManager} (h : x.run p.storageManager = .ok a m) :
    (onStorage x).run p = .ok a { p with storageManager := m } := by
  have hrun : (onStorage x).run p = match x.run p.storageManager with
      | .ok a m => .ok a { p with storageManager := m }
      | .error e m => .error e { p with storageManager := m } := rfl
  rw [hrun, h]

/-- A call on the storage manager that panicked. -/
theorem onStorage_eq_error {α : Type} {x : RustM StorageManager α} {p : BepProcessor} {e : Fault}
    {m : StorageManager} (h : x.run p.storageManager = .error e m) :
    (onStorage x).run p = .error e { p with storageManager := m } := by
  have hrun : (onStorage x).run p = match x.run p.storageManager with
      | .ok a m => .ok a { p with storageManager := m }
      | .error e m => .error e { p with storageManager := m } := rfl
  rw [hrun, h]

/-! ## Indices -/

/-- The section of `handle_index_update` that writes the index. -/
def updateIndices (localDeviceId : DeviceId) (receivedIndex : Index) (clientDeviceId : DeviceId) :
    RustM BepState (List BlockInfoExt) := do
  let folder := receivedIndex.folder
  let otherDeviceLocalIndex ← BepState.index folder clientDeviceId
  let otherDeviceLocalIndex ← Rust.expect "The local index must exist" otherDeviceLocalIndex
  let diff ← diffOrPanic folder receivedIndex otherDeviceLocalIndex
  BepState.rmReplaceFileInfo folder clientDeviceId diff.newlyAddedFiles
  let localIndex ← BepState.index folder localDeviceId
  let localIndex ← Rust.expect "The index must exist" localIndex
  let otherDeviceLocalIndex ← BepState.index folder clientDeviceId
  let otherDeviceLocalIndex ← Rust.expect "The index must exist" otherDeviceLocalIndex
  let diff ← diffOrPanic folder otherDeviceLocalIndex localIndex
  BepState.rmReplaceFileInfo folder localDeviceId diff.newlyAddedFiles
  pure ((← getThe BepState).blocksInfo localDeviceId .notStored)

/-- The two sections of the handler of an index update on its own, the lock released between them.
-/
def handleIndexUpdate (indexUpdate : IndexUpdate) (clientDeviceId : DeviceId) (clock : ℕ → ℕ) :
    RustM BepProcessor (List (Except BepProcessorError GrizolEvent)) := do
  let receivedIndex : Index := { folder := indexUpdate.folder, files := indexUpdate.files }
  let localDeviceId := (← getThe BepProcessor).config.localDeviceId
  let unstoredBlocks ← onState (updateIndices localDeviceId receivedIndex clientDeviceId)
  let _ ← onState (storeOutgoingRequests unstoredBlocks clock)
  pure [.ok .requestCreated]

/-- The section of `handle_index` that writes the index. -/
def replaceIndices (localDeviceId : DeviceId) (receivedIndex : Index) (clientDeviceId : DeviceId) :
    RustM BepState (List BlockInfoExt) := do
  let folder := receivedIndex.folder
  BepState.replaceIndex receivedIndex clientDeviceId
  let localIndex ← BepState.index folder localDeviceId
  let localIndex ← Rust.expect "The local index must exist" localIndex
  let diff ← diffOrPanic folder receivedIndex localIndex
  BepState.insertFileInfo folder localDeviceId diff.newlyAddedFiles
  pure ((← getThe BepState).blocksInfo localDeviceId .notStored)

/-- The two sections of the handler of an index on its own. -/
def handleIndex (receivedIndex : Index) (clientDeviceId : DeviceId) (clock : ℕ → ℕ) :
    RustM BepProcessor (List (Except BepProcessorError GrizolEvent)) := do
  let localDeviceId := (← getThe BepProcessor).config.localDeviceId
  let unstoredBlocks ← onState (replaceIndices localDeviceId receivedIndex clientDeviceId)
  let _ ← onState (storeOutgoingRequests unstoredBlocks clock)
  pure [.ok .requestCreated]

/-! ## Responses -/

/-- The ends of the file operations and commands of one response. -/
structure ResponseOutcomes where
  store : StorageOutcomes
  conclude : StorageOutcomes
  command : ℕ → List String → CommandOutcome
  remove : Outcome

variable (hash : String → ℕ → ℕ → UInt64) (sha256 : Bytes → Bytes)
  (debugRequest : Request → String)

/-- The `Debug` text of bytes. -/
def debugBytes (bytes : Bytes) : String := toString (bytes.map UInt8.toNat)

/-- The hash of the data must be the one that was asked for; the error names both. -/
def checkData (data hash : Bytes) : Except String Unit :=
  let dataHash := sha256 data
  if dataHash = hash then .ok ()
  else .error ("Hash of incoming data does not match requested data, expected " ++
    debugBytes hash ++ ", got " ++ debugBytes dataHash)

/-- `try_into().unwrap()` of a size of the database. -/
def toSize (x : ℤ) : Rust ℕ := Rust.unwrap (if 0 ≤ x then some x.toNat else none)

/-- The copies of a complete file and its removal from the local disk. -/
def uploadFile (request : Request) (outcomes : ResponseOutcomes) :
    RustM BepProcessor (Except BepProcessorError Unit) := do
  let config := (← getThe BepProcessor).config
  let copied ← (← getThe BepProcessor).storageManager.cpLocalToRemote outcomes.command
    request.folder request.name
  match copied with
  | .error e => pure (.error (.storageError e))
  | .ok locations => do
      onState (BepState.updateFileLocations request.folder config.localDeviceId request.name
        locations)
      if config.storageStrategy = .remote then
        onState (BepState.removeFileLocations request.folder config.localDeviceId request.name
          ["local"])
        match ← onStorage (StorageManager.rmLocalFile request.folder request.name
            outcomes.remove) with
        | .error e => pure (.error (.storageError e))
        | .ok () => pure (.ok ())
      else pure (.ok ())

/-- `store_response_data` up to the copies: whether the file is complete. -/
def completeFile (request : Request) (response : Response) (outcomes : ResponseOutcomes) :
    RustM BepProcessor (Except BepProcessorError Bool) := do
  match checkData sha256 response.data request.hash with
  | .error e =>
      pure (.error (.wrongDataInResponse
        ("Wrong data received for request " ++ debugRequest request ++ ": " ++ e)))
  | .ok () => do
      let p ← getThe BepProcessor
      match p.state.fileInfo request.folder p.config.localDeviceId request.name with
      | none =>
          pure (.error (.fileNotInIndex
            ("Requesting a file not in the local index: " ++ request.name)))
      | some fileInfo => do
          let fileSize ← toSize fileInfo.size.toInt
          let blockSize ← toSize fileInfo.blockSize.toInt
          match ← onStorage (StorageManager.storeBlockConcurrently hash response.data request
              fileSize blockSize outcomes.store) with
          | .error e => pure (.error (.storageError ("Storing Block: " ++ e.message)))
          | .ok () => do
              match ← onState (BepState.updateBlockStorageState response.id
                  p.config.localDeviceId) with
              | .error e => pure (.error (.stateError e))
              | .ok .blocksMissing => pure (.ok false)
              | .ok .allBlocks => do
                  match ← onStorage (StorageManager.concludeBlockStorage hash request fileSize
                      blockSize outcomes.conclude) with
                  | .error e =>
                      pure (.error (.storageError ("Concluding Block Storage: " ++ e.message)))
                  | .ok () => pure (.ok true)

/-- `store_response_data`; both strategies copy. -/
def storeResponseData (request : Request) (response : Response) (outcomes : ResponseOutcomes) :
    RustM BepProcessor (Except BepProcessorError Unit) := do
  match ← completeFile hash sha256 debugRequest request response outcomes with
  | .error e => pure (.error e)
  | .ok false => pure (.ok ())
  | .ok true => uploadFile request outcomes

/-- A response with data on its own: the request is forgotten also when the data could not be
stored. -/
def processResponse (response : Response) (outcomes : ResponseOutcomes) :
    RustM BepProcessor (Except BepProcessorError GrizolEvent) := do
  match (← getThe BepProcessor).state.getRequest response.id with
  | some request => do
      let stored ← storeResponseData hash sha256 debugRequest request response outcomes
      let _ ← onState (BepState.removeRequest response.id)
      match stored with
      | .error e => pure (.error e)
      | .ok () => pure (.ok .requestProcessed)
  | none =>
      pure (.error (.noAssociatedReqeust
        ("Response with id " ++ toString response.id ++ " does not have a corresponding request")))

/-- `handle_response`: a response with an error goes no further. -/
def handleResponse (response : Response) (outcomes : ResponseOutcomes) :
    RustM BepProcessor (List (Except BepProcessorError GrizolEvent)) := do
  let code ← Rust.expect "Enum value must be valid" (ErrorCode.ofInt32 response.code)
  if ErrorCode.noError ≠ code then
    pure [.error (.errorInResponse ("Request with id " ++ toString response.id ++
      " genereated response containing error: " ++ toString response.code ++ " "))]
  else do
    let res ← processResponse hash sha256 debugRequest response outcomes
    pure [res]

/-- `throttled_requests`: the requests to send now. -/
def throttledRequests (maxPendingRequests maxTotalPendingRequestsSize : ℕ) :
    RustM BepProcessor (List Request) :=
  onState (BepState.updatePendingRequests maxPendingRequests maxTotalPendingRequestsSize)

end BepProcessor

end Grizol.Model

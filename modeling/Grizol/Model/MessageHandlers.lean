import Grizol.Library.Interleaving
import Grizol.Model.BepProcessor

/-!
# Handlers that take turns

The handlers of `core/bep_processor.rs` await the lock of the state several times and do
file operations in between, so handlers of different messages take turns. A turn is
one section that holds the lock, one step of the file writer, one operation on a file
or one command, with the computation up to the next. The guard that the map of writers
gives out keeps other calls on the same part of the map waiting; the turns here are
not restricted by it, so that their orders include those of the code. Which of them the
guards leave is said in `GuardedServer`.
-/

set_option autoImplicit false

namespace Grizol.Model

open Grizol.Library
open Grizol.Model.Syncthing

/-- How what a turn asks for ends: a file operation, a command. -/
structure TurnOutcome where
  file : Outcome
  command : CommandOutcome

/-! ## Responses -/

/-- Where `process_response` and, inside it, `store_response_data` stand. -/
inductive ResponsePc where
  | getRequest
  | fileInfo (request : Request)
  | createDir (request : Request) (fileSize blockSize : ℕ)
  | openWriter (request : Request) (fileSize blockSize : ℕ)
  | writeChunk (request : Request) (fileSize blockSize offset : ℕ) (pc : FileWriter.WritePc)
  | updateState (request : Request) (fileSize blockSize : ℕ)
  | concludeWriter (request : Request) (fileSize blockSize : ℕ)
  | consolidate (request : Request) (pc : FileWriter.ConsolidatePc)
  | copy (request : Request) (n : ℕ) (storageBackends : List String)
      (copied : List (String × String))
  | updateLocations (request : Request) (locations : List (String × String))
  | removeLocations (request : Request)
  | removeFile (request : Request)
  | removeRequest (stored : Except BepProcessorError Unit)
  | returned (result : Except BepProcessorError GrizolEvent)
  | panicked (fault : Fault)

/-- A handler of a response; `stored` and `uploadStatus` are the results of
`store_block_concurrently` and `update_block_storage_state`, once they are there. -/
structure ResponseHandler where
  response : Response
  pc : ResponsePc
  stored : Option (Except IoError Unit)
  uploadStatus : Option (Except String UploadStatus)

namespace ResponseHandler

variable (hash : String → ℕ → ℕ → UInt64) (sha256 : Bytes → Bytes)
  (debugRequest : Request → String)

/-- The handler of a response that has just come. -/
def new (response : Response) : ResponseHandler := ⟨response, .getRequest, none, none⟩

variable (h : ResponseHandler) (p : BepProcessor)

/-- The handler goes on at another point. -/
def goto (pc : ResponsePc) : ResponseHandler := { h with pc := pc }

/-- The handler goes on after a section, or panics in it. -/
def continueWith {α : Type} (x : RustM BepProcessor α) (next : α → ResponseHandler) :
    ResponseHandler × BepProcessor :=
  match x.run p with
  | .ok a p => (next a, p)
  | .error e p => (h.goto (.panicked e), p)

/-- The check of the data and the section that reads the sizes of the file. -/
def actFileInfo (request : Request) : ResponseHandler :=
  match BepProcessor.checkData sha256 h.response.data request.hash with
  | .error e =>
      h.goto (.removeRequest (.error (.wrongDataInResponse
        ("Wrong data received for request " ++ debugRequest request ++ ": " ++ e))))
  | .ok () =>
      match p.state.fileInfo request.folder p.config.localDeviceId request.name with
      | none =>
          h.goto (.removeRequest (.error (.fileNotInIndex
            ("Requesting a file not in the local index: " ++ request.name))))
      | some fileInfo =>
          match BepProcessor.toSize fileInfo.size.toInt,
              BepProcessor.toSize fileInfo.blockSize.toInt with
          | .ok fileSize, .ok blockSize => h.goto (.createDir request fileSize blockSize)
          | .error e, _ => h.goto (.panicked e)
          | _, .error e => h.goto (.panicked e)

/-- `store_block_concurrently` returned. -/
def afterStore (request : Request) (fileSize blockSize : ℕ) (result : Except IoError Unit) :
    ResponseHandler :=
  { h with
    pc := match result with
      | .error e => .removeRequest (.error (.storageError ("Storing Block: " ++ e.message)))
      | .ok () => .updateState request fileSize blockSize
    stored := some result }

/-- The first turn of `store_block_concurrently`. -/
def actCreateDir (request : Request) (fileSize blockSize : ℕ) (outcome : Outcome) :
    ResponseHandler :=
  if StorageManager.hasParent
      (p.storageManager.absPath (StorageManager.fileRelPath request)) = true then
    match outcome with
    | .fails _ => h.afterStore request fileSize blockSize (.error FileWriter.osError)
    | .ok => h.goto (.openWriter request fileSize blockSize)
  else h.goto (.panicked .unwrap)

/-- The writer of the file is looked up; then the offset must be a `usize`. The turn does not
wait for the guard of another handler: what holds of all orders holds of those that do. -/
def actOpenWriter (request : Request) (fileSize blockSize : ℕ) :
    ResponseHandler × BepProcessor :=
  let key := StorageManager.fileRelPath request
  h.continueWith p (BepProcessor.onStorage (StorageManager.entryWriter hash key
      (p.storageManager.absPath key) fileSize blockSize)) fun _ =>
    match StorageManager.toUsize request.offset with
    | none => h.goto (.panicked .unwrap)
    | some offset => h.goto (.writeChunk request fileSize blockSize offset .check)

/-- A step of `write_chunk` on the writer of the file. -/
def actWriteChunk (request : Request) (fileSize blockSize offset : ℕ) (pc : FileWriter.WritePc)
    (outcome : Outcome) : ResponseHandler × BepProcessor :=
  let key := StorageManager.fileRelPath request
  let m := p.storageManager
  match m.fileWriters.get key with
  | none => (h, p)
  | some w =>
      let (w, disk, pc) := w.writeStep m.disk h.response.data offset outcome pc
      (match pc with
        | .returned result => h.afterStore request fileSize blockSize result
        | .panicked fault => h.goto (.panicked fault)
        | pc => h.goto (.writeChunk request fileSize blockSize offset pc),
      { p with storageManager :=
        { m with fileWriters := m.fileWriters.insert key w, disk := disk } })

/-- The section that marks the block. -/
def actUpdateState (request : Request) (fileSize blockSize : ℕ) : ResponseHandler × BepProcessor :=
  h.continueWith p (BepProcessor.onState (BepState.updateBlockStorageState h.response.id
      p.config.localDeviceId)) fun result =>
    { h with
      pc := match result with
        | .error e => .removeRequest (.error (.stateError e))
        | .ok .blocksMissing => .removeRequest (.ok ())
        | .ok .allBlocks => .concludeWriter request fileSize blockSize
      uploadStatus := some result }

/-- The writer of the file is looked up for the conclusion, again without waiting for a guard. -/
def actConcludeWriter (request : Request) (fileSize blockSize : ℕ) :
    ResponseHandler × BepProcessor :=
  let key := StorageManager.fileRelPath request
  h.continueWith p (BepProcessor.onStorage (StorageManager.entryWriter hash key key fileSize
      blockSize)) fun _ => h.goto (.consolidate request .enter)

/-- A step of `consolidate` on the writer of the file. -/
def actConsolidate (request : Request) (pc : FileWriter.ConsolidatePc) (outcome : Outcome) :
    ResponseHandler × BepProcessor :=
  let key := StorageManager.fileRelPath request
  let m := p.storageManager
  match m.fileWriters.get key with
  | none => (h, p)
  | some w =>
      let (w, disk, pc) := w.consolidateStep m.disk outcome pc
      (match pc with
        | .returned (.error e) => h.goto (.removeRequest (.error (.storageError
            ("Concluding Block Storage: " ++ e.message))))
        | .returned (.ok _) => h.goto (.copy request 0 m.storageBackends [])
        | pc => h.goto (.consolidate request pc),
      { p with storageManager :=
        { m with fileWriters := m.fileWriters.insert key w, disk := disk } })

/-- A turn of the loop of `cp_local_to_remote`. -/
def actCopy (request : Request) (n : ℕ) (copied : List (String × String))
    (outcome : CommandOutcome) : List String → ResponseHandler
  | [] => h.goto (.updateLocations request copied)
  | storageBackend :: rest =>
      match outcome with
      | .notStarted => h.goto (.panicked (.expect "command failed to start"))
      | .waitFails => h.goto (.panicked (.expect "command failed to run"))
      | .exits _ => h.goto (.copy request (n + 1) rest (copied ++
          [(storageBackend,
            p.storageManager.copyDest request.folder request.name storageBackend)]))

/-- The section that records where the file has been copied to. -/
def actUpdateLocations (request : Request) (locations : List (String × String)) :
    ResponseHandler × BepProcessor :=
  h.continueWith p (BepProcessor.onState (BepState.updateFileLocations request.folder
      p.config.localDeviceId request.name locations)) fun _ =>
    if p.config.storageStrategy = .remote then h.goto (.removeLocations request)
    else h.goto (.removeRequest (.ok ()))

/-- The section that forgets the location on this host. -/
def actRemoveLocations (request : Request) : ResponseHandler × BepProcessor :=
  h.continueWith p (BepProcessor.onState (BepState.removeFileLocations request.folder
      p.config.localDeviceId request.name ["local"])) fun _ => h.goto (.removeFile request)

/-- The section that removes the local file. -/
def actRemoveFile (request : Request) (outcome : Outcome) : ResponseHandler × BepProcessor :=
  h.continueWith p (BepProcessor.onStorage (StorageManager.rmLocalFile request.folder
      request.name outcome)) fun result =>
    h.goto (.removeRequest (match result with
      | .error e => .error (.storageError e)
      | .ok () => .ok ()))

/-- The section that removes the request. -/
def actRemoveRequest (stored : Except BepProcessorError Unit) : ResponseHandler × BepProcessor :=
  h.continueWith p (BepProcessor.onState (BepState.removeRequest h.response.id)) fun _ =>
    h.goto (.returned (match stored with
      | .error e => .error e
      | .ok () => .ok .requestProcessed))

/-- One turn of `process_response`. -/
def act (outcome : TurnOutcome) : ResponseHandler × BepProcessor :=
  match h.pc with
  | .getRequest =>
      match p.state.getRequest h.response.id with
      | some request => (h.goto (.fileInfo request), p)
      | none =>
          (h.goto (.returned (.error (.noAssociatedReqeust ("Response with id " ++
            toString h.response.id ++ " does not have a corresponding request")))), p)
  | .fileInfo request => (h.actFileInfo sha256 debugRequest p request, p)
  | .createDir request fileSize blockSize =>
      (h.actCreateDir p request fileSize blockSize outcome.file, p)
  | .openWriter request fileSize blockSize => h.actOpenWriter hash p request fileSize blockSize
  | .writeChunk request fileSize blockSize offset pc =>
      h.actWriteChunk p request fileSize blockSize offset pc outcome.file
  | .updateState request fileSize blockSize => h.actUpdateState p request fileSize blockSize
  | .concludeWriter request fileSize blockSize =>
      h.actConcludeWriter hash p request fileSize blockSize
  | .consolidate request pc => h.actConsolidate p request pc outcome.file
  | .copy request n storageBackends copied =>
      (h.actCopy p request n copied outcome.command storageBackends, p)
  | .updateLocations request locations => h.actUpdateLocations p request locations
  | .removeLocations request => h.actRemoveLocations p request
  | .removeFile request => h.actRemoveFile p request outcome.file
  | .removeRequest stored => h.actRemoveRequest p stored
  | .returned _ | .panicked _ => (h, p)

end ResponseHandler

/-! ## Indices -/

/-- The message of a handler that writes indices. -/
inductive IndexMessage where
  | index (received : Index)
  | indexUpdate (received : IndexUpdate)

/-- Where `handle_index` or `handle_index_update` stands; the blocks that are not stored go
from its first section to its second. -/
inductive IndexPc where
  | writeIndices
  | enqueue (unstoredBlocks : List BlockInfoExt)
  | returned
  | panicked (fault : Fault)

/-- A handler of an `Index` or an `IndexUpdate`; `clock` is what its second section reads. -/
structure IndexHandler where
  message : IndexMessage
  clientDeviceId : DeviceId
  clock : ℕ → ℕ
  pc : IndexPc

namespace IndexHandler

/-- The handler of an index that has just come. -/
def new (message : IndexMessage) (clientDeviceId : DeviceId) (clock : ℕ → ℕ) : IndexHandler :=
  ⟨message, clientDeviceId, clock, .writeIndices⟩

variable (h : IndexHandler) (p : BepProcessor)

/-- The first section. -/
def writeIndices (localDeviceId : DeviceId) : RustM BepState (List BlockInfoExt) :=
  match h.message with
  | .index received => BepProcessor.replaceIndices localDeviceId received h.clientDeviceId
  | .indexUpdate received =>
      BepProcessor.updateIndices localDeviceId
        { folder := received.folder, files := received.files } h.clientDeviceId

/-- One turn of the handler. -/
def act : IndexHandler × BepProcessor :=
  match h.pc with
  | .writeIndices =>
      match (BepProcessor.onState (h.writeIndices p.config.localDeviceId)).run p with
      | .ok unstoredBlocks p => ({ h with pc := .enqueue unstoredBlocks }, p)
      | .error e p => ({ h with pc := .panicked e }, p)
  | .enqueue unstoredBlocks =>
      match (BepProcessor.onState (storeOutgoingRequests unstoredBlocks h.clock)).run p with
      | .ok _ p => ({ h with pc := .returned }, p)
      | .error e p => ({ h with pc := .panicked e }, p)
  | .returned | .panicked _ => (h, p)

end IndexHandler

/-! ## Tasks -/

/-- The tasks that share a processor: handlers of messages, and the loop of a connection, which
asks for the requests to send whenever it is told of an event. -/
inductive ServerTask where
  | index (h : IndexHandler)
  | response (h : ResponseHandler)
  | connection (maxPendingRequests maxTotalPendingRequestsSize : ℕ)

namespace ServerTask

/-- One turn of a task. -/
def act (hash : String → ℕ → ℕ → UInt64) (sha256 : Bytes → Bytes) (debugRequest : Request → String)
    (outcome : TurnOutcome) : ServerTask → BepProcessor → ServerTask × BepProcessor
  | .index h, p =>
      let (h, p) := h.act p
      (.index h, p)
  | .response h, p =>
      let (h, p) := h.act hash sha256 debugRequest p outcome
      (.response h, p)
  | .connection maxPendingRequests maxTotalPendingRequestsSize, p =>
      (.connection maxPendingRequests maxTotalPendingRequestsSize, RustM.endState
        ((BepProcessor.throttledRequests maxPendingRequests maxTotalPendingRequestsSize).run p))

/-- A handler that has not begun, or the loop of a connection. -/
def Fresh : ServerTask → Prop
  | .index h => h.pc = .writeIndices
  | .response h => h = .new h.response
  | .connection _ _ => True

end ServerTask

end Grizol.Model

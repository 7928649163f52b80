import Grizol.Analysis.AnnouncedFolders
import Grizol.Analysis.BlockRequests
import Grizol.Analysis.SentRequests
import Grizol.Interface.ReceivedBlocks

/-!
# No block is stored whose bytes did not come

The handler of a response looks up the request of its id twice: first for the hash it checks the
data against, and then, when the block was written, for the one it marks. In between the
queue is not its own. An id is given out once, so there is the same request under it
the second time, or none (`HoldsRequest`), and what is marked is what was checked.
-/

set_option autoImplicit false

namespace Grizol.Analysis

open Grizol.Library Grizol.Model Grizol.Interface
open Grizol.Model.Syncthing

variable {codec : Codec} {hash : String → ℕ → ℕ → UInt64} {sha256 : Bytes → Bytes}
  {debugRequest : Request → String} {config : ConnectionConfig}

/-! ## Requests that are held -/

/-- Under the id of the response there is this request, or none any more. -/
structure HoldsRequest (s : BepState) (x : Response) (request : Request) : Prop where
  given : x.id.toInt ≤ s.requestId.toInt
  same : ∀ r, s.outgoingRequests.get x.id = some r → r = request

/-- A handler holds its request while the ids are kept. -/
theorem HoldsRequest.of_kept {s s' : BepState} {x : Response} {request : Request}
    (h : HoldsRequest s x request) (hids : IdsKept s s') : HoldsRequest s' x request where
  given := h.given.trans hids.requestId_le
  same r hr := h.same r (hids.same x.id r h.given hr)

/-- What a handler knows where it stands: until it has marked the block it holds its request, and
from the check on the data has the hash of the request. -/
def ResponseHolds (sha256 : Bytes → Bytes) (s : BepState) (x : Response) : ResponsePc → Prop
  | .fileInfo request => HoldsRequest s x request
  | .createDir request _ _ | .openWriter request _ _ | .writeChunk request _ _ _ _
  | .updateState request _ _ => HoldsRequest s x request ∧ sha256 x.data = request.hash
  | _ => True

/-- So at every point. -/
theorem ResponseHolds.of_kept {s s' : BepState} {x : Response} {pc : ResponsePc}
    (h : ResponseHolds sha256 s x pc) (hids : IdsKept s s') : ResponseHolds sha256 s' x pc := by
  cases pc with
  | fileInfo request => exact HoldsRequest.of_kept h hids
  | createDir request fileSize blockSize => exact ⟨h.1.of_kept hids, h.2⟩
  | openWriter request fileSize blockSize => exact ⟨h.1.of_kept hids, h.2⟩
  | writeChunk request fileSize blockSize offset pc => exact ⟨h.1.of_kept hids, h.2⟩
  | updateState request fileSize blockSize => exact ⟨h.1.of_kept hids, h.2⟩
  | _ => trivial

section Turns

variable {p : BepProcessor} {s : BepState} {h : ResponseHandler}

/-- And behind a section. -/
theorem responseHolds_continueWith {α : Type} {x : RustM BepProcessor α}
    {next : α → ResponseHandler} {response : Response}
    (hnext : ∀ a, ResponseHolds sha256 s response (next a).pc) :
    ResponseHolds sha256 s response (h.continueWith p x next).1.pc := by
  rcases continueWith_fst h p x next with ⟨a, ha⟩ | ⟨e, he⟩
  · rw [ha]
    exact hnext a
  · rw [he]
    trivial

/-- And behind the write. -/
theorem responseHolds_afterStore {request : Request} {fileSize blockSize : ℕ}
    {response : Response} (result : Except IoError Unit)
    (hheld : HoldsRequest s response request ∧ sha256 response.data = request.hash) :
    ResponseHolds sha256 s response (h.afterStore request fileSize blockSize result).pc := by
  cases result with
  | error e => trivial
  | ok u => exact hheld

/-- Data that passes the check has the hash. -/
theorem hash_of_checkData {data blockHash : Bytes}
    (h : BepProcessor.checkData sha256 data blockHash = .ok ()) : sha256 data = blockHash := by
  unfold BepProcessor.checkData at h
  dsimp only at h
  split_ifs at h with hsame
  exact hsame

/-- One turn of `process_response`: the request is looked up, the data is checked, and both are
kept up to the section that marks. -/
theorem responseHolds_act (hinv : QueueInStep p.state)
    (hh : ResponseHolds sha256 p.state h.response h.pc) (outcome : TurnOutcome) :
    ResponseHolds sha256 p.state h.response
      (h.act hash sha256 debugRequest p outcome).1.pc := by
  unfold ResponseHandler.act
  cases hpc : h.pc with
  | getRequest =>
      dsimp only
      split
      · rename_i request hrequest
        exact ⟨hinv.id_le _ _ hrequest, fun r hr => Option.some.inj (hr.symm.trans hrequest)⟩
      · trivial
  | fileInfo request =>
      rw [hpc] at hh
      dsimp only [ResponseHandler.actFileInfo]
      split
      · trivial
      · rename_i hchecked
        have hdata := hash_of_checkData hchecked
        split
        · trivial
        · split
          · exact ⟨hh, hdata⟩
          · trivial
          · trivial
  | createDir request fileSize blockSize =>
      rw [hpc] at hh
      dsimp only [ResponseHandler.actCreateDir]
      split_ifs
      · split
        · exact responseHolds_afterStore _ hh
        · exact hh
      · trivial
  | openWriter request fileSize blockSize =>
      rw [hpc] at hh
      refine responseHolds_continueWith fun w => ?_
      split
      · trivial
      · exact hh
  | writeChunk request fileSize blockSize offset pc =>
      rw [hpc] at hh
      dsimp only [ResponseHandler.actWriteChunk]
      split
      · rw [hpc]
        exact hh
      · dsimp only
        split
        · exact responseHolds_afterStore _ hh
        · trivial
        · exact hh
  | updateState request fileSize blockSize =>
      refine responseHolds_continueWith fun result => ?_
      dsimp only
      split <;> trivial
  | concludeWriter request fileSize blockSize => exact responseHolds_continueWith fun _ => trivial
  | consolidate request pc =>
      dsimp only [ResponseHandler.actConsolidate]
      split
      · rw [hpc]
        trivial
      · dsimp only
        split <;> trivial
  | copy request n storageBackends copied =>
      cases storageBackends with
      | nil => trivial
      | cons storageBackend rest =>
          dsimp only [ResponseHandler.actCopy]
          split <;> trivial
  | updateLocations request locations =>
      refine responseHolds_continueWith fun _ => ?_
      split_ifs <;> trivial
  | removeLocations request => exact responseHolds_continueWith fun _ => trivial
  | removeFile request => exact responseHolds_continueWith fun _ => trivial
  | removeRequest stored => exact responseHolds_continueWith fun _ => trivial
  | returned result =>
      rw [hpc]
      trivial
  | panicked e =>
      rw [hpc]
      trivial

/-! ## Rows that are marked -/

variable {db : Database} {localDeviceId : DeviceId} {responded : List Response}
  {t : ServerState}

/-- No row is stored that was not. -/
theorem storesReceived_of_shrinks {s s' : BepState}
    (hs : StoresReceived sha256 db localDeviceId responded s)
    (hshrinks : StoredShrinks s.db s'.db) :
    StoresReceived sha256 db localDeviceId responded s' :=
  fun key row hrow hstored => hs key row (hshrinks key row hrow hstored) hstored

/-- With more responses, what is stored was still received. -/
theorem storesReceived_mono {responded' : List Response}
    (hs : StoresReceived sha256 db localDeviceId responded s) (hmore : responded ⊆ responded') :
    StoresReceived sha256 db localDeviceId responded' s := fun key row hrow hstored =>
  (hs key row hrow hstored).imp_right fun ⟨hdevice, x, hx, hbrings⟩ =>
    ⟨hdevice, x, hmore hx, hbrings⟩

/-- What the handler of a response knows. -/
def HandlerHolds (sha256 : Bytes → Bytes) (responded : List Response) (s : BepState) :
    MessageHandler → Prop
  | .response h => h.response ∈ responded ∧ ErrorCode.ofInt32 h.response.code = some .noError ∧
      ResponseHolds sha256 s h.response h.pc
  | _ => True

/-- With more responses, any handler still holds what it did. -/
theorem HandlerHolds.of_kept {responded' : List Response} {s s' : BepState} {h : MessageHandler}
    (hh : HandlerHolds sha256 responded s h) (hmore : responded ⊆ responded')
    (hids : IdsKept s s') : HandlerHolds sha256 responded' s' h := by
  cases h with
  | response h => exact ⟨hmore hh.1, hh.2.1, hh.2.2.of_kept hids⟩
  | _ => trivial

/-- The section that marks marks what was checked. -/
theorem storesReceived_response
    (hs : StoresReceived sha256 db p.config.localDeviceId responded p.state)
    (hh : HandlerHolds sha256 responded p.state (.response h)) (outcome : TurnOutcome) :
    StoresReceived sha256 db p.config.localDeviceId responded
      (h.act hash sha256 debugRequest p outcome).2.state := by
  rw [(act_state h p outcome).1]
  unfold stateAfter
  cases hpc : h.pc with
  | updateState request fileSize blockSize =>
      dsimp only
      rcases updateBlockStorageState_run h.response.id p.config.localDeviceId p.state with
        ⟨e, hrun⟩ | ⟨r, status, hr, hrun⟩
      · rw [hrun]
        exact hs
      · rw [hrun]
        obtain ⟨hresponse, hcode, hheld⟩ := hh
        rw [hpc] at hheld
        obtain ⟨hheld, hdata⟩ := hheld
        obtain rfl := hheld.same r hr
        intro key row hrow hstored
        rcases get_markHash hrow with ⟨hfile, hhash⟩ | hrow
        · refine .inr ⟨by rw [hfile], h.response, hresponse, hcode, ?_⟩
          rw [hdata, hhash]
        · exact hs key row hrow hstored
  | updateLocations request locations =>
      have hrows := updateFileLocations_rows request.folder p.config.localDeviceId request.name
        locations p.state
      exact storesReceived_of_shrinks hs (.of_same hrows.blocks)
  | removeRequest stored =>
      dsimp only
      rw [BepState.removeRequest, onQueue_run]
      exact hs
  | removeLocations request => exact hs
  | _ => exact hs

/-- A turn of any handler. -/
theorem storesReceived_act
    (hs : StoresReceived sha256 db t.processor.config.localDeviceId responded t.processor.state)
    {h : MessageHandler} (hh : HandlerHolds sha256 responded t.processor.state h)
    (outcome : TurnOutcome) :
    StoresReceived sha256 db t.processor.config.localDeviceId responded
      (h.act hash sha256 debugRequest outcome t).2.processor.state := by
  cases h with
  | clusterConfig h => exact storesReceived_of_shrinks hs (.of_same (shares_act h t).blocks)
  | index h =>
      dsimp only [MessageHandler.act]
      cases hpc : h.pc with
      | writeIndices =>
          rw [(act_writeIndices t.processor hpc).1]
          exact storesReceived_of_shrinks hs
            (storedShrinks_of_writes (writeIndices_writes _ _ h).db)
      | enqueue blocks =>
          rw [(act_enqueue t.processor hpc).1]
          have hdb := storeOutgoingRequests_db blocks h.clock t.processor.state
          exact storesReceived_of_shrinks hs (.of_same (by rw [hdb]))
      | returned | panicked e =>
          unfold IndexHandler.act
          rw [hpc]
          exact hs
  | response h => exact storesReceived_response hs hh outcome
  | returned results | panicked e => exact hs

/-- A handler still knows it after its own turn. -/
theorem handlerHolds_act (hinv : QueueInStep t.processor.state) {h : MessageHandler}
    (hh : HandlerHolds sha256 responded t.processor.state h) (outcome : TurnOutcome)
    (hids : IdsKept t.processor.state
      (h.act hash sha256 debugRequest outcome t).2.processor.state) :
    HandlerHolds sha256 responded (h.act hash sha256 debugRequest outcome t).2.processor.state
      (h.act hash sha256 debugRequest outcome t).1 := by
  cases h with
  | response h =>
      obtain ⟨hresponse, hcode, hheld⟩ := hh
      have hafter : ResponseHolds sha256 _ h.response
          (h.act hash sha256 debugRequest t.processor outcome).1.pc :=
        (responseHolds_act hinv hheld outcome).of_kept hids
      dsimp only [MessageHandler.act, MessageHandler.ofResponse]
      split
      · trivial
      · trivial
      · refine ⟨?_, ?_, ?_⟩
        all_goals rw [act_response]
        · exact hresponse
        · exact hcode
        · exact hafter
  | clusterConfig h =>
      dsimp only [MessageHandler.act, MessageHandler.ofClusterConfig]
      split <;> trivial
  | index h =>
      dsimp only [MessageHandler.act, MessageHandler.ofIndex]
      split <;> trivial
  | returned results | panicked e => trivial

end Turns

/-! ## Runs -/

section Runs

variable {db : Database} {localDeviceId : DeviceId} {responded : List Response}
  {s s' : ServerState} {k k' : Connection} {event : ConnectionEvent} {r : ConnectionRecord}

variable (config) in
/-- The loop keeps the queue in step. -/
theorem queueInStep_requestsFor {p : BepProcessor} (hinv : QueueInStep p.state)
    (event : GrizolEvent) :
    QueueInStep (RustM.endState ((Connection.requestsFor config event).run p)).state ∧
      IdsKept p.state (RustM.endState ((Connection.requestsFor config event).run p)).state ∧
      (RustM.endState ((Connection.requestsFor config event).run p)).state.db = p.state.db := by
  cases event with
  | message m => exact ⟨hinv, .of_same rfl rfl, rfl⟩
  | requestProcessed | requestCreated =>
      obtain ⟨hstep, hids⟩ := queueInStep_connection hinv config.maxPendingRequests
        config.maxTotalPendingRequestsSize
      refine ⟨hstep, hids, ?_⟩
      dsimp only [Connection.requestsFor]
      rw [BepProcessor.throttledRequests, BepProcessor.onState_run,
        BepState.updatePendingRequests, onQueue_run]

/-- No step of any connection gives an id to another request. -/
theorem idsKept_of_moved (hinv : QueueInStep s.processor.state)
    (hmoved : Moved codec hash sha256 debugRequest config k s event k' s') :
    QueueInStep s'.processor.state ∧ IdsKept s.processor.state s'.processor.state := by
  have hsame : QueueInStep s.processor.state ∧ IdsKept s.processor.state s.processor.state :=
    ⟨hinv, .of_same rfl rfl⟩
  cases hmoved with
  | turn i input task task' queued s' htask hturned hqueued =>
      cases hturned with
      | act h messages =>
          obtain ⟨hstep, hleaves⟩ := leavesSent_act hinv h input.outcome
          exact ⟨hstep, hleaves.ids⟩
      | _ => exact hsame
  | broken event events p outcome hevents hp hwritten =>
      obtain ⟨hstep, hids, -⟩ := queueInStep_requestsFor config hinv event
      rw [hp]
      exact ⟨hstep, hids⟩
  | wrote event events requests p data outcome hevents hrequests hdata =>
      obtain ⟨hstep, hids, -⟩ := queueInStep_requestsFor config hinv event
      rw [hrequests] at hstep hids
      exact ⟨hstep, hids⟩
  | _ => exact hsame

/-- The state that all connections share, and the responses that were taken. -/
structure ReceivedInStep (sha256 : Bytes → Bytes) (db : Database) (localDeviceId : DeviceId)
    (responded : List Response) (s : ServerState) : Prop where
  device : s.processor.config.localDeviceId = localDeviceId
  inStep : QueueInStep s.processor.state
  stores : StoresReceived sha256 db localDeviceId responded s.processor.state

/-- What is known of the handlers of a connection. -/
abbrev ClientHolds (sha256 : Bytes → Bytes) (responded : List Response) (s : ServerState)
    (k : Connection) (r : ConnectionRecord) : Prop :=
  ConnectionFollows (HandlerHolds sha256 responded s.processor.state) (fun _ => True) k r

/-- A step stores only blocks that were received. -/
theorem receivedInStep_of_moved (hs : ReceivedInStep sha256 db localDeviceId responded s)
    (hk : ClientHolds sha256 responded s k r)
    (hmoved : Moved codec hash sha256 debugRequest config k s event k' s') :
    ReceivedInStep sha256 db localDeviceId (responded ++ respondedBy s k event) s' := by
  refine ⟨(congrArg _ (config_of_moved hmoved)).trans hs.device,
    (idsKept_of_moved hs.inStep hmoved).1,
    storesReceived_mono ?_ (List.subset_append_left _ _)⟩
  obtain ⟨rfl, hinv, hstores⟩ := hs
  cases hmoved with
  | turn i input task task' queued s' htask hturned hqueued =>
      have hbefore := hk.tasks task (List.mem_of_getElem? htask)
      cases hturned with
      | act h messages => exact storesReceived_act hstores hbefore input.outcome
      | _ => exact hstores
  | broken event events p outcome hevents hp hwritten =>
      obtain ⟨-, -, hdb⟩ := queueInStep_requestsFor config hinv event
      rw [hp]
      exact storesReceived_of_shrinks hstores (.of_same (by rw [hdb]))
  | wrote event events requests p data outcome hevents hrequests hdata =>
      obtain ⟨-, -, hdb⟩ := queueInStep_requestsFor config hinv event
      rw [hrequests, RustM.endState_ok] at hdb
      exact storesReceived_of_shrinks hstores (.of_same (by rw [hdb]))
  | _ => exact hstores

/-- And leaves every handler its request. -/
theorem clientHolds_of_moved (hs : ReceivedInStep sha256 db localDeviceId responded s)
    (hk : ClientHolds sha256 responded s k r)
    (hmoved : Moved codec hash sha256 debugRequest config k s event k' s') :
    ClientHolds sha256 (responded ++ respondedBy s k event) s' k'
      (r.extend codec config s k event) := by
  have hmore : responded ⊆ responded ++ respondedBy s k event := List.subset_append_left _ _
  have hids := (idsKept_of_moved hs.inStep hmoved).2
  refine follows_of_moved hk hmoved (fun _ hh => hh.of_kept hmore hids) (fun _ _ => trivial)
    (fun clock m hm => ?_) (fun h outcome hh heq => ?_) (fun _ _ _ _ => trivial) trivial
    fun _ => trivial
  · -- a response that is taken is in the list, and has no error when it comes to a handler
    cases m with
    | response x =>
        unfold MessageHandler.handleCompleteMessage MessageHandler.handleResponse
        dsimp only
        split
        · trivial
        · rename_i code hcode
          split_ifs with hne
          · trivial
          · refine ⟨List.mem_append_right _ (List.mem_filterMap.mpr ⟨_, hm, rfl⟩), ?_, trivial⟩
            rw [ResponseHandler.new, hcode, ← not_not.mp hne]
    | _ => trivial
  · subst heq
    exact (handlerHolds_act hs.inStep hh outcome hids).of_kept hmore (.of_same rfl rfl)

/-- **No block is stored whose bytes did not come.** However the connections of a server take
turns, and however long a handler waits between its check and its mark: a row that is
marked as stored was so in the database, or a response was taken before whose data has its hash. -/
theorem storesReceived_of_run (codec : Codec) (hash : String → ℕ → ℕ → UInt64)
    (sha256 : Bytes → Bytes) (debugRequest : Request → String) (config : ConnectionConfig)
    {state : ServerState} {db : Database} (hstart : state.processor.state = .new db)
    {es : List ServerEvent} {s : Server}
    (hrun : Transition.run (serverStep codec hash sha256 debugRequest config) (.start state) es =
      some s) :
    StoresReceived sha256 db state.processor.config.localDeviceId
      (respondedIn codec hash sha256 debugRequest config (.start state) es)
      s.state.processor.state := by
  have hfirst : ReceivedInStep sha256 db state.processor.config.localDeviceId [] state := by
    refine ⟨rfl, ?_, ?_⟩
    · rw [hstart]
      exact queueInStep_new db
    · rw [hstart]
      exact fun key row hrow _ => .inl hrow
  exact (server_of_run respondedBy
    (P := ReceivedInStep sha256 db state.processor.config.localDeviceId)
    (Q := fun responded s k r => ClientHolds sha256 responded s k r) hfirst
    (fun _ _ d => follows_new d)
    (fun _ _ _ _ _ _ _ hs hk hmoved =>
      ⟨receivedInStep_of_moved hs hk hmoved, clientHolds_of_moved hs hk hmoved⟩)
    (fun _ _ _ _ _ _ _ _ _ hs _ hmoved hk₂ => hk₂.mono
      (fun _ hh => hh.of_kept (List.subset_append_left _ _) (idsKept_of_moved hs.inStep hmoved).2)
      fun _ _ => trivial) hrun).1.stores

/-- The first block of the file, as it was asked for. -/
def firstResponse : Response := { id := 1, data := [1] }

/-- The second block. -/
def secondResponse : Response := { id := 2, data := [2] }

/-- The codec of the offered index and the two responses, with the bytes that `prost` writes. -/
def fetchedMessages : Codec :=
  { offeringMessages with
    decodeResponse := decodeAmong encodeResponse [firstResponse, secondResponse] }

/-- The client says Hello, offers the file and is asked for its blocks. It sends the first
one, which is stored. -/
def fetchedRun : List ServerEvent :=
  offeredRun ++ [⟨0, .read (plainFrame .response (encodeResponse firstResponse))⟩] ++
  List.replicate 15 ⟨0, .turn 1 quietInput⟩

/-- Witness: one row is marked, that of the block that came. -/
theorem storesReceived_of_run_fetched :
    ∃ s, Transition.run (serverStep fetchedMessages (fun _ _ _ => 0) pairHash (fun _ => "")
        unnamedConfig) (.start unsharedState) fetchedRun = some s ∧
      (s.state.processor.state.db.bepBlockInfo.entries.filter fun e =>
        e.2.storageStatus = .storedLocally).length = 1 ∧
      StoresReceived pairHash unsharedState.processor.state.db
        unsharedState.processor.config.localDeviceId
        (respondedIn fetchedMessages (fun _ _ _ => 0) pairHash (fun _ => "") unnamedConfig
          (.start unsharedState) fetchedRun)
        s.state.processor.state := by
  have hstored : ((Transition.run (serverStep fetchedMessages (fun _ _ _ => 0) pairHash
      (fun _ => "") unnamedConfig) (.start unsharedState) fetchedRun).map fun s =>
        (s.state.processor.state.db.bepBlockInfo.entries.filter fun e =>
          e.2.storageStatus = .storedLocally).length) = some 1 := by
    decide +kernel
  obtain ⟨s, hrun, hone⟩ := Option.map_eq_some_iff.mp hstored
  exact ⟨s, hrun, hone, storesReceived_of_run fetchedMessages (fun _ _ _ => 0) pairHash
    (fun _ => "") unnamedConfig rfl hrun⟩

end Runs

end Grizol.Analysis

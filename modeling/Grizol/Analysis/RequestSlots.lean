import Grizol.Analysis.QueueConsistency
import Grizol.Interface.RequestSlots

/-!
# Which responses free the slot of their request

`process_response` removes the request on every way out of `store_response_data`, which
does not touch the queue. `handle_response` does not get that far with a response that
carries an error: then the slot stays taken.
-/

set_option autoImplicit false

namespace Grizol.Analysis

open Grizol.Library
open Grizol.Model Grizol.Model.Syncthing Grizol.Interface

/-! ## Storing the data -/

section Storing

/-- The queue of a processor and its counter of ids. -/
def queueOf (p : BepProcessor) : OutgoingRequests × Int32 :=
  (p.state.outgoingRequests, p.state.requestId)

/-- A call on the storage manager leaves the queue. -/
theorem onStorage_queueOf {α : Type} (x : RustM StorageManager α) (p : BepProcessor) :
    queueOf (RustM.endState ((BepProcessor.onStorage x).run p)) = queueOf p := by
  rw [BepProcessor.onStorage_run]
  rfl

/-- So does marking a block. -/
theorem updateBlockStorageState_queueOf (requestId : Int32) (deviceId : DeviceId)
    (p : BepProcessor) :
    queueOf (RustM.endState ((BepProcessor.onState
      (BepState.updateBlockStorageState requestId deviceId)).run p)) = queueOf p := by
  rw [BepProcessor.onState_run]
  rcases updateBlockStorageState_run requestId deviceId p.state with
    ⟨e, hrun⟩ | ⟨r, status, -, hrun⟩
  · rw [hrun]
    rfl
  · rw [hrun]
    rfl

/-- And recording locations. -/
theorem updateFileLocations_queueOf (folder : String) (deviceId : DeviceId) (fileName : String)
    (locations : List (String × String)) (p : BepProcessor) :
    queueOf (RustM.endState ((BepProcessor.onState
      (BepState.updateFileLocations folder deviceId fileName locations)).run p)) = queueOf p := by
  rw [BepProcessor.onState_run]
  have hrows := updateFileLocations_rows folder deviceId fileName locations p.state
  exact Prod.ext hrows.queue hrows.requestId

variable (hash : String → ℕ → ℕ → UInt64) (sha256 : Bytes → Bytes)
  (debugRequest : Request → String) (request : Request) (response : Response)
  (outcomes : BepProcessor.ResponseOutcomes) (p : BepProcessor)

/-- And so completing a file. -/
theorem completeFile_queueOf :
    queueOf (RustM.endState ((BepProcessor.completeFile hash sha256 debugRequest request response
      outcomes).run p)) = queueOf p := by
  unfold BepProcessor.completeFile
  cases BepProcessor.checkData sha256 response.data request.hash with
  | error e => rfl
  | ok _ =>
      dsimp only
      refine RustM.endState_bind_eq queueOf rfl fun p₁ p₂ hget => ?_
      obtain ⟨rfl, rfl⟩ := EStateM.Result.ok.inj hget
      split
      · rfl
      · refine RustM.endState_bind_eq queueOf (by rw [RustM.endState_lift]) fun _ p₃ _ => ?_
        refine RustM.endState_bind_eq queueOf (by rw [RustM.endState_lift]) fun _ p₄ _ => ?_
        refine RustM.endState_bind_eq queueOf (onStorage_queueOf _ p₄) fun stored p₅ _ => ?_
        cases stored with
        | error e => rfl
        | ok _ =>
            refine RustM.endState_bind_eq queueOf
              (updateBlockStorageState_queueOf _ _ p₅) fun status p₆ _ => ?_
            rcases status with e | _ | _
            · rfl
            · rfl
            · refine RustM.endState_bind_eq queueOf
                (onStorage_queueOf _ p₆) fun concluded p₇ _ => ?_
              cases concluded <;> rfl

/-- And uploading it. -/
theorem uploadFile_queueOf :
    queueOf (RustM.endState ((BepProcessor.uploadFile request outcomes).run p)) = queueOf p := by
  unfold BepProcessor.uploadFile
  refine RustM.endState_bind_eq queueOf rfl fun _ p₁ _ => ?_
  refine RustM.endState_bind_eq queueOf rfl fun _ p₂ _ => ?_
  refine RustM.endState_bind_eq queueOf (by rw [RustM.endState_lift]) fun copied p₃ _ => ?_
  cases copied with
  | error e => rfl
  | ok locations =>
      dsimp only
      refine RustM.endState_bind_eq queueOf
        (updateFileLocations_queueOf _ _ _ _ p₃) fun _ p₄ _ => ?_
      split_ifs
      · refine RustM.endState_bind_eq queueOf ?_ fun _ p₅ _ => ?_
        · rw [BepProcessor.onState_run]
          rfl
        · refine RustM.endState_bind_eq queueOf (onStorage_queueOf _ p₅) fun removed p₆ _ => ?_
          cases removed <;> rfl
      · rfl

/-- Storing the data of a response does not touch the queue. -/
theorem storeResponseData_queueOf :
    queueOf (RustM.endState ((BepProcessor.storeResponseData hash sha256 debugRequest request
      response outcomes).run p)) = queueOf p := by
  unfold BepProcessor.storeResponseData
  refine RustM.endState_bind_eq queueOf
    (completeFile_queueOf hash sha256 debugRequest request response outcomes p) fun stored p₁ _ => ?_
  rcases stored with e | _ | _
  · rfl
  · rfl
  · exact uploadFile_queueOf request outcomes p₁

end Storing

/-! ## Removing the request -/

section Removing

variable {hash : String → ℕ → ℕ → UInt64} {sha256 : Bytes → Bytes}
  {debugRequest : Request → String} {p p' : BepProcessor} {response : Response}
  {outcomes : BepProcessor.ResponseOutcomes} {k : OutgoingRequest}

/-- Removing a pending request frees its slot. -/
theorem freesSlot_remove {q : OutgoingRequests} (hinv : Consistent q) {requestId : Int32}
    (hpending : IsPending q requestId k) :
    ∃ r q', (OutgoingRequests.remove requestId).run q = .ok (some r) q' ∧
      FreesSlot q q' requestId k := by
  obtain ⟨r, hr, hk, hmem⟩ := hpending
  refine ⟨r, _, remove_of_pending hinv hr hk hmem, ?_⟩
  constructor
  · exact AssocMap.get_erase_self _ _
  · exact AssocMap.get_erase_self _ _
  · rfl
  · exact Finset.card_erase_add_one hmem
  · exact Nat.sub_add_cancel (size_le_requestedSize hinv hmem)

/-- However storing ended, the request is removed then. -/
theorem freesSlot_processResponse (hinv : Consistent p.state.outgoingRequests)
    (hpending : IsPending p.state.outgoingRequests response.id k)
    {result : Except BepProcessorError GrizolEvent}
    (hrun : (BepProcessor.processResponse hash sha256 debugRequest response outcomes).run p =
      .ok result p') :
    FreesSlot p.state.outgoingRequests p'.state.outgoingRequests response.id k := by
  obtain ⟨request, hrequest, -⟩ := id hpending
  have hget : p.state.getRequest response.id = some request := hrequest
  rw [BepProcessor.processResponse, EStateM.run_bind, RustM.run_getThe] at hrun
  dsimp only at hrun
  rw [hget] at hrun
  obtain ⟨stored, p₁, hstored, hrun⟩ := RustM.run_bind_eq_ok.mp hrun
  have hqueue : p₁.state.outgoingRequests = p.state.outgoingRequests := by
    have hframe := storeResponseData_queueOf hash sha256 debugRequest request response outcomes p
    rw [hstored, RustM.endState_ok] at hframe
    exact congrArg Prod.fst hframe
  obtain ⟨removed, p₂, hremoved, hrun⟩ := RustM.run_bind_eq_ok.mp hrun
  have hend : p' = p₂ := by
    cases stored with
    | error e => exact (EStateM.Result.ok.inj hrun).2.symm
    | ok u => exact (EStateM.Result.ok.inj hrun).2.symm
  have hp₂ := BepProcessor.onState_run (BepState.removeRequest response.id) p₁
  rw [hremoved, RustM.endState_ok, BepState.removeRequest, onQueue_run, hqueue] at hp₂
  obtain ⟨r, q', hremove, hfrees⟩ := freesSlot_remove hinv hpending
  rw [hremove, RustM.endState_ok] at hp₂
  rw [hend, hp₂]
  exact hfrees

/-- A response without an error is processed. -/
theorem handleResponse_of_noError (hcode : ErrorCode.ofInt32 response.code = some .noError) :
    (BepProcessor.handleResponse hash sha256 debugRequest response outcomes).run p =
      (do
        let res ← BepProcessor.processResponse hash sha256 debugRequest response outcomes
        pure [res]).run p := by
  rw [BepProcessor.handleResponse, hcode]
  rfl

/-- One with an error is not. -/
theorem handleResponse_of_error {code : ErrorCode}
    (hcode : ErrorCode.ofInt32 response.code = some code) (herror : code ≠ .noError) :
    (BepProcessor.handleResponse hash sha256 debugRequest response outcomes).run p =
      .ok [.error (.errorInResponse ("Request with id " ++ toString response.id ++
        " genereated response containing error: " ++ toString response.code ++ " "))] p := by
  rw [BepProcessor.handleResponse, hcode]
  cases code with
  | noError => exact absurd rfl herror
  | generic | noSuchFile | invalidFile => rfl

/-- A code that the protocol does not have is not expected. -/
theorem handleResponse_of_unknown (hcode : ErrorCode.ofInt32 response.code = none) :
    (BepProcessor.handleResponse hash sha256 debugRequest response outcomes).run p =
      .error (.expect "Enum value must be valid") p := by
  rw [BepProcessor.handleResponse, hcode]
  rfl

/-- No slot is freed by doing nothing. -/
theorem not_freesSlot_self {q : OutgoingRequests} {requestId : Int32} :
    ¬ FreesSlot q q requestId k := by
  intro h
  have hcard := h.card
  omega

/-- Which responses free the slot, on a queue that is in step. -/
theorem freesSlot_iff (hinv : Consistent p.state.outgoingRequests)
    (hpending : IsPending p.state.outgoingRequests response.id k) :
    (∀ results p', (BepProcessor.handleResponse hash sha256 debugRequest response outcomes).run p =
        .ok results p' →
      FreesSlot p.state.outgoingRequests p'.state.outgoingRequests response.id k) ↔
      ¬ IsError response := by
  cases hcode : ErrorCode.ofInt32 response.code with
  | none =>
      rw [handleResponse_of_unknown hcode]
      constructor
      · rintro - ⟨code, hcode', -⟩
        rw [hcode] at hcode'
        cases hcode'
      · intro _ results p' h
        cases h
  | some code =>
      by_cases herror : code = .noError
      · subst herror
        rw [handleResponse_of_noError hcode]
        constructor
        · rintro - ⟨code, hcode', herror⟩
          rw [hcode] at hcode'
          exact herror (Option.some.inj hcode').symm
        · intro _ results p' h
          obtain ⟨res, p₁, hprocess, hend⟩ := RustM.run_bind_eq_ok.mp h
          obtain ⟨-, rfl⟩ := EStateM.Result.ok.inj hend
          exact freesSlot_processResponse hinv hpending hprocess
      · rw [handleResponse_of_error hcode herror]
        constructor
        · intro h
          exact absurd (h _ _ rfl) not_freesSlot_self
        · intro h
          exact absurd ⟨code, hcode, herror⟩ h

end Removing

/-! ## Runs -/

/-- **A response frees the slot of its request, unless it carries an error.** After any turns of
any tasks on a server that has just started, take a response for a pending request, with
any data. If every way of handling it that returns frees the slot, the response carries no
error, and the other way round. -/
theorem freesSlot_of_run {ι : Type} [DecidableEq ι] {hash : String → ℕ → ℕ → UInt64}
    {sha256 : Bytes → Bytes} {debugRequest : Request → String} {db : Database} {p₀ : BepProcessor}
    (hstart : p₀.state = .new db) {tasks : ι → ServerTask} {turns : List (Turn ι TurnOutcome)}
    {s : Processes ι ServerTask BepProcessor}
    (hrun : Transition.run (Processes.step (ServerTask.act hash sha256 debugRequest))
      ⟨p₀, tasks⟩ turns = some s)
    {response : Response} {k : OutgoingRequest}
    (hpending : IsPending s.shared.state.outgoingRequests response.id k)
    (outcomes : BepProcessor.ResponseOutcomes) :
    (∀ results p', (BepProcessor.handleResponse hash sha256 debugRequest response outcomes).run
        s.shared = .ok results p' →
      FreesSlot s.shared.state.outgoingRequests p'.state.outgoingRequests response.id k) ↔
      ¬ IsError response :=
  freesSlot_iff (queueInStep_of_run hstart hrun).consistent hpending

/-! ## A response with an error -/

section Example

/-- The index of the file, and a connection that sends the requests. -/
def sentTasks : Fin 2 → ServerTask
  | 0 => .index (.new (.index ⟨"default", [pairFile]⟩) clientDevice fun _ => 0)
  | 1 => .connection 10 100

/-- The index is handled in two turns, then the requests are sent. -/
def sentTurns : List (Turn (Fin 2) TurnOutcome) :=
  [⟨0, by decide⟩, ⟨0, by decide⟩, ⟨1, by decide⟩].map (⟨·, ⟨.ok, .exits true⟩⟩)

/-- Every operation of the response succeeds. -/
def allSucceed : BepProcessor.ResponseOutcomes where
  store := ⟨.ok, fun _ => .ok⟩
  conclude := ⟨.ok, fun _ => .ok⟩
  command := fun _ _ => .exits true
  remove := .ok

/-- The requests for both blocks are pending then. -/
theorem isPending_sent {s : Processes (Fin 2) ServerTask BepProcessor}
    (hrun : Transition.run (Processes.step (ServerTask.act (fun _ _ _ => 0) pairHash fun _ => ""))
      ⟨startedServer, sentTasks⟩ sentTurns = some s) :
    IsPending s.shared.state.outgoingRequests 1 firstRequest := by
  have hsent : ((Transition.run
      (Processes.step (ServerTask.act (fun _ _ _ => 0) pairHash fun _ => ""))
      ⟨startedServer, sentTasks⟩ sentTurns).map fun s =>
        (s.shared.state.outgoingRequests.requestsById.get 1,
          decide (firstRequest ∈ s.shared.state.outgoingRequests.pendingRequests))) =
      some (some ⟨1, "default", "a", 0, 1, pairHash [1], false⟩, true) := by
    decide +kernel
  rw [hrun] at hsent
  obtain ⟨hr, hmem⟩ := Prod.mk.inj (Option.some.inj hsent)
  exact ⟨_, hr, rfl, of_decide_eq_true hmem⟩

/-- Witness: the response to a request that was sent. -/
theorem freesSlot_of_run_sent :
    ∃ s, Transition.run
        (Processes.step (ServerTask.act (fun _ _ _ => 0) pairHash fun _ => ""))
        ⟨startedServer, sentTasks⟩ sentTurns = some s ∧
      ((∀ results p', (BepProcessor.handleResponse (fun _ _ _ => 0) pairHash (fun _ => "")
          ⟨1, [1], 0⟩ allSucceed).run s.shared = .ok results p' →
        FreesSlot s.shared.state.outgoingRequests p'.state.outgoingRequests 1 firstRequest) ↔
        ¬ IsError ⟨1, [1], 0⟩) := by
  obtain ⟨s, hrun⟩ : ∃ s, Transition.run
      (Processes.step (ServerTask.act (fun _ _ _ => 0) pairHash fun _ => ""))
      ⟨startedServer, sentTasks⟩ sentTurns = some s := ⟨_, rfl⟩
  exact ⟨s, hrun, freesSlot_of_run rfl hrun (isPending_sent hrun)
    allSucceed⟩

/-- A response that says the file is not there returns, and the request stays pending. -/
theorem errorResponse_keepsSlot :
    ∃ s, Transition.run
        (Processes.step (ServerTask.act (fun _ _ _ => 0) pairHash fun _ => ""))
        ⟨startedServer, sentTasks⟩ sentTurns = some s ∧
      IsPending s.shared.state.outgoingRequests 1 firstRequest ∧
      ¬ ∀ results p', (BepProcessor.handleResponse (fun _ _ _ => 0) pairHash (fun _ => "")
          ⟨1, [], 2⟩ allSucceed).run s.shared = .ok results p' →
        FreesSlot s.shared.state.outgoingRequests p'.state.outgoingRequests 1 firstRequest := by
  obtain ⟨s, hrun⟩ : ∃ s, Transition.run
      (Processes.step (ServerTask.act (fun _ _ _ => 0) pairHash fun _ => ""))
      ⟨startedServer, sentTasks⟩ sentTurns = some s := ⟨_, rfl⟩
  refine ⟨s, hrun, isPending_sent hrun, ?_⟩
  intro hfrees
  have hcode : ErrorCode.ofInt32 (2 : Int32) = some .noSuchFile := rfl
  exact not_freesSlot_self (hfrees _ _ (handleResponse_of_error hcode (by decide)))

end Example

end Grizol.Analysis

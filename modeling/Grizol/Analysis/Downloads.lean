import Grizol.Analysis.RequestSlots
import Grizol.Interface.Downloads

/-!
# A download goes on while no event is lost

When the loop of a connection has consumed an event, something is awaited or nothing could
be sent (`awaits_updatePendingRequests`), so only handlers can make a download stall. One
that returns an event does not; one that returns none or panics does not either, unless
it changed the queue: that is a response whose data is not stored or whose request was
not sent yet, and an index with a block that has no proper hash.
-/

set_option autoImplicit false

namespace Grizol.Analysis

open Grizol.Library
open Grizol.Model Grizol.Model.Syncthing Grizol.Interface

/-! ## Sending -/

section Sending

variable {limits : PendingLimits} {q : OutgoingRequests}

/-- After `update_pending_requests` the queue may be left to itself. -/
theorem awaits_updatePendingRequests (hinv : Consistent q) :
    Awaits limits (RustM.endState ((OutgoingRequests.updatePendingRequests
      limits.maxPendingRequests limits.maxTotalPendingRequestsSize).run q)) := by
  obtain ⟨sent, hend, -, hsent⟩ := updatePendingRequests_sent hinv limits.maxPendingRequests
    limits.maxTotalPendingRequestsSize
  rw [hend]
  cases sent with
  | nil =>
      -- nothing was sent and nothing changed, so nothing could be sent again
      refine Or.inr ?_
      rw [List.map_nil, markSent_nil]
      rintro ⟨requests, q', hrun, hne⟩
      exact hne (hsent requests q' hrun)
  | cons e sent =>
      refine Or.inl ⟨e.1, ?_⟩
      simp [markSent]

/-- The empty queue has nothing to send. -/
theorem not_sendable_default : ¬ Sendable limits .default := by
  rintro ⟨requests, q', hrun, hne⟩
  obtain ⟨sent, hend, hconsistent, hsent⟩ := updatePendingRequests_sent consistent_default
    limits.maxPendingRequests limits.maxTotalPendingRequestsSize
  rw [hsent requests q' hrun] at hne
  cases sent with
  | nil => exact hne rfl
  | cons e sent =>
      -- the queue is empty
      obtain ⟨v, hv⟩ := hconsistent.pending_queued e.1 (by simp [markSent])
      simp [markSent, OutgoingRequests.default] at hv

end Sending

/-! ## Asking for blocks -/

section Asking

variable {s : BepState} {blocks : List BlockInfoExt}

/-- A request has the hash of its block. -/
theorem hash_of_requestsFromBlocks {requestId : Int32} {requests : List Request}
    (h : requestsFromBlocks requestId blocks = .ok requests) {r : Request} (hr : r ∈ requests) :
    ∃ b ∈ blocks, r.hash = b.hash := by
  induction blocks generalizing requestId requests with
  | nil =>
      obtain rfl := Except.ok.inj h
      cases hr
  | cons b blocks ih =>
      rw [requestsFromBlocks] at h
      split_ifs at h
      obtain ⟨rest, hrest, h⟩ := Rust.bind_eq_ok.mp h
      obtain rfl := Except.ok.inj h
      rcases List.mem_cons.mp hr with rfl | hr
      · exact ⟨b, List.mem_cons_self, rfl⟩
      · obtain ⟨b', hb', heq⟩ := ih hrest hr
        exact ⟨b', List.mem_cons_of_mem b hb', heq⟩

/-- Requests with hashes of 32 bytes are inserted without a panic. -/
theorem insertEach_ok {requests : List Request} (hhash : ∀ r ∈ requests, r.hash.length = 32)
    (clock : ℕ → ℕ) (n : ℕ) (s : BepState) :
    ∃ inserted s', (BepState.insertEach clock n requests).run s = .ok inserted s' := by
  induction requests generalizing n s with
  | nil => exact ⟨[], s, rfl⟩
  | cons r requests ih =>
      obtain ⟨k, hk⟩ := exists_ofRequest (hhash r List.mem_cons_self)
      have hinsert : ∃ inserted q',
          (OutgoingRequests.insert r.id r (clock n)).run s.outgoingRequests = .ok inserted q' := by
        cases hget : s.outgoingRequests.requestsByRequest.get k with
        | some v => exact ⟨none, _, insert_of_queued hk hget⟩
        | none => exact ⟨some r, _, insert_of_new hk hget⟩
      obtain ⟨inserted, q', hinsert⟩ := hinsert
      obtain ⟨rest, s', hrest⟩ := ih (fun r' hr' => hhash r' (List.mem_cons_of_mem r hr')) (n + 1)
        { s with outgoingRequests := q' }
      refine ⟨inserted.toList ++ rest, s', RustM.run_bind_eq_ok.mpr
        ⟨inserted, { s with outgoingRequests := q' }, ?_, RustM.run_bind_eq_ok.mpr
          ⟨rest, s', hrest, rfl⟩⟩⟩
      exact onQueue_eq_ok hinsert

/-- The second section of the handler of an index leaves the queue alone, or it returns. -/
theorem storeOutgoingRequests_returns (hinv : QueueInStep s)
    (hhash : ∀ b ∈ blocks, b.hash.length = 32) (clock : ℕ → ℕ) :
    (∃ e s', (storeOutgoingRequests blocks clock).run s = .error e s' ∧
      s'.outgoingRequests = s.outgoingRequests) ∨
    ∃ requests s', (storeOutgoingRequests blocks clock).run s = .ok requests s' := by
  unfold storeOutgoingRequests
  rw [EStateM.run_bind, RustM.run_getThe]
  dsimp only
  cases hrequests : requestsFromBlocks s.requestId blocks with
  | error e => exact Or.inl ⟨e, s, rfl, rfl⟩
  | ok requests =>
      refine Or.inr ?_
      obtain ⟨hfirst, -⟩ := le_foldl_max (requests.map Request.id) s.requestId
      rw [EStateM.run_bind, RustM.run_lift_ok]
      dsimp only
      rw [EStateM.run_bind, fetchAddRequestId_run hinv.requestId_nonneg hfirst]
      dsimp only
      have hold := onQueue_eq_ok (s := { s with
        requestId := (requests.map Request.id).foldl (fun m i => if i < m then m else i)
          s.requestId }) (removeOldRequests_run hinv.consistent (clock 0))
      obtain ⟨inserted, s', hinserted⟩ := insertEach_ok
        (fun r hr => by
          obtain ⟨b, hb, heq⟩ := hash_of_requestsFromBlocks hrequests hr
          rw [heq]
          exact hhash b hb)
        clock 1 { s with
          requestId := (requests.map Request.id).foldl (fun m i => if i < m then m else i)
            s.requestId
          outgoingRequests :=
            keepIds s.outgoingRequests (waitingIds s.outgoingRequests (clock 0)) }
      exact ⟨inserted, s', RustM.run_bind_eq_ok.mpr ⟨(), _, hold, hinserted⟩⟩

end Asking

/-! ## Steps -/

section Steps

variable {hash : String → ℕ → ℕ → UInt64} {sha256 : Bytes → Bytes}
  {debugRequest : Request → String} {limits : PendingLimits} {s s' : Download}

/-- The queue is in step, and the download does not stall. -/
structure DownloadInvariant (limits : PendingLimits) (s : Download) : Prop where
  queue : QueueInStep s.processor.state
  notStalled : NotStalled limits s

/-- What leaves the queue alone and loses no event. -/
theorem DownloadInvariant.of_same (hinv : DownloadInvariant limits s)
    (hqueue : queueOf s'.processor = queueOf s.processor)
    (hevents : ∀ e ∈ s.unconsumed, Wakes e → e ∈ s'.unconsumed) : DownloadInvariant limits s' := by
  have hrequests : s'.processor.state.outgoingRequests = s.processor.state.outgoingRequests :=
    congrArg Prod.fst hqueue
  refine ⟨hinv.queue.of_same hrequests (congrArg Prod.snd hqueue), ?_⟩
  intro hsendable
  rw [hrequests] at hsendable ⊢
  refine (hinv.notStalled hsendable).imp_right ?_
  rintro ⟨e, he, hwakes⟩
  exact ⟨e, hevents e he hwakes, hwakes⟩

/-- An event that wakes the loop is waiting. -/
theorem notStalled_of_wakes (h : ∃ e ∈ s.unconsumed, Wakes e) : NotStalled limits s :=
  fun _ => Or.inr h

/-- A request that was sent is awaited. -/
theorem notStalled_of_awaits (h : Awaits limits s.processor.state.outgoingRequests) :
    NotStalled limits s := by
  intro hsendable
  exact Or.inl (h.resolve_right fun hnot => hnot hsendable)

/-- A handler that panics emits nothing. -/
theorem handle_of_error {x : RustM BepProcessor (List (Except BepProcessorError GrizolEvent))}
    {e : Fault} {p : BepProcessor} (h : x.run s.processor = .error e p) :
    s.handle x = { s with processor := p } := by
  rw [Download.handle, h]

/-- What a handler that returns leaves. -/
theorem handle_of_ok {x : RustM BepProcessor (List (Except BepProcessorError GrizolEvent))}
    {results : List (Except BepProcessorError GrizolEvent)} {p : BepProcessor}
    (h : x.run s.processor = .ok results p) :
    s.handle x = { processor := p, unconsumed := s.unconsumed ++ emitted results } := by
  rw [Download.handle, h]

/-- A message is handled as its handler runs. -/
theorem handle_congr {x y : RustM BepProcessor (List (Except BepProcessorError GrizolEvent))}
    (h : x.run s.processor = y.run s.processor) : s.handle x = s.handle y := by
  rw [Download.handle, h, Download.handle]

/-- An index that is handled to its end emits an event; one that is not has not touched the
queue, unless a block has no proper hash. -/
theorem downloadInvariant_index (hinv : DownloadInvariant limits s)
    {section₁ : RustM BepState (List BlockInfoExt)} (clock : ℕ → ℕ)
    (hwrites : SectionWrites s.processor.state
      (RustM.endState (section₁.run s.processor.state)))
    (hkeeps : (∃ e ∈ s.unconsumed, Wakes e) ∨ WellHashed section₁ s.processor.state) :
    DownloadInvariant limits (s.handle (queueAfter section₁ clock)) := by
  cases hfirst : section₁.run s.processor.state with
  | error e s₁ =>
      rw [hfirst, RustM.endState_error] at hwrites
      have hrun : (queueAfter section₁ clock).run s.processor =
          .error e { s.processor with state := s₁ } := by
        rw [queueAfter, EStateM.run_bind, BepProcessor.onState_eq_error hfirst]
      rw [handle_of_error hrun]
      exact hinv.of_same (Prod.ext hwrites.queue hwrites.requestId) fun _ he _ => he
  | ok blocks s₁ =>
      rw [hfirst, RustM.endState_ok] at hwrites
      have hinv₁ : QueueInStep s₁ := hinv.queue.of_same hwrites.queue hwrites.requestId
      obtain ⟨hinv₂, -⟩ := queueInStep_storeOutgoingRequests hinv₁ blocks clock
      cases hsecond : (storeOutgoingRequests blocks clock).run s₁ with
      | ok requests s₂ =>
          have hrun : (queueAfter section₁ clock).run s.processor =
              .ok [.ok .requestCreated] { s.processor with state := s₂ } := by
            rw [queueAfter, EStateM.run_bind, BepProcessor.onState_eq_ok hfirst]
            dsimp only
            rw [EStateM.run_bind,
              BepProcessor.onState_eq_ok (p := { s.processor with state := s₁ }) hsecond]
            rfl
          rw [hsecond] at hinv₂
          rw [handle_of_ok hrun]
          refine ⟨hinv₂, notStalled_of_wakes ⟨.requestCreated, ?_, Or.inl rfl⟩⟩
          exact List.mem_append_right _ List.mem_cons_self
      | error e s₂ =>
          have hrun : (queueAfter section₁ clock).run s.processor =
              .error e { s.processor with state := s₂ } := by
            rw [queueAfter, EStateM.run_bind, BepProcessor.onState_eq_ok hfirst]
            dsimp only
            rw [EStateM.run_bind,
              BepProcessor.onState_eq_error (p := { s.processor with state := s₁ }) hsecond]
          rw [hsecond] at hinv₂
          rw [handle_of_error hrun]
          refine ⟨hinv₂, ?_⟩
          rcases hkeeps with hwakes | hhashed
          · exact notStalled_of_wakes hwakes
          · -- the section panics before it enqueues anything
            rcases storeOutgoingRequests_returns hinv₁ (hhashed blocks s₁ hfirst) clock with
              ⟨e', s', herror, hqueue⟩ | ⟨requests, s', hok⟩
            · obtain ⟨-, rfl⟩ := EStateM.Result.error.inj (hsecond.symm.trans herror)
              intro hsendable
              dsimp only at hsendable ⊢
              rw [hqueue, hwrites.queue] at hsendable ⊢
              exact hinv.notStalled hsendable
            · rw [hsecond] at hok
              cases hok

/-- `process_response` after the request was found. -/
theorem processResponse_of_request {p : BepProcessor} {response : Response}
    (outcomes : BepProcessor.ResponseOutcomes) {request : Request}
    (hrequest : p.state.getRequest response.id = some request) :
    (BepProcessor.processResponse hash sha256 debugRequest response outcomes).run p = (do
      let stored ← BepProcessor.storeResponseData hash sha256 debugRequest request response outcomes
      let _ ← BepProcessor.onState (BepState.removeRequest response.id)
      match stored with
      | .error e => pure (.error e)
      | .ok () => pure (.ok .requestProcessed) :
        RustM BepProcessor (Except BepProcessorError GrizolEvent)).run p := by
  rw [BepProcessor.processResponse, EStateM.run_bind, RustM.run_getThe]
  dsimp only
  rewrite [hrequest]
  rfl

/-- A response whose data is stored emits an event; the others that take their request out of
the queue leave a queue that may be left to itself. -/
theorem downloadInvariant_processed (hinv : DownloadInvariant limits s) {response : Response}
    {outcomes : BepProcessor.ResponseOutcomes}
    (hcode : ErrorCode.ofInt32 response.code = some .noError)
    (hkeeps : (∃ e ∈ s.unconsumed, Wakes e) ∨
      (LosesEvent hash sha256 debugRequest s.processor response outcomes →
        Awaits limits (RustM.endState
          ((OutgoingRequests.remove response.id).run s.processor.state.outgoingRequests)))) :
    DownloadInvariant limits
      (s.handle (BepProcessor.handleResponse hash sha256 debugRequest response outcomes)) := by
  have hhandle : (BepProcessor.handleResponse hash sha256 debugRequest response outcomes).run
      s.processor = _ := handleResponse_of_noError hcode
  cases hrequest : s.processor.state.getRequest response.id with
  | none =>
      -- nobody asked
      have hrun : (BepProcessor.handleResponse hash sha256 debugRequest response outcomes).run
          s.processor = .ok [.error (.noAssociatedReqeust ("Response with id " ++
            toString response.id ++ " does not have a corresponding request"))] s.processor := by
        rw [hhandle, EStateM.run_bind, BepProcessor.processResponse, EStateM.run_bind,
          RustM.run_getThe]
        dsimp only
        rw [hrequest]
        rfl
      rw [handle_of_ok hrun]
      exact hinv.of_same rfl fun _ he _ => List.mem_append_left _ he
  | some request =>
      rw [EStateM.run_bind, processResponse_of_request outcomes hrequest, EStateM.run_bind]
        at hhandle
      have hframe := storeResponseData_queueOf hash sha256 debugRequest request response outcomes
        s.processor
      cases hstored : (BepProcessor.storeResponseData hash sha256 debugRequest request response
          outcomes).run s.processor with
      | error e p₁ =>
          -- the request stays
          rw [hstored, RustM.endState_error] at hframe
          rw [hstored] at hhandle
          rw [handle_of_error hhandle]
          exact hinv.of_same hframe fun _ he _ => he
      | ok stored p₁ =>
          rw [hstored, RustM.endState_ok] at hframe
          rw [hstored] at hhandle
          dsimp only at hhandle
          rw [EStateM.run_bind] at hhandle
          have hsame : p₁.state.outgoingRequests = s.processor.state.outgoingRequests :=
            congrArg Prod.fst hframe
          have hinv₁ : QueueInStep p₁.state :=
            hinv.queue.of_same hsame (congrArg Prod.snd hframe)
          have hinv₂ := queueInStep_removeRequest hinv₁ response.id
          have hqueue : (RustM.endState ((BepState.removeRequest response.id).run
              p₁.state)).outgoingRequests = RustM.endState
                ((OutgoingRequests.remove response.id).run
                  s.processor.state.outgoingRequests) := by
            rw [BepState.removeRequest, onQueue_run]
            dsimp only
            rw [hsame]
          cases hremoved : (BepState.removeRequest response.id).run p₁.state with
          | error e s₂ =>
              rw [hremoved, RustM.endState_error] at hinv₂ hqueue
              rw [BepProcessor.onState_eq_error hremoved] at hhandle
              rw [handle_of_error hhandle]
              refine ⟨hinv₂, ?_⟩
              rcases hkeeps with hwakes | hawaits
              · exact notStalled_of_wakes hwakes
              · -- the assertion failed
                apply notStalled_of_awaits
                dsimp only
                rw [hqueue]
                apply hawaits
                refine ⟨request, hrequest, Or.inr ?_⟩
                intro k hk hpending
                have hremove := onQueue_eq_ok (s := p₁.state) (by
                  rw [hsame]
                  exact remove_of_pending hinv.queue.consistent hrequest hk hpending)
                rw [BepState.removeRequest, hremove] at hremoved
                cases hremoved
          | ok removed s₂ =>
              rw [hremoved, RustM.endState_ok] at hinv₂ hqueue
              rw [BepProcessor.onState_eq_ok hremoved] at hhandle
              dsimp only at hhandle
              cases stored with
              | ok u =>
                  have hrun : (BepProcessor.handleResponse hash sha256 debugRequest response
                      outcomes).run s.processor =
                        .ok [.ok .requestProcessed] { p₁ with state := s₂ } := hhandle
                  rw [handle_of_ok hrun]
                  refine ⟨hinv₂, notStalled_of_wakes ⟨.requestProcessed, ?_, Or.inr rfl⟩⟩
                  exact List.mem_append_right _ List.mem_cons_self
              | error e =>
                  have hrun : (BepProcessor.handleResponse hash sha256 debugRequest response
                      outcomes).run s.processor =
                        .ok [.error e] { p₁ with state := s₂ } := hhandle
                  rw [handle_of_ok hrun]
                  refine ⟨hinv₂, ?_⟩
                  rcases hkeeps with ⟨e', he', hwakes⟩ | hawaits
                  · exact notStalled_of_wakes ⟨e', List.mem_append_left _ he', hwakes⟩
                  · apply notStalled_of_awaits
                    dsimp only
                    rw [hqueue]
                    exact hawaits ⟨request, hrequest, Or.inl ⟨e, p₁, hstored⟩⟩

/-- A response with an error, or with a code there is not, changes nothing. -/
theorem downloadInvariant_response (hinv : DownloadInvariant limits s) {response : Response}
    {outcomes : BepProcessor.ResponseOutcomes}
    (hkeeps : KeepsGoing hash sha256 debugRequest limits s (.response response outcomes)) :
    DownloadInvariant limits
      (s.handle (BepProcessor.handleResponse hash sha256 debugRequest response outcomes)) := by
  cases hcode : ErrorCode.ofInt32 response.code with
  | none =>
      rw [handle_of_error (handleResponse_of_unknown hcode)]
      exact hinv.of_same rfl fun _ he _ => he
  | some code =>
      by_cases herror : code = .noError
      · subst herror
        refine downloadInvariant_processed hinv hcode (hkeeps.imp_right ?_)
        intro hawaits
        exact hawaits hcode
      · rw [handle_of_ok (handleResponse_of_error hcode herror)]
        exact hinv.of_same rfl fun _ he _ => List.mem_append_left _ he

/-- The loop of a connection consumes an event. -/
theorem downloadInvariant_consume (hinv : DownloadInvariant limits s) {n : ℕ} {event : GrizolEvent}
    (hevent : s.unconsumed[n]? = some event) :
    DownloadInvariant limits { processor := Download.consume limits event s.processor
                               unconsumed := s.unconsumed.eraseIdx n } := by
  cases event with
  | message m =>
      refine hinv.of_same rfl ?_
      intro e he hwakes
      -- the event that is gone is another one
      obtain ⟨i, hi⟩ := List.mem_iff_getElem?.mp he
      have hne : i ≠ n := by
        rintro rfl
        rw [hi] at hevent
        obtain rfl := Option.some.inj hevent
        rcases hwakes with h | h
        all_goals cases h
      exact List.mem_eraseIdx_iff_getElem?.mpr ⟨i, hne, hi⟩
  | requestProcessed | requestCreated =>
      obtain ⟨hqueue, -⟩ := queueInStep_connection (p := s.processor) hinv.queue
        limits.maxPendingRequests limits.maxTotalPendingRequestsSize
      refine ⟨hqueue, notStalled_of_awaits ?_⟩
      dsimp only [Download.consume]
      rw [BepProcessor.throttledRequests, BepProcessor.onState_run,
        BepState.updatePendingRequests, onQueue_run]
      exact awaits_updatePendingRequests hinv.queue.consistent

/-- Every step that loses no event keeps the invariant. -/
theorem downloadInvariant_step (hinv : DownloadInvariant limits s) {e : DownloadEvent}
    (hkeeps : KeepsGoing hash sha256 debugRequest limits s e)
    (hstep : Download.step hash sha256 debugRequest limits s e = some s') :
    DownloadInvariant limits s' := by
  cases e with
  | index received peer clock =>
      obtain rfl := Option.some.inj hstep
      rw [handle_congr (handleIndex_run received peer clock s.processor)]
      exact downloadInvariant_index hinv clock
        (replaceIndices_writes s.processor.state _ received peer) hkeeps
  | indexUpdate received peer clock =>
      obtain rfl := Option.some.inj hstep
      rw [handle_congr (handleIndexUpdate_run received peer clock s.processor)]
      exact downloadInvariant_index hinv clock
        (updateIndices_writes s.processor.state _ _ peer) hkeeps
  | response response outcomes =>
      obtain rfl := Option.some.inj hstep
      exact downloadInvariant_response hinv hkeeps
  | consume n =>
      obtain ⟨event, hevent, hnext⟩ := Option.bind_eq_some_iff.mp hstep
      obtain rfl := Option.some.inj hnext
      exact downloadInvariant_consume hinv hevent

end Steps

/-- **A download does not stall while no event is lost.** On a server that has just started,
messages are handled and events consumed in any order. When every step keeps the
download going, then in every state in which more could be sent something is awaited, or
an event will be consumed that makes a connection send it. -/
theorem notStalled_of_run {hash : String → ℕ → ℕ → UInt64} {sha256 : Bytes → Bytes}
    {debugRequest : Request → String} {limits : PendingLimits} {db : Database} {p₀ : BepProcessor}
    (hstart : p₀.state = .new db) {events : List DownloadEvent}
    (hmeets : Transition.Meets (Download.step hash sha256 debugRequest limits)
      (KeepsGoing hash sha256 debugRequest limits) ⟨p₀, []⟩ events)
    {s : Download}
    (hrun : Transition.run (Download.step hash sha256 debugRequest limits) ⟨p₀, []⟩ events =
      some s) : NotStalled limits s := by
  have hinvariant : DownloadInvariant limits s := by
    refine Transition.invariant_run_of_meets (DownloadInvariant limits) ?_ ?_ hmeets hrun
    · refine ⟨?_, ?_⟩
      · show QueueInStep p₀.state
        rw [hstart]
        exact queueInStep_new db
      · apply notStalled_of_awaits
        dsimp only
        rw [hstart]
        exact Or.inr not_sendable_default
    · intro s e s' hinv hkeeps hstep
      exact downloadInvariant_step hinv hkeeps hstep
  exact hinvariant.notStalled

/-! ## The last answer is wrong -/

section Example

/-- The index of the file, and the connection is told that there are requests. -/
def offered : List DownloadEvent :=
  [.index ⟨"default", [pairFile]⟩ clientDevice fun _ => 0, .consume 0]

/-- A response to the first request, with other data. -/
def wrongData : DownloadEvent := .response ⟨1, [9], 0⟩ allSucceed

/-- The blocks of the file have proper hashes. -/
theorem wellHashed_pair :
    WellHashed (BepProcessor.replaceIndices startedServer.config.localDeviceId
      ⟨"default", [pairFile]⟩ clientDevice) startedServer.state := by
  have hall : (RustM.returned ((BepProcessor.replaceIndices startedServer.config.localDeviceId
      ⟨"default", [pairFile]⟩ clientDevice).run startedServer.state)).all
        (fun r => r.1.all fun b => b.hash.length = 32) = true := by
    decide +kernel
  intro blocks s' hrun b hb
  rw [hrun] at hall
  exact of_decide_eq_true (List.all_eq_true.mp hall b hb)

/-- Both requests are sent, so one is awaited after the other was answered with other data. -/
theorem notStalled_of_run_other :
    ∃ s, Transition.run
        (Download.step (fun _ _ _ => 0) pairHash (fun _ => "") ⟨10, 100⟩) ⟨startedServer, []⟩
        (offered ++ [wrongData]) = some s ∧ NotStalled ⟨10, 100⟩ s := by
  have hsome : (Transition.run
      (Download.step (fun _ _ _ => 0) pairHash (fun _ => "") ⟨10, 100⟩) ⟨startedServer, []⟩
      (offered ++ [wrongData])).isSome = true := by
    decide +kernel
  obtain ⟨s, hrun⟩ := Option.isSome_iff_exists.mp hsome
  refine ⟨s, hrun, notStalled_of_run rfl ?_ hrun⟩
  refine ⟨Or.inr wellHashed_pair, fun s₁ h₁ => ⟨trivial, fun s₂ h₂ => ⟨?_, fun _ _ => trivial⟩⟩⟩
  refine Or.inr fun _ _ => Or.inl ?_
  have hpending : ((Transition.run
      (Download.step (fun _ _ _ => 0) pairHash (fun _ => "") ⟨10, 100⟩) ⟨startedServer, []⟩
      offered).map fun s => decide (RustM.endState ((OutgoingRequests.remove 1).run
        s.processor.state.outgoingRequests)).pendingRequests.Nonempty) = some true := by
    decide +kernel
  have hoffered : Transition.run
      (Download.step (fun _ _ _ => 0) pairHash (fun _ => "") ⟨10, 100⟩) ⟨startedServer, []⟩
      offered = some s₂ := by
    rw [offered, Transition.run_cons, h₁, Option.bind_some, Transition.run_cons, h₂]
    rfl
  rw [hoffered] at hpending
  exact of_decide_eq_true (Option.some.inj hpending)

/-- When only one request may be pending, the second is not sent, nothing is awaited and no
event is left. -/
theorem download_stalls :
    ∃ s, Transition.run
        (Download.step (fun _ _ _ => 0) pairHash (fun _ => "") ⟨1, 100⟩) ⟨startedServer, []⟩
        (offered ++ [wrongData]) = some s ∧ ¬ NotStalled ⟨1, 100⟩ s := by
  have hrun : ((Transition.run
      (Download.step (fun _ _ _ => 0) pairHash (fun _ => "") ⟨1, 100⟩) ⟨startedServer, []⟩
      (offered ++ [wrongData])).map fun s =>
        (s.unconsumed, decide s.processor.state.outgoingRequests.pendingRequests.Nonempty,
          (RustM.returned ((OutgoingRequests.updatePendingRequests 1 100).run
            s.processor.state.outgoingRequests)).map fun r => r.1.map Request.id)) =
        some ([], false, some [2]) := by
    decide +kernel
  obtain ⟨s, hs, hend⟩ := Option.map_eq_some_iff.mp hrun
  obtain ⟨hevents, hend⟩ := Prod.mk.inj hend
  obtain ⟨hpending, hnext⟩ := Prod.mk.inj hend
  refine ⟨s, hs, ?_⟩
  intro hnot
  have hsendable : Sendable ⟨1, 100⟩ s.processor.state.outgoingRequests := by
    cases hsend : (OutgoingRequests.updatePendingRequests 1 100).run
        s.processor.state.outgoingRequests with
    | ok requests q =>
        refine ⟨requests, q, hsend, ?_⟩
        rintro rfl
        rw [hsend] at hnext
        cases hnext
    | error e q =>
        rw [hsend] at hnext
        cases hnext
  rcases hnot hsendable with hpending' | ⟨e, he, -⟩
  · exact of_decide_eq_false hpending hpending'
  · rw [hevents] at he
    cases he

end Example

end Grizol.Analysis

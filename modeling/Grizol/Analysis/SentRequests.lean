import Grizol.Analysis.QueueConsistency
import Grizol.Analysis.ServerTurns
import Grizol.Interface.SentRequests

/-!
# No request is sent twice

An id is given to one request only, and a request that is taken out of the queue is
pending from then on, until it leaves the queue. So a step either leaves what was sent
(`LeavesSent`), or sends requests that were queued and not pending. All connections share
the one queue, so this holds across them.
-/

set_option autoImplicit false

namespace Grizol.Analysis

open Grizol.Library Grizol.Model Grizol.Interface
open Grizol.Model.Syncthing

variable {codec : Codec} {hash : String → ℕ → ℕ → UInt64} {sha256 : Bytes → Bytes}
  {debugRequest : Request → String} {config : ConnectionConfig}

/-! ## Steps that send nothing -/

/-- A request is queued under its own id. -/
def Named (q : OutgoingRequests) : Prop :=
  ∀ id r, q.requestsById.get id = some r → r.id = id

/-- Nothing becomes pending, and what was pending stays so while it is queued. -/
structure LeavesSent (s s' : BepState) : Prop where
  ids : IdsKept s s'
  named : Named s.outgoingRequests → Named s'.outgoingRequests
  fewer : s'.outgoingRequests.pendingRequests ⊆ s.outgoingRequests.pendingRequests
  kept : ∀ id r k, id.toInt ≤ s.requestId.toInt →
    s'.outgoingRequests.requestsById.get id = some r → OutgoingRequest.ofRequest r = .ok k →
    k ∈ s.outgoingRequests.pendingRequests → k ∈ s'.outgoingRequests.pendingRequests

variable {s s' : BepState}

/-- The same queue leaves what was sent. -/
theorem LeavesSent.of_same (hqueue : s'.outgoingRequests = s.outgoingRequests)
    (hid : s'.requestId = s.requestId) : LeavesSent s s' where
  ids := .of_same hqueue hid
  named h := hqueue ▸ h
  fewer := by rw [hqueue]
  kept id r k _ _ _ hk := hqueue ▸ hk

/-- A request that is removed takes no other with it. -/
theorem leavesSent_removeRequest (h : QueueInStep s) (requestId : Int32) :
    LeavesSent s (RustM.endState ((BepState.removeRequest requestId).run s)) := by
  have hids := @idsKept_removeRequest s requestId
  rw [BepState.removeRequest, onQueue_run] at hids ⊢
  have hget : ∀ id r, (RustM.endState ((OutgoingRequests.remove requestId).run
      s.outgoingRequests)).requestsById.get id = some r →
      id ≠ requestId ∧ s.outgoingRequests.requestsById.get id = some r := by
    intro id r hr
    rw [remove_requestsById, AssocMap.get_erase] at hr
    split_ifs at hr with hid
    exact ⟨hid, hr⟩
  refine ⟨hids, fun hnamed id r hr => hnamed id r (hget id r hr).2, ?_, ?_⟩
  · dsimp only
    cases hr : s.outgoingRequests.requestsById.get requestId with
    | none => rw [remove_of_unknown hr, RustM.endState_ok]
    | some r =>
        obtain ⟨k, hk⟩ := h.consistent.keyed requestId r hr
        by_cases hpending : k ∈ s.outgoingRequests.pendingRequests
        · rw [remove_of_pending h.consistent hr hk hpending, RustM.endState_ok]
          exact Finset.erase_subset _ _
        · rw [remove_of_waiting h.consistent hr hk hpending, RustM.endState_error]
  · intro id r k _ hr' hk' hpending'
    obtain ⟨hne, hold⟩ := hget id r hr'
    dsimp only
    cases hr : s.outgoingRequests.requestsById.get requestId with
    | none =>
        rw [remove_of_unknown hr, RustM.endState_ok]
        exact hpending'
    | some r₀ =>
        obtain ⟨k₀, hk₀⟩ := h.consistent.keyed requestId r₀ hr
        by_cases hpending : k₀ ∈ s.outgoingRequests.pendingRequests
        · rw [remove_of_pending h.consistent hr hk₀ hpending, RustM.endState_ok]
          refine Finset.mem_erase.mpr ⟨?_, hpending'⟩
          rintro rfl
          exact hne (queued_id_unique h.consistent hold hr hk' hk₀)
        · rw [remove_of_waiting h.consistent hr hk₀ hpending, RustM.endState_error]
          exact hpending'

/-- Requests are queued under their own ids, and none becomes pending by that. -/
structure Inserts (s s' : BepState) : Prop where
  pending : s'.outgoingRequests.pendingRequests = s.outgoingRequests.pendingRequests
  named : ∀ id r, s'.outgoingRequests.requestsById.get id = some r →
    s.outgoingRequests.requestsById.get id = some r ∨ r.id = id

/-- Without a call nothing is inserted. -/
theorem Inserts.refl (s : BepState) : Inserts s s := ⟨rfl, fun _ _ h => .inl h⟩

/-- Two calls insert what each does. -/
theorem Inserts.trans {s'' : BepState} (h : Inserts s s') (h' : Inserts s' s'') : Inserts s s'' where
  pending := h'.pending.trans h.pending
  named id r hr := (h'.named id r hr).elim (h.named id r) .inr

/-- One request. -/
theorem inserts_insert (r : Request) (now : ℕ) :
    Inserts s
      (RustM.endState ((BepState.onQueue (OutgoingRequests.insert r.id r now)).run s)) := by
  rw [onQueue_run]
  cases hk : OutgoingRequest.ofRequest r with
  | error e =>
      rw [insert_of_no_key hk]
      exact .refl s
  | ok k =>
      cases hget : s.outgoingRequests.requestsByRequest.get k with
      | some v =>
          rw [insert_of_queued hk hget]
          exact .refl s
      | none =>
          rw [insert_of_new hk hget]
          refine ⟨rfl, fun id r' hr' => ?_⟩
          dsimp only [RustM.endState_ok] at hr'
          rw [AssocMap.get_insert] at hr'
          split_ifs at hr' with hid
          · obtain rfl := Option.some.inj hr'
            exact .inr hid.symm
          · exact .inl hr'

/-- Several requests. -/
theorem inserts_insertEach {requests : List Request} (clock : ℕ → ℕ) (n : ℕ) :
    Inserts s (RustM.endState ((BepState.insertEach clock n requests).run s)) := by
  induction requests generalizing n s with
  | nil => exact .refl s
  | cons r requests ih =>
      refine RustM.endState_bind_rel Inserts Inserts.trans (inserts_insert r (clock n))
        fun _ s₁ _ => ?_
      rw [RustM.endState_bind_pure]
      exact ih (n + 1)

/-- Requests that are too old leave the queue, then the new ones are inserted. -/
theorem leavesSent_storeOutgoingRequests (h : QueueInStep s) (blocks : List BlockInfoExt)
    (clock : ℕ → ℕ) :
    LeavesSent s (RustM.endState ((storeOutgoingRequests blocks clock).run s)) := by
  have hids := (queueInStep_storeOutgoingRequests h blocks clock).2
  revert hids
  unfold storeOutgoingRequests
  rw [EStateM.run_bind, RustM.run_getThe]
  dsimp only
  cases hrequests : requestsFromBlocks s.requestId blocks with
  | error e => exact fun _ => .of_same rfl rfl
  | ok requests =>
      obtain ⟨hlt, hnodup⟩ := id_of_requestsFromBlocks hrequests
      obtain ⟨hfirst, -⟩ := le_foldl_max (requests.map Request.id) s.requestId
      rw [EStateM.run_bind, RustM.run_lift_ok]
      dsimp only
      rw [EStateM.run_bind, fetchAddRequestId_run h.requestId_nonneg hfirst]
      dsimp only
      set next := (requests.map Request.id).foldl (fun m i => if i < m then m else i) s.requestId
      set ids := waitingIds s.outgoingRequests (clock 0) with hidsOf
      let kept : BepState :=
        { s with requestId := next, outgoingRequests := keepIds s.outgoingRequests ids }
      have hrun : (BepState.insertRequests requests clock).run { s with requestId := next } =
          (BepState.insertEach clock 1 requests).run kept := by
        have hremove := onQueue_eq_ok (s := { s with requestId := next })
          (removeOldRequests_run h.consistent (clock 0))
        rw [BepState.insertRequests, EStateM.run_bind, hremove]
      rw [hrun]
      intro hids
      have hget : ∀ id r, kept.outgoingRequests.requestsById.get id = some r →
          s.outgoingRequests.requestsById.get id = some r ∧ id ∈ ids := by
        intro id r hr
        simpa [kept, keepIds, AssocMap.get_retain, Option.filter_eq_some_iff] using hr
      obtain ⟨hpending, hnamed⟩ := @inserts_insertEach kept requests clock 1
      have hsub : kept.outgoingRequests.pendingRequests ⊆ s.outgoingRequests.pendingRequests :=
        Finset.filter_subset _ _
      refine ⟨hids, fun hbefore id r hr => ?_, by rw [hpending]; exact hsub, ?_⟩
      · rcases hnamed id r hr with hr | hid
        · exact hbefore id r (hget id r hr).1
        · exact hid
      · intro id r k hle hr hk hmem
        rw [hpending]
        have hfree : ∀ r ∈ requests, kept.outgoingRequests.requestsById.get r.id = none := by
          intro r' hr'
          by_contra hsome
          obtain ⟨r'', hr''⟩ := Option.ne_none_iff_exists'.mp hsome
          have hid := h.id_le r'.id r'' (hget _ _ hr'').1
          have hnew := hlt r' hr'
          omega
        -- an old id was not inserted
        have hold : kept.outgoingRequests.requestsById.get id = some r := by
          refine ((insertEach_consistent clock 1 (s := kept) (consistent_keepIds h.consistent ids)
            hfree hnodup).2.2 id fun r' hr' hid => ?_).symm.trans hr
          have hnew := hlt r' hr'
          rw [hid] at hnew
          omega
        obtain ⟨hr, hid⟩ := hget id r hold
        obtain ⟨t, ht⟩ := (h.consistent.same id k).mp ⟨r, hr, hk⟩
        refine Finset.mem_filter.mpr ⟨hmem, AssocMap.contains_iff.mpr ⟨(id, t), ?_⟩⟩
        simpa [AssocMap.get_retain, Option.filter_eq_some_iff] using ⟨ht, hid⟩

/-! ## Turns -/

section Turns

variable {p : BepProcessor}

/-- A turn of a handler of an index leaves what was sent. -/
theorem leavesSent_index (hinv : QueueInStep p.state) (h : IndexHandler) :
    LeavesSent p.state (h.act p).2.state := by
  cases hpc : h.pc with
  | writeIndices =>
      rw [(act_writeIndices p hpc).1]
      have hwrites := writeIndices_writes p.state p.config.localDeviceId h
      exact .of_same hwrites.queue hwrites.requestId
  | enqueue blocks =>
      rw [(act_enqueue p hpc).1]
      exact leavesSent_storeOutgoingRequests hinv blocks h.clock
  | returned | panicked e =>
      unfold IndexHandler.act
      rw [hpc]
      exact .of_same rfl rfl

/-- So does a turn of a handler of a response. -/
theorem leavesSent_response (hinv : QueueInStep p.state) (h : ResponseHandler)
    (outcome : TurnOutcome) :
    LeavesSent p.state (h.act hash sha256 debugRequest p outcome).2.state := by
  rw [(act_state h p outcome).1]
  unfold stateAfter
  cases hpc : h.pc with
  | updateState request fileSize blockSize =>
      dsimp only
      rcases updateBlockStorageState_run h.response.id p.config.localDeviceId p.state with
        ⟨e, hrun⟩ | ⟨r, status, -, hrun⟩
      · rw [hrun]
        exact .of_same rfl rfl
      · rw [hrun]
        exact .of_same rfl rfl
  | updateLocations request locations =>
      have hrows := updateFileLocations_rows request.folder p.config.localDeviceId request.name
        locations p.state
      exact .of_same hrows.queue hrows.requestId
  | removeRequest stored => exact leavesSent_removeRequest hinv h.response.id
  | removeLocations request => exact .of_same rfl rfl
  | _ => exact .of_same rfl rfl

/-- A turn of any handler. -/
theorem leavesSent_act {s : ServerState} (hinv : QueueInStep s.processor.state) (h : MessageHandler)
    (outcome : TurnOutcome) :
    QueueInStep (h.act hash sha256 debugRequest outcome s).2.processor.state ∧
      LeavesSent s.processor.state
        (h.act hash sha256 debugRequest outcome s).2.processor.state := by
  cases h with
  | clusterConfig h =>
      have hshares := shares_act h s
      exact ⟨hinv.of_same hshares.queue hshares.requestId,
        .of_same hshares.queue hshares.requestId⟩
  | index h => exact ⟨(queueInStep_index hinv h).1, leavesSent_index hinv h⟩
  | response h =>
      exact ⟨(queueInStep_response hinv h outcome).1, leavesSent_response hinv h outcome⟩
  | returned results | panicked e => exact ⟨hinv, .of_same rfl rfl⟩

end Turns

/-! ## Runs -/

/-- The queue with the requests that were sent. -/
structure SentInStep (config : ConnectionConfig) (sent : List Request) (s : BepState) : Prop where
  inStep : QueueInStep s
  named : Named s.outgoingRequests
  given : ∀ r ∈ sent, r.id.toInt ≤ s.requestId.toInt
  asks : AsksOnce config sent s.outgoingRequests

/-- A server that has just started has sent nothing. -/
theorem sentInStep_new (db : Database) : SentInStep config [] (.new db) where
  inStep := queueInStep_new db
  named id r hr := by simp [BepState.new, OutgoingRequests.default] at hr
  given := by simp
  asks := ⟨by simp, by simp, ⟨by simp [BepState.new, OutgoingRequests.default],
    by simp [BepState.new, OutgoingRequests.default],
    by simp [BepState.new, OutgoingRequests.default]⟩⟩

/-- A step that sends nothing. -/
theorem SentInStep.of_leavesSent {sent : List Request} (h : SentInStep config sent s)
    (hinv : QueueInStep s') (hleaves : LeavesSent s s') : SentInStep config sent s' where
  inStep := hinv
  named := hleaves.named h.named
  given r hr := (h.given r hr).trans hleaves.ids.requestId_le
  asks := by
    refine ⟨h.asks.once, fun r hr r' hr' => ?_,
      withinLimits_of_subset h.asks.limits hleaves.fewer⟩
    have hold := hleaves.ids.same r.id r' (h.given r hr) hr'
    obtain ⟨rfl, k, hk, hkey⟩ := h.asks.pending r hr r' hold
    exact ⟨rfl, k, hleaves.kept _ _ k (h.given _ hr) hr' hkey hk, hkey⟩

/-- The requests of a call are new ones, each under an id of its own. -/
theorem SentInStep.of_sentFrom {sent : List Request} (h : SentInStep config sent s)
    {taken : List (OutgoingRequest × Request)}
    (hsent : SentFrom s.outgoingRequests
      (config.maxPendingRequests - s.outgoingRequests.pendingRequests.card)
      config.maxTotalPendingRequestsSize 0
      (s.outgoingRequests.pendingRequests.image OutgoingRequest.name) taken)
    (hconsistent : Consistent (markSent s.outgoingRequests (taken.map Prod.fst)))
    {more : List Request} (hmore : more = [] ∨ more = taken.map Prod.snd) :
    SentInStep config (sent ++ more)
      { s with outgoingRequests := markSent s.outgoingRequests (taken.map Prod.fst) } := by
  have htaken : ∀ p ∈ taken, s.outgoingRequests.requestsById.get p.2.id = some p.2 ∧
      OutgoingRequest.ofRequest p.2 = .ok p.1 := by
    intro p hp
    obtain ⟨id, t, hkey, hr⟩ := hsent.queued p hp
    obtain rfl := h.named id p.2 hr
    obtain ⟨r, hr', hk⟩ := (h.inStep.consistent.same p.2.id p.1).mpr ⟨t, hkey⟩
    obtain rfl := Option.some.inj (hr'.symm.trans hr)
    exact ⟨hr, hk⟩
  have hmem : ∀ r ∈ more, ∃ p ∈ taken, p.2 = r := by
    intro r hr
    rcases hmore with rfl | rfl
    · cases hr
    · exact List.mem_map.mp hr
  have hnew : (more.map Request.id).Nodup := by
    rcases hmore with rfl | rfl
    · exact List.nodup_nil
    · rw [List.map_map]
      refine (List.Nodup.of_map Prod.fst hsent.nodup).map_on fun p hp p' hp' hid => ?_
      obtain ⟨hr, hk⟩ := htaken p hp
      obtain ⟨hr', hk'⟩ := htaken p' hp'
      replace hid : p.2.id = p'.2.id := hid
      rw [hid, hr'] at hr
      have hsame := Option.some.inj hr
      rw [hsame, hk] at hk'
      exact Prod.ext (Except.ok.inj hk') hsame.symm
  have hdisjoint : ∀ r ∈ sent, ∀ r' ∈ more, r.id ≠ r'.id := by
    intro r hr r' hr' hid
    obtain ⟨p, hp, rfl⟩ := hmem r' hr'
    obtain ⟨hget, hkey⟩ := htaken p hp
    rw [← hid] at hget
    obtain ⟨heq, k, hk, hkey'⟩ := h.asks.pending r hr p.2 hget
    rw [← heq, hkey] at hkey'
    obtain rfl := Except.ok.inj hkey'
    exact hsent.fresh p hp hk
  have hinStep := h.inStep.of_queue hconsistent fun id r hr => hr
  refine ⟨hinStep, h.named, fun r hr => ?_, ?_, fun r hr r' hr' => ?_, ?_⟩
  · rcases List.mem_append.mp hr with hr | hr
    · exact h.given r hr
    · obtain ⟨p, hp, rfl⟩ := hmem r hr
      exact h.inStep.id_le _ _ (htaken p hp).1
  · rw [List.map_append, List.nodup_append]
    refine ⟨h.asks.once, hnew, ?_⟩
    rintro id hid id' hid' rfl
    obtain ⟨r, hr, rfl⟩ := List.mem_map.mp hid
    obtain ⟨r', hr', heq⟩ := List.mem_map.mp hid'
    exact hdisjoint r hr r' hr' heq.symm
  · rcases List.mem_append.mp hr with hr | hr
    · obtain ⟨heq, k, hk, hkey⟩ := h.asks.pending r hr r' hr'
      exact ⟨heq, k, Finset.mem_union_left _ hk, hkey⟩
    · obtain ⟨p, hp, rfl⟩ := hmem r hr
      obtain ⟨hget, hkey⟩ := htaken p hp
      refine ⟨Option.some.inj (hr'.symm.trans hget), p.1, Finset.mem_union_right _ ?_, hkey⟩
      exact List.mem_toFinset.mpr (List.mem_map_of_mem hp)
  · exact withinLimits_of_sentFrom h.asks.limits h.inStep.consistent.requestedSize_eq
      hconsistent.requestedSize_eq hsent

/-- The loop over a channel asks for requests. -/
theorem sentInStep_requestsFor {sent : List Request} {p : BepProcessor}
    (h : SentInStep config sent p.state) (event : GrizolEvent) {more : List Request}
    (hmore : more = [] ∨ ∃ p', (Connection.requestsFor config event).run p = .ok more p') :
    SentInStep config (sent ++ more)
      (RustM.endState ((Connection.requestsFor config event).run p)).state := by
  cases event with
  | message m =>
      have hnone : more = [] := by
        rcases hmore with hmore | ⟨p', hrun⟩
        · exact hmore
        · exact (EStateM.Result.ok.inj hrun).1.symm
      rw [hnone, List.append_nil]
      exact h
  | requestProcessed | requestCreated =>
      obtain ⟨taken, hsent, hend, hconsistent, hrequests⟩ := updatePendingRequests_sentFrom
        h.inStep.consistent config.maxPendingRequests config.maxTotalPendingRequestsSize
      have hstate : (RustM.endState ((BepProcessor.throttledRequests config.maxPendingRequests
          config.maxTotalPendingRequestsSize).run p)).state = { p.state with
            outgoingRequests := markSent p.state.outgoingRequests (taken.map Prod.fst) } := by
        rw [BepProcessor.throttledRequests, BepProcessor.onState_run,
          BepState.updatePendingRequests, onQueue_run, hend]
      show SentInStep config (sent ++ more) (RustM.endState ((BepProcessor.throttledRequests
        config.maxPendingRequests config.maxTotalPendingRequestsSize).run p)).state
      rw [hstate]
      refine h.of_sentFrom hsent hconsistent (hmore.imp_right ?_)
      rintro ⟨p', hrun⟩
      change (BepProcessor.onState (BepState.onQueue (OutgoingRequests.updatePendingRequests
        config.maxPendingRequests config.maxTotalPendingRequestsSize))).run p = .ok more p' at hrun
      cases hqueue : (OutgoingRequests.updatePendingRequests config.maxPendingRequests
          config.maxTotalPendingRequestsSize).run p.state.outgoingRequests with
      | ok requests q =>
          rw [BepProcessor.onState_eq_ok (onQueue_eq_ok hqueue)] at hrun
          obtain rfl := (EStateM.Result.ok.inj hrun).1
          exact hrequests requests q hqueue
      | error e q =>
          rw [BepProcessor.onState_eq_error (onQueue_eq_error hqueue)] at hrun
          cases hrun

/-- One step of any connection. -/
theorem sentInStep_of_moved {sent : List Request} {k k' : Connection} {s s' : ServerState}
    {event : ConnectionEvent} (h : SentInStep config sent s.processor.state)
    (hmoved : Moved codec hash sha256 debugRequest config k s event k' s') :
    SentInStep config (sent ++ writtenRequests codec config s k event) s'.processor.state := by
  unfold writtenRequests
  cases hmoved with
  | turn i input task task' queued s' htask hturned hqueued =>
      have hnone : writtenEvent codec config s k (.turn i input) = [] := rfl
      rw [hnone, List.flatMap_nil, List.append_nil]
      cases hturned with
      | act handler messages =>
          obtain ⟨hinv, hleaves⟩ := leavesSent_act h.inStep handler input.outcome
          exact h.of_leavesSent hinv hleaves
      | _ => exact h
  | broken event events p outcome hevents hp hwritten =>
      rw [hwritten, List.flatMap_nil, hp]
      exact sentInStep_requestsFor h event (.inl rfl)
  | wrote event events requests p data outcome hevents hrequests hdata =>
      have hwritten : writtenEvent codec config s k (.send outcome) = [(event, requests)] := by
        simp [writtenEvent, hevents, hrequests, hdata]
      rw [hwritten, List.flatMap_singleton]
      have hsent := sentInStep_requestsFor h event (.inr ⟨p, hrequests⟩)
      rw [hrequests, RustM.endState_ok] at hsent
      exact hsent
  | _ =>
      simpa [writtenEvent] using h

/-- **No request is sent twice.** However the connections of a server take turns, no two requests
that they sent have one id, a request that was sent is pending while it is queued, and what
is pending is within the limits, which hold for all connections together. -/
theorem asksOnce_of_run (codec : Codec) (hash : String → ℕ → ℕ → UInt64)
    (sha256 : Bytes → Bytes) (debugRequest : Request → String) (config : ConnectionConfig)
    {state : ServerState} {db : Database} (hstart : state.processor.state = .new db)
    {es : List ServerEvent} {s : Server}
    (hrun : Transition.run (serverStep codec hash sha256 debugRequest config) (.start state) es =
      some s) :
    AsksOnce config (requestsIn codec hash sha256 debugRequest config (.start state) es)
      s.state.processor.state.outgoingRequests := by
  refine (handedOver_of_run (writtenRequests codec config)
    (P := fun sent s => SentInStep config sent s.processor.state) ?_
    (fun _ _ _ _ _ _ => sentInStep_of_moved) hrun).asks
  rw [hstart]
  exact sentInStep_new db

/-- The file of two blocks is offered. -/
def pairIndex : Index := { folder := "default", files := [pairFile] }

/-- The codec of the offered index, with the bytes that `prost` writes. -/
def offeringMessages : Codec :=
  { shortMessages with decodeIndex := decodeAmong encodeIndex [pairIndex] }

/-- The client says Hello and offers the file; both are answered. -/
def offeredRun : List ServerEvent :=
  [⟨0, .accept clientDevice⟩,
    ⟨0, .read (greeting ++ plainFrame .index (encodeIndex pairIndex))⟩] ++
  List.replicate 11 ⟨0, .turn 0 quietInput⟩ ++ List.replicate 2 ⟨0, .send .done⟩

/-- Witness: both blocks of the file are asked for. -/
theorem asksOnce_of_run_offer :
    ∃ s, Transition.run (serverStep offeringMessages (fun _ _ _ => 0) pairHash (fun _ => "")
        unnamedConfig) (.start unsharedState) offeredRun = some s ∧
      (requestsIn offeringMessages (fun _ _ _ => 0) pairHash (fun _ => "") unnamedConfig
        (.start unsharedState) offeredRun).length = 2 ∧
      AsksOnce unnamedConfig (requestsIn offeringMessages (fun _ _ _ => 0) pairHash (fun _ => "")
        unnamedConfig (.start unsharedState) offeredRun)
        s.state.processor.state.outgoingRequests := by
  have hsome : (Transition.run (serverStep offeringMessages (fun _ _ _ => 0) pairHash
      (fun _ => "") unnamedConfig) (.start unsharedState) offeredRun).isSome = true := by
    decide +kernel
  obtain ⟨s, hrun⟩ := Option.isSome_iff_exists.mp hsome
  exact ⟨s, hrun, by decide +kernel, asksOnce_of_run offeringMessages (fun _ _ _ => 0) pairHash
    (fun _ => "") unnamedConfig rfl hrun⟩

end Grizol.Analysis

import Grizol.Analysis.BlockRequests

/-!
# The queue of a server stays in step

Whatever its tasks do and in whatever order, also where they panic, the structures of the
queue stay in step (`queueInStep_of_run`). Ids are given out in increasing order, so the
one of a new request is not in use; everything else is what the operations of the queue
keep by themselves.
-/

set_option autoImplicit false

namespace Grizol.Analysis

open Grizol.Library
open Grizol.Model Grizol.Model.Syncthing Grizol.Interface

/-! ## New ids -/

section Ids

/-- The next number, where it does not overflow. -/
theorem toInt_add_one {x : Int32} (h : x ≠ Int32.maxValue) : (x + 1).toInt = x.toInt + 1 := by
  have hlt := x.toInt_lt
  have hle := x.le_toInt
  have hne : x.toInt ≠ 2147483647 := by
    intro heq
    apply h
    apply Int32.toInt_inj.mp
    rw [heq]
    rfl
  rw [Int32.toInt_add, Int.bmod_eq_of_le]
  · rfl
  · show -((2 ^ 32 : ℕ) / 2 : ℤ) ≤ x.toInt + 1
    omega
  · show x.toInt + 1 < ((2 ^ 32 : ℕ) + 1) / 2
    omega

/-- The ids of a list of new requests are those after the last. -/
theorem id_of_requestsFromBlocks {blocks : List BlockInfoExt} {requestId : Int32}
    {requests : List Request} (h : requestsFromBlocks requestId blocks = .ok requests) :
    (∀ r ∈ requests, requestId.toInt < r.id.toInt) ∧ (requests.map Request.id).Nodup := by
  induction blocks generalizing requestId requests with
  | nil =>
      obtain rfl := Except.ok.inj h
      simp
  | cons b blocks ih =>
      rw [requestsFromBlocks] at h
      split_ifs at h with hmax
      obtain ⟨rest, hrest, h⟩ := Rust.bind_eq_ok.mp h
      obtain rfl := Except.ok.inj h
      obtain ⟨hlt, hnodup⟩ := ih hrest
      have hnext := toInt_add_one hmax
      constructor
      · intro r hr
        rcases List.mem_cons.mp hr with rfl | hr
        · dsimp only
          omega
        · have hr := hlt r hr
          omega
      · rw [List.map_cons, List.nodup_cons]
        refine ⟨?_, hnodup⟩
        intro hmem
        obtain ⟨r, hr, hid⟩ := List.mem_map.mp hmem
        have hr := hlt r hr
        rw [hid] at hr
        exact lt_irrefl _ hr

/-- The greatest of a list of ids and a first one. -/
theorem le_foldl_max (ids : List Int32) (first : Int32) :
    first.toInt ≤ (ids.foldl (fun m i => if i < m then m else i) first).toInt ∧
      ∀ i ∈ ids, i.toInt ≤ (ids.foldl (fun m i => if i < m then m else i) first).toInt := by
  induction ids generalizing first with
  | nil => simp
  | cons i ids ih =>
      rw [List.foldl_cons]
      obtain ⟨hfirst, hrest⟩ := ih (if i < first then first else i)
      have hmax : first.toInt ≤ (if i < first then first else i).toInt ∧
          i.toInt ≤ (if i < first then first else i).toInt := by
        split_ifs with hlt
        · exact ⟨le_rfl, (Int32.lt_iff_toInt_lt.mp hlt).le⟩
        · rw [Int32.lt_iff_toInt_lt] at hlt
          exact ⟨not_lt.mp hlt, le_rfl⟩
      refine ⟨hmax.1.trans hfirst, ?_⟩
      intro j hj
      rcases List.mem_cons.mp hj with rfl | hj
      · exact hmax.2.trans hfirst
      · exact hrest j hj

/-- The counter is set to the greatest id. -/
theorem fetchAddRequestId_run {s : BepState} {next : Int32} (hnonneg : 0 ≤ s.requestId.toInt)
    (hle : s.requestId.toInt ≤ next.toInt) :
    (BepState.fetchAddRequestId (next - s.requestId)).run s =
      .ok s.requestId { s with requestId := next } := by
  have hlt := next.toInt_lt
  have hsub : (next - s.requestId).toInt = next.toInt - s.requestId.toInt := by
    rw [Int32.toInt_sub, Int.bmod_eq_of_le]
    · show -((2 ^ 32 : ℕ) / 2 : ℤ) ≤ next.toInt - s.requestId.toInt
      omega
    · show next.toInt - s.requestId.toInt < ((2 ^ 32 : ℕ) + 1) / 2
      omega
  have hadd : s.requestId + (next - s.requestId) = next := by
    rw [Int32.add_comm, Int32.sub_add_cancel]
  rw [BepState.fetchAddRequestId, EStateM.run_bind, RustM.run_getThe]
  dsimp only
  rw [if_neg (by rw [hsub]; omega), hadd]
  rfl

end Ids

/-! ## The operations -/

section Operations

variable {q : OutgoingRequests}

/-- `insert` of a request whose id is not in use keeps the queue in step, and uses no other id. -/
theorem insert_consistent (hinv : Consistent q) {r : Request} (now : ℕ)
    (hfree : q.requestsById.get r.id = none) :
    let q' := RustM.endState ((OutgoingRequests.insert r.id r now).run q)
    Consistent q' ∧ ∀ id, id ≠ r.id → q'.requestsById.get id = q.requestsById.get id := by
  cases hk : OutgoingRequest.ofRequest r with
  | error e =>
      rw [insert_of_no_key hk]
      exact ⟨hinv, fun _ _ => rfl⟩
  | ok k =>
      cases hget : q.requestsByRequest.get k with
      | some v =>
          rw [insert_of_queued hk hget]
          exact ⟨hinv, fun _ _ => rfl⟩
      | none =>
          rw [insert_of_new hk hget]
          exact ⟨consistent_insert hinv hfree hk hget,
            fun id hid => AssocMap.get_insert_of_ne _ _ hid⟩

/-- Inserting a list of requests with new ids. -/
theorem insertEach_consistent {requests : List Request} (clock : ℕ → ℕ) (n : ℕ) {s : BepState}
    (hinv : Consistent s.outgoingRequests)
    (hfree : ∀ r ∈ requests, s.outgoingRequests.requestsById.get r.id = none)
    (hnodup : (requests.map Request.id).Nodup) :
    let s' := RustM.endState ((BepState.insertEach clock n requests).run s)
    Consistent s'.outgoingRequests ∧ s'.requestId = s.requestId ∧
      ∀ id, (∀ r ∈ requests, r.id ≠ id) →
        s'.outgoingRequests.requestsById.get id = s.outgoingRequests.requestsById.get id := by
  induction requests generalizing n s with
  | nil => exact ⟨hinv, rfl, fun _ _ => rfl⟩
  | cons r requests ih =>
      rw [List.map_cons, List.nodup_cons] at hnodup
      obtain ⟨hconsistent, hothers⟩ := insert_consistent hinv (clock n) (hfree r List.mem_cons_self)
      have hend := onQueue_run (OutgoingRequests.insert r.id r (clock n)) s
      rw [BepState.insertEach, EStateM.run_bind]
      cases hinsert : (BepState.onQueue (OutgoingRequests.insert r.id r (clock n))).run s with
      | error e s₁ =>
          rw [hinsert] at hend
          dsimp only [RustM.endState_error] at hend ⊢
          rw [hend]
          exact ⟨hconsistent, rfl, fun id hid => hothers id (hid r List.mem_cons_self).symm⟩
      | ok inserted s₁ =>
          rw [hinsert] at hend
          dsimp only [RustM.endState_ok] at hend ⊢
          have hqueue : s₁.outgoingRequests = RustM.endState
              ((OutgoingRequests.insert r.id r (clock n)).run s.outgoingRequests) := by
            rw [hend]
          have hid : s₁.requestId = s.requestId := by
            rw [hend]
          rw [← hqueue] at hconsistent hothers
          obtain ⟨hrest, hrestId, hrestOthers⟩ := ih (n + 1) hconsistent
            (by
              intro r' hr'
              rw [hothers r'.id]
              · exact hfree r' (List.mem_cons_of_mem r hr')
              · intro heq
                exact hnodup.1 (heq ▸ List.mem_map_of_mem hr'))
            hnodup.2
          rw [EStateM.run_bind]
          cases hloop : (BepState.insertEach clock (n + 1) requests).run s₁ with
          | error e s₂ | ok rest s₂ =>
              rw [hloop] at hrest hrestId hrestOthers
              refine ⟨hrest, hrestId.trans hid, ?_⟩
              intro id hnot
              refine (hrestOthers id fun r' hr' => hnot r' (List.mem_cons_of_mem r hr')).trans ?_
              exact hothers id (hnot r List.mem_cons_self).symm

end Operations

/-! ## The state of a server -/

section States

variable {s s' : BepState}

/-- The queue is in step, and no id of it is above the last that was given out. -/
structure QueueInStep (s : BepState) : Prop where
  consistent : Consistent s.outgoingRequests
  requestId_nonneg : 0 ≤ s.requestId.toInt
  id_le : ∀ id r, s.outgoingRequests.requestsById.get id = some r →
    id.toInt ≤ s.requestId.toInt

/-- An id that was given out has no other request afterwards. -/
structure IdsKept (s s' : BepState) : Prop where
  requestId_le : s.requestId.toInt ≤ s'.requestId.toInt
  same : ∀ id r, id.toInt ≤ s.requestId.toInt →
    s'.outgoingRequests.requestsById.get id = some r →
    s.outgoingRequests.requestsById.get id = some r

/-- An operation that uses no new id. -/
theorem IdsKept.of_queue (hid : s'.requestId = s.requestId)
    (hids : ∀ id r, s'.outgoingRequests.requestsById.get id = some r →
      s.outgoingRequests.requestsById.get id = some r) : IdsKept s s' :=
  ⟨by rw [hid], fun id r _ hr => hids id r hr⟩

/-- The same queue keeps its ids. -/
theorem IdsKept.of_same (hqueue : s'.outgoingRequests = s.outgoingRequests)
    (hid : s'.requestId = s.requestId) : IdsKept s s' := by
  refine .of_queue hid ?_
  intro id r hr
  rw [hqueue] at hr
  exact hr

/-- The queue of a server that has just started is in step. -/
theorem queueInStep_new (db : Database) : QueueInStep (.new db) where
  consistent := consistent_default
  requestId_nonneg := le_rfl
  id_le id r h := by simp [BepState.new, OutgoingRequests.default] at h

/-- What leaves the queue and the counter alone. -/
theorem QueueInStep.of_same (h : QueueInStep s)
    (hqueue : s'.outgoingRequests = s.outgoingRequests) (hid : s'.requestId = s.requestId) :
    QueueInStep s' := by
  obtain ⟨hconsistent, hnonneg, hle⟩ := h
  rw [← hqueue, ← hid] at *
  exact ⟨hconsistent, hnonneg, hle⟩

/-- An operation that keeps the queue in step and uses no new id. -/
theorem QueueInStep.of_queue (h : QueueInStep s) {q : OutgoingRequests} (hconsistent : Consistent q)
    (hids : ∀ id r, q.requestsById.get id = some r →
      s.outgoingRequests.requestsById.get id = some r) :
    QueueInStep { s with outgoingRequests := q } :=
  ⟨hconsistent, h.requestId_nonneg, fun id r hr => h.id_le id r (hids id r hr)⟩

/-- Forgetting a request keeps the ids of the others. -/
theorem idsKept_removeRequest (requestId : Int32) :
    IdsKept s (RustM.endState ((BepState.removeRequest requestId).run s)) := by
  rw [BepState.removeRequest, onQueue_run]
  refine .of_queue rfl ?_
  intro id r hr
  dsimp only at hr
  rw [remove_requestsById, AssocMap.get_erase] at hr
  split_ifs at hr
  exact hr

/-- And the queue in step. -/
theorem queueInStep_removeRequest (h : QueueInStep s) (requestId : Int32) :
    QueueInStep (RustM.endState ((BepState.removeRequest requestId).run s)) := by
  rw [BepState.removeRequest, onQueue_run]
  refine h.of_queue (consistent_remove h.consistent requestId) ?_
  intro id r hr
  rw [remove_requestsById, AssocMap.get_erase] at hr
  split_ifs at hr
  exact hr

/-- Sending requests keeps the ids. -/
theorem idsKept_updatePendingRequests (maxPending maxStorageArea : ℕ) :
    IdsKept s (RustM.endState
      ((BepState.updatePendingRequests maxPending maxStorageArea).run s)) := by
  rw [BepState.updatePendingRequests, onQueue_run]
  refine .of_queue rfl ?_
  intro id r hr
  dsimp only at hr
  rw [(updatePendingRequests_maps _ _ _).1] at hr
  exact hr

/-- And the queue in step. -/
theorem queueInStep_updatePendingRequests (h : QueueInStep s) (maxPending maxStorageArea : ℕ) :
    QueueInStep (RustM.endState
      ((BepState.updatePendingRequests maxPending maxStorageArea).run s)) := by
  rw [BepState.updatePendingRequests, onQueue_run]
  refine h.of_queue (updatePendingRequests_consistent h.consistent maxPending maxStorageArea) ?_
  intro id r hr
  rw [(updatePendingRequests_maps _ _ _).1] at hr
  exact hr

/-- Requests are inserted after the old ones are removed. -/
theorem queueInStep_insertRequests (h : QueueInStep s) {requests : List Request}
    {next : Int32} (hnext : s.requestId.toInt ≤ next.toInt)
    (hids : ∀ r ∈ requests, s.requestId.toInt < r.id.toInt ∧ r.id.toInt ≤ next.toInt)
    (hnodup : (requests.map Request.id).Nodup) (clock : ℕ → ℕ) :
    QueueInStep (RustM.endState
        ((BepState.insertRequests requests clock).run { s with requestId := next })) ∧
      IdsKept s (RustM.endState
        ((BepState.insertRequests requests clock).run { s with requestId := next })) := by
  have hold := onQueue_run (OutgoingRequests.removeOldRequests (clock 0))
    { s with requestId := next }
  dsimp only at hold
  rw [removeOldRequests_run h.consistent, RustM.endState_ok] at hold
  have hconsistent := consistent_keepIds h.consistent
    (waitingIds s.outgoingRequests (clock 0))
  have hkept : ∀ id r,
      (keepIds s.outgoingRequests (waitingIds s.outgoingRequests (clock 0))).requestsById.get id =
        some r → s.outgoingRequests.requestsById.get id = some r := by
    intro id r hr
    simp only [keepIds, AssocMap.get_retain, Option.filter_eq_some_iff] at hr
    exact hr.1
  have hmid : QueueInStep { s with
      requestId := next
      outgoingRequests :=
        keepIds s.outgoingRequests (waitingIds s.outgoingRequests (clock 0)) } :=
    ⟨hconsistent, h.requestId_nonneg.trans hnext,
      fun id r hr => (h.id_le id r (hkept id r hr)).trans hnext⟩
  rw [BepState.insertRequests, EStateM.run_bind]
  cases hrun : (BepState.onQueue (OutgoingRequests.removeOldRequests (clock 0))).run
      { s with requestId := next } with
  | error e s₁ =>
      rw [hrun, RustM.endState_error] at hold
      rw [RustM.endState_error, hold]
      exact ⟨hmid, hnext, fun id r _ hr => hkept id r hr⟩
  | ok u s₁ =>
      rw [hrun, RustM.endState_ok] at hold
      dsimp only
      rw [hold]
      have hfree : ∀ r ∈ requests,
          (keepIds s.outgoingRequests
            (waitingIds s.outgoingRequests (clock 0))).requestsById.get r.id = none := by
        intro r hr
        cases hget : (keepIds s.outgoingRequests
            (waitingIds s.outgoingRequests (clock 0))).requestsById.get r.id with
        | none => rfl
        | some r' =>
            have hle := h.id_le r.id r' (hkept r.id r' hget)
            have hlt := (hids r hr).1
            omega
      obtain ⟨hend, hid, hothers⟩ := insertEach_consistent (s := { s with
        requestId := next
        outgoingRequests :=
          keepIds s.outgoingRequests (waitingIds s.outgoingRequests (clock 0)) })
        clock 1 hconsistent hfree hnodup
      refine ⟨⟨hend, ?_, ?_⟩, ?_, ?_⟩
      · rw [hid]
        exact hmid.requestId_nonneg
      · intro id r hr
        rw [hid]
        by_cases hnew : ∃ r' ∈ requests, r'.id = id
        · obtain ⟨r', hr', rfl⟩ := hnew
          exact (hids r' hr').2
        · rw [hothers id fun r' hr' heq => hnew ⟨r', hr', heq⟩] at hr
          exact hmid.id_le id r hr
      · rw [hid]
        exact hnext
      · intro id r hle hr
        have hold : ∀ r' ∈ requests, r'.id ≠ id := by
          rintro r' hr' rfl
          exact absurd (hids r' hr').1 (not_lt.mpr hle)
        rw [hothers id hold] at hr
        exact hkept id r hr

/-- Queueing requests keeps both. -/
theorem queueInStep_storeOutgoingRequests (h : QueueInStep s) (blocks : List BlockInfoExt)
    (clock : ℕ → ℕ) :
    QueueInStep (RustM.endState ((storeOutgoingRequests blocks clock).run s)) ∧
      IdsKept s (RustM.endState ((storeOutgoingRequests blocks clock).run s)) := by
  unfold storeOutgoingRequests
  rw [EStateM.run_bind, RustM.run_getThe]
  dsimp only
  cases hrequests : requestsFromBlocks s.requestId blocks with
  | error e => exact ⟨h, .of_same rfl rfl⟩
  | ok requests =>
      obtain ⟨hlt, hnodup⟩ := id_of_requestsFromBlocks hrequests
      obtain ⟨hfirst, hrest⟩ := le_foldl_max (requests.map Request.id) s.requestId
      rw [EStateM.run_bind, RustM.run_lift_ok]
      dsimp only
      rw [EStateM.run_bind, fetchAddRequestId_run h.requestId_nonneg hfirst]
      dsimp only
      refine queueInStep_insertRequests h hfirst ?_ hnodup clock
      intro r hr
      exact ⟨hlt r hr, hrest r.id (List.mem_map_of_mem hr)⟩

end States

/-! ## Turns -/

section Turns

variable {hash : String → ℕ → ℕ → UInt64} {sha256 : Bytes → Bytes}
  {debugRequest : Request → String} {p : BepProcessor}

/-- So does a turn of a handler of an index. -/
theorem queueInStep_index (hinv : QueueInStep p.state) (h : IndexHandler) :
    QueueInStep (h.act p).2.state ∧ IdsKept p.state (h.act p).2.state := by
  cases hpc : h.pc with
  | writeIndices =>
      rw [(act_writeIndices p hpc).1]
      have hwrites := writeIndices_writes p.state p.config.localDeviceId h
      exact ⟨hinv.of_same hwrites.queue hwrites.requestId, .of_same hwrites.queue hwrites.requestId⟩
  | enqueue blocks =>
      rw [(act_enqueue p hpc).1]
      exact queueInStep_storeOutgoingRequests hinv blocks h.clock
  | returned | panicked e =>
      unfold IndexHandler.act
      rw [hpc]
      exact ⟨hinv, .of_same rfl rfl⟩

/-- And of a handler of a response. -/
theorem queueInStep_response (hinv : QueueInStep p.state) (h : ResponseHandler)
    (outcome : TurnOutcome) :
    QueueInStep (h.act hash sha256 debugRequest p outcome).2.state ∧
      IdsKept p.state (h.act hash sha256 debugRequest p outcome).2.state := by
  rw [(act_state h p outcome).1]
  unfold stateAfter
  cases hpc : h.pc with
  | updateState request fileSize blockSize =>
      dsimp only
      rcases updateBlockStorageState_run h.response.id p.config.localDeviceId p.state with
        ⟨e, hrun⟩ | ⟨r, status, -, hrun⟩
      · rw [hrun]
        exact ⟨hinv, .of_same rfl rfl⟩
      · rw [hrun]
        exact ⟨hinv.of_same rfl rfl, .of_same rfl rfl⟩
  | updateLocations request locations =>
      have hrows := updateFileLocations_rows request.folder p.config.localDeviceId request.name
        locations p.state
      exact ⟨hinv.of_same hrows.queue hrows.requestId, .of_same hrows.queue hrows.requestId⟩
  | removeRequest stored =>
      exact ⟨queueInStep_removeRequest hinv h.response.id, idsKept_removeRequest h.response.id⟩
  | removeLocations request => exact ⟨hinv.of_same rfl rfl, .of_same rfl rfl⟩
  | getRequest | fileInfo request | createDir request fileSize blockSize
  | openWriter request fileSize blockSize | writeChunk request fileSize blockSize offset pc
  | concludeWriter request fileSize blockSize | consolidate request pc
  | copy request n backends copied | removeFile request | returned result | panicked fault =>
      exact ⟨hinv, .of_same rfl rfl⟩

/-- And the loop of a connection. -/
theorem queueInStep_connection (hinv : QueueInStep p.state) (maxPending maxStorageArea : ℕ) :
    QueueInStep (RustM.endState
        ((BepProcessor.throttledRequests maxPending maxStorageArea).run p)).state ∧
      IdsKept p.state (RustM.endState
        ((BepProcessor.throttledRequests maxPending maxStorageArea).run p)).state := by
  rw [BepProcessor.throttledRequests, BepProcessor.onState_run]
  exact ⟨queueInStep_updatePendingRequests hinv maxPending maxStorageArea,
    idsKept_updatePendingRequests maxPending maxStorageArea⟩

/-- No turn of any task brings the queue out of step, or gives an id that was given out to
another request. -/
theorem queueInStep_act (hinv : QueueInStep p.state) (task : ServerTask) (outcome : TurnOutcome) :
    QueueInStep (task.act hash sha256 debugRequest outcome p).2.state ∧
      IdsKept p.state (task.act hash sha256 debugRequest outcome p).2.state := by
  cases task with
  | index h => exact queueInStep_index hinv h
  | response h => exact queueInStep_response hinv h outcome
  | connection maxPending maxStorageArea =>
      exact queueInStep_connection hinv maxPending maxStorageArea

/-- **The queue of a server stays in step.** Whatever tasks take turns on a server that has
just started, in whatever order and however what they ask for ends, the structures of
the queue agree after every turn, also after one in which a task panics. -/
theorem queueInStep_of_run {ι : Type} [DecidableEq ι] {db : Database} {p₀ : BepProcessor}
    (hstart : p₀.state = .new db) {tasks : ι → ServerTask} {turns : List (Turn ι TurnOutcome)}
    {s : Processes ι ServerTask BepProcessor}
    (hrun : Transition.run (Processes.step (ServerTask.act hash sha256 debugRequest))
      ⟨p₀, tasks⟩ turns = some s) : QueueInStep s.shared.state := by
  refine Transition.invariant_run (fun s : Processes ι ServerTask BepProcessor =>
    QueueInStep s.shared.state) ?_ ?_ hrun
  · show QueueInStep p₀.state
    rw [hstart]
    exact queueInStep_new db
  · intro s t s' hinv hstep
    have hshared : s'.shared = (ServerTask.act hash sha256 debugRequest t.outcome
        (s.process t.process) s.shared).2 := congrArg Prod.snd (Processes.step_self hstep)
    rw [hshared]
    exact (queueInStep_act hinv (s.process t.process) t.outcome).1

end Turns

end Grizol.Analysis

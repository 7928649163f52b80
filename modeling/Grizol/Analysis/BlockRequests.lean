import Grizol.Analysis.HandlerTurns

/-!
# No request for a block that is stored

A block on the list of a handler between its two sections is not stored, or its request
is queued (`AwaitedQueued`): it is not stored when the list is made, and then it is
marked only while its request is queued. Then the second section finds the request
there, provided that it did not leave the queue before.
-/

set_option autoImplicit false

namespace Grizol.Analysis

open Grizol.Library
open Grizol.Model Grizol.Model.Syncthing Grizol.Interface

/-! ## Stored blocks -/

section Rows

variable {db db' : Database}

/-- A block that is stored in the second database is stored in the first. -/
def StoredShrinks (db db' : Database) : Prop :=
  ∀ key row, db'.bepBlockInfo.get key = some row → row.storageStatus = .storedLocally →
    db.bepBlockInfo.get key = some row

/-- Two writes that store nothing store nothing. -/
theorem StoredShrinks.trans {db'' : Database} (h : StoredShrinks db db')
    (h' : StoredShrinks db' db'') : StoredShrinks db db'' := by
  intro key row hrow hstored
  exact h key row (h' key row hrow hstored) hstored

/-- Nor does one that leaves the blocks. -/
theorem StoredShrinks.of_same (h : db'.bepBlockInfo = db.bepBlockInfo) : StoredShrinks db db' := by
  intro key row hrow _
  rw [← h]
  exact hrow

/-- The row of a file is no block. -/
theorem insertFileInfo_shrinks {key : FileKey} {row : FileRow}
    (h : db.insertFileInfo key row = .ok db') : StoredShrinks db db' := by
  unfold Database.insertFileInfo at h
  split_ifs at h
  obtain rfl := Except.ok.inj h
  exact .of_same rfl

/-- Nor are counters. -/
theorem insertVersions_shrinks {key : FileKey} {counters : List Counter}
    (h : BepState.insertVersions key counters db = .ok db') : StoredShrinks db db' := by
  induction counters generalizing db with
  | nil =>
      obtain rfl := Except.ok.inj h
      exact .of_same rfl
  | cons counter counters ih =>
      obtain ⟨_, -, h⟩ := Rust.bind_eq_ok.mp h
      obtain ⟨db₁, hversion, hrest⟩ := Rust.bind_eq_ok.mp h
      have hsame : StoredShrinks db db₁ := by
        unfold Database.insertVersion at hversion
        split_ifs at hversion
        obtain rfl := Except.ok.inj hversion
        exact .of_same rfl
      exact hsame.trans (ih hrest)

/-- A block that is new is not stored. -/
theorem insertBlock_shrinks {key : BlockKey} {weakHash : UInt32}
    (h : db.insertBlock key ⟨weakHash, .notStored⟩ = .ok db') : StoredShrinks db db' := by
  unfold Database.insertBlock at h
  split_ifs at h
  obtain rfl := Except.ok.inj h
  intro key' row hrow hstored
  dsimp only at hrow
  rw [AssocMap.get_entryOrInsert] at hrow
  split_ifs at hrow with hkey
  · rw [hkey]
    cases hget : db.bepBlockInfo.get key with
    | none =>
        rw [hget] at hrow
        obtain rfl := Option.some.inj hrow
        cases hstored
    | some row' =>
        rw [hget] at hrow
        exact hrow
  · exact hrow

/-- New blocks are unstored. -/
theorem insertBlocks_shrinks {key : FileKey} {blocks : List BlockInfo}
    (h : BepState.insertBlocks key blocks db = .ok db') : StoredShrinks db db' := by
  induction blocks generalizing db with
  | nil =>
      obtain rfl := Except.ok.inj h
      exact .of_same rfl
  | cons block blocks ih =>
      obtain ⟨db₁, hblock, hrest⟩ := Rust.bind_eq_ok.mp h
      exact (insertBlock_shrinks hblock).trans (ih hrest)

/-- A deletion leaves fewer. -/
theorem deleteFileInfo_shrinks (p : FileKey → Bool) : StoredShrinks db (db.deleteFileInfo p) := by
  intro key row hrow _
  dsimp only [Database.deleteFileInfo] at hrow
  rw [AssocMap.get_retain, Option.filter_eq_some_iff] at hrow
  exact hrow.1

/-- The statements of the handlers of indices store no block. -/
theorem storedShrinks_of_writes (h : IndexWrites db db') : StoredShrinks db db' := by
  induction h with
  | refl => exact .of_same rfl
  | clear _ folder deviceId ih => exact ih.trans (deleteFileInfo_shrinks _)
  | upsert _ hwrite ih =>
      obtain ⟨db₁, hfile, hwrite⟩ := Rust.bind_eq_ok.mp hwrite
      obtain ⟨version, -, hwrite⟩ := Rust.bind_eq_ok.mp hwrite
      obtain ⟨db₂, hversions, hblocks⟩ := Rust.bind_eq_ok.mp hwrite
      exact ((ih.trans (insertFileInfo_shrinks hfile)).trans (insertVersions_shrinks hversions)).trans
        (insertBlocks_shrinks hblocks)
  | replace _ hwrite ih =>
      obtain ⟨db₁, hfile, hwrite⟩ := Rust.bind_eq_ok.mp hwrite
      obtain ⟨version, -, hwrite⟩ := Rust.bind_eq_ok.mp hwrite
      obtain ⟨db₂, hversions, hwrite⟩ := Rust.bind_eq_ok.mp hwrite
      split_ifs at hwrite
      exact (((ih.trans (deleteFileInfo_shrinks _)).trans (insertFileInfo_shrinks hfile)).trans
        (insertVersions_shrinks hversions)).trans
        (insertBlocks_shrinks (insertBlocks_of_insertNewBlocks hwrite))

/-- Marking stores the blocks with the hash, and no others. -/
theorem get_markHash {file : FileKey} {blockHash : Bytes} {key : BlockKey} {row : BlockRow}
    (hrow : (markHash db file blockHash).bepBlockInfo.get key = some row) :
    (key.file = file ∧ key.hash = blockHash) ∨ db.bepBlockInfo.get key = some row := by
  dsimp only [markHash, Database.setStorageStatus] at hrow
  rw [AssocMap.get_mapValues, Option.map_eq_some_iff] at hrow
  obtain ⟨row', hrow', hmark⟩ := hrow
  by_cases hkey : key.file = file ∧ key.hash = blockHash
  · exact Or.inl hkey
  · rw [if_neg (by simpa using hkey)] at hmark
    rw [hrow', hmark]
    exact Or.inr rfl

end Rows

/-! ## The queue -/

section Queue

/-- The loop of `update_pending_requests` leaves the maps as they are. -/
theorem updateLoop_maps (freeSlots maxStorageArea : ℕ)
    (entries : List (OutgoingRequest × Int32 × ℕ)) (processed : List Request)
    (fileNames : Finset String) (q : OutgoingRequests) :
    let q' := RustM.endState ((OutgoingRequests.updateLoop freeSlots maxStorageArea entries
      processed fileNames).run q)
    q'.requestsById = q.requestsById ∧ q'.requestsByRequest = q.requestsByRequest := by
  induction entries generalizing processed fileNames q with
  | nil => exact ⟨rfl, rfl⟩
  | cons entry entries ih =>
      obtain ⟨k, id, time⟩ := entry
      rw [OutgoingRequests.updateLoop]
      split_ifs
      · exact ⟨rfl, rfl⟩
      · exact ⟨rfl, rfl⟩
      · rw [EStateM.run_bind, RustM.run_getThe]
        dsimp only
        cases hadd : Rust.add 64 q.requestedSize (asUsize k.size) with
        | error e => exact ⟨rfl, rfl⟩
        | ok newSize =>
            rw [EStateM.run_bind, RustM.run_lift_ok]
            dsimp only
            split_ifs
            · exact ⟨rfl, rfl⟩
            · exact ih processed fileNames q
            · cases hr : q.requestsById.get id with
              | none => exact ⟨rfl, rfl⟩
              | some r => exact ih _ _ _

/-- Sending requests leaves the tables of the queue. -/
theorem updatePendingRequests_maps (maxPending maxStorageArea : ℕ) (q : OutgoingRequests) :
    let q' := RustM.endState
      ((OutgoingRequests.updatePendingRequests maxPending maxStorageArea).run q)
    q'.requestsById = q.requestsById ∧ q'.requestsByRequest = q.requestsByRequest := by
  rw [OutgoingRequests.updatePendingRequests, EStateM.run_bind, RustM.run_getThe]
  dsimp only
  cases Rust.sub maxPending q.pendingRequests.card with
  | error e => exact ⟨rfl, rfl⟩
  | ok freeSlots => exact updateLoop_maps freeSlots maxStorageArea _ _ _ _

/-- And so the loop changes the queue only. -/
theorem throttledRequests_maps (maxPending maxStorageArea : ℕ) (p : BepProcessor) :
    (RustM.endState ((BepProcessor.throttledRequests maxPending maxStorageArea).run p)) =
      { p with state := { p.state with
          outgoingRequests := RustM.endState
            ((OutgoingRequests.updatePendingRequests maxPending maxStorageArea).run
              p.state.outgoingRequests) } } ∧
    (RustM.endState ((OutgoingRequests.updatePendingRequests maxPending maxStorageArea).run
      p.state.outgoingRequests)).requestsByRequest = p.state.outgoingRequests.requestsByRequest := by
  refine ⟨?_, (updatePendingRequests_maps maxPending maxStorageArea p.state.outgoingRequests).2⟩
  rw [BepProcessor.throttledRequests, BepProcessor.onState_run,
    BepState.updatePendingRequests, onQueue_run]

/-- `remove` drops the key of the request of the id, whether it panics then or not. -/
theorem remove_requestsByRequest {requestId : Int32} {q : OutgoingRequests} {r : Request}
    {k : OutgoingRequest} (hr : q.requestsById.get requestId = some r)
    (hk : OutgoingRequest.ofRequest r = .ok k) :
    (RustM.endState ((OutgoingRequests.remove requestId).run q)).requestsByRequest =
      q.requestsByRequest.erase k := by
  by_cases hqueued : (q.requestsByRequest.get k).isSome = true
  · by_cases hpending : k ∈ q.pendingRequests
    · by_cases hle : asUsize k.size ≤ q.requestedSize
      · simp [OutgoingRequests.remove, EStateM.run_bind, hr, hk, hqueued, hpending, hle]
      · simp [OutgoingRequests.remove, EStateM.run_bind, hr, hk, hqueued, hpending, hle, Rust.assert]
    · simp [OutgoingRequests.remove, EStateM.run_bind, hr, hk, hqueued, hpending, Rust.assert]
  · simp [OutgoingRequests.remove, EStateM.run_bind, hr, hk, hqueued, Rust.assert]

/-- It drops no other. -/
theorem remove_requestsByRequest_of_none {requestId : Int32} {q : OutgoingRequests}
    (h : ∀ r k, q.requestsById.get requestId = some r → OutgoingRequest.ofRequest r ≠ .ok k) :
    (RustM.endState ((OutgoingRequests.remove requestId).run q)).requestsByRequest =
      q.requestsByRequest := by
  cases hr : q.requestsById.get requestId with
  | none => simp [OutgoingRequests.remove, EStateM.run_bind, hr]
  | some r =>
      cases hk : OutgoingRequest.ofRequest r with
      | error e => simp [OutgoingRequests.remove, EStateM.run_bind, hr, hk]
      | ok k => exact absurd hk (h r k hr)

end Queue

/-! ## Turns -/

section Turns

variable {p p' : BepProcessor}

/-- Nothing is enqueued. -/
theorem enqueuesUnstored_of_same
    (h : p'.state.outgoingRequests.requestsByRequest = p.state.outgoingRequests.requestsByRequest) :
    EnqueuesUnstored p p' := by
  intro k v hv
  rw [h] at hv
  exact Or.inl hv

/-- A block that is stored afterwards was stored before. -/
theorem stored_of_shrinks (h : StoredShrinks p.state.db p'.state.db) (hconfig : p'.config = p.config)
    {k : OutgoingRequest} (hstored : Stored p' k) : Stored p k := by
  obtain ⟨row, hrow, hstatus⟩ := hstored
  rw [hconfig] at hrow
  exact ⟨row, h _ row hrow hstatus, hstatus⟩

/-- A block that is listed as not stored is not. -/
theorem not_stored_of_lists {k : OutgoingRequest}
    (h : Lists (p.state.blocksInfo p.config.localDeviceId .notStored) k) : ¬ Stored p k := by
  rintro ⟨row, hrow, hstored⟩
  obtain ⟨-, b, hb, hfolder, hname, hoffset, hsize, hhash⟩ := h
  obtain ⟨⟨key, row'⟩, he, rfl⟩ := List.mem_map.mp hb
  obtain ⟨hentry, hfilter⟩ := List.mem_filter.mp he
  simp only [Bool.and_eq_true, decide_eq_true_eq] at hfilter hfolder hname hoffset hsize hhash
  have hkey : key = blockOf p.config.localDeviceId k := by
    obtain ⟨⟨folder, device, name⟩, offset, size, hash⟩ := key
    simp only at hfolder hname hoffset hsize hhash hfilter
    rw [blockOf, ← hfolder, ← hname, ← hoffset, ← hsize, ← hhash, hfilter.1]
  rw [← hkey, AssocMap.mem_entries_iff.mp hentry] at hrow
  obtain rfl := Option.some.inj hrow
  rw [hstored] at hfilter
  cases hfilter.2

/-- A turn of the loop of a connection enqueues nothing and stores nothing. -/
theorem connection_turn (maxPending maxStorageArea : ℕ) :
    let p' := RustM.endState ((BepProcessor.throttledRequests maxPending maxStorageArea).run p)
    p'.config = p.config ∧ p'.state.db = p.state.db ∧
      p'.state.outgoingRequests.requestsByRequest = p.state.outgoingRequests.requestsByRequest := by
  intro p'
  obtain ⟨hrun, hmaps⟩ := throttledRequests_maps maxPending maxStorageArea p
  have hp' : p' = _ := hrun
  rw [hp']
  exact ⟨rfl, rfl, hmaps⟩

variable {ι : Type} [DecidableEq ι] {hash : String → ℕ → ℕ → UInt64} {sha256 : Bytes → Bytes}
  {debugRequest : Request → String} {s s' : Processes ι ServerTask BepProcessor}
  {t : Turn ι TurnOutcome}

/-- A stored block on the list of a handler between its sections is queued. -/
def AwaitedQueued (s : Processes ι ServerTask BepProcessor) : Prop :=
  ∀ k, Awaited s k → Stored s.shared k → Queued s.shared k

/-- Who waits after a turn is the task whose turn it was, or waited before. -/
theorem awaited_of_step (hother : ∀ j, j ≠ t.process → s'.process j = s.process j)
    {k : OutgoingRequest} (h : Awaited s' k) :
    (∃ h blocks, s'.process t.process = .index h ∧ h.pc = .enqueue blocks ∧ Lists blocks k) ∨
      Awaited s k := by
  obtain ⟨i, h, blocks, hprocess, hpc, hlists⟩ := h
  by_cases hi : i = t.process
  · subst hi
    exact Or.inl ⟨h, blocks, hprocess, hpc, hlists⟩
  · rw [hother i hi] at hprocess
    exact Or.inr ⟨i, h, blocks, hprocess, hpc, hlists⟩

/-- A turn of the handler of a response. -/
theorem awaitedQueued_response (hinv : AwaitedQueued s) (hundisturbed : Undisturbed s t)
    {h h' : ResponseHandler} (hprocess : s.process t.process = .response h)
    (hprocess' : s'.process t.process = .response h')
    (hother : ∀ j, j ≠ t.process → s'.process j = s.process j)
    (hstate : s'.shared.state = stateAfter h s.shared) (hconfig : s'.shared.config = s.shared.config) :
    AwaitedQueued s' ∧ EnqueuesUnstored s.shared s'.shared := by
  have hawaited : ∀ k, Awaited s' k → Awaited s k := by
    intro k hk
    rcases awaited_of_step hother hk with ⟨h₁, blocks, hindex, -⟩ | hk
    · rw [hprocess'] at hindex
      cases hindex
    · exact hk
  have hsame : s'.shared.state.db.bepBlockInfo = s.shared.state.db.bepBlockInfo →
      s'.shared.state.outgoingRequests.requestsByRequest =
        s.shared.state.outgoingRequests.requestsByRequest →
      AwaitedQueued s' ∧ EnqueuesUnstored s.shared s'.shared := by
    intro hblocks hqueue
    refine ⟨?_, enqueuesUnstored_of_same hqueue⟩
    intro k hk hstored
    rw [Queued, hqueue]
    exact hinv k (hawaited k hk) (stored_of_shrinks (.of_same hblocks) hconfig hstored)
  have hunchanged : stateAfter h s.shared = s.shared.state →
      AwaitedQueued s' ∧ EnqueuesUnstored s.shared s'.shared := by
    intro heq
    apply hsame <;> rw [hstate, heq]
  cases hpc : h.pc with
  | updateState request fileSize blockSize =>
      rw [stateAfter, hpc] at hstate
      rcases updateBlockStorageState_run h.response.id s.shared.config.localDeviceId
        s.shared.state with ⟨e, hrun⟩ | ⟨r, status, hr, hrun⟩
      · rw [hrun] at hstate
        apply hsame <;> rw [hstate] <;> rfl
      · rw [hrun, RustM.endState_ok] at hstate
        have hqueue : s'.shared.state.outgoingRequests = s.shared.state.outgoingRequests := by
          rw [hstate]
        refine ⟨?_, enqueuesUnstored_of_same (by rw [hqueue])⟩
        rintro k hk ⟨row, hrow, hstored⟩
        rw [Queued, hqueue]
        rw [hstate, hconfig] at hrow
        rcases get_markHash hrow with ⟨hfile, hhash⟩ | hrow
        · obtain ⟨hfolder, -, hname⟩ := FileKey.mk.inj hfile
          exact hundisturbed.marked h request fileSize blockSize r k hprocess hpc hr (hawaited k hk)
            hfolder hname hhash
        · exact hinv k (hawaited k hk) ⟨row, hrow, hstored⟩
  | removeRequest stored =>
      rw [stateAfter, hpc] at hstate
      dsimp only at hstate
      rw [BepState.removeRequest, onQueue_run] at hstate
      have hblocks : s'.shared.state.db.bepBlockInfo = s.shared.state.db.bepBlockInfo := by
        rw [hstate]
      by_cases hown : ∃ r k, s.shared.state.outgoingRequests.requestsById.get h.response.id = some r ∧
          OutgoingRequest.ofRequest r = .ok k
      · obtain ⟨r, own, hr, hown⟩ := hown
        have hqueue : s'.shared.state.outgoingRequests.requestsByRequest =
            s.shared.state.outgoingRequests.requestsByRequest.erase own := by
          rw [hstate]
          exact remove_requestsByRequest hr hown
        constructor
        · intro k hk hstored
          have hbefore := stored_of_shrinks (.of_same hblocks) hconfig hstored
          have hne : k ≠ own := by
            rintro rfl
            exact hundisturbed.answered h stored r k hprocess hpc hr hown (hawaited k hk) hbefore
          have hqueued := hinv k (hawaited k hk) hbefore
          rw [Queued, AssocMap.contains] at hqueued ⊢
          rw [hqueue, AssocMap.get_erase_of_ne _ hne]
          exact hqueued
        · intro k v hv
          rw [hqueue, AssocMap.get_erase] at hv
          split_ifs at hv
          exact Or.inl hv
      · apply hsame hblocks
        rw [hstate]
        apply remove_requestsByRequest_of_none
        intro r k hr hk
        exact hown ⟨r, k, hr, hk⟩
  | updateLocations request locations =>
      rw [stateAfter, hpc] at hstate
      dsimp only at hstate
      have hrows := updateFileLocations_rows request.folder s.shared.config.localDeviceId
        request.name locations s.shared.state
      rw [← hstate] at hrows
      exact hsame hrows.blocks (by rw [hrows.queue])
  | removeLocations request =>
      rw [stateAfter, hpc] at hstate
      apply hsame <;> rw [hstate] <;> rfl
  | getRequest | fileInfo request | createDir request fileSize blockSize
  | openWriter request fileSize blockSize | writeChunk request fileSize blockSize offset pc
  | concludeWriter request fileSize blockSize | consolidate request pc
  | copy request n backends copied | removeFile request | returned result | panicked fault =>
      apply hunchanged
      rw [stateAfter, hpc]

/-- A turn of the handler of an index. -/
theorem awaitedQueued_index (hinv : AwaitedQueued s) (hundisturbed : Undisturbed s t)
    {h : IndexHandler} (hprocess : s.process t.process = .index h)
    (hprocess' : s'.process t.process = .index (h.act s.shared).1)
    (hshared : s'.shared = (h.act s.shared).2)
    (hother : ∀ j, j ≠ t.process → s'.process j = s.process j) :
    AwaitedQueued s' ∧ EnqueuesUnstored s.shared s'.shared := by
  cases hpc : h.pc with
  | writeIndices =>
      obtain ⟨hturn, hnext⟩ := act_writeIndices s.shared hpc
      have hwrites := writeIndices_writes s.shared.state s.shared.config.localDeviceId h
      have hconfig : s'.shared.config = s.shared.config := by
        rw [hshared, hturn]
      have hstate : SectionWrites s.shared.state s'.shared.state := by
        rw [hshared, hturn]
        exact hwrites
      refine ⟨?_, enqueuesUnstored_of_same (by rw [hstate.queue])⟩
      intro k hk hstored
      rcases awaited_of_step hother hk with ⟨h', blocks, hindex, hpc', hlists⟩ | hk
      · -- the list is made of the blocks that are not stored
        rw [hprocess'] at hindex
        obtain rfl := ServerTask.index.inj hindex
        rcases hnext with hnext | ⟨e, hnext⟩
        · rw [hnext] at hpc'
          obtain rfl := IndexPc.enqueue.inj hpc'
          rw [← hshared, ← hconfig] at hlists
          exact absurd hstored (not_stored_of_lists hlists)
        · rw [hnext] at hpc'
          cases hpc'
      · rw [Queued, hstate.queue]
        exact hinv k hk (stored_of_shrinks (storedShrinks_of_writes hstate.db) hconfig hstored)
  | enqueue blocks =>
      obtain ⟨hturn, hnext⟩ := act_enqueue s.shared hpc
      rw [← hshared] at hturn
      have hconfig : s'.shared.config = s.shared.config := by
        rw [hturn]
      have hdb : s'.shared.state.db = s.shared.state.db := by
        rw [hturn]
        exact storeOutgoingRequests_db blocks h.clock s.shared.state
      have henqueued : Enqueued (h.clock 0) blocks s.shared.state s'.shared.state := by
        rw [hturn]
        exact storeOutgoingRequests_enqueued blocks h.clock s.shared.state
      -- a block that is awaited and stored keeps its request
      have hkept : ∀ k, Awaited s k → Stored s.shared k → ∃ v,
          s.shared.state.outgoingRequests.requestsByRequest.get k = some v ∧
            s'.shared.state.outgoingRequests.requestsByRequest.get k = some v := by
        intro k hk hstored
        obtain ⟨v, hv⟩ := AssocMap.contains_iff.mp (hinv k hk hstored)
        exact ⟨v, hv, henqueued.kept k v hv
          (hundisturbed.expired h blocks k v hprocess hpc hk hstored hv)⟩
      constructor
      · intro k hk hstored
        rcases awaited_of_step hother hk with ⟨h', blocks', hindex, hpc', -⟩ | hk
        · rw [hprocess'] at hindex
          obtain rfl := ServerTask.index.inj hindex
          rcases hnext with hnext | ⟨e, hnext⟩
          all_goals
            rw [hnext] at hpc'
            cases hpc'
        · have hbefore := stored_of_shrinks (.of_same (by rw [hdb])) hconfig hstored
          obtain ⟨v, -, hv⟩ := hkept k hk hbefore
          exact AssocMap.contains_iff.mpr ⟨v, hv⟩
      · intro k v hv
        by_cases hstored : Stored s.shared k
        · rcases henqueued.added k v hv with hv | hlists
          · exact Or.inl hv
          · obtain ⟨v', hbefore, hafter⟩ :=
              hkept k ⟨t.process, h, blocks, hprocess, hpc, hlists⟩ hstored
            rw [hafter] at hv
            obtain rfl := Option.some.inj hv
            exact Or.inl hbefore
        · exact Or.inr hstored
  | returned | panicked e =>
      have hact : h.act s.shared = (h, s.shared) := by
        unfold IndexHandler.act
        rw [hpc]
      rw [hact] at hprocess' hshared
      dsimp only at hprocess' hshared
      refine ⟨?_, by rw [hshared]; exact enqueuesUnstored_of_same rfl⟩
      intro k hk hstored
      rw [hshared] at hstored ⊢
      rcases awaited_of_step hother hk with ⟨h', blocks, hindex, hpc', -⟩ | hk
      · rw [hprocess'] at hindex
        obtain rfl := ServerTask.index.inj hindex
        rw [hpc] at hpc'
        cases hpc'
      · exact hinv k hk hstored

/-- Every turn that disturbs no handler between its sections keeps the invariant, and enqueues
no request for a stored block. -/
theorem awaitedQueued_step (hinv : AwaitedQueued s) (hundisturbed : Undisturbed s t)
    (hstep : Processes.step (ServerTask.act hash sha256 debugRequest) s t = some s') :
    AwaitedQueued s' ∧ EnqueuesUnstored s.shared s'.shared := by
  have hself := Processes.step_self hstep
  have hother : ∀ j, j ≠ t.process → s'.process j = s.process j :=
    fun j hj => Processes.step_other hstep hj
  cases hprocess : s.process t.process with
  | index h =>
      rw [hprocess] at hself
      exact awaitedQueued_index hinv hundisturbed hprocess (congrArg Prod.fst hself)
        (congrArg Prod.snd hself) hother
  | response h =>
      rw [hprocess] at hself
      have hshared : s'.shared = (h.act hash sha256 debugRequest s.shared t.outcome).2 :=
        congrArg Prod.snd hself
      obtain ⟨hstate, hconfig⟩ := @act_state hash sha256 debugRequest h s.shared t.outcome
      rw [← hshared] at hstate hconfig
      exact awaitedQueued_response hinv hundisturbed hprocess (congrArg Prod.fst hself) hother
        hstate hconfig
  | connection maxPending maxStorageArea =>
      rw [hprocess] at hself
      have hprocess' : s'.process t.process = .connection maxPending maxStorageArea :=
        congrArg Prod.fst hself
      have hshared : s'.shared = RustM.endState
          ((BepProcessor.throttledRequests maxPending maxStorageArea).run s.shared) :=
        congrArg Prod.snd hself
      obtain ⟨hconfig, hdb, hqueue⟩ := connection_turn (p := s.shared) maxPending maxStorageArea
      rw [← hshared] at hconfig hdb hqueue
      refine ⟨?_, enqueuesUnstored_of_same hqueue⟩
      intro k hk hstored
      rw [Queued, hqueue]
      rcases awaited_of_step hother hk with ⟨h', blocks, hindex, -⟩ | hk
      · rw [hprocess'] at hindex
        cases hindex
      · exact hinv k hk (stored_of_shrinks (.of_same (by rw [hdb])) hconfig hstored)

end Turns

/-- **No stored block is asked for while no list goes stale.** Any tasks that have not begun
take turns in any order from any state. When every turn leaves the blocks alone that a
handler between its sections has on its list, no turn enqueues a request for a block that
is stored. -/
theorem enqueuesUnstored_of_run {ι : Type} [DecidableEq ι] {hash : String → ℕ → ℕ → UInt64}
    {sha256 : Bytes → Bytes} {debugRequest : Request → String} {p₀ : BepProcessor}
    {tasks : ι → ServerTask} (hfresh : ∀ i, (tasks i).Fresh)
    {turns : List (Turn ι TurnOutcome)}
    (hmeets : Transition.Meets (Processes.step (ServerTask.act hash sha256 debugRequest))
      Undisturbed ⟨p₀, tasks⟩ turns) :
    Transition.Along (Processes.step (ServerTask.act hash sha256 debugRequest))
      (fun s _ s' => EnqueuesUnstored s.shared s'.shared) ⟨p₀, tasks⟩ turns := by
  refine Transition.along_of_invariant AwaitedQueued
    (fun s t s' hinv hundisturbed hstep => awaitedQueued_step hinv hundisturbed hstep) ?_ hmeets
  rintro k ⟨i, h, blocks, hprocess, hpc, -⟩
  have hnew := hfresh i
  have hprocess : tasks i = .index h := hprocess
  rw [hprocess, ServerTask.Fresh, hpc] at hnew
  cases hnew

/-! ## A list that goes stale -/

section Example

/-- A handler of an index disturbs nobody while the queue is empty. -/
theorem undisturbed_of_index {ι : Type} {s : Processes ι ServerTask BepProcessor}
    {t : Turn ι TurnOutcome} {h : IndexHandler} (hprocess : s.process t.process = .index h)
    (hempty : ∀ k, s.shared.state.outgoingRequests.requestsByRequest.get k = none) :
    Undisturbed s t := by
  constructor
  · intro h' _ _ _ _ _ hresponse
    rw [hresponse] at hprocess
    cases hprocess
  · intro h' _ _ _ hresponse
    rw [hresponse] at hprocess
    cases hprocess
  · intro h' _ k v _ _ _ _ hv
    rw [hempty] at hv
    cases hv

/-- Nor is anybody disturbed where no handler is between its sections. -/
theorem undisturbed_of_unawaited {ι : Type} {s : Processes ι ServerTask BepProcessor}
    {t : Turn ι TurnOutcome} (hnone : ∀ k, ¬ Awaited s k) : Undisturbed s t where
  marked _ _ _ _ _ k _ _ _ hawaited := absurd hawaited (hnone k)
  answered _ _ _ k _ _ _ _ hawaited := absurd hawaited (hnone k)
  expired _ _ k _ _ _ hawaited := absurd hawaited (hnone k)

/-- The index of the file, a connection, an update without files, and the response for the first
block. -/
def staleTasks : Fin 4 → ServerTask
  | 0 => .index (.new (.index ⟨"default", [pairFile]⟩) clientDevice fun _ => 0)
  | 1 => .connection 10 100
  | 2 => .index (.new (.indexUpdate ⟨"default", []⟩) clientDevice fun _ => 0)
  | 3 => .response (.new ⟨1, [1], 0⟩)

/-- The handlers of indices are not between their sections, and the others are no such handlers. -/
def NoneBetween (s : Processes (Fin 4) ServerTask BepProcessor) : Prop :=
  (∀ i h, s.process i = .index h → ∀ blocks, h.pc ≠ .enqueue blocks) ∧
    ∀ i h, i = 1 ∨ i = 3 → s.process i ≠ .index h

/-- A turn of the loop or of the response leaves the handlers outside their gap. -/
theorem noneBetween_step {s s' : Processes (Fin 4) ServerTask BepProcessor}
    {t : Turn (Fin 4) TurnOutcome} (hs : NoneBetween s) (ht : t.process = 1 ∨ t.process = 3)
    (h : Processes.step (ServerTask.act (fun _ _ _ => 0) pairHash fun _ => "") s t = some s') :
    NoneBetween s' := by
  have hother : ∀ h, s'.process t.process ≠ .index h := by
    intro h' hindex
    have hself := congrArg Prod.fst (Processes.step_self h)
    dsimp only at hself
    rw [hindex] at hself
    cases htask : s.process t.process with
    | index h => exact hs.2 _ h ht htask
    | response h | connection limit size =>
        rw [htask] at hself
        cases hself
  refine ⟨fun i h' hindex => ?_, fun i h' hi hindex => ?_⟩
  · by_cases hit : i = t.process
    · subst hit
      exact absurd hindex (hother h')
    · rw [Processes.step_other h hit] at hindex
      exact hs.1 i h' hindex
  · by_cases hit : i = t.process
    · subst hit
      exact hother h' hindex
    · rw [Processes.step_other h hit] at hindex
      exact hs.2 i h' hi hindex

/-- Only the first turn of a handler comes between its sections. -/
theorem pc_act_ne_enqueue {h : IndexHandler} (p : BepProcessor) (hpc : h.pc ≠ .writeIndices)
    (blocks : List BlockInfoExt) : (h.act p).1.pc ≠ .enqueue blocks := by
  cases hcase : h.pc with
  | writeIndices => exact absurd hcase hpc
  | enqueue blocks' =>
      rcases (act_enqueue p hcase).2 with hreturned | ⟨e, hpanicked⟩
      · rw [hreturned]
        simp
      · rw [hpanicked]
        simp
  | returned | panicked e =>
      unfold IndexHandler.act
      rw [hcase]
      dsimp only
      rw [hcase]
      simp

/-- The index is handled, the requests are sent, and the first block comes. -/
def answeredTurns : List (Turn (Fin 4) TurnOutcome) :=
  ([0, 0] ++ (1 :: List.replicate 15 (3 : Fin 4))).map (⟨·, ⟨.ok, .exits true⟩⟩)

/-- Witness: nothing stored is enqueued, and the block is stored in the end. -/
theorem enqueuesUnstored_of_run_answered :
    Transition.Along
        (Processes.step (ServerTask.act (fun _ _ _ => 0) pairHash fun _ => ""))
        (fun s _ s' => EnqueuesUnstored s.shared s'.shared) ⟨startedServer, staleTasks⟩
        answeredTurns ∧
      (Transition.run (Processes.step (ServerTask.act (fun _ _ _ => 0) pairHash fun _ => ""))
        ⟨startedServer, staleTasks⟩ answeredTurns).map (fun s =>
          (s.shared.state.db.bepBlockInfo.entries.filter fun e =>
            e.2.storageStatus = .storedLocally).length) = some 1 := by
  refine ⟨?_, by decide +kernel⟩
  apply enqueuesUnstored_of_run
  · intro i
    match i with
    | 0 | 2 => exact Eq.refl IndexPc.writeIndices
    | 1 => trivial
    | 3 => exact Eq.refl (ResponseHandler.new ⟨1, [1], 0⟩)
  have hqueue : ∀ k, startedServer.state.outgoingRequests.requestsByRequest.get k = none :=
    fun _ => rfl
  refine ⟨undisturbed_of_index (s := ⟨startedServer, staleTasks⟩) (t := ⟨0, ⟨.ok, .exits true⟩⟩)
    rfl hqueue, fun s₁ hstep₁ => ?_⟩
  have hself₁ := Processes.step_self hstep₁
  dsimp only [ServerTask.act, staleTasks] at hself₁
  obtain ⟨hprocess₁, hshared₁⟩ := Prod.ext_iff.mp hself₁
  dsimp only at hprocess₁ hshared₁
  obtain ⟨hturn, hpc₁⟩ := act_writeIndices startedServer
    (h := .new (.index ⟨"default", [pairFile]⟩) clientDevice fun _ => 0) rfl
  have hwrites := writeIndices_writes startedServer.state startedServer.config.localDeviceId
    (.new (.index ⟨"default", [pairFile]⟩) clientDevice fun _ => 0)
  refine ⟨undisturbed_of_index (t := ⟨0, ⟨.ok, .exits true⟩⟩) hprocess₁ fun k => ?_,
    fun s₂ hstep₂ => ?_⟩
  · -- the queue is empty yet
    rw [hshared₁, hturn]
    dsimp only
    rw [hwrites.queue]
    exact hqueue k
  -- from here on no handler is between its sections
  refine Transition.meets_of_invariant NoneBetween
    (p := fun t : Turn (Fin 4) TurnOutcome => t.process = 1 ∨ t.process = 3)
    (fun s t hs _ => undisturbed_of_unawaited fun k ⟨i, h, blocks, hprocess, hpc, _⟩ =>
      hs.1 i h hprocess blocks hpc)
    (fun s t s' hs ht hstep => noneBetween_step hs ht hstep) (by decide +kernel) ?_
  have hothers : ∀ i : Fin 4, i ≠ 0 → s₂.process i = staleTasks i := fun i hi =>
    (Processes.step_other hstep₂ hi).trans (Processes.step_other hstep₁ hi)
  refine ⟨fun i h hindex blocks hpc => ?_, fun i h hi hindex => ?_⟩
  · match i with
    | 0 =>
        obtain ⟨h₁, hprocess₁, hpast⟩ : ∃ h₁, s₁.process 0 = .index h₁ ∧
            h₁.pc ≠ .writeIndices := by
          refine ⟨_, hprocess₁, ?_⟩
          rcases hpc₁ with hpc₁ | ⟨e, hpc₁⟩ <;> simp [hpc₁]
        have hself₂ := congrArg Prod.fst (Processes.step_self hstep₂)
        dsimp only at hself₂
        rw [hindex, hprocess₁] at hself₂
        have hnext : h = (h₁.act s₁.shared).1 := ServerTask.index.inj hself₂
        rw [hnext] at hpc
        exact pc_act_ne_enqueue s₁.shared hpast blocks hpc
    | 1 | 3 =>
        rw [hothers _ (by decide)] at hindex
        cases hindex
    | 2 =>
        rw [hothers _ (by decide)] at hindex
        cases hindex
        cases hpc
  · rcases hi with rfl | rfl
    · rw [hothers _ (by decide)] at hindex
      cases hindex
    · rw [hothers _ (by decide)] at hindex
      cases hindex

/-- The update reads the blocks that are not stored before the first one is. -/
def staleTurns : List (Turn (Fin 4) TurnOutcome) :=
  ([0, 0, 1, 2] ++ List.replicate 15 (3 : Fin 4)).map (⟨·, ⟨.ok, .exits true⟩⟩)

/-- The request for the first block. -/
def firstRequest : OutgoingRequest :=
  ⟨"default", "a", 0, 1, ⟨(pairHash [1]).toArray, rfl⟩, false⟩

/-- Then it enqueues a request for the block that is stored by now. -/
theorem storedBlock_enqueued :
    ¬ Transition.Along
      (Processes.step (ServerTask.act (fun _ _ _ => 0) pairHash fun _ => ""))
      (fun s _ s' => EnqueuesUnstored s.shared s'.shared) ⟨startedServer, staleTasks⟩
      (staleTurns ++ [⟨2, ⟨.ok, .exits true⟩⟩]) := by
  intro halong
  have hbefore : ((Transition.run
      (Processes.step (ServerTask.act (fun _ _ _ => 0) pairHash fun _ => ""))
      ⟨startedServer, staleTasks⟩ staleTurns).map fun s =>
        (s.shared.state.outgoingRequests.requestsByRequest.get firstRequest,
          (s.shared.state.db.bepBlockInfo.get (blockOf s.shared.config.localDeviceId
            firstRequest)).map BlockRow.storageStatus)) = some (none, some .storedLocally) := by
    decide +kernel
  have hafter : ((Transition.run
      (Processes.step (ServerTask.act (fun _ _ _ => 0) pairHash fun _ => ""))
      ⟨startedServer, staleTasks⟩ (staleTurns ++ [⟨2, ⟨.ok, .exits true⟩⟩])).map fun s =>
        s.shared.state.outgoingRequests.requestsByRequest.get firstRequest) =
      some (some (3, 0)) := by
    decide +kernel
  obtain ⟨s, hrun, hs⟩ := Option.map_eq_some_iff.mp hbefore
  obtain ⟨s', hrun', hs'⟩ := Option.map_eq_some_iff.mp hafter
  obtain ⟨s₁, hrun₁, hstep⟩ := Transition.run_concat.mp hrun'
  obtain rfl : s = s₁ := Option.some.inj (hrun.symm.trans hrun₁)
  obtain ⟨hnone, hstatus⟩ := Prod.mk.inj hs
  have henqueues := Transition.rel_of_along_concat halong hrun hstep
  rcases henqueues firstRequest (3, 0) hs' with hthere | hnot
  · rw [hnone] at hthere
    cases hthere
  · apply hnot
    obtain ⟨row, hrow, hstored⟩ := Option.map_eq_some_iff.mp hstatus
    exact ⟨row, hrow, hstored⟩

end Example

end Grizol.Analysis

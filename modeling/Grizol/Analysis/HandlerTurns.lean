import Grizol.Analysis.BackupDeletion
import Grizol.Analysis.RequestQueueInvariant
import Grizol.Interface.BlockRequests

/-!
# What a turn changes

The state that handlers share changes in their sections only. A turn of the handler of
a response touches the database in two places: it marks the blocks with a hash, or it
writes locations; and the queue in one, where it removes its request.
-/

set_option autoImplicit false

namespace Grizol.Analysis

open Grizol.Library
open Grizol.Model Grizol.Model.Syncthing Grizol.Interface

/-! ## Sections -/

section Sections

/-- The statement that marks the blocks of a file with a hash. -/
def markHash (db : Database) (key : FileKey) (blockHash : Bytes) : Database :=
  db.setStorageStatus (fun k => k.file = key && k.hash = blockHash) .storedLocally

/-- A call on the queue changes the queue only. -/
theorem onQueue_run {α : Type} (x : RustM OutgoingRequests α) (s : BepState) :
    RustM.endState ((BepState.onQueue x).run s) =
      { s with outgoingRequests := RustM.endState (x.run s.outgoingRequests) } := by
  unfold BepState.onQueue EStateM.run
  dsimp only
  cases x s.outgoingRequests <;> rfl

/-- A call on the queue that returned. -/
theorem onQueue_eq_ok {α : Type} {x : RustM OutgoingRequests α} {s : BepState} {a : α}
    {q : OutgoingRequests} (h : x.run s.outgoingRequests = .ok a q) :
    (BepState.onQueue x).run s = .ok a { s with outgoingRequests := q } := by
  unfold BepState.onQueue EStateM.run at *
  dsimp only
  rw [h]

/-- A call on the queue that panicked. -/
theorem onQueue_eq_error {α : Type} {x : RustM OutgoingRequests α} {s : BepState} {e : Fault}
    {q : OutgoingRequests} (h : x.run s.outgoingRequests = .error e q) :
    (BepState.onQueue x).run s = .error e { s with outgoingRequests := q } := by
  unfold BepState.onQueue EStateM.run at *
  dsimp only
  rw [h]

/-- `remove` takes the request out of the first map before it can panic. -/
theorem remove_requestsById (requestId : Int32) (q : OutgoingRequests) :
    (RustM.endState ((OutgoingRequests.remove requestId).run q)).requestsById =
      q.requestsById.erase requestId := by
  rw [OutgoingRequests.remove, EStateM.run_bind, RustM.run_getThe]
  dsimp only
  rw [EStateM.run_bind]
  cases hrequest : q.requestsById.get requestId with
  | none => rfl
  | some r =>
      -- nothing after it changes that map
      let part := OutgoingRequests.requestsById
      refine RustM.endState_bind_eq part (by rw [RustM.endState_lift]) fun _ s₁ _ => ?_
      refine RustM.endState_bind_eq part rfl fun _ s₂ _ => ?_
      refine RustM.endState_bind_eq part rfl fun _ s₃ _ => ?_
      refine RustM.endState_bind_eq part (by rw [RustM.endState_lift]) fun _ s₄ _ => ?_
      refine RustM.endState_bind_eq part rfl fun _ s₅ _ => ?_
      refine RustM.endState_bind_eq part rfl fun _ s₆ _ => ?_
      refine RustM.endState_bind_eq part (by rw [RustM.endState_lift]) fun _ s₇ _ => ?_
      refine RustM.endState_bind_eq part rfl fun _ s₈ _ => ?_
      refine RustM.endState_bind_eq part (by rw [RustM.endState_lift]) fun _ s₉ _ => ?_
      refine RustM.endState_bind_eq part (by rw [RustM.endState_lift]) fun _ s₁₀ _ => ?_
      rfl

/-- Locations are rows of their own. -/
theorem insertLocations_rows {key : FileKey} (locations : List (String × String))
    {tx tx' : Database} (h : BepState.insertLocations key locations tx = .ok tx') :
    tx'.bepFileInfo = tx.bepFileInfo ∧ tx'.bepBlockInfo = tx.bepBlockInfo :=
  ⟨insertLocations_part Database.bepFileInfo (fun _ _ _ => rfl) h,
    insertLocations_part Database.bepBlockInfo (fun _ _ _ => rfl) h⟩

/-- The two states have the same files and blocks, queue and indices in memory. -/
structure SameRows (s s' : BepState) : Prop where
  files : s'.db.bepFileInfo = s.db.bepFileInfo
  blocks : s'.db.bepBlockInfo = s.db.bepBlockInfo
  queue : s'.outgoingRequests = s.outgoingRequests
  requestId : s'.requestId = s.requestId
  indices : s'.indices = s.indices

/-- Without a call the rows are the same. -/
theorem SameRows.refl (s : BepState) : SameRows s s := ⟨rfl, rfl, rfl, rfl, rfl⟩

/-- Locations are not among the rows. -/
theorem updateFileLocations_rows (folder : String) (deviceId : DeviceId) (fileName : String)
    (locations : List (String × String)) (s : BepState) :
    SameRows s (RustM.endState
      ((BepState.updateFileLocations folder deviceId fileName locations).run s)) := by
  rw [BepState.updateFileLocations, EStateM.run_bind, RustM.run_getThe]
  dsimp only
  cases hinsert : BepState.insertLocations ⟨folder, deviceId, fileName⟩ locations s.db with
  | error e => exact SameRows.refl s
  | ok tx =>
      obtain ⟨hfiles, hblocks⟩ := insertLocations_rows locations hinsert
      exact ⟨hfiles, hblocks, rfl, rfl, rfl⟩

/-- `update_block_storage_state` panics and changes nothing, or it marks the blocks with the
hash of the request. -/
theorem updateBlockStorageState_run (requestId : Int32) (deviceId : DeviceId) (s : BepState) :
    (∃ e, (BepState.updateBlockStorageState requestId deviceId).run s = .error e s) ∨
    ∃ r status, s.outgoingRequests.get requestId = some r ∧
      (BepState.updateBlockStorageState requestId deviceId).run s =
        .ok status { s with db := markHash s.db ⟨r.folder, deviceId, r.name⟩ r.hash } := by
  rw [BepState.updateBlockStorageState, EStateM.run_bind, RustM.run_getThe]
  dsimp only
  cases hrequest : s.outgoingRequests.get requestId with
  | none => exact Or.inl ⟨_, rfl⟩
  | some r =>
      rw [Rust.unwrap_some, EStateM.run_bind, RustM.run_lift_ok]
      dsimp only
      rw [← markHash]
      split
      · rename_i row n hrow hstored
        cases hexpected : BepState.expectedBlocks row.size row.blockSize with
        | error e => exact Or.inl ⟨_, rfl⟩
        | ok expected =>
            rw [EStateM.run_bind, RustM.run_lift_ok]
            dsimp only
            rw [EStateM.run_bind, EStateM.run_set]
            dsimp only
            cases compare ((n + 1 : ℕ) : ℤ) expected with
            | lt => exact Or.inr ⟨r, _, rfl, rfl⟩
            | eq => exact Or.inr ⟨r, _, rfl, rfl⟩
            | gt => exact Or.inr ⟨r, _, rfl, rfl⟩
      · exact Or.inl ⟨_, rfl⟩

end Sections

/-! ## The first section of the handler of an index -/

section Writes

/-- The second database comes from the first by the statements of the handlers of indices. -/
inductive IndexWrites (db : Database) : Database → Prop
  | refl : IndexWrites db db
  | clear {db' : Database} (h : IndexWrites db db') (folder : String) (deviceId : DeviceId) :
      IndexWrites db (db'.deleteFileInfo fun k => k.folder = folder && k.device = deviceId)
  | upsert {db' db'' : Database} (h : IndexWrites db db') {folder : String} {deviceId : DeviceId}
      {file : FileInfo} (hwrite : BepState.upsertFile folder deviceId file db' = .ok db'') :
      IndexWrites db db''
  | replace {db' db'' : Database} (h : IndexWrites db db') {folder : String}
      {deviceId : DeviceId} {file : FileInfo}
      (hwrite : BepState.replaceFile folder deviceId file db' = .ok db'') : IndexWrites db db''

/-- Two writes are a write. -/
theorem IndexWrites.trans {db db' db'' : Database} (h : IndexWrites db db')
    (h' : IndexWrites db' db'') : IndexWrites db db'' := by
  induction h' with
  | refl => exact h
  | clear _ folder deviceId ih => exact .clear ih folder deviceId
  | upsert _ hwrite ih => exact .upsert ih hwrite
  | replace _ hwrite ih => exact .replace ih hwrite

/-- Writing several files is writing each. -/
theorem indexWrites_of_writeFiles {write : FileInfo → Database → Rust Database}
    (hwrite : ∀ file db db', write file db = .ok db' → IndexWrites db db') {files : List FileInfo}
    {db db' : Database} (h : BepState.writeFiles write files db = .ok db') :
    IndexWrites db db' := by
  induction files generalizing db with
  | nil =>
      obtain rfl := Except.ok.inj h
      exact .refl
  | cons file files ih =>
      obtain ⟨db₁, hfile, hrest⟩ := Rust.bind_eq_ok.mp h
      exact (hwrite file db db₁ hfile).trans (ih hrest)

/-- What a section that writes indices leaves as it was, and what it may have done. -/
structure SectionWrites (s s' : BepState) : Prop where
  db : IndexWrites s.db s'.db
  queue : s'.outgoingRequests = s.outgoingRequests
  requestId : s'.requestId = s.requestId

/-- Without a call nothing is written. -/
theorem SectionWrites.refl (s : BepState) : SectionWrites s s := ⟨.refl, rfl, rfl⟩

/-- Two calls of a section write what each does. -/
theorem SectionWrites.trans {s s' s'' : BepState} (h : SectionWrites s s')
    (h' : SectionWrites s' s'') : SectionWrites s s'' :=
  ⟨h.db.trans h'.db, h'.queue.trans h.queue, h'.requestId.trans h.requestId⟩

/-- A panic writes nothing. -/
theorem sectionWrites_of_aborts {α : Type} {x : RustM BepState α} {s : BepState}
    (h : Aborts s x) : SectionWrites s (RustM.endState (x.run s)) := by
  obtain ⟨e, s', hrun, n, rfl⟩ := h
  rw [hrun]
  exact ⟨.refl, rfl, rfl⟩

variable (folder : String) (deviceId : DeviceId) (s : BepState)

/-- Reading an index writes nothing. -/
theorem index_writes : SectionWrites s (RustM.endState ((BepState.index folder deviceId).run s)) := by
  rw [index_run, RustM.endState_ok]
  split_ifs
  · exact SectionWrites.refl s
  · exact ⟨.refl, rfl, rfl⟩

/-- Replacing files writes rows of files. -/
theorem rmReplaceFileInfo_writes (fileInfo : List FileInfo) : SectionWrites s
    (RustM.endState ((BepState.rmReplaceFileInfo folder deviceId fileInfo).run s)) := by
  rcases rmReplaceFileInfo_run folder deviceId s fileInfo with
    habort | ⟨files, tx, n, -, hwrite, hrun⟩
  · exact sectionWrites_of_aborts habort
  · rw [hrun]
    exact ⟨indexWrites_of_writeFiles (fun _ _ _ h => .replace .refl h) hwrite, rfl, rfl⟩

/-- So does adding files. -/
theorem insertFileInfo_writes (fileInfo : List FileInfo) : SectionWrites s
    (RustM.endState ((BepState.insertFileInfo folder deviceId fileInfo).run s)) := by
  rcases insertFileInfo_run folder deviceId s fileInfo with
    habort | ⟨files, tx, n, -, hwrite, hrun⟩
  · exact sectionWrites_of_aborts habort
  · rw [hrun]
    exact ⟨indexWrites_of_writeFiles (fun _ _ _ h => .upsert .refl h) hwrite, rfl, rfl⟩

/-- And replacing an index. -/
theorem replaceIndex_writes (index : Index) : SectionWrites s
    (RustM.endState ((BepState.replaceIndex index deviceId).run s)) := by
  rcases replaceIndex_run deviceId s index with habort | ⟨files, tx, n, -, hwrite, hrun⟩
  · exact sectionWrites_of_aborts habort
  · rw [hrun]
    exact ⟨(IndexWrites.clear .refl index.folder deviceId).trans
      (indexWrites_of_writeFiles (fun _ _ _ h => .upsert .refl h) hwrite), rfl, rfl⟩

variable (localDeviceId : DeviceId) (received : Index) (clientDeviceId : DeviceId)

/-- The first section of the handler of an index update. -/
theorem updateIndices_writes : SectionWrites s (RustM.endState
    ((BepProcessor.updateIndices localDeviceId received clientDeviceId).run s)) := by
  let R := SectionWrites
  have hlift : ∀ {α : Type} (x : Rust α) (s : BepState),
      R s (RustM.endState (EStateM.run (liftM x : RustM BepState α) s)) := by
    intro α x s
    rw [RustM.endState_lift]
    exact SectionWrites.refl s
  unfold BepProcessor.updateIndices
  refine RustM.endState_bind_rel R SectionWrites.trans (index_writes _ _ s) fun _ s₁ _ => ?_
  refine RustM.endState_bind_rel R SectionWrites.trans (hlift _ s₁) fun _ s₂ _ => ?_
  refine RustM.endState_bind_rel R SectionWrites.trans (hlift _ s₂) fun _ s₃ _ => ?_
  refine RustM.endState_bind_rel R SectionWrites.trans
    (rmReplaceFileInfo_writes _ _ s₃ _) fun _ s₄ _ => ?_
  refine RustM.endState_bind_rel R SectionWrites.trans (index_writes _ _ s₄) fun _ s₅ _ => ?_
  refine RustM.endState_bind_rel R SectionWrites.trans (hlift _ s₅) fun _ s₆ _ => ?_
  refine RustM.endState_bind_rel R SectionWrites.trans (index_writes _ _ s₆) fun _ s₇ _ => ?_
  refine RustM.endState_bind_rel R SectionWrites.trans (hlift _ s₇) fun _ s₈ _ => ?_
  refine RustM.endState_bind_rel R SectionWrites.trans (hlift _ s₈) fun _ s₉ _ => ?_
  refine RustM.endState_bind_rel R SectionWrites.trans
    (rmReplaceFileInfo_writes _ _ s₉ _) fun _ s₁₀ _ => ?_
  exact SectionWrites.refl s₁₀

/-- The first section of the handler of an index. -/
theorem replaceIndices_writes : SectionWrites s (RustM.endState
    ((BepProcessor.replaceIndices localDeviceId received clientDeviceId).run s)) := by
  let R := SectionWrites
  have hlift : ∀ {α : Type} (x : Rust α) (s : BepState),
      R s (RustM.endState (EStateM.run (liftM x : RustM BepState α) s)) := by
    intro α x s
    rw [RustM.endState_lift]
    exact SectionWrites.refl s
  unfold BepProcessor.replaceIndices
  refine RustM.endState_bind_rel R SectionWrites.trans (replaceIndex_writes _ s _) fun _ s₁ _ => ?_
  refine RustM.endState_bind_rel R SectionWrites.trans (index_writes _ _ s₁) fun _ s₂ _ => ?_
  refine RustM.endState_bind_rel R SectionWrites.trans (hlift _ s₂) fun _ s₃ _ => ?_
  refine RustM.endState_bind_rel R SectionWrites.trans (hlift _ s₃) fun _ s₄ _ => ?_
  refine RustM.endState_bind_rel R SectionWrites.trans
    (insertFileInfo_writes _ _ s₄ _) fun _ s₅ _ => ?_
  exact SectionWrites.refl s₅

/-- The section answers with the blocks that are not stored when it ends. -/
theorem writeIndices_ok {h : IndexHandler} {blocks : List BlockInfoExt} {s' : BepState}
    (hrun : (h.writeIndices localDeviceId).run s = .ok blocks s') :
    blocks = s'.blocksInfo localDeviceId .notStored := by
  have hend : ∀ {t : BepState}, EStateM.run (do
      pure ((← getThe BepState).blocksInfo localDeviceId .notStored) :
        RustM BepState (List BlockInfoExt)) t = .ok blocks s' →
      blocks = s'.blocksInfo localDeviceId .notStored := by
    intro t ht
    obtain ⟨rfl, rfl⟩ := EStateM.Result.ok.inj ht
    rfl
  obtain ⟨message, peer, clock, pc⟩ := h
  unfold IndexHandler.writeIndices at hrun
  cases message with
  | index received =>
      dsimp only [BepProcessor.replaceIndices] at hrun
      obtain ⟨_, _, -, hrun⟩ := RustM.run_bind_eq_ok.mp hrun
      obtain ⟨_, _, -, hrun⟩ := RustM.run_bind_eq_ok.mp hrun
      obtain ⟨_, _, -, hrun⟩ := RustM.run_bind_eq_ok.mp hrun
      obtain ⟨_, _, -, hrun⟩ := RustM.run_bind_eq_ok.mp hrun
      obtain ⟨_, _, -, hrun⟩ := RustM.run_bind_eq_ok.mp hrun
      exact hend hrun
  | indexUpdate received =>
      dsimp only [BepProcessor.updateIndices] at hrun
      obtain ⟨_, _, -, hrun⟩ := RustM.run_bind_eq_ok.mp hrun
      obtain ⟨_, _, -, hrun⟩ := RustM.run_bind_eq_ok.mp hrun
      obtain ⟨_, _, -, hrun⟩ := RustM.run_bind_eq_ok.mp hrun
      obtain ⟨_, _, -, hrun⟩ := RustM.run_bind_eq_ok.mp hrun
      obtain ⟨_, _, -, hrun⟩ := RustM.run_bind_eq_ok.mp hrun
      obtain ⟨_, _, -, hrun⟩ := RustM.run_bind_eq_ok.mp hrun
      obtain ⟨_, _, -, hrun⟩ := RustM.run_bind_eq_ok.mp hrun
      obtain ⟨_, _, -, hrun⟩ := RustM.run_bind_eq_ok.mp hrun
      obtain ⟨_, _, -, hrun⟩ := RustM.run_bind_eq_ok.mp hrun
      obtain ⟨_, _, -, hrun⟩ := RustM.run_bind_eq_ok.mp hrun
      exact hend hrun

/-- The first section of either handler. -/
theorem writeIndices_writes (h : IndexHandler) : SectionWrites s
    (RustM.endState ((h.writeIndices localDeviceId).run s)) := by
  obtain ⟨message, peer, clock, pc⟩ := h
  unfold IndexHandler.writeIndices
  cases message with
  | index received => exact replaceIndices_writes s localDeviceId received peer
  | indexUpdate received => exact updateIndices_writes s localDeviceId _ peer

end Writes

/-! ## The second section of the handler of an index -/

section Enqueue

/-- What enqueuing does to the entries of the queue: those that are not too old stay, and the
new ones are for blocks of the list. -/
structure Enqueued (now : ℕ) (blocks : List BlockInfoExt) (s s' : BepState) : Prop where
  kept : ∀ k v, s.outgoingRequests.requestsByRequest.get k = some v →
    OutgoingRequests.inQueueLessThanMax now v.2 = true →
    s'.outgoingRequests.requestsByRequest.get k = some v
  added : ∀ k v, s'.outgoingRequests.requestsByRequest.get k = some v →
    s.outgoingRequests.requestsByRequest.get k = some v ∨ Lists blocks k

/-- A queue that is the same has nothing new. -/
theorem Enqueued.of_same {now : ℕ} {blocks : List BlockInfoExt} {s s' : BepState}
    (h : s'.outgoingRequests.requestsByRequest = s.outgoingRequests.requestsByRequest) :
    Enqueued now blocks s s' := by
  constructor
  · intro k v hv _
    rw [h]
    exact hv
  · intro k v hv
    rw [h] at hv
    exact Or.inl hv

/-- Two calls keep the entries and add only blocks of the list. -/
theorem Enqueued.trans {now : ℕ} {blocks : List BlockInfoExt} {s s' s'' : BepState}
    (h : Enqueued now blocks s s') (h' : Enqueued now blocks s' s'') :
    Enqueued now blocks s s'' := by
  constructor
  · intro k v hv hnew
    exact h'.kept k v (h.kept k v hv hnew) hnew
  · intro k v hv
    rcases h'.added k v hv with hv | hlists
    · exact h.added k v hv
    · exact Or.inr hlists

/-- The old requests are dropped, whether the rest of `remove_old_requests` panics or not. -/
theorem removeOldRequests_requestsByRequest (now : ℕ) (q : OutgoingRequests) :
    (RustM.endState ((OutgoingRequests.removeOldRequests now).run q)).requestsByRequest =
      q.requestsByRequest.retain fun _ v => v.1 ∈ waitingIds q now := by
  let part := OutgoingRequests.requestsByRequest
  let dropped : OutgoingRequests := { q with
    requestsById := q.requestsById.retain fun id _ => id ∈ waitingIds q now
    requestsByRequest := q.requestsByRequest.retain fun _ v => v.1 ∈ waitingIds q now }
  rw [OutgoingRequests.removeOldRequests, EStateM.run_bind, RustM.run_getThe]
  refine (RustM.endState_bind_eq (s := dropped) part
    (congrArg part (RustM.endState_lift _ dropped)) fun _ s₁ _ => ?_).trans rfl
  refine RustM.endState_bind_eq part (by rw [RustM.endState_lift]) fun _ s₂ _ => ?_
  refine RustM.endState_bind_eq part (by rw [RustM.endState_lift]) fun _ s₃ _ => ?_
  refine RustM.endState_bind_eq part rfl fun _ s₄ _ => ?_
  rfl

variable {blocks : List BlockInfoExt}

/-- An entry that is not too old outlives `remove_old_requests`. -/
theorem removeOldRequests_enqueued (now : ℕ) (s : BepState) : Enqueued now blocks s
    (RustM.endState ((BepState.onQueue (OutgoingRequests.removeOldRequests now)).run s)) := by
  rw [onQueue_run]
  constructor
  · intro k v hv hnew
    dsimp only
    rw [removeOldRequests_requestsByRequest, AssocMap.get_retain, hv]
    apply Option.filter_eq_some_iff.mpr
    refine ⟨rfl, decide_eq_true ?_⟩
    exact List.mem_map_of_mem (List.mem_filter.mpr ⟨AssocMap.mem_values_iff.mpr ⟨k, hv⟩, hnew⟩)
  · intro k v hv
    dsimp only at hv
    rw [removeOldRequests_requestsByRequest, AssocMap.get_retain,
      Option.filter_eq_some_iff] at hv
    exact Or.inl hv.1

/-- Inserting a request for a block of the list. -/
theorem insert_enqueued (now : ℕ) {r : Request} (time : ℕ)
    (hlists : ∀ k, OutgoingRequest.ofRequest r = .ok k → Lists blocks k) (s : BepState) :
    Enqueued now blocks s
      (RustM.endState ((BepState.onQueue (OutgoingRequests.insert r.id r time)).run s)) := by
  rw [onQueue_run]
  cases hk : OutgoingRequest.ofRequest r with
  | error e =>
      rw [insert_of_no_key hk]
      exact Enqueued.of_same rfl
  | ok k =>
      cases hget : s.outgoingRequests.requestsByRequest.get k with
      | some v =>
          rw [insert_of_queued hk hget]
          exact Enqueued.of_same rfl
      | none =>
          rw [insert_of_new hk hget]
          constructor
          · intro k' v hv _
            have hne : k' ≠ k := by
              rintro rfl
              rw [hget] at hv
              cases hv
            exact (AssocMap.get_insert_of_ne _ _ hne).trans hv
          · intro k' v hv
            dsimp only [RustM.endState_ok] at hv
            rw [AssocMap.get_insert] at hv
            split_ifs at hv with hkey
            · rw [hkey]
              exact Or.inr (hlists k hk)
            · exact Or.inl hv

/-- Inserting the requests of a list keeps the entries and adds only blocks of the list. -/
theorem insertEach_enqueued (now : ℕ) {requests : List Request}
    (hlists : ∀ r ∈ requests, ∀ k, OutgoingRequest.ofRequest r = .ok k → Lists blocks k)
    (clock : ℕ → ℕ) (n : ℕ) (s : BepState) : Enqueued now blocks s
      (RustM.endState ((BepState.insertEach clock n requests).run s)) := by
  induction requests generalizing n s with
  | nil => exact Enqueued.of_same rfl
  | cons r requests ih =>
      refine RustM.endState_bind_rel (Enqueued now blocks) Enqueued.trans
        (insert_enqueued now _ (hlists r List.mem_cons_self) s) fun _ s₁ _ => ?_
      refine RustM.endState_bind_rel (Enqueued now blocks) Enqueued.trans
        (ih (fun r' hr' => hlists r' (List.mem_cons_of_mem r hr')) (n + 1) s₁) fun _ s₂ _ => ?_
      exact Enqueued.of_same rfl

/-- The requests are for the blocks. -/
theorem lists_of_requestsFromBlocks {requestId : Int32} {requests : List Request}
    (h : requestsFromBlocks requestId blocks = .ok requests) {r : Request} (hr : r ∈ requests)
    {k : OutgoingRequest} (hk : OutgoingRequest.ofRequest r = .ok k) : Lists blocks k := by
  induction blocks generalizing requestId requests with
  | nil =>
      obtain rfl := Except.ok.inj h
      cases hr
  | cons b blocks ih =>
      rw [requestsFromBlocks] at h
      split_ifs at h
      obtain ⟨rest, hrest, h⟩ := Rust.bind_eq_ok.mp h
      obtain rfl := Except.ok.inj h
      rcases List.mem_cons.mp hr with rfl | hr
      · unfold OutgoingRequest.ofRequest at hk
        split_ifs at hk
        obtain rfl := Except.ok.inj hk
        exact ⟨rfl, b, List.mem_cons_self, rfl, rfl, rfl, rfl, rfl⟩
      · obtain ⟨htemporary, b', hb', hfields⟩ := ih hrest hr
        exact ⟨htemporary, b', List.mem_cons_of_mem b hb', hfields⟩

/-- The second section enqueues requests for its list. -/
theorem storeOutgoingRequests_enqueued (blocks : List BlockInfoExt) (clock : ℕ → ℕ)
    (s : BepState) : Enqueued (clock 0) blocks s
      (RustM.endState ((storeOutgoingRequests blocks clock).run s)) := by
  unfold storeOutgoingRequests
  rw [EStateM.run_bind, RustM.run_getThe]
  dsimp only
  cases hrequests : requestsFromBlocks s.requestId blocks with
  | error e => exact Enqueued.of_same rfl
  | ok requests =>
      have hlists : ∀ r ∈ requests, ∀ k, OutgoingRequest.ofRequest r = .ok k → Lists blocks k :=
        fun r hr k hk => lists_of_requestsFromBlocks hrequests hr hk
      rw [EStateM.run_bind, RustM.run_lift_ok]
      let R := Enqueued (clock 0) blocks
      refine RustM.endState_bind_rel R Enqueued.trans ?_ fun _ s₁ _ => ?_
      · apply Enqueued.of_same
        unfold BepState.fetchAddRequestId
        rw [EStateM.run_bind, RustM.run_getThe]
        dsimp only
        split_ifs <;> rfl
      · refine RustM.endState_bind_rel R Enqueued.trans
          (removeOldRequests_enqueued (clock 0) s₁) fun _ s₂ _ => ?_
        exact insertEach_enqueued (clock 0) hlists clock 1 s₂

/-- The first turn of the handler of an index. -/
theorem act_writeIndices {h : IndexHandler} (p : BepProcessor) (hpc : h.pc = .writeIndices) :
    (h.act p).2 = { p with
      state := RustM.endState ((h.writeIndices p.config.localDeviceId).run p.state) } ∧
    ((h.act p).1.pc = .enqueue ((h.act p).2.state.blocksInfo p.config.localDeviceId .notStored) ∨
      ∃ e, (h.act p).1.pc = .panicked e) := by
  unfold IndexHandler.act
  rw [hpc]
  dsimp only
  cases hwrite : (h.writeIndices p.config.localDeviceId).run p.state with
  | error e s =>
      rw [BepProcessor.onState_eq_error hwrite]
      exact ⟨rfl, Or.inr ⟨e, rfl⟩⟩
  | ok blocks s =>
      rw [BepProcessor.onState_eq_ok hwrite]
      refine ⟨rfl, Or.inl ?_⟩
      dsimp only
      rw [writeIndices_ok p.state p.config.localDeviceId hwrite]

/-- Its second turn. -/
theorem act_enqueue {h : IndexHandler} (p : BepProcessor) {blocks : List BlockInfoExt}
    (hpc : h.pc = .enqueue blocks) :
    (h.act p).2 = { p with
      state := RustM.endState ((storeOutgoingRequests blocks h.clock).run p.state) } ∧
    ((h.act p).1.pc = .returned ∨ ∃ e, (h.act p).1.pc = .panicked e) := by
  unfold IndexHandler.act
  rw [hpc]
  dsimp only
  cases henqueue : (storeOutgoingRequests blocks h.clock).run p.state with
  | error e s =>
      rw [BepProcessor.onState_eq_error henqueue]
      exact ⟨rfl, Or.inr ⟨e, rfl⟩⟩
  | ok requests s =>
      rw [BepProcessor.onState_eq_ok henqueue]
      exact ⟨rfl, Or.inl rfl⟩

end Enqueue

/-! ## Turns of the handler of a response -/

section Responses

variable {hash : String → ℕ → ℕ → UInt64} {sha256 : Bytes → Bytes}
  {debugRequest : Request → String} (h : ResponseHandler) (p : BepProcessor)
  (outcome : TurnOutcome)

/-- The state after a turn of the handler of a response. -/
def stateAfter (h : ResponseHandler) (p : BepProcessor) : BepState :=
  match h.pc with
  | .updateState _ _ _ => RustM.endState
      ((BepState.updateBlockStorageState h.response.id p.config.localDeviceId).run p.state)
  | .updateLocations request locations => RustM.endState ((BepState.updateFileLocations
      request.folder p.config.localDeviceId request.name locations).run p.state)
  | .removeLocations request => RustM.endState ((BepState.removeFileLocations request.folder
      p.config.localDeviceId request.name ["local"]).run p.state)
  | .removeRequest _ => RustM.endState ((BepState.removeRequest h.response.id).run p.state)
  | _ => p.state

/-- A section of the handler leaves the state of its call. -/
theorem continueWith_snd {α : Type} (x : RustM BepProcessor α) (next : α → ResponseHandler) :
    (h.continueWith p x next).2 = RustM.endState (x.run p) := by
  unfold ResponseHandler.continueWith
  cases x.run p <;> rfl

/-- After a section a handler goes on, or it panicked. -/
theorem continueWith_fst {α : Type} (x : RustM BepProcessor α) (next : α → ResponseHandler) :
    (∃ a, (h.continueWith p x next).1 = next a) ∨
      ∃ e, (h.continueWith p x next).1 = h.goto (.panicked e) := by
  unfold ResponseHandler.continueWith
  cases x.run p with
  | ok a p' => exact Or.inl ⟨a, rfl⟩
  | error e p' => exact Or.inr ⟨e, rfl⟩

/-- A turn changes the state where it holds the lock. -/
theorem act_state : (h.act hash sha256 debugRequest p outcome).2.state = stateAfter h p ∧
    (h.act hash sha256 debugRequest p outcome).2.config = p.config := by
  obtain ⟨response, pc, stored, uploadStatus⟩ := h
  unfold ResponseHandler.act stateAfter
  cases pc with
  | getRequest =>
      dsimp only
      split <;> exact ⟨rfl, rfl⟩
  | fileInfo request | createDir request fileSize blockSize | copy request n backends copied
  | returned result | panicked fault => exact ⟨rfl, rfl⟩
  | openWriter request fileSize blockSize | concludeWriter request fileSize blockSize
  | removeFile request =>
      dsimp only [ResponseHandler.actOpenWriter, ResponseHandler.actConcludeWriter,
        ResponseHandler.actRemoveFile]
      rw [continueWith_snd, BepProcessor.onStorage_run]
      exact ⟨rfl, rfl⟩
  | writeChunk request fileSize blockSize offset pc | consolidate request pc =>
      dsimp only [ResponseHandler.actWriteChunk, ResponseHandler.actConsolidate]
      split <;> exact ⟨rfl, rfl⟩
  | updateState request fileSize blockSize | updateLocations request locations
  | removeLocations request | removeRequest result =>
      dsimp only [ResponseHandler.actUpdateState, ResponseHandler.actUpdateLocations,
        ResponseHandler.actRemoveLocations, ResponseHandler.actRemoveRequest]
      rw [continueWith_snd, BepProcessor.onState_run]
      exact ⟨rfl, rfl⟩

/-- In the turns that come after the block is marked the rows stay, and no request but the own
one is removed. -/
theorem stateAfter_told (hpc : ∀ request fileSize blockSize,
      h.pc ≠ .updateState request fileSize blockSize) :
    (stateAfter h p).db.bepFileInfo = p.state.db.bepFileInfo ∧
    (stateAfter h p).db.bepBlockInfo = p.state.db.bepBlockInfo ∧
    ∀ id, id ≠ h.response.id →
      (stateAfter h p).outgoingRequests.get id = p.state.outgoingRequests.get id := by
  obtain ⟨response, pc, stored, uploadStatus⟩ := h
  unfold stateAfter
  cases pc with
  | updateState request fileSize blockSize => exact absurd rfl (hpc _ _ _)
  | updateLocations request locations =>
      have hrows := updateFileLocations_rows request.folder p.config.localDeviceId request.name
        locations p.state
      refine ⟨hrows.files, hrows.blocks, ?_⟩
      intro id _
      dsimp only
      rw [hrows.queue]
  | removeRequest result =>
      dsimp only
      rw [BepState.removeRequest, onQueue_run]
      refine ⟨rfl, rfl, ?_⟩
      intro id hid
      dsimp only [OutgoingRequests.get]
      rw [remove_requestsById]
      exact AssocMap.get_erase_of_ne _ hid
  | getRequest | fileInfo request | createDir request fileSize blockSize
  | openWriter request fileSize blockSize | writeChunk request fileSize blockSize offset pc
  | concludeWriter request fileSize blockSize | consolidate request pc
  | copy request n backends copied | removeLocations request | removeFile request
  | returned result | panicked fault => exact ⟨rfl, rfl, fun _ _ => rfl⟩

end Responses

/-! ## A server and a file -/

section Example

/-- SHA-256 of the blocks `[1]` and `[2]`. -/
def pairHash (data : Bytes) : Bytes :=
  if data = [1] then
    [75, 245, 18, 47, 52, 69, 84, 197, 59, 222, 46, 187, 140, 210, 183, 227, 209, 96, 10, 214, 49,
      195, 133, 165, 215, 204, 226, 60, 119, 133, 69, 154]
  else
    [219, 193, 180, 201, 0, 255, 228, 141, 87, 91, 93, 165, 198, 56, 4, 1, 37, 246, 93, 176, 254,
      62, 36, 73, 75, 118, 234, 152, 100, 87, 217, 134]

/-- The device of the server. -/
def serverDevice : DeviceId := ⟨Vector.replicate 32 0⟩

/-- The device of the client. -/
def clientDevice : DeviceId := ⟨Vector.replicate 32 1⟩

/-- A server that keeps its files on the remote backends only. -/
def serverConfig : GrizolConfig :=
  { localDeviceId := serverDevice, localBaseDir := "base", storageStrategy := .remote,
    rcloneConfig := none, remoteBaseDir := "bucket" }

/-- A server that has just started, and shares a folder with a client. -/
def startedServer : BepProcessor :=
  { config := serverConfig
    state := .new (.ofIndex [("default", serverDevice), ("default", clientDevice)])
    storageManager := .new serverConfig ["remote"] .empty }

/-- A file of two blocks. -/
def pairFile : FileInfo :=
  { name := "a", size := 2, blockSize := 1, version := some ⟨[⟨1, 1⟩]⟩,
    blocks := [⟨0, 1, pairHash [1], 0⟩, ⟨1, 1, pairHash [2], 0⟩] }

end Example

end Grizol.Analysis

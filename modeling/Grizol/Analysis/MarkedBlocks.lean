import Grizol.Analysis.QueueConsistency
import Grizol.Interface.MarkedBlocks

/-!
# When a response marks its own block only

The statement that marks selects by the hash, so it touches no other block exactly when the
others of the file with that hash are stored already. The request it reads is the one the
handler wrote the data of: ids are given out in increasing order, so that under an id that
was seen there is no other request later.
-/

set_option autoImplicit false

namespace Grizol.Analysis

open Grizol.Library
open Grizol.Model Grizol.Model.Syncthing Grizol.Interface

/-! ## One call -/

section Marking

variable {s : BepState} {requestId : Int32} {deviceId : DeviceId} {r : Request} {db : Database}

/-- Marking a hash stores the blocks of the file with this hash. -/
theorem statusOf_markHash (file : FileKey) (blockHash : Bytes) (k : BlockKey) :
    statusOf (markHash db file blockHash) k =
      if k.file = file ∧ k.hash = blockHash then (statusOf db k).map fun _ => .storedLocally
      else statusOf db k := by
  rw [statusOf, statusOf, markHash, Database.setStorageStatus]
  dsimp only
  rw [AssocMap.get_mapValues]
  cases db.bepBlockInfo.get k with
  | none => split_ifs <;> rfl
  | some row =>
      by_cases hk : k.file = file ∧ k.hash = blockHash
      · rw [if_pos hk, Option.map_some, if_pos (by simpa using hk)]
        rfl
      · rw [if_neg hk, Option.map_some, if_neg (by simpa using hk)]

/-- The section goes through when the sizes give a number of blocks and some block of the file
is stored then. -/
theorem updateBlockStorageState_commits (hr : s.outgoingRequests.get requestId = some r) :
    (∃ status, (BepState.updateBlockStorageState requestId deviceId).run s =
        .ok status { s with db := markHash s.db ⟨r.folder, deviceId, r.name⟩ r.hash }) ↔
      Counted s.db ⟨r.folder, deviceId, r.name⟩ ∧
        0 < BepState.storedBlocks (markHash s.db ⟨r.folder, deviceId, r.name⟩ r.hash)
          ⟨r.folder, deviceId, r.name⟩ := by
  have hrow : (markHash s.db ⟨r.folder, deviceId, r.name⟩ r.hash).bepFileInfo.get
      ⟨r.folder, deviceId, r.name⟩ = s.db.bepFileInfo.get ⟨r.folder, deviceId, r.name⟩ := rfl
  rw [BepState.updateBlockStorageState, EStateM.run_bind, RustM.run_getThe]
  dsimp only
  rw [hr, Rust.unwrap_some, EStateM.run_bind, RustM.run_lift_ok]
  dsimp only
  rw [← markHash, hrow, Counted]
  cases hfile : s.db.bepFileInfo.get ⟨r.folder, deviceId, r.name⟩ with
  | none =>
      constructor
      · rintro ⟨status, hrun⟩
        cases hrun
      · rintro ⟨⟨row, n, hnone, -⟩, -⟩
        cases hnone
  | some row =>
      cases hstored : BepState.storedBlocks (markHash s.db ⟨r.folder, deviceId, r.name⟩ r.hash)
          ⟨r.folder, deviceId, r.name⟩ with
      | zero =>
          constructor
          · rintro ⟨status, hrun⟩
            cases hrun
          · rintro ⟨-, hpos⟩
            cases hpos
      | succ n =>
          dsimp only
          cases hexpected : BepState.expectedBlocks row.size row.blockSize with
          | error e =>
              constructor
              · rintro ⟨status, hrun⟩
                cases hrun
              · rintro ⟨⟨row', m, hrow', hcount⟩, -⟩
                obtain rfl := Option.some.inj hrow'
                rw [hexpected] at hcount
                cases hcount
          | ok expected =>
              rw [EStateM.run_bind, RustM.run_lift_ok]
              dsimp only
              rw [EStateM.run_bind, EStateM.run_set]
              dsimp only
              refine iff_of_true ?_ ⟨⟨row, expected, rfl, hexpected⟩, Nat.succ_pos n⟩
              cases compare ((n + 1 : ℕ) : ℤ) expected with
              | lt | eq | gt => exact ⟨_, rfl⟩

/-- A block with the hash is stored after the statement. -/
theorem storedBlocks_markHash_pos {k : BlockKey} {row : BlockRow}
    (hrow : db.bepBlockInfo.get k = some row) :
    0 < BepState.storedBlocks (markHash db k.file k.hash) k.file := by
  rw [BepState.storedBlocks, List.countP_pos_iff]
  refine ⟨(k, { row with storageStatus := .storedLocally }), ?_, by simp⟩
  rw [Database.blockRowsOf, List.mem_filter, AssocMap.mem_entries_iff, markHash,
    Database.setStorageStatus]
  dsimp only
  rw [AssocMap.get_mapValues, hrow]
  simp

/-- A call marks no other block exactly when none is there to be marked, or nothing is. -/
theorem marksOwn_iff (hr : s.outgoingRequests.get requestId = some r) :
    MarksOwn deviceId r s.db
        (RustM.endState ((BepState.updateBlockStorageState requestId deviceId).run s)).db ↔
      MarkedAlone s.db deviceId r := by
  constructor
  · intro hown hcounted k row hrow hfile hhash hstatus
    by_contra hne
    have hsame := hown k hne
    have hpos := storedBlocks_markHash_pos hrow
    rw [hfile, hhash] at hpos
    obtain ⟨status, hrun⟩ := (updateBlockStorageState_commits hr).mpr ⟨hcounted, hpos⟩
    rw [hrun, RustM.endState_ok] at hsame
    dsimp only at hsame
    rw [statusOf_markHash, if_pos ⟨hfile, hhash⟩, statusOf, hrow, Option.map_some, hstatus] at hsame
    cases hsame
  · intro halone k hne
    rcases updateBlockStorageState_run requestId deviceId s with ⟨e, hrun⟩ | ⟨r', status, hr', hrun⟩
    · rw [hrun, RustM.endState_error]
    · rw [hr] at hr'
      obtain rfl := Option.some.inj hr'
      obtain ⟨hcounted, -⟩ := (updateBlockStorageState_commits hr).mp ⟨status, hrun⟩
      rw [hrun, RustM.endState_ok]
      dsimp only
      rw [statusOf_markHash]
      split_ifs with hk
      · -- a block of the hash is stored already
        rw [statusOf]
        cases hrow : s.db.bepBlockInfo.get k with
        | none => rfl
        | some row =>
            cases hstatus : row.storageStatus with
            | storedLocally => rw [Option.map_some, hstatus, Option.map_some]
            | notStored => exact absurd (halone hcounted k row hrow hk.1 hk.2 hstatus) hne
      · rfl

end Marking

/-! ## Turns -/

section Turns

variable {hash : String → ℕ → ℕ → UInt64} {sha256 : Bytes → Bytes}
  {debugRequest : Request → String} {p : BepProcessor} {h h' : ResponseHandler}
  {s s' : BepState}

/-- The request a handler works on before it marks. -/
def workingOn : ResponsePc → Option Request
  | .fileInfo request | .createDir request _ _ | .openWriter request _ _
  | .writeChunk request _ _ _ _ | .updateState request _ _ => some request
  | _ => none

/-- The handler works on the request of its id, and has written the data before it marks. -/
structure Working (s : BepState) (h : ResponseHandler) : Prop where
  id_le : ∀ request, workingOn h.pc = some request → h.response.id.toInt ≤ s.requestId.toInt
  request : ∀ request r, workingOn h.pc = some request →
    s.outgoingRequests.requestsById.get h.response.id = some r → r = request
  written : ∀ request fileSize blockSize, h.pc = .updateState request fileSize blockSize →
    h.stored = some (.ok ())

/-- A handler works on its request while the ids are kept. -/
theorem Working.of_idsKept (hworking : Working s h) (hkept : IdsKept s s') : Working s' h where
  id_le request hpc := (hworking.id_le request hpc).trans hkept.requestId_le
  request request r hpc hr :=
    hworking.request request r hpc (hkept.same _ r (hworking.id_le request hpc) hr)
  written := hworking.written

/-- A handler after a turn works on the same request, or on the one it has just read. -/
structure Follows (p : BepProcessor) (h h' : ResponseHandler) : Prop where
  response : h'.response = h.response
  request : ∀ request, workingOn h'.pc = some request →
    workingOn h.pc = some request ∨ p.state.getRequest h.response.id = some request
  written : ∀ request fileSize blockSize, h'.pc = .updateState request fileSize blockSize →
    h'.stored = some (.ok ())

/-- It goes on with the same request, or with none. -/
theorem follows_goto {pc : ResponsePc}
    (hpc : workingOn pc = none ∨ workingOn pc = workingOn h.pc)
    (hmarks : ∀ request fileSize blockSize, pc ≠ .updateState request fileSize blockSize) :
    Follows p h (h.goto pc) where
  response := rfl
  request request hrequest := by
    rcases hpc with hnone | hsame
    · exact absurd (hnone.symm.trans hrequest) (by simp)
    · exact Or.inl (hsame.symm.trans hrequest)
  written request fileSize blockSize hupdate := absurd hupdate (hmarks _ _ _)

/-- A handler that panics follows. -/
theorem follows_panicked (e : Fault) : Follows p h (h.goto (.panicked e)) :=
  follows_goto (Or.inl rfl) (by simp)

/-- So does one behind a section. -/
theorem follows_continueWith {α : Type} {x : RustM BepProcessor α} {next : α → ResponseHandler}
    (hnext : ∀ a, Follows p h (next a)) : Follows p h (h.continueWith p x next).1 := by
  rcases continueWith_fst h p x next with ⟨a, ha⟩ | ⟨e, he⟩
  · rw [ha]
    exact hnext a
  · rw [he]
    exact follows_panicked e

/-- And behind the write. -/
theorem follows_afterStore {request : Request} (hpc : workingOn h.pc = some request)
    (fileSize blockSize : ℕ) (result : Except IoError Unit) :
    Follows p h (h.afterStore request fileSize blockSize result) where
  response := rfl
  request request' hrequest := by
    cases result with
    | error e => cases hrequest
    | ok u =>
        obtain rfl := Option.some.inj hrequest
        exact Or.inl hpc
  written request' fileSize' blockSize' hupdate := by
    cases result with
    | error e => cases hupdate
    | ok u => rfl

/-- And one that reads the row of the file. -/
theorem follows_fileInfo {request : Request} (hpc : h.pc = .fileInfo request) :
    Follows p h (h.actFileInfo sha256 debugRequest p request) := by
  unfold ResponseHandler.actFileInfo
  split
  · exact follows_goto (Or.inl rfl) (by simp)
  · split
    · exact follows_goto (Or.inl rfl) (by simp)
    · split
      · refine follows_goto (Or.inr ?_) (by simp)
        rw [hpc]
        rfl
      · exact follows_panicked _
      · exact follows_panicked _

/-- And one that makes the directory. -/
theorem follows_createDir {request : Request} {fileSize blockSize : ℕ}
    (hpc : h.pc = .createDir request fileSize blockSize) (outcome : Outcome) :
    Follows p h (h.actCreateDir p request fileSize blockSize outcome) := by
  have hworking : workingOn h.pc = some request := by
    rw [hpc]
    rfl
  unfold ResponseHandler.actCreateDir
  split
  · cases outcome with
    | fails e => exact follows_afterStore hworking _ _ _
    | ok => exact follows_goto (Or.inr hworking.symm) (by simp)
  · exact follows_panicked _

/-- And one in the write. -/
theorem follows_writeChunk {request : Request} {fileSize blockSize offset : ℕ}
    {pc : FileWriter.WritePc} (hpc : h.pc = .writeChunk request fileSize blockSize offset pc)
    (outcome : Outcome) :
    Follows p h (h.actWriteChunk p request fileSize blockSize offset pc outcome).1 := by
  have hworking : workingOn h.pc = some request := by
    rw [hpc]
    rfl
  unfold ResponseHandler.actWriteChunk
  dsimp only
  split
  · refine ⟨rfl, fun _ hrequest => Or.inl hrequest, ?_⟩
    intro _ _ _ hupdate
    rw [hpc] at hupdate
    cases hupdate
  · dsimp only
    split
    · exact follows_afterStore hworking _ _ _
    · exact follows_panicked _
    · exact follows_goto (Or.inr hworking.symm) (by simp)

/-- Every turn of a handler follows. -/
theorem follows_act (outcome : TurnOutcome) :
    Follows p h (h.act hash sha256 debugRequest p outcome).1 := by
  unfold ResponseHandler.act
  cases hpc : h.pc with
  | getRequest =>
      dsimp only
      split
      · rename_i request hrequest
        refine ⟨rfl, ?_, by simp [ResponseHandler.goto]⟩
        intro request' hworking
        obtain rfl := Option.some.inj hworking
        exact Or.inr hrequest
      · exact follows_goto (Or.inl rfl) (by simp)
  | fileInfo request => exact follows_fileInfo hpc
  | createDir request fileSize blockSize => exact follows_createDir hpc _
  | openWriter request fileSize blockSize =>
      refine follows_continueWith fun a => ?_
      split
      · exact follows_panicked _
      · refine follows_goto (Or.inr ?_) (by simp)
        rw [hpc]
        rfl
  | writeChunk request fileSize blockSize offset pc => exact follows_writeChunk hpc _
  | updateState request fileSize blockSize =>
      refine follows_continueWith fun result => ?_
      refine ⟨rfl, ?_, ?_⟩
      · intro request' hworking
        rcases result with e | - | - <;> cases hworking
      · intro request' _ _ hupdate
        rcases result with e | - | - <;> cases hupdate
  | concludeWriter request fileSize blockSize =>
      exact follows_continueWith fun a => follows_goto (Or.inl rfl) (by simp)
  | consolidate request pc =>
      dsimp only [ResponseHandler.actConsolidate]
      split
      · refine ⟨rfl, fun _ hrequest => Or.inl hrequest, ?_⟩
        intro _ _ _ hupdate
        rw [hpc] at hupdate
        cases hupdate
      · dsimp only
        split <;> exact follows_goto (Or.inl rfl) (by simp)
  | copy request n backends copied =>
      cases backends with
      | nil => exact follows_goto (Or.inl rfl) (by simp)
      | cons backend backends =>
          dsimp only [ResponseHandler.actCopy]
          split
          · exact follows_panicked _
          · exact follows_panicked _
          · exact follows_goto (Or.inl rfl) (by simp)
  | updateLocations request locations =>
      refine follows_continueWith fun a => ?_
      split_ifs <;> exact follows_goto (Or.inl rfl) (by simp)
  | removeLocations request | removeFile request | removeRequest stored =>
      exact follows_continueWith fun a => follows_goto (Or.inl rfl) (by simp)
  | returned result | panicked e =>
      refine ⟨rfl, fun _ hrequest => Or.inl hrequest, ?_⟩
      intro _ _ _ hupdate
      rw [hpc] at hupdate
      cases hupdate

/-- A handler that follows works on the same request. -/
theorem working_of_follows (hinv : QueueInStep p.state) (hworking : Working p.state h)
    (hfollows : Follows p h h') (hkept : IdsKept p.state s') : Working s' h' := by
  have hbefore : ∀ request, workingOn h'.pc = some request →
      h.response.id.toInt ≤ p.state.requestId.toInt ∧
        ∀ r, p.state.outgoingRequests.requestsById.get h.response.id = some r → r = request := by
    intro request hpc
    rcases hfollows.request request hpc with hsame | hread
    · exact ⟨hworking.id_le request hsame, fun r hr => hworking.request request r hsame hr⟩
    · refine ⟨hinv.id_le _ request hread, ?_⟩
      intro r hr
      exact Option.some.inj (hr.symm.trans hread)
  rw [← hfollows.response] at hbefore
  refine ⟨?_, ?_, hfollows.written⟩
  · intro request hpc
    exact (hbefore request hpc).1.trans hkept.requestId_le
  · intro request r hpc hr
    obtain ⟨hle, hsame⟩ := hbefore request hpc
    exact hsame r (hkept.same _ r hle hr)

end Turns

/-! ## Runs -/

section Runs

variable {ι : Type} [DecidableEq ι] {hash : String → ℕ → ℕ → UInt64} {sha256 : Bytes → Bytes}
  {debugRequest : Request → String} {s s' : Processes ι ServerTask BepProcessor}
  {t : Turn ι TurnOutcome}

/-- The queue is in step, and every handler of a response works on the request of its id. -/
structure AllWorking (s : Processes ι ServerTask BepProcessor) : Prop where
  queue : QueueInStep s.shared.state
  working : ∀ i h, s.process i = .response h → Working s.shared.state h

/-- Every turn keeps that. -/
theorem allWorking_step (hinv : AllWorking s)
    (hstep : Processes.step (ServerTask.act hash sha256 debugRequest) s t = some s') :
    AllWorking s' := by
  have hself := Processes.step_self hstep
  have hshared : s'.shared = (ServerTask.act hash sha256 debugRequest t.outcome
      (s.process t.process) s.shared).2 := congrArg Prod.snd hself
  have hprocess : s'.process t.process = (ServerTask.act hash sha256 debugRequest t.outcome
      (s.process t.process) s.shared).1 := congrArg Prod.fst hself
  obtain ⟨hqueue, hkept⟩ := @queueInStep_act hash sha256 debugRequest s.shared hinv.queue
    (s.process t.process) t.outcome
  rw [← hshared] at hqueue hkept
  refine ⟨hqueue, ?_⟩
  intro i h' hi
  by_cases hturn : i = t.process
  · subst hturn
    rw [hprocess] at hi
    cases htask : s.process t.process with
    | response h =>
        rw [htask] at hi
        obtain rfl := ServerTask.response.inj hi
        exact working_of_follows hinv.queue (hinv.working _ h htask) (follows_act t.outcome) hkept
    | index h =>
        rw [htask] at hi
        cases hi
    | connection maxPending maxStorageArea =>
        rw [htask] at hi
        cases hi
  · rw [Processes.step_other hstep hturn] at hi
    exact (hinv.working i h' hi).of_idsKept hkept

omit [DecidableEq ι] in
/-- A turn that does not mark stores no block. -/
theorem storesWritten_of_shrinks (h : StoredShrinks s.shared.state.db s'.shared.state.db) :
    StoresWritten s t s' :=
  fun k row hrow hstatus => Or.inl (h k row hrow hstatus)

omit [DecidableEq ι] in
/-- The turn of a handler of a response. -/
theorem storesWritten_response (hinv : AllWorking s) (halone : MarksAlone s t)
    {h : ResponseHandler} (hprocess : s.process t.process = .response h)
    (hstate : s'.shared.state = stateAfter h s.shared) : StoresWritten s t s' := by
  have hblocks : ∀ (s₁ : BepState), s'.shared.state = s₁ →
      s₁.db.bepBlockInfo = s.shared.state.db.bepBlockInfo → StoresWritten s t s' := by
    rintro s₁ rfl hsame
    exact storesWritten_of_shrinks (.of_same hsame)
  by_cases hmarks : ∃ request fileSize blockSize, h.pc = .updateState request fileSize blockSize
  · obtain ⟨request, fileSize, blockSize, hpc⟩ := hmarks
    rw [stateAfter, hpc] at hstate
    dsimp only at hstate
    rcases updateBlockStorageState_run h.response.id s.shared.config.localDeviceId
      s.shared.state with ⟨e, hrun⟩ | ⟨r, status, hr, hrun⟩
    · rw [hrun] at hstate
      exact hblocks _ hstate rfl
    · have hworking := hinv.working _ h hprocess
      obtain rfl : r = request := by
        refine hworking.request request r ?_ hr
        rw [hpc]
        rfl
      obtain ⟨hcounted, -⟩ := (updateBlockStorageState_commits hr).mp ⟨status, hrun⟩
      have honly := halone h r fileSize blockSize r hprocess hpc hr hcounted
      rw [hrun, RustM.endState_ok] at hstate
      intro k row hrow hstatus
      rw [hstate] at hrow
      rcases get_markHash hrow with ⟨hfile, hhash⟩ | hrow
      · -- it was stored already, or it is the one that was asked for
        dsimp only [markHash, Database.setStorageStatus] at hrow
        rw [AssocMap.get_mapValues, Option.map_eq_some_iff] at hrow
        obtain ⟨row₀, hrow₀, hmark⟩ := hrow
        rw [if_pos (by simp [hfile, hhash])] at hmark
        cases hstatus₀ : row₀.storageStatus with
        | storedLocally =>
            left
            rw [hrow₀, ← hmark, ← hstatus₀]
        | notStored =>
            right
            refine ⟨h, r, fileSize, blockSize, hprocess, hpc, ?_, ?_⟩
            · exact hworking.written r fileSize blockSize hpc
            · exact honly k row₀ hrow₀ hfile hhash hstatus₀
      · exact Or.inl hrow
  · obtain ⟨-, hrows, -⟩ := stateAfter_told h s.shared
      fun request fileSize blockSize hpc => hmarks ⟨request, fileSize, blockSize, hpc⟩
    exact hblocks _ hstate hrows

/-- Every turn that marks alone, if it marks, stores what was written. -/
theorem storesWritten_step (hinv : AllWorking s) (halone : MarksAlone s t)
    (hstep : Processes.step (ServerTask.act hash sha256 debugRequest) s t = some s') :
    StoresWritten s t s' := by
  have hshared := congrArg Prod.snd (Processes.step_self hstep)
  dsimp only at hshared
  cases hprocess : s.process t.process with
  | response h =>
      rw [hprocess] at hshared
      obtain ⟨hstate, -⟩ := @act_state hash sha256 debugRequest h s.shared t.outcome
      have hshared : s'.shared = (h.act hash sha256 debugRequest s.shared t.outcome).2 := hshared
      rw [← hshared] at hstate
      exact storesWritten_response hinv halone hprocess hstate
  | index h =>
      rw [hprocess] at hshared
      have hshared : s'.shared = (h.act s.shared).2 := hshared
      apply storesWritten_of_shrinks
      rw [hshared]
      cases hpc : h.pc with
      | writeIndices =>
          rw [(act_writeIndices s.shared hpc).1]
          exact storedShrinks_of_writes
            (writeIndices_writes s.shared.state s.shared.config.localDeviceId h).db
      | enqueue blocks =>
          rw [(act_enqueue s.shared hpc).1]
          dsimp only
          rw [storeOutgoingRequests_db]
          exact .of_same rfl
      | returned | panicked e =>
          unfold IndexHandler.act
          rw [hpc]
          exact .of_same rfl
  | connection maxPending maxStorageArea =>
      rw [hprocess] at hshared
      obtain ⟨-, hdb, -⟩ := connection_turn (p := s.shared) maxPending maxStorageArea
      apply storesWritten_of_shrinks
      have hshared : s'.shared = RustM.endState
          ((BepProcessor.throttledRequests maxPending maxStorageArea).run s.shared) := hshared
      rw [hshared, hdb]
      exact .of_same rfl

/-- **A response marks its own block, and only what was written is stored.** A call marks no
block but that of its request exactly when no other of the file with the hash is left to
mark, or the sizes give no number of blocks. And in every run, on a server that has just
started, of any tasks that have not begun in any order, whose calls all meet this, a block
comes to be stored only when a response for its offset was written. -/
theorem marksOwn_iff_and_storesWritten_of_run :
    (∀ (s : BepState) (requestId : Int32) (deviceId : DeviceId) (r : Request),
      s.outgoingRequests.get requestId = some r →
        (MarksOwn deviceId r s.db
            (RustM.endState ((BepState.updateBlockStorageState requestId deviceId).run s)).db ↔
          MarkedAlone s.db deviceId r)) ∧
    ∀ (p₀ : BepProcessor) (db : Database) (tasks : ι → ServerTask)
      (turns : List (Turn ι TurnOutcome)), p₀.state = .new db → (∀ i, (tasks i).Fresh) →
      Transition.Meets (Processes.step (ServerTask.act hash sha256 debugRequest)) MarksAlone
        ⟨p₀, tasks⟩ turns →
      Transition.Along (Processes.step (ServerTask.act hash sha256 debugRequest)) StoresWritten
        ⟨p₀, tasks⟩ turns := by
  refine ⟨fun s requestId deviceId r hr => marksOwn_iff hr, ?_⟩
  intro p₀ db tasks turns hstart hfresh hmeets
  refine Transition.along_of_invariant AllWorking ?_ ?_ hmeets
  · intro s t s' hinv halone hstep
    exact ⟨allWorking_step hinv hstep, storesWritten_step hinv halone hstep⟩
  · refine ⟨?_, ?_⟩
    · show QueueInStep p₀.state
      rw [hstart]
      exact queueInStep_new db
    · intro i h hprocess
      have hnew := hfresh i
      have hprocess : tasks i = .response h := hprocess
      rw [hprocess, ServerTask.Fresh] at hnew
      rw [hnew]
      exact ⟨by simp [ResponseHandler.new, workingOn], by simp [ResponseHandler.new, workingOn],
        by simp [ResponseHandler.new]⟩

end Runs

/-! ## Blocks with one hash -/

section Example

instance (db : Database) (deviceId : DeviceId) (r : Request) :
    Decidable (OnlyOfHash db deviceId r) :=
  decidable_of_iff (∀ e ∈ db.bepBlockInfo.entries, e.1.file = ⟨r.folder, deviceId, r.name⟩ →
      e.1.hash = r.hash → e.2.storageStatus = .notStored → e.1 = requestedBlock deviceId r) <| by
    simp only [OnlyOfHash, Prod.forall, AssocMap.mem_entries_iff]

instance (db : Database) (key : FileKey) : Decidable (Counted db key) :=
  decidable_of_iff ((db.bepFileInfo.get key).any fun row =>
      (BepState.expectedBlocks row.size row.blockSize).toOption.isSome) <| by
    unfold Counted
    cases db.bepFileInfo.get key with
    | none => simp
    | some row =>
        cases hn : BepState.expectedBlocks row.size row.blockSize <;> simp [Except.toOption, hn]

instance (db : Database) (deviceId : DeviceId) (r : Request) :
    Decidable (MarkedAlone db deviceId r) :=
  inferInstanceAs (Decidable (Counted db ⟨r.folder, deviceId, r.name⟩ →
    OnlyOfHash db deviceId r))

/-- The request whose block a turn marks. -/
def markedRequest {ι : Type} (s : Processes ι ServerTask BepProcessor) (t : Turn ι TurnOutcome) :
    Option Request :=
  match s.process t.process with
  | .response h =>
      match h.pc with
      | .updateState _ _ _ => s.shared.state.getRequest h.response.id
      | _ => none
  | _ => none

instance {ι : Type} (s : Processes ι ServerTask BepProcessor) (t : Turn ι TurnOutcome) :
    Decidable (MarksAlone s t) :=
  decidable_of_iff (∀ r ∈ markedRequest s t,
      MarkedAlone s.shared.state.db s.shared.config.localDeviceId r) <| by
    constructor
    · intro h h' request fileSize blockSize r hprocess hpc hr
      refine h r ?_
      unfold markedRequest
      rw [hprocess]
      dsimp only
      rw [hpc]
      exact hr
    · intro h r hr
      unfold markedRequest at hr
      split at hr
      · rename_i h' hprocess
        split at hr
        · rename_i request fileSize blockSize hpc
          exact h h' request fileSize blockSize r hprocess hpc hr
        · cases hr
      · cases hr

/-- The state of a server to which a client has sent a file. -/
def offeredState (file : FileInfo) : BepState :=
  (RustM.endState ((BepProcessor.handleIndex ⟨"default", [file]⟩ clientDevice
    fun _ => 0).run startedServer)).state

/-- A file whose two blocks have the same data. -/
def twinFile : FileInfo :=
  { pairFile with blocks := [⟨0, 1, pairHash [1], 0⟩, ⟨1, 1, pairHash [1], 0⟩] }

/-- The request for the block at the start of either file. -/
def startRequest : Request :=
  { id := 1, folder := "default", name := "a", offset := 0, size := 1, hash := pairHash [1],
    fromTemporary := false }

/-- Witness: with different hashes a response marks its block; and in a run a client sends the
file and is asked for it, and its first block comes and is stored. -/
theorem marksOwn_offered :
    MarksOwn serverDevice startRequest (offeredState pairFile).db (RustM.endState
        ((BepState.updateBlockStorageState 1 serverDevice).run (offeredState pairFile))).db ∧
      Transition.Along (Processes.step (ServerTask.act (fun _ _ _ => 0) pairHash fun _ => ""))
        StoresWritten ⟨startedServer, staleTasks⟩ answeredTurns := by
  obtain ⟨hcalls, hruns⟩ := @marksOwn_iff_and_storesWritten_of_run (Fin 4) _ (fun _ _ _ => 0)
    pairHash fun _ => ""
  constructor
  · have hr : (offeredState pairFile).outgoingRequests.get 1 = some startRequest := by
      decide +kernel
    refine (hcalls _ _ _ _ hr).mpr fun _ => ?_
    decide +kernel
  · refine hruns startedServer _ _ _ rfl (fun i => ?_) (by decide +kernel)
    match i with
    | 0 | 2 => exact Eq.refl IndexPc.writeIndices
    | 1 => trivial
    | 3 => exact Eq.refl (ResponseHandler.new ⟨1, [1], 0⟩)

/-- With one hash the response for the first block marks the second, too. -/
theorem twinBlock_marked :
    ¬ ∀ (s : BepState) (requestId : Int32) (deviceId : DeviceId) (r : Request),
      s.outgoingRequests.get requestId = some r → MarksOwn deviceId r s.db
        (RustM.endState ((BepState.updateBlockStorageState requestId deviceId).run s)).db := by
  intro hall
  have hr : (offeredState twinFile).outgoingRequests.get 1 = some startRequest := by
    decide +kernel
  have hown := hall (offeredState twinFile) 1 serverDevice startRequest hr
    { requestedBlock serverDevice startRequest with offset := 1 } (by decide)
  have hbefore : statusOf (offeredState twinFile).db
      { requestedBlock serverDevice startRequest with offset := 1 } = some .notStored := by
    decide +kernel
  have hafter : statusOf (RustM.endState ((BepState.updateBlockStorageState 1 serverDevice).run
      (offeredState twinFile))).db
      { requestedBlock serverDevice startRequest with offset := 1 } = some .storedLocally := by
    decide +kernel
  rw [hbefore, hafter] at hown
  cases hown

end Example

end Grizol.Analysis

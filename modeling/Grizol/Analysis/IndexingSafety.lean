import Grizol.Analysis.FileSequences
import Grizol.Analysis.IndexIntake
import Grizol.Analysis.ReadCache
import Grizol.Analysis.NewRequests
import Grizol.Analysis.Renames

/-!
# Index handling over whole runs

`SoundState` is what the handlers of indices rely on, and whatever else goes on at a node keeps
it: responses, the calls of the file system, new folders and restarts. What they put on
their lists can be asked for, so the queue takes it and the connections throttle it. A run
whose messages are taken in therefore never loses a handler.
-/

set_option autoImplicit false

namespace Grizol.Analysis

open Grizol.Library
open Grizol.Model Grizol.Model.Syncthing Grizol.Interface

/-! ## The queue -/

section Queue

variable {maxPending : ℕ} {s s' : BepState}

/-- The queue is in step, no request of it has a negative size, and there are no more pending ones
than are allowed. -/
structure SoundQueue (maxPending : ℕ) (s : BepState) : Prop where
  inStep : QueueInStep s
  sizes : ∀ id r, s.outgoingRequests.requestsById.get id = some r → 0 ≤ r.size.toInt
  pending : s.outgoingRequests.pendingRequests.card ≤ maxPending

/-- A sound queue meets its invariant. -/
theorem SoundQueue.invariant (h : SoundQueue maxPending s) : QueueInvariant s.outgoingRequests :=
  queueInvariant_of_consistent h.inStep.consistent h.sizes

/-- The queue of a server that has just started is sound. -/
theorem soundQueue_new (maxPending : ℕ) (db : Database) : SoundQueue maxPending (.new db) where
  inStep := queueInStep_new db
  sizes id r h := by simp [BepState.new, OutgoingRequests.default] at h
  pending := Nat.zero_le _

/-- What leaves the queue and the counter of ids alone. -/
theorem SoundQueue.of_same (h : SoundQueue maxPending s)
    (hqueue : s'.outgoingRequests = s.outgoingRequests) (hid : s'.requestId = s.requestId) :
    SoundQueue maxPending s' := by
  refine ⟨h.inStep.of_same hqueue hid, ?_, ?_⟩
  · rw [hqueue]
    exact h.sizes
  · rw [hqueue]
    exact h.pending

/-- Removing a request makes none pending, also where it panics. -/
theorem remove_pendingRequests {q : OutgoingRequests} (hinv : Consistent q) (id : Int32) :
    (RustM.endState ((OutgoingRequests.remove id).run q)).pendingRequests ⊆ q.pendingRequests := by
  cases hr : q.requestsById.get id with
  | none =>
      rw [remove_of_unknown hr]
      exact Finset.Subset.refl _
  | some r =>
      obtain ⟨k, hk⟩ := hinv.keyed id r hr
      by_cases hpending : k ∈ q.pendingRequests
      · rw [remove_of_pending hinv hr hk hpending]
        exact Finset.erase_subset _ _
      · rw [remove_of_waiting hinv hr hk hpending]
        exact Finset.Subset.refl _

/-- Forgetting a request keeps it so. -/
theorem soundQueue_removeRequest (h : SoundQueue maxPending s) (requestId : Int32) :
    SoundQueue maxPending (RustM.endState ((BepState.removeRequest requestId).run s)) := by
  refine ⟨queueInStep_removeRequest h.inStep requestId, ?_, ?_⟩
  · rw [BepState.removeRequest, onQueue_run]
    intro id r hr
    dsimp only at hr
    rw [remove_requestsById, AssocMap.get_erase] at hr
    split_ifs at hr
    exact h.sizes id r hr
  · rw [BepState.removeRequest, onQueue_run]
    exact (Finset.card_le_card (remove_pendingRequests h.inStep.consistent requestId)).trans h.pending

/-- Requests can be throttled, and no more than allowed are pending then. -/
theorem soundQueue_updatePendingRequests (h : SoundQueue maxPending s) (maxStorageArea : ℕ) :
    ∃ requests s', (BepState.updatePendingRequests maxPending maxStorageArea).run s =
      .ok requests s' ∧ SoundQueue maxPending s' ∧ s'.db = s.db ∧ s'.sequence = s.sequence ∧
        s'.indices = s.indices := by
  obtain ⟨sent, hrun, hsent⟩ := updatePendingRequests_run h.invariant maxStorageArea h.pending
  have hstate := onQueue_eq_ok (s := s) hrun
  refine ⟨_, _, hstate, ⟨?_, h.sizes, ?_⟩, rfl, rfl, rfl⟩
  · have hstep := queueInStep_updatePendingRequests h.inStep maxPending maxStorageArea
    rw [BepState.updatePendingRequests, hstate] at hstep
    exact hstep
  · have hslots := hsent.slots (Nat.zero_le _)
    have hpending := h.pending
    have hcard := Finset.card_union_le s.outgoingRequests.pendingRequests
      (sent.map Prod.fst).toFinset
    have hlength := List.toFinset_card_le (sent.map Prod.fst)
    rw [List.length_map] at hlength
    simp only [markSent]
    omega

/-- The second section of the handler of an index returns, if its blocks can be asked for and there
are ids for them. -/
theorem soundQueue_storeOutgoingRequests (h : SoundQueue maxPending s) {blocks : List BlockInfoExt}
    (hblocks : ∀ b ∈ blocks, Requestable b.hash b.size) (hleft : blocks.length ≤ idsLeft s)
    (clock : ℕ → ℕ) :
    ∃ inserted s', (storeOutgoingRequests blocks clock).run s = .ok inserted s' ∧
      SoundQueue maxPending s' ∧ s'.db = s.db ∧ s'.sequence = s.sequence ∧
        s'.indices = s.indices := by
  have hlt := s.requestId.toInt_lt
  rw [idsLeft] at hleft
  obtain ⟨requests, inserted, q', hrequests, hrun, htakes⟩ := storeOutgoingRequests_run h.inStep
    (fun b hb => (hblocks b hb).hash) (by omega) clock
  refine ⟨_, _, hrun, ⟨?_, ?_, ?_⟩, rfl, rfl, rfl⟩
  · have hstep := (queueInStep_storeOutgoingRequests h.inStep blocks clock).1
    rw [hrun] at hstep
    exact hstep
  · intro id r hr
    rcases htakes.added id r hr with hold | hnew
    · exact h.sizes id r (((get_keepIds _).1 id r).mp hold).1
    · obtain ⟨requests', hrequests', hfrom⟩ :=
        @requestsFromBlocks_returns blocks s.requestId hleft
      obtain rfl := Except.ok.inj (hrequests'.symm.trans hrequests)
      obtain ⟨b, hb, -, hsize⟩ := hfrom r (htakes.sublist.mem hnew)
      rw [hsize]
      exact (hblocks b hb).size
  · dsimp only
    rw [htakes.pending]
    exact (Finset.card_le_card (Finset.filter_subset _ _)).trans h.pending

end Queue

/-! ## The state -/

section States

variable {localDeviceId : DeviceId} {s s' : BepState}

/-- What a section does that is none of a handler of indices: the state stays sound, and the queue
is as it was. -/
structure KeepsSound (localDeviceId : DeviceId) (s s' : BepState) : Prop where
  sound : SoundState localDeviceId s → SoundState localDeviceId s'
  queue : s'.outgoingRequests = s.outgoingRequests
  requestId : s'.requestId = s.requestId

namespace KeepsSound

/-- Without a call soundness is kept. -/
theorem refl (localDeviceId : DeviceId) (s : BepState) : KeepsSound localDeviceId s s :=
  ⟨id, rfl, rfl⟩

/-- What keeps it twice keeps it. -/
theorem trans {s'' : BepState} (h : KeepsSound localDeviceId s s')
    (h' : KeepsSound localDeviceId s' s'') : KeepsSound localDeviceId s s'' :=
  ⟨fun hsound => h'.sound (h.sound hsound), h'.queue.trans h.queue, h'.requestId.trans h.requestId⟩

/-- Rows that go, or change in other columns. -/
theorem of_fewer {db : Database}
    (hfiles : ∀ k r, db.bepFileInfo.get k = some r → s.db.bepFileInfo.get k = some r)
    (hblocks : ∀ k, db.bepBlockInfo.contains k = true → s.db.bepBlockInfo.contains k = true) :
    KeepsSound localDeviceId s { s with db := db } where
  sound h :=
    { below := fun n hn k r hr => h.below n hn k r (hfiles k r hr)
      requestable := fun k hk hdevice => h.requestable k (hblocks k hk) hdevice
      folders := h.folders }
  queue := rfl
  requestId := rfl

/-- Tables that no handler of an index reads. -/
theorem of_tables {db : Database} (hfiles : db.bepFileInfo = s.db.bepFileInfo)
    (hblocks : db.bepBlockInfo = s.db.bepBlockInfo) :
    KeepsSound localDeviceId s { s with db := db } := by
  refine of_fewer ?_ ?_
  · intro k r hr
    rw [← hfiles]
    exact hr
  · intro k hk
    rw [← hblocks]
    exact hk

end KeepsSound

/-- Recording locations does. -/
theorem updateFileLocations_keepsSound (folder : String) (deviceId : DeviceId) (fileName : String)
    (locations : List (String × String)) (s : BepState) : KeepsSound localDeviceId s
      (RustM.endState ((BepState.updateFileLocations folder deviceId fileName locations).run s)) := by
  rw [BepState.updateFileLocations, EStateM.run_bind, RustM.run_getThe]
  dsimp only
  cases hinsert : BepState.insertLocations ⟨folder, deviceId, fileName⟩ locations s.db with
  | error e => exact KeepsSound.refl localDeviceId s
  | ok tx =>
      obtain ⟨hfiles, hblocks⟩ := insertLocations_rows locations hinsert
      exact KeepsSound.of_tables hfiles hblocks

/-- So does marking a block. -/
theorem updateBlockStorageState_keepsSound (requestId : Int32) (deviceId : DeviceId) (s : BepState) :
    KeepsSound localDeviceId s
      (RustM.endState ((BepState.updateBlockStorageState requestId deviceId).run s)) := by
  rcases updateBlockStorageState_run requestId deviceId s with ⟨e, hrun⟩ | ⟨r, status, -, hrun⟩
  · rw [hrun]
    exact KeepsSound.refl localDeviceId s
  · rw [hrun]
    refine KeepsSound.of_fewer (fun _ _ hr => hr) ?_
    intro k hk
    obtain ⟨row, hrow⟩ := AssocMap.contains_iff.mp hk
    rw [markHash, Database.setStorageStatus, AssocMap.get_mapValues] at hrow
    obtain ⟨row', hrow', -⟩ := Option.map_eq_some_iff.mp hrow
    exact AssocMap.contains_iff.mpr ⟨row', hrow'⟩

/-- Rows of this device that are deleted; its entry does not matter. -/
theorem rmFileInfo_keepsSound (folder fileName : String) (s : BepState) : KeepsSound localDeviceId s
    (RustM.endState ((BepState.rmFileInfo folder localDeviceId fileName).run s)) := by
  refine ⟨fun h => ⟨?_, ?_, ?_⟩, rfl, rfl⟩
  · intro n hn k r hr
    have hr : (s.db.deleteFileInfo fun k =>
        decide (k = ⟨folder, localDeviceId, fileName⟩)).bepFileInfo.get k = some r := hr
    rw [Database.deleteFileInfo, AssocMap.get_retain, Option.filter_eq_some_iff] at hr
    exact h.below n hn k r hr.1
  · intro k hk hdevice
    have hamong := @deleteFileInfo_among s.db (fun _ => False)
      (fun k => decide (k = ⟨folder, localDeviceId, fileName⟩)) k hk
    exact h.requestable k (hamong.resolve_right id) hdevice
  · intro key entry hget hdevice
    have hget : (s.indices.removeFileInfo folder localDeviceId fileName).indices.get key =
        some entry := hget
    rw [get_removeFileInfo] at hget
    split_ifs at hget with hkey
    · exact absurd (congrArg FolderDevice.deviceId hkey) hdevice
    · exact h.folders key entry hget hdevice

/-- Files of this device whose blocks can be asked for. -/
theorem insertFileInfo_keepsSound (folder : String) {files : List FileInfo} {s : BepState}
    (hblocks : SoundState localDeviceId s →
      ∀ f ∈ files, ∀ b ∈ f.blocks, Requestable b.hash b.size) : KeepsSound localDeviceId s
    (RustM.endState ((BepState.insertFileInfo folder localDeviceId files).run s)) := by
  have hwrites := insertFileInfo_writes folder localDeviceId s files
  refine ⟨fun h => ?_, hwrites.queue, hwrites.requestId⟩
  rcases @insertFileInfo_numbering folder localDeviceId s files h.below with
    ⟨numbered, n, tx, hnumbering, hwritten, hrun⟩ | ⟨⟨e, n, hrun, hbelow⟩, -⟩
  · rw [hrun]
    refine sound_written h hnumbering hwritten (fun _ hf => hf) ?_
      (folders_insertFileInfo h _ fun hne => absurd rfl hne)
    intro _ f' hf' b hb
    obtain ⟨f, hf, m, rfl⟩ := Numbered.mem hnumbering.assigned hf'
    exact hblocks h f hf b hb
  · rw [hrun]
    exact ⟨hbelow, h.requestable, h.folders⟩

/-- The blocks of a row that is renamed are the same. -/
theorem renameFileInfo_blocks {tx tx' : Database} {key : FileKey} {name : String}
    {sequence : Int64} (h : tx.renameFileInfo key name sequence = .ok tx') {k : BlockKey}
    (hk : tx'.bepBlockInfo.contains k = true) :
    ∃ k₀, tx.bepBlockInfo.contains k₀ = true ∧ k₀.file.device = k.file.device ∧
      k₀.hash = k.hash ∧ k₀.size = k.size := by
  unfold Database.renameFileInfo at h
  dsimp only at h
  split at h
  · obtain rfl := Except.ok.inj h
    exact ⟨k, hk, rfl, rfl, rfl⟩
  · split_ifs at h
    split at h
    · rename_i hblocks _
      obtain rfl := Except.ok.inj h
      obtain ⟨row, hrow⟩ := AssocMap.contains_iff.mp hk
      obtain ⟨k₀, hk₀, rfl⟩ := (AssocMap.get_rekey hblocks).mp hrow
      refine ⟨k₀, AssocMap.contains_iff.mpr ⟨row, hk₀⟩, ?_, rfl, rfl⟩
      dsimp only
      rw [Database.moveFile]
      split_ifs with hfile
      · rw [hfile]
      · rfl
    · cases h

/-- And moving a file. -/
theorem mvFileInfo_keepsSound (folder : String) (deviceId : DeviceId) (file : FileInfo)
    (destName : String) (fileLocations : List FileLocation) (s : BepState) :
    KeepsSound localDeviceId s (RustM.endState
      ((BepState.mvFileInfo folder deviceId file destName fileLocations).run s)) := by
  have hbelow := fun h : SequencesBelow s.db s.sequence =>
    @mvFileInfo_below s folder deviceId h file destName fileLocations
  cases hnext : nextSequence s with
  | none =>
      obtain ⟨e, s₁, hrun, n, rfl⟩ :
          Aborts s (BepState.mvFileInfo folder deviceId file destName fileLocations) :=
        mvFileInfo_of_none hnext
      rw [hrun] at hbelow ⊢
      exact ⟨fun h => ⟨hbelow h.below, h.requestable, h.folders⟩, rfl, rfl⟩
  | some sequence =>
      obtain ⟨n, hrun⟩ := @mvFileInfo_of_some s folder deviceId file destName fileLocations
        sequence hnext
      rw [hrun] at hbelow ⊢
      cases hmove : moveRows s.db ⟨folder, deviceId, file.name⟩ destName fileLocations sequence with
      | error e =>
          rw [hmove] at hbelow
          exact ⟨fun h => ⟨hbelow h.below, h.requestable, h.folders⟩, rfl, rfl⟩
      | ok tx =>
          rw [hmove] at hbelow
          refine ⟨fun h => ⟨hbelow h.below, ?_, h.folders⟩, rfl, rfl⟩
          intro k hk hdevice
          obtain ⟨tx₁, hrename, hinsert⟩ := Rust.bind_eq_ok.mp hmove
          have hblocks : tx.bepBlockInfo = tx₁.bepBlockInfo := (insertLocations_rows _ hinsert).2
          have hk : tx₁.bepBlockInfo.contains k = true := by
            rw [← hblocks]
            exact hk
          obtain ⟨k₀, hk₀, hsame, hhash, hsize⟩ := renameFileInfo_blocks hrename hk
          have hblock := h.requestable k₀ hk₀ (hsame.trans hdevice)
          rw [hhash, hsize] at hblock
          exact hblock

end States

/-! ## Calls of the file system -/

section Calls

variable {fs : GrizolFS Database} {localDeviceId : DeviceId}
  {debugFiles : List (String × String) → String}

/-- A call keeps the state of its node sound. -/
def KeepsSoundFs (localDeviceId : DeviceId) (fs fs' : GrizolFS Database) : Prop :=
  KeepsSound localDeviceId fs.state fs'.state

/-- Without a call of the file system soundness is kept. -/
theorem KeepsSoundFs.refl (localDeviceId : DeviceId) (fs : GrizolFS Database) :
    KeepsSoundFs localDeviceId fs fs := KeepsSound.refl localDeviceId fs.state

/-- What keeps it twice keeps it. -/
theorem KeepsSoundFs.trans {fs fs' fs'' : GrizolFS Database} (h : KeepsSoundFs localDeviceId fs fs')
    (h' : KeepsSoundFs localDeviceId fs' fs'') : KeepsSoundFs localDeviceId fs fs'' :=
  KeepsSound.trans h h'

/-- A call on the state keeps it if the state does. -/
theorem keepsSoundFs_onState {α : Type} {x : RustM BepState α}
    (h : KeepsSound localDeviceId fs.state (RustM.endState (x.run fs.state))) :
    KeepsSoundFs localDeviceId fs (RustM.endState ((GrizolFS.onState x).run fs)) := by
  rw [fs_onState_endState]
  exact h

/-- So does a pure computation. -/
theorem keepsSoundFs_lift {α : Type} (x : Rust α) : KeepsSoundFs localDeviceId fs
    (RustM.endState (EStateM.run (liftM x : EStateM Fault (GrizolFS Database) α) fs)) := by
  rw [RustM.endState_lift]
  exact KeepsSoundFs.refl localDeviceId fs

/-- A rename in memory moves one row. -/
theorem renameMem_keepsSound (file : GrizolFileInfo) (destFileName : String)
    (outcomes : RenameOutcomes) : KeepsSoundFs localDeviceId fs
      (RustM.endState ((GrizolFS.renameMem file destFileName outcomes).run fs)) := by
  rw [GrizolFS.renameMem, EStateM.run_bind, RustM.run_getThe]
  dsimp only
  refine RustM.endState_bind_rel (KeepsSoundFs localDeviceId) KeepsSoundFs.trans
    (KeepsSound.refl _ _) fun _ fs₁ _ => ?_
  split
  · exact KeepsSoundFs.refl _ fs₁
  · refine RustM.endState_bind_rel (KeepsSoundFs localDeviceId) KeepsSoundFs.trans
      (keepsSoundFs_onState (mvFileInfo_keepsSound _ _ _ _ _ _)) fun _ fs₂ _ => ?_
    refine RustM.endState_bind_rel (KeepsSoundFs localDeviceId) KeepsSoundFs.trans
      (KeepsSound.refl _ _) fun _ fs₃ _ => ?_
    refine RustM.endState_bind_rel (KeepsSoundFs localDeviceId) KeepsSoundFs.trans
      (keepsSoundFs_lift _) fun _ fs₄ _ => ?_
    exact KeepsSoundFs.refl _ fs₄

/-- The blocks of a file of this device can be asked for. -/
theorem requestable_of_fileInfo {s : BepState} (h : SoundState localDeviceId s)
    {folder name : String} {file : FileInfo}
    (hfile : s.fileInfo folder localDeviceId name = some file) :
    ∀ b ∈ file.blocks, Requestable b.hash b.size := by
  obtain ⟨row, -, rfl⟩ := Option.map_eq_some_iff.mp hfile
  intro b hb
  obtain ⟨e, he, rfl⟩ := List.mem_map.mp hb
  obtain ⟨hmem, hkey⟩ := List.mem_filter.mp he
  refine h.requestable e.1 (AssocMap.contains_iff.mpr ⟨e.2, AssocMap.mem_entries_iff.mp hmem⟩) ?_
  rw [of_decide_eq_true hkey]

/-- A rename in the database writes a file of this device again. -/
theorem renameDb_keepsSound {origFolder origName destFolder destName : String}
    {outcomes : RenameOutcomes} : KeepsSoundFs fs.config.localDeviceId fs
      (RustM.endState ((GrizolFS.renameDb origFolder origName destFolder destName
        outcomes).run fs)) := by
  rw [GrizolFS.renameDb, EStateM.run_bind, RustM.run_getThe]
  dsimp only
  rw [EStateM.run_bind]
  cases hfile : fs.state.fileInfo origFolder fs.config.localDeviceId origName with
  | none => exact KeepsSoundFs.refl _ fs
  | some file =>
  rw [Rust.unwrap_some, RustM.run_lift_ok]
  dsimp only
  refine RustM.endState_bind_rel (KeepsSoundFs fs.config.localDeviceId) KeepsSoundFs.trans
    (KeepsSound.refl _ _) fun _ fs₁ hlog => ?_
  obtain ⟨-, rfl⟩ := EStateM.Result.ok.inj hlog
  refine RustM.endState_bind_rel (KeepsSoundFs fs.config.localDeviceId) KeepsSoundFs.trans
    (keepsSoundFs_lift _) fun _ fs₁ hres => ?_
  obtain ⟨-, rfl⟩ := RustM.run_lift_eq_ok.mp hres
  refine RustM.endState_bind_rel (KeepsSoundFs fs.config.localDeviceId) KeepsSoundFs.trans
    (keepsSoundFs_onState (insertFileInfo_keepsSound _ ?_)) fun _ fs₁ _ => ?_
  · intro h f hf b hb
    obtain rfl := List.mem_singleton.mp hf
    exact requestable_of_fileInfo h hfile b hb
  refine RustM.endState_bind_rel (KeepsSoundFs fs.config.localDeviceId) KeepsSoundFs.trans
    (keepsSoundFs_onState (updateFileLocations_keepsSound _ _ _ _ _)) fun _ fs₂ _ => ?_
  refine RustM.endState_bind_rel (KeepsSoundFs fs.config.localDeviceId) KeepsSoundFs.trans
    (keepsSoundFs_onState (rmFileInfo_keepsSound _ _ _)) fun _ fs₃ _ => ?_
  refine RustM.endState_bind_rel (KeepsSoundFs fs.config.localDeviceId) KeepsSoundFs.trans
    (KeepsSound.refl _ _) fun _ fs₄ _ => ?_
  refine RustM.endState_bind_rel (KeepsSoundFs fs.config.localDeviceId) KeepsSoundFs.trans
    (keepsSoundFs_lift _) fun _ fs₅ _ => ?_
  exact KeepsSoundFs.refl _ fs₅

/-- And making room in the read cache. -/
theorem freeReadCache_keepsSound (cacheSize neededBytes : ℕ) (s : BepState) :
    KeepsSound localDeviceId s
      (RustM.endState ((BepState.freeReadCache cacheSize neededBytes).run s)) := by
  rcases freeReadCache_run cacheSize neededBytes s with ⟨e, hrun⟩ | ⟨removedFiles, p, hrun⟩
  · rw [hrun]
    exact KeepsSound.refl localDeviceId s
  · rw [hrun]
    exact KeepsSound.of_tables rfl rfl

/-- And a new row of it. -/
theorem updateReadCache_keepsSound (deviceId : DeviceId) (folder file : String) (now : Int64)
    (s : BepState) : KeepsSound localDeviceId s
      (RustM.endState ((BepState.updateReadCache deviceId folder file now).run s)) := by
  rw [BepState.updateReadCache, EStateM.run_bind, RustM.run_getThe]
  dsimp only
  rw [EStateM.run_bind]
  unfold Database.insertLocalCache
  split_ifs
  · exact KeepsSound.of_tables rfl rfl
  · exact KeepsSound.refl localDeviceId s

/-- A read writes to the cache and its table only. -/
theorem readFromLocalCache_keepsSound (file : GrizolFileInfo) (outcomes : ReadOutcomes)
    (content : Database) : KeepsSoundFs localDeviceId fs (RustM.endState
      ((GrizolFS.readFromLocalCache debugFiles file outcomes content).run fs)) := by
  rw [GrizolFS.readFromLocalCache, EStateM.run_bind, RustM.run_getThe]
  dsimp only
  refine RustM.endState_bind_rel (KeepsSoundFs localDeviceId) KeepsSoundFs.trans ?_
    fun result fs₁ _ => ?_
  · split_ifs
    · exact KeepsSoundFs.refl _ fs
    · rw [GrizolFS.fillReadCache, EStateM.run_bind, RustM.run_getThe]
      dsimp only
      refine RustM.endState_bind_rel (KeepsSoundFs localDeviceId) KeepsSoundFs.trans
        (keepsSoundFs_lift _) fun _ fs₁ _ => ?_
      refine RustM.endState_bind_rel (KeepsSoundFs localDeviceId) KeepsSoundFs.trans
        (keepsSoundFs_onState (freeReadCache_keepsSound _ _ _)) fun removed fs₂ _ => ?_
      cases removed with
      | error e => exact KeepsSoundFs.refl _ fs₂
      | ok removedFiles =>
          cases outcomes.remove with
          | error e => exact KeepsSoundFs.refl _ fs₂
          | ok u =>
              refine RustM.endState_bind_rel (KeepsSoundFs localDeviceId) KeepsSoundFs.trans ?_
                fun copied fs₃ _ => ?_
              · obtain ⟨result, copied, hrun⟩ := cpRemoteToReadCache_state file
                  file.fileLocations outcomes.rclone content fs₂
                rw [hrun]
                exact KeepsSound.refl localDeviceId fs₂.state
              · cases copied with
                | error e => exact KeepsSoundFs.refl _ fs₃
                | ok path => exact KeepsSoundFs.refl _ fs₃
  · cases result with
    | error e => exact KeepsSoundFs.refl _ fs₁
    | ok u =>
        dsimp only
        rw [RustM.endState_bind_pure]
        exact keepsSoundFs_onState (updateReadCache_keepsSound _ _ _ _ _)

end Calls

/-! ## Turns -/

section Turns

variable {maxPending : ℕ} {hash : String → ℕ → ℕ → UInt64} {sha256 : Bytes → Bytes}
  {debugRequest : Request → String} {p : BepProcessor}

/-- The state and the queue of a processor. -/
structure SoundProcessor (maxPending : ℕ) (p : BepProcessor) : Prop where
  state : SoundState p.config.localDeviceId p.state
  queue : SoundQueue maxPending p.state

/-- What a section keeps that leaves the configuration. -/
theorem SoundProcessor.of_keepsSound (h : SoundProcessor maxPending p) {s : BepState}
    (hkeeps : KeepsSound p.config.localDeviceId p.state s) :
    SoundProcessor maxPending { p with state := s } :=
  ⟨hkeeps.sound h.state, h.queue.of_same hkeeps.queue hkeeps.requestId⟩

/-- A section that changes the queue only. -/
theorem SoundProcessor.of_queue (h : SoundProcessor maxPending p) {s : BepState}
    (hqueue : SoundQueue maxPending s) (hdb : s.db = p.state.db)
    (hsequence : s.sequence = p.state.sequence) (hindices : s.indices = p.state.indices) :
    SoundProcessor maxPending { p with state := s } := by
  refine ⟨⟨?_, ?_, ?_⟩, hqueue⟩
  · dsimp only
    rw [hdb, hsequence]
    exact h.state.below
  · dsimp only
    rw [hdb]
    exact h.state.requestable
  · dsimp only
    rw [hindices]
    exact h.state.folders

/-- A handler of an index has not panicked, and what is on its list can be asked for. A connection
has the limit of the others. -/
def SoundTask (maxPending : ℕ) : ServerTask → Prop
  | .index h => match h.pc with
      | .enqueue blocks => ∀ b ∈ blocks, Requestable b.hash b.size
      | .writeIndices | .returned => True
      | .panicked _ => False
  | .response _ => True
  | .connection maxPendingRequests _ => maxPendingRequests = maxPending

/-- A task that starts is sound. -/
theorem soundTask_of_starts {task : ServerTask} (h : Starts maxPending task) :
    SoundTask maxPending task := by
  cases task with
  | index h' =>
      have hpc : h'.pc = .writeIndices := h.fresh
      rw [SoundTask, hpc]
      trivial
  | response h' => trivial
  | connection limit size => exact h.limit limit size rfl

/-- The first section of a handler whose message is taken in. -/
theorem writeIndices_returns (hsound : SoundProcessor maxPending p) {h : IndexHandler}
    (htaken : MessageTaken p.config.localDeviceId h.clientDeviceId p.state h.message) :
    ∃ blocks s', (h.writeIndices p.config.localDeviceId).run p.state = .ok blocks s' ∧
      (∀ b ∈ blocks, Requestable b.hash b.size) ∧
      SoundProcessor maxPending { p with state := s' } := by
  obtain ⟨blocks, s', hrun, hstate⟩ : ∃ blocks s',
      (h.writeIndices p.config.localDeviceId).run p.state = .ok blocks s' ∧
        SoundState p.config.localDeviceId s' := by
    obtain ⟨message, clientDeviceId, clock, pc⟩ := h
    cases message with
    | index received => exact replaceIndices_returns hsound.state htaken.1 htaken.2
    | indexUpdate received => exact updateIndices_returns hsound.state htaken.1 htaken.2
  have hwrites := writeIndices_writes p.state p.config.localDeviceId h
  rw [hrun] at hwrites
  refine ⟨blocks, s', hrun, ?_, hstate, hsound.queue.of_same hwrites.queue hwrites.requestId⟩
  rw [writeIndices_ok p.state p.config.localDeviceId hrun]
  intro b hb
  obtain ⟨e, he, rfl⟩ := List.mem_map.mp hb
  obtain ⟨hmem, hdevice⟩ := List.mem_filter.mp he
  rw [Bool.and_eq_true, decide_eq_true_eq] at hdevice
  exact hstate.requestable e.1
    (AssocMap.contains_iff.mpr ⟨e.2, AssocMap.mem_entries_iff.mp hmem⟩) hdevice.1

/-- A turn of a handler of an index that can take it. -/
theorem soundProcessor_index (hsound : SoundProcessor maxPending p) {h : IndexHandler}
    (htask : SoundTask maxPending (.index h))
    (htakes : HandlerTakes p.config.localDeviceId h p.state) :
    SoundProcessor maxPending (h.act p).2 ∧ SoundTask maxPending (.index (h.act p).1) := by
  rw [HandlerTakes] at htakes
  rw [SoundTask] at htask
  rw [IndexHandler.act]
  cases hpc : h.pc with
  | writeIndices =>
      rw [hpc] at htakes
      obtain ⟨blocks, s', hrun, hblocks, hafter⟩ := writeIndices_returns hsound htakes
      dsimp only
      rw [BepProcessor.onState_eq_ok hrun]
      exact ⟨hafter, hblocks⟩
  | enqueue blocks =>
      rw [hpc] at htakes htask
      obtain ⟨inserted, s', hrun, hqueue, hdb, hsequence, hindices⟩ :=
        soundQueue_storeOutgoingRequests hsound.queue htask htakes h.clock
      dsimp only
      rw [BepProcessor.onState_eq_ok hrun]
      exact ⟨hsound.of_queue hqueue hdb hsequence hindices, trivial⟩
  | returned =>
      refine ⟨hsound, ?_⟩
      rw [SoundTask, hpc]
      trivial
  | panicked fault =>
      rw [hpc] at htask
      exact htask.elim

/-- A turn of a handler of a response, also where it panics. -/
theorem soundProcessor_response (hsound : SoundProcessor maxPending p) (h : ResponseHandler)
    (outcome : TurnOutcome) :
    SoundProcessor maxPending (h.act hash sha256 debugRequest p outcome).2 := by
  obtain ⟨hstate, hconfig⟩ := @act_state hash sha256 debugRequest h p outcome
  have hafter : SoundProcessor maxPending { p with state := stateAfter h p } := by
    unfold stateAfter
    cases h.pc with
    | updateState request fileSize blockSize =>
        exact hsound.of_keepsSound (updateBlockStorageState_keepsSound _ _ _)
    | updateLocations request locations =>
        exact hsound.of_keepsSound (updateFileLocations_keepsSound _ _ _ _ _)
    | removeLocations request => exact hsound.of_keepsSound (KeepsSound.of_tables rfl rfl)
    | removeRequest stored =>
        refine hsound.of_queue (soundQueue_removeRequest hsound.queue _) ?_ ?_ ?_
        all_goals
          dsimp only
          rw [BepState.removeRequest, onQueue_run]
    | getRequest | fileInfo request | createDir request fileSize blockSize
    | openWriter request fileSize blockSize | writeChunk request fileSize blockSize offset pc
    | concludeWriter request fileSize blockSize | consolidate request pc
    | copy request n backends copied | removeFile request | returned result | panicked fault =>
        exact hsound
  refine ⟨?_, ?_⟩
  · rw [hstate, hconfig]
    exact hafter.state
  · rw [hstate]
    exact hafter.queue

/-- **One turn of any task**, if the handler whose turn it is can take it. -/
theorem soundProcessor_act (hsound : SoundProcessor maxPending p) {task : ServerTask}
    (htask : SoundTask maxPending task) (outcome : TurnOutcome)
    (htakes : ∀ h, task = .index h → HandlerTakes p.config.localDeviceId h p.state) :
    SoundProcessor maxPending (task.act hash sha256 debugRequest outcome p).2 ∧
      SoundTask maxPending (task.act hash sha256 debugRequest outcome p).1 := by
  cases task with
  | index h => exact soundProcessor_index hsound htask (htakes h rfl)
  | response h => exact ⟨soundProcessor_response hsound h outcome, trivial⟩
  | connection maxPendingRequests maxTotalPendingRequestsSize =>
      obtain rfl : maxPendingRequests = maxPending := htask
      obtain ⟨requests, s', hrun, hqueue, hdb, hsequence, hindices⟩ :=
        soundQueue_updatePendingRequests hsound.queue maxTotalPendingRequestsSize
      refine ⟨?_, rfl⟩
      rw [ServerTask.act, BepProcessor.throttledRequests, BepProcessor.onState_eq_ok hrun]
      exact hsound.of_queue hqueue hdb hsequence hindices

end Turns

/-! ## Runs -/

section Runs

variable {ι : Type} [DecidableEq ι] {maxPending : ℕ} {readCache : ReadCacheConfig}
  {storageBackends : List String} {hash : String → ℕ → ℕ → UInt64} {sha256 : Bytes → Bytes}
  {debugRequest : Request → String} {debugFiles : List (String × String) → String}
  {n n' : CacheNode ι}

/-- What holds of a node at any time: of the state behind the lock and of every task. -/
structure SoundNode (maxPending : ℕ) (n : CacheNode ι) : Prop where
  processor : SoundProcessor maxPending n.server.shared
  tasks : ∀ i, SoundTask maxPending (n.server.process i)

omit [DecidableEq ι] in
/-- A node that is sound handles indices safely. -/
theorem indexingSafe_of_sound (hsound : SoundNode maxPending n) : IndexingSafe maxPending n where
  noPanic := by
    intro i h hi fault hpc
    have htask := hsound.tasks i
    rw [hi, SoundTask, hpc] at htask
    exact htask
  writes := by
    intro i h hi hpc htakes
    rw [HandlerTakes, hpc] at htakes
    obtain ⟨blocks, s', hrun, -, -⟩ := writeIndices_returns hsound.processor htakes
    refine ⟨blocks, ?_⟩
    rw [IndexHandler.act, hpc]
    dsimp only
    rw [BepProcessor.onState_eq_ok hrun]
  returns := by
    intro i h blocks hi hpc htakes
    have htask := hsound.tasks i
    rw [hi, SoundTask, hpc] at htask
    rw [HandlerTakes, hpc] at htakes
    obtain ⟨inserted, s', hrun, -⟩ :=
      soundQueue_storeOutgoingRequests hsound.processor.queue htask htakes h.clock
    rw [IndexHandler.act, hpc]
    dsimp only
    rw [BepProcessor.onState_eq_ok hrun]
  throttles := by
    intro maxTotalPendingRequestsSize
    obtain ⟨requests, s', hrun, -⟩ :=
      soundQueue_updatePendingRequests hsound.processor.queue maxTotalPendingRequestsSize
    exact ⟨requests, _, BepProcessor.onState_eq_ok hrun⟩

omit [DecidableEq ι] in
/-- A call of the file system. -/
theorem SoundNode.of_call {α : Type} (hsound : SoundNode maxPending n)
    {x : RustM (GrizolFS Database) α}
    (hkeeps : KeepsSoundFs n.config.localDeviceId (n.fileSystem readCache storageBackends)
      (RustM.endState (x.run (n.fileSystem readCache storageBackends)))) :
    SoundNode maxPending (n.call readCache storageBackends x) :=
  ⟨hsound.processor.of_keepsSound hkeeps, hsound.tasks⟩

/-- **One event**, if what it brings is taken in. -/
theorem soundNode_step {e : IntakeEvent ι} (hsound : SoundNode maxPending n)
    (htakes : TakesIn maxPending n e)
    (hstep : intakeStep readCache storageBackends hash sha256 debugRequest debugFiles n e =
      some n') : SoundNode maxPending n' := by
  cases e with
  | call e =>
      cases e with
      | turn t =>
          rw [intakeStep, CacheNode.step, Option.map_eq_some_iff] at hstep
          obtain ⟨server, hserver, rfl⟩ := hstep
          obtain ⟨hprocessor, htask⟩ := @soundProcessor_act maxPending hash sha256 debugRequest
            n.server.shared hsound.processor (n.server.process t.process)
            (hsound.tasks t.process) t.outcome htakes
          have hself := Processes.step_self hserver
          rw [← hself] at hprocessor htask
          refine ⟨hprocessor, fun i => ?_⟩
          by_cases hi : i = t.process
          · rw [hi]
            exact htask
          · rw [Processes.step_other hserver hi]
            exact hsound.tasks i
      | read file outcomes =>
          obtain rfl := Option.some.inj hstep
          exact hsound.of_call (readFromLocalCache_keepsSound file outcomes _)
      | renameMem file destFileName outcomes =>
          obtain rfl := Option.some.inj hstep
          exact hsound.of_call (renameMem_keepsSound file destFileName outcomes)
      | renameDb origFolder origName destFolder destName outcomes =>
          obtain rfl := Option.some.inj hstep
          exact hsound.of_call (@renameDb_keepsSound (n.fileSystem readCache storageBackends) _ _ _ _ _)
  | initIndex folder deviceId =>
      obtain rfl := Option.some.inj hstep
      exact ⟨hsound.processor.of_keepsSound (KeepsSound.of_tables rfl rfl), hsound.tasks⟩
  | restart tasks =>
      obtain rfl := Option.some.inj hstep
      exact ⟨⟨sound_new hsound.processor.state.requestable, soundQueue_new maxPending _⟩,
        fun i => soundTask_of_starts (htakes i)⟩

/-- **Index handling is safe in every state reached**, when every message is taken in by the state
it meets. The node starts on a database whose blocks can be asked for. -/
theorem indexingSafe_of_run {db : Database} {events : List (IntakeEvent ι)}
    (hstart : n.state = .new db) (hblocks : RequestableRows db n.config.localDeviceId)
    (htasks : ∀ i, Starts maxPending (n.server.process i))
    (htakes : Transition.Meets
      (intakeStep readCache storageBackends hash sha256 debugRequest debugFiles)
      (TakesIn maxPending) n events)
    (hrun : Transition.run
      (intakeStep readCache storageBackends hash sha256 debugRequest debugFiles) n events =
        some n') : IndexingSafe maxPending n' := by
  refine indexingSafe_of_sound (Transition.invariant_run_of_meets (SoundNode maxPending) ?_
    (fun _ _ _ hinv hcond hstep => soundNode_step hinv hcond hstep) htakes hrun)
  refine ⟨⟨?_, ?_⟩, fun i => soundTask_of_starts (htasks i)⟩
  · rw [show n.server.shared.state = .new db from hstart]
    exact sound_new hblocks
  · rw [show n.server.shared.state = .new db from hstart]
    exact soundQueue_new maxPending db

end Runs

/-! ## A file with a version, and one without -/

section Example

/-- A server that has just started, to which a client sends these files. -/
def intakeNode (files : List FileInfo) : CacheNode Unit where
  server :=
    { shared := startedServer
      process := fun _ => .index (.new (.index ⟨"default", files⟩) clientDevice fun _ => 0) }
  copied := .empty

/-- One event on a node with a small cache and one backend. -/
def indexStep : CacheNode Unit → IntakeEvent Unit → Option (CacheNode Unit) :=
  intakeStep smallCache ["remote"] (fun _ _ _ => 0) pairHash (fun _ => "") fun _ => ""

/-- A section of the handler. -/
def indexTurn : IntakeEvent Unit := .call (.turn ⟨(), ⟨.ok, .exits true⟩⟩)

/-- The handler is between its sections, and there are ids for its list. -/
def hasIds (n : CacheNode Unit) : Bool :=
  match n.server.process () with
  | .index h => match h.pc with
      | .enqueue blocks => decide (blocks.length ≤ idsLeft n.state)
      | _ => false
  | _ => false

/-- With ids left the second section takes the blocks in. -/
theorem takesIn_of_hasIds {n : CacheNode Unit} (h : hasIds n = true) : TakesIn 2 n indexTurn := by
  intro handler hhandler
  have hhandler : n.server.process () = .index handler := hhandler
  rw [hasIds, hhandler] at h
  rw [HandlerTakes]
  dsimp only at h
  cases hpc : handler.pc with
  | enqueue blocks =>
      rw [hpc] at h
      exact of_decide_eq_true h
  | writeIndices | returned | panicked fault =>
      rw [hpc] at h
      cases h

/-- The index of two blocks is taken in at the start. -/
theorem messageTaken_pair : MessageTaken serverDevice clientDevice startedServer.state
    (.index ⟨"default", [pairFile]⟩) := by
  have hfile : Storable pairFile := ⟨by decide, rfl, by decide⟩
  have hblocks : ∀ block ∈ pairFile.blocks, Requestable block.hash block.size := by
    intro block hblock
    have hall : ∀ block ∈ pairFile.blocks, block.hash.length = 32 ∧ 0 ≤ block.size.toInt := by
      decide
    exact ⟨(hall block hblock).1, (hall block hblock).2⟩
  refine ⟨⟨by decide, by decide, by decide⟩, ?_, ?_, ?_, by decide⟩
  · intro file hmem
    obtain rfl := List.mem_singleton.mp hmem
    exact hfile
  · -- nothing is known of this device yet
    intro file _ old hold
    cases hold
  · intro file hmem
    obtain rfl := List.mem_singleton.mp (mem_newFiles hmem)
    exact hblocks

/-- A file of two blocks is taken in, and its blocks are asked for. -/
theorem indexingSafe_of_run_pair :
    ∃ n, Transition.run indexStep (intakeNode [pairFile]) [indexTurn, indexTurn] = some n ∧
      IndexingSafe 2 n := by
  obtain ⟨n, hrun⟩ : ∃ n, Transition.run indexStep (intakeNode [pairFile])
      [indexTurn, indexTurn] = some n := ⟨_, rfl⟩
  have htakes : Transition.Meets indexStep (TakesIn 2) (intakeNode [pairFile])
      [indexTurn, indexTurn] := by
    refine ⟨?_, fun n₁ hn₁ => ⟨takesIn_of_hasIds ?_, fun _ _ => trivial⟩⟩
    · intro h hh
      obtain rfl := ServerTask.index.inj hh
      exact messageTaken_pair
    · have hids : (indexStep (intakeNode [pairFile]) indexTurn).map hasIds = some true := by
        decide +kernel
      rw [hn₁] at hids
      exact Option.some.inj hids
  have hstarts : ∀ i, Starts 2 ((intakeNode [pairFile]).server.process i) := by
    refine fun _ => ⟨rfl, ?_⟩
    intro limit size htask
    cases htask
  refine ⟨n, hrun, indexingSafe_of_run rfl ?_ hstarts htakes hrun⟩
  intro k hk
  cases hk

/-- What the handler panicked with. -/
def lostTo (n : CacheNode Unit) : Option Fault :=
  match n.server.process () with
  | .index h => match h.pc with
      | .panicked fault => some fault
      | _ => none
  | _ => none

/-- A file without a version loses the handler. -/
theorem missing_version_panics :
    ∃ n, Transition.run indexStep (intakeNode [{ name := "a" }]) [indexTurn] = some n ∧
      lostTo n = some (.expect "There must be a version") ∧ ¬ IndexingSafe 2 n := by
  obtain ⟨n, hrun⟩ : ∃ n, Transition.run indexStep (intakeNode [{ name := "a" }])
      [indexTurn] = some n := ⟨_, rfl⟩
  have hlost : (Transition.run indexStep (intakeNode [{ name := "a" }]) [indexTurn]).map lostTo =
      some (some (.expect "There must be a version")) := by
    decide +kernel
  rw [hrun] at hlost
  have hlost := Option.some.inj hlost
  refine ⟨n, hrun, hlost, fun hsafe => ?_⟩
  rw [lostTo] at hlost
  cases hprocess : n.server.process () with
  | index h =>
      rw [hprocess] at hlost
      dsimp only at hlost
      cases hpc : h.pc with
      | panicked fault => exact hsafe.noPanic () h hprocess fault hpc
      | writeIndices | enqueue blocks | returned =>
          rw [hpc] at hlost
          cases hlost
  | response h | connection limit size =>
      rw [hprocess] at hlost
      cases hlost

end Example

end Grizol.Analysis

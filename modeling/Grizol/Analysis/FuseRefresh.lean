import Grizol.Analysis.FsTree
import Grizol.Analysis.Renames
import Grizol.Interface.FuseRefresh

/-!
# The refresh of the file system ends

What a refresh lists is read off the rows of this device, so it ends in any state whose
rows have their parents. A writer adds the paths of its files to those of the rows, a
rename moves one path after the other, and the rest of the state does not matter. An
`Index` with a file but not its directory is the smallest run after which the refresh
goes on for ever.
-/

set_option autoImplicit false

namespace Grizol.Analysis

open Grizol.Library Grizol.Library.Prefixes
open Grizol.Model Grizol.Model.Syncthing Grizol.Interface

/-! ## Rows and paths -/

section Rows

variable {db db' : Database} {deviceId : DeviceId} {folder : String}

/-- Keys of one device are told apart by their paths. -/
theorem keyPath_injective {k k' : FileKey} (hdevice : k.device = k'.device)
    (h : keyPath k = keyPath k') : k = k' := by
  obtain ⟨folder, device, name⟩ := k
  obtain ⟨folder', device', name'⟩ := k'
  obtain ⟨rfl, hname⟩ := List.cons.inj h
  obtain rfl : name = name' := Path.split_injective hname
  obtain rfl : device = device' := hdevice
  rfl

/-- The same keys have the same paths. -/
theorem rowPaths_congr (h : ∀ k, db'.bepFileInfo.contains k = db.bepFileInfo.contains k) :
    rowPaths db' deviceId = rowPaths db deviceId := by
  simp only [rowPaths, h]

/-- The paths of the rows when some were added. -/
theorem rowPaths_of_added {files : List FileInfo}
    (h : ∀ k, db'.bepFileInfo.contains k = true ↔
      (∃ file ∈ files, k = ⟨folder, deviceId, file.name⟩) ∨ db.bepFileInfo.contains k = true) :
    rowPaths db' deviceId = rowPaths db deviceId ∪ filePaths folder files := by
  ext p
  constructor
  · rintro ⟨k, hk, hdevice, rfl⟩
    rcases (h k).mp hk with ⟨file, hfile, rfl⟩ | hk
    · exact Or.inr ⟨file, hfile, rfl⟩
    · exact Or.inl ⟨k, hk, hdevice, rfl⟩
  · rintro (⟨k, hk, hdevice, rfl⟩ | ⟨file, hfile, rfl⟩)
    · exact ⟨k, (h k).mpr (Or.inr hk), hdevice, rfl⟩
    · exact ⟨⟨folder, deviceId, file.name⟩, (h _).mpr (Or.inl ⟨file, hfile, rfl⟩), rfl, rfl⟩

/-- When the rows that were added are of another device. -/
theorem rowPaths_of_other {files : List FileInfo} {other : DeviceId} (hother : other ≠ deviceId)
    (h : ∀ k, db'.bepFileInfo.contains k = true ↔
      (∃ file ∈ files, k = ⟨folder, other, file.name⟩) ∨ db.bepFileInfo.contains k = true) :
    rowPaths db' deviceId = rowPaths db deviceId := by
  ext p
  constructor
  · rintro ⟨k, hk, hdevice, rfl⟩
    rcases (h k).mp hk with ⟨file, -, rfl⟩ | hk
    · exact absurd hdevice hother
    · exact ⟨k, hk, hdevice, rfl⟩
  · rintro ⟨k, hk, hdevice, rfl⟩
    exact ⟨k, (h k).mpr (Or.inr hk), hdevice, rfl⟩

/-- When one was renamed. -/
theorem rowPaths_of_renamed {key dest : FileKey} (hkey : key.device = deviceId)
    (hdest : dest.device = deviceId)
    (h : ∀ k, db'.bepFileInfo.contains k = true ↔
      k = dest ∨ k ≠ key ∧ db.bepFileInfo.contains k = true) :
    rowPaths db' deviceId = insert (keyPath dest) (rowPaths db deviceId \ {keyPath key}) := by
  ext p
  constructor
  · rintro ⟨k, hk, hdevice, rfl⟩
    rcases (h k).mp hk with rfl | ⟨hne, hk⟩
    · exact Or.inl rfl
    · refine Or.inr ⟨⟨k, hk, hdevice, rfl⟩, fun heq => hne ?_⟩
      exact keyPath_injective (hdevice.trans hkey.symm) heq
  · rintro (rfl | ⟨⟨k, hk, hdevice, rfl⟩, hne⟩)
    · exact ⟨dest, (h dest).mpr (Or.inl rfl), hdest, rfl⟩
    · exact ⟨k, (h k).mpr (Or.inr ⟨fun heq => hne (congrArg keyPath heq), hk⟩), hdevice, rfl⟩

/-- When one was deleted. -/
theorem rowPaths_of_erased {key : FileKey} (hkey : key.device = deviceId)
    (h : ∀ k, db'.bepFileInfo.contains k = true ↔
      db.bepFileInfo.contains k = true ∧ k ≠ key) :
    rowPaths db' deviceId = rowPaths db deviceId \ {keyPath key} := by
  ext p
  constructor
  · rintro ⟨k, hk, hdevice, rfl⟩
    obtain ⟨hk, hne⟩ := (h k).mp hk
    exact ⟨⟨k, hk, hdevice, rfl⟩, fun heq =>
      hne (keyPath_injective (hdevice.trans hkey.symm) heq)⟩
  · rintro ⟨⟨k, hk, hdevice, rfl⟩, hne⟩
    exact ⟨k, (h k).mpr ⟨hk, fun heq => hne (congrArg keyPath heq)⟩, hdevice, rfl⟩

/-- When some were deleted. -/
theorem rowPaths_delete (p : FileKey → Bool) (deviceId : DeviceId) :
    rowPaths (db.deleteFileInfo p) deviceId =
      { path | ∃ k, db.bepFileInfo.contains k = true ∧ p k = false ∧ k.device = deviceId ∧
        keyPath k = path } := by
  have hcontains : ∀ k, (db.deleteFileInfo p).bepFileInfo.contains k = true ↔
      db.bepFileInfo.contains k = true ∧ p k = false := by
    intro k
    rw [Database.deleteFileInfo, AssocMap.contains, AssocMap.get_retain, AssocMap.contains]
    cases db.bepFileInfo.get k <;> simp [Option.filter]
  ext path
  simp only [rowPaths, hcontains, Set.mem_ofPred_eq, and_assoc]

/-- The same names have the same paths. -/
theorem filePaths_congr {files files' : List FileInfo}
    (h : files'.map FileInfo.name = files.map FileInfo.name) :
    filePaths folder files' = filePaths folder files := by
  have hnames : ∀ l : List FileInfo, filePaths folder l =
      { p | ∃ name ∈ l.map FileInfo.name, folder :: Path.split name = p } := by
    intro l
    ext p
    simp [filePaths]
  rw [hnames, hnames, h]

end Rows

/-! ## Writers -/

section Writers

variable {folder : String} {deviceId localDeviceId : DeviceId} {s : BepState}

/-- Files that are written one after the other. -/
theorem writeFiles_contains {write : FileInfo → Database → Rust Database}
    (hwrite : ∀ file tx tx', write file tx = .ok tx' → ∀ k, tx'.bepFileInfo.contains k = true ↔
      k = ⟨folder, deviceId, file.name⟩ ∨ tx.bepFileInfo.contains k = true)
    {files : List FileInfo} {tx tx' : Database} (h : BepState.writeFiles write files tx = .ok tx')
    (k : FileKey) : tx'.bepFileInfo.contains k = true ↔
      (∃ file ∈ files, k = ⟨folder, deviceId, file.name⟩) ∨
        tx.bepFileInfo.contains k = true := by
  induction files generalizing tx with
  | nil =>
      obtain rfl := Except.ok.inj h
      simp
  | cons file files ih =>
      obtain ⟨tx₁, hfile, hrest⟩ := Rust.bind_eq_ok.mp h
      rw [ih hrest, hwrite file tx tx₁ hfile k]
      simp only [List.exists_mem_cons_iff, or_assoc, or_left_comm]

/-- A file that is written over its row adds its key. -/
theorem upsertFile_contains (file : FileInfo) (tx tx' : Database)
    (h : BepState.upsertFile folder deviceId file tx = .ok tx') (k : FileKey) :
    tx'.bepFileInfo.contains k = true ↔
      k = ⟨folder, deviceId, file.name⟩ ∨ tx.bepFileInfo.contains k = true := by
  rw [upsertFile_files h, AssocMap.contains, AssocMap.get_insert, AssocMap.contains]
  split_ifs with hk
  · simp [hk]
  · simp [hk]

/-- So does one that is put in place of it. -/
theorem replaceFile_contains (file : FileInfo) (tx tx' : Database)
    (h : BepState.replaceFile folder deviceId file tx = .ok tx') (k : FileKey) :
    tx'.bepFileInfo.contains k = true ↔
      k = ⟨folder, deviceId, file.name⟩ ∨ tx.bepFileInfo.contains k = true := by
  rw [replaceFile_files h, AssocMap.contains, AssocMap.get_insert, AssocMap.get_retain,
    AssocMap.contains]
  split_ifs with hk
  · simp [hk]
  · cases tx.bepFileInfo.get k <;> simp [hk, Option.filter]

/-- Files that are written for a device keep the parents of this one. -/
theorem parentsStored_of_added {db db' : Database} {files : List FileInfo}
    (h : ParentsStored db localDeviceId)
    (hbrings : deviceId = localDeviceId →
      BringsParents (rowPaths db localDeviceId) folder files)
    (hadded : ∀ k, db'.bepFileInfo.contains k = true ↔
      (∃ file ∈ files, k = ⟨folder, deviceId, file.name⟩) ∨ db.bepFileInfo.contains k = true) :
    ParentsStored db' localDeviceId := by
  by_cases hdevice : deviceId = localDeviceId
  · subst hdevice
    rw [ParentsStored, rowPaths_of_added hadded]
    exact Closed.union h (hbrings rfl)
  · rw [ParentsStored, rowPaths_of_other hdevice hadded]
    exact h

/-- Files that come with their directories may be added. -/
theorem insertFileInfo_parents {files : List FileInfo} (h : ParentsStored s.db localDeviceId)
    (hbrings : deviceId = localDeviceId →
      BringsParents (rowPaths s.db localDeviceId) folder files) :
    ParentsStored (RustM.endState
      ((BepState.insertFileInfo folder deviceId files).run s)).db localDeviceId := by
  rcases insertFileInfo_run folder deviceId s files with
    ⟨e, s', hrun, n, rfl⟩ | ⟨numbered, tx, n, hnumbered, hwrite, hrun⟩
  · rw [hrun]
    exact h
  · rw [hrun]
    refine parentsStored_of_added h (fun hdevice => ?_)
      (writeFiles_contains upsertFile_contains hwrite)
    unfold BringsParents
    rw [filePaths_congr (Numbered.map_name hnumbered)]
    exact hbrings hdevice

/-- Or put in place of those that are there. -/
theorem rmReplaceFileInfo_parents {files : List FileInfo}
    (h : ParentsStored s.db localDeviceId)
    (hbrings : deviceId = localDeviceId →
      BringsParents (rowPaths s.db localDeviceId) folder (notDeleted files)) :
    ParentsStored (RustM.endState
      ((BepState.rmReplaceFileInfo folder deviceId files).run s)).db localDeviceId := by
  rcases rmReplaceFileInfo_run folder deviceId s files with
    ⟨e, s', hrun, n, rfl⟩ | ⟨numbered, tx, n, hnumbered, hwrite, hrun⟩
  · rw [hrun]
    exact h
  · rw [hrun]
    refine parentsStored_of_added h (fun hdevice => ?_)
      (writeFiles_contains replaceFile_contains hwrite)
    have hkept : List.Forall₂ Numbered (files.filter fun f => !f.deleted)
        (numbered.filter fun f => !f.deleted) := Numbered.filter hnumbered fun _ _ => rfl
    unfold BringsParents
    rw [filePaths_congr (Numbered.map_name hkept)]
    exact hbrings hdevice

/-- Without a folder the rows keep their parents. -/
theorem parentsStored_delete {db : Database} (h : ParentsStored db localDeviceId) :
    ParentsStored (db.deleteFileInfo fun k => k.folder = folder && k.device = deviceId)
      localDeviceId := by
  rw [ParentsStored, rowPaths_delete]
  rintro p ⟨k, hk, hkept, hdevice, rfl⟩ q hq
  rcases h (keyPath k) ⟨k, hk, hdevice, rfl⟩ q hq with ⟨k', hk', hdevice', rfl⟩ | hgiven
  · refine Or.inl ⟨k', hk', ?_, hdevice', rfl⟩
    have hfolder : k'.folder = k.folder := (List.cons_prefix_cons.mp hq).1
    rw [hfolder, hdevice', ← hdevice]
    exact hkept
  · exact Or.inr hgiven

/-- An `Index` in the name of this device must be complete. -/
theorem replaceIndex_parents {index : Index} (h : ParentsStored s.db localDeviceId)
    (hbrings : deviceId = localDeviceId → BringsParents ∅ index.folder index.files) :
    ParentsStored (RustM.endState
      ((BepState.replaceIndex index deviceId).run s)).db localDeviceId := by
  rcases replaceIndex_run deviceId s index with
    ⟨e, s', hrun, n, rfl⟩ | ⟨numbered, tx, n, hnumbered, hwrite, hrun⟩
  · rw [hrun]
    exact h
  · rw [hrun]
    refine parentsStored_of_added (parentsStored_delete h) (fun hdevice => ?_)
      (writeFiles_contains upsertFile_contains hwrite)
    unfold BringsParents
    rw [filePaths_congr (Numbered.map_name hnumbered)]
    intro p hp q hq
    rcases hbrings hdevice p hp q hq with (hnone | hfile) | hgiven
    · exact absurd hnone (Set.notMem_empty q)
    · exact Or.inl (Or.inr hfile)
    · exact Or.inr hgiven

end Writers

/-! ## Messages -/

section Messages

variable {localDeviceId clientDeviceId : DeviceId} {received : Index}

/-- What a step of a section does: rows that have their parents keep them. -/
def KeptParents (localDeviceId : DeviceId) (s s' : BepState) : Prop :=
  ParentsStored s.db localDeviceId → ParentsStored s'.db localDeviceId

/-- What keeps the directories twice keeps them. -/
theorem keptParents_trans {s s' s'' : BepState} (h : KeptParents localDeviceId s s')
    (h' : KeptParents localDeviceId s' s'') : KeptParents localDeviceId s s'' := fun hs => h' (h hs)

/-- A pure computation keeps the directories. -/
theorem keptParents_lift {α : Type} (x : Rust α) (s : BepState) : KeptParents localDeviceId s
    (RustM.endState (EStateM.run (liftM x : EStateM Fault BepState α) s)) := by
  rw [RustM.endState_lift]
  exact id

/-- So does reading an index. -/
theorem keptParents_index (folder : String) (deviceId : DeviceId) (s : BepState) :
    KeptParents localDeviceId s
      (RustM.endState ((BepState.index folder deviceId).run s)) := by
  unfold KeptParents
  rw [index_db]
  exact id

/-- Replacing the index of the sender does, if its files bring theirs. -/
theorem newFilesOfIndex_parents {s : BepState}
    (hbrings : clientDeviceId = localDeviceId → BringsParents ∅ received.folder received.files) :
    KeptParents localDeviceId s
      (RustM.endState ((newFilesOfIndex localDeviceId received clientDeviceId).run s)) := by
  unfold newFilesOfIndex
  refine RustM.endState_bind_rel (KeptParents localDeviceId) keptParents_trans
    (fun h => replaceIndex_parents h hbrings) fun _ s₁ _ => ?_
  refine RustM.endState_bind_rel (KeptParents localDeviceId) keptParents_trans
    (keptParents_index _ _ s₁) fun _ s₂ _ => ?_
  refine RustM.endState_bind_rel (KeptParents localDeviceId) keptParents_trans
    (keptParents_lift _ s₂) fun _ s₃ _ => ?_
  refine RustM.endState_bind_rel (KeptParents localDeviceId) keptParents_trans
    (keptParents_lift _ s₃) fun _ s₄ _ => ?_
  exact id

/-- An `Index` whose new files come with their parents. -/
theorem replaceIndices_parents {s : BepState}
    (hbrings : IndexBringsParents localDeviceId received clientDeviceId s) :
    KeptParents localDeviceId s (RustM.endState
      ((BepProcessor.replaceIndices localDeviceId received clientDeviceId).run s)) := by
  have hsection : BepProcessor.replaceIndices localDeviceId received clientDeviceId = (do
      let files ← newFilesOfIndex localDeviceId received clientDeviceId
      BepState.insertFileInfo received.folder localDeviceId files
      pure ((← getThe BepState).blocksInfo localDeviceId .notStored)) := by
    simp only [BepProcessor.replaceIndices, newFilesOfIndex, bind_assoc, pure_bind]
  rw [hsection]
  refine RustM.endState_bind_rel (KeptParents localDeviceId) keptParents_trans
    (newFilesOfIndex_parents hbrings.1)
    fun files s₁ hfiles => ?_
  refine RustM.endState_bind_rel (KeptParents localDeviceId) keptParents_trans
    (fun h => insertFileInfo_parents h fun _ => hbrings.2 files s₁ hfiles) fun _ s₂ _ => ?_
  exact id

/-- Reading the index of the sender does. -/
theorem newFilesOfPeer_parents {s : BepState} : KeptParents localDeviceId s
    (RustM.endState ((newFilesOfPeer received clientDeviceId).run s)) := by
  unfold newFilesOfPeer
  refine RustM.endState_bind_rel (KeptParents localDeviceId) keptParents_trans
    (keptParents_index _ _ s) fun _ s₁ _ => ?_
  refine RustM.endState_bind_rel (KeptParents localDeviceId) keptParents_trans
    (keptParents_lift _ s₁) fun _ s₂ _ => ?_
  refine RustM.endState_bind_rel (KeptParents localDeviceId) keptParents_trans
    (keptParents_lift _ s₂) fun _ s₃ _ => ?_
  exact id

/-- Updating the index of the sender does, if its files bring theirs. -/
theorem newFilesOfUpdate_parents {s : BepState}
    (hbrings : clientDeviceId = localDeviceId → ∀ files s',
      (newFilesOfPeer received clientDeviceId).run s = .ok files s' →
        BringsParents (rowPaths s'.db localDeviceId) received.folder (notDeleted files)) :
    KeptParents localDeviceId s
      (RustM.endState ((newFilesOfUpdate localDeviceId received clientDeviceId).run s)) := by
  unfold newFilesOfUpdate
  refine RustM.endState_bind_rel (KeptParents localDeviceId) keptParents_trans newFilesOfPeer_parents
    fun files s₁ hfiles => ?_
  refine RustM.endState_bind_rel (KeptParents localDeviceId) keptParents_trans
    (fun h => rmReplaceFileInfo_parents h fun hdevice => hbrings hdevice files s₁ hfiles)
    fun _ s₂ _ => ?_
  refine RustM.endState_bind_rel (KeptParents localDeviceId) keptParents_trans
    (keptParents_index _ _ s₂) fun _ s₃ _ => ?_
  refine RustM.endState_bind_rel (KeptParents localDeviceId) keptParents_trans
    (keptParents_lift _ s₃) fun _ s₄ _ => ?_
  refine RustM.endState_bind_rel (KeptParents localDeviceId) keptParents_trans
    (keptParents_index _ _ s₄) fun _ s₅ _ => ?_
  refine RustM.endState_bind_rel (KeptParents localDeviceId) keptParents_trans
    (keptParents_lift _ s₅) fun _ s₆ _ => ?_
  refine RustM.endState_bind_rel (KeptParents localDeviceId) keptParents_trans
    (keptParents_lift _ s₆) fun _ s₇ _ => ?_
  exact id

/-- An `IndexUpdate` whose new files come with their parents. -/
theorem updateIndices_parents {s : BepState}
    (hbrings : UpdateBringsParents localDeviceId received clientDeviceId s) :
    KeptParents localDeviceId s (RustM.endState
      ((BepProcessor.updateIndices localDeviceId received clientDeviceId).run s)) := by
  have hsection : BepProcessor.updateIndices localDeviceId received clientDeviceId = (do
      let files ← newFilesOfUpdate localDeviceId received clientDeviceId
      BepState.rmReplaceFileInfo received.folder localDeviceId files
      pure ((← getThe BepState).blocksInfo localDeviceId .notStored)) := by
    simp only [BepProcessor.updateIndices, newFilesOfUpdate, newFilesOfPeer, bind_assoc, pure_bind]
  rw [hsection]
  refine RustM.endState_bind_rel (KeptParents localDeviceId) keptParents_trans
    (newFilesOfUpdate_parents hbrings.1)
    fun files s₁ hfiles => ?_
  refine RustM.endState_bind_rel (KeptParents localDeviceId) keptParents_trans
    (fun h => rmReplaceFileInfo_parents h fun _ => hbrings.2 files s₁ hfiles) fun _ s₂ _ => ?_
  exact id

/-- The first section of a handler. -/
theorem writeIndices_parents {h : IndexHandler} {s : BepState}
    (hbrings : MessageBringsParents localDeviceId h.clientDeviceId h.message s) :
    KeptParents localDeviceId s (RustM.endState ((h.writeIndices localDeviceId).run s)) := by
  obtain ⟨message, peer, clock, pc⟩ := h
  cases message with
  | index received => exact replaceIndices_parents hbrings
  | indexUpdate received => exact updateIndices_parents hbrings

end Messages

/-! ## Turns -/

section Turns

variable {hash : String → ℕ → ℕ → UInt64} {sha256 : Bytes → Bytes}
  {debugRequest : Request → String}

/-- A turn of the handler of a response changes no file. -/
theorem stateAfter_files (h : ResponseHandler) (p : BepProcessor) :
    (stateAfter h p).db.bepFileInfo = p.state.db.bepFileInfo := by
  unfold stateAfter
  split
  · rcases updateBlockStorageState_run h.response.id p.config.localDeviceId p.state with
      ⟨e, hrun⟩ | ⟨r, status, -, hrun⟩
    · rw [hrun, RustM.endState_error]
    · rw [hrun, RustM.endState_ok]
      rfl
  · exact (updateFileLocations_rows _ _ _ _ p.state).files
  · rfl
  · rw [BepState.removeRequest, onQueue_db]
  · rfl

/-- A turn leaves the configuration. -/
theorem act_config (task : ServerTask) (p : BepProcessor) (outcome : TurnOutcome) :
    (task.act hash sha256 debugRequest outcome p).2.config = p.config := by
  cases task with
  | index h =>
      show (h.act p).2.config = p.config
      cases hpc : h.pc with
      | writeIndices => rw [(act_writeIndices p hpc).1]
      | enqueue blocks => rw [(act_enqueue p hpc).1]
      | returned => rw [IndexHandler.act, hpc]
      | panicked fault => rw [IndexHandler.act, hpc]
  | response h => exact (act_state h p outcome).2
  | connection maxPendingRequests maxTotalPendingRequestsSize =>
      show (RustM.endState ((BepProcessor.throttledRequests maxPendingRequests
        maxTotalPendingRequestsSize).run p)).config = p.config
      rw [BepProcessor.throttledRequests, BepProcessor.onState_run]

/-- A turn keeps the parents when the message it writes brings them. -/
theorem act_parents (task : ServerTask) (p : BepProcessor) (outcome : TurnOutcome)
    (hbrings : ∀ h, task = .index h → h.pc = .writeIndices →
      MessageBringsParents p.config.localDeviceId h.clientDeviceId h.message p.state) :
    KeptParents p.config.localDeviceId p.state
      (task.act hash sha256 debugRequest outcome p).2.state := by
  have hsame : (task.act hash sha256 debugRequest outcome p).2.state.db.bepFileInfo =
      p.state.db.bepFileInfo → KeptParents p.config.localDeviceId p.state
        (task.act hash sha256 debugRequest outcome p).2.state := by
    intro hfiles h
    have hpaths := @rowPaths_congr p.state.db
      (task.act hash sha256 debugRequest outcome p).2.state.db p.config.localDeviceId
      fun k => by rw [hfiles]
    rw [ParentsStored, hpaths]
    exact h
  cases task with
  | index h =>
      cases hpc : h.pc with
      | writeIndices =>
          have hact : (ServerTask.act hash sha256 debugRequest outcome (.index h) p).2.state =
              RustM.endState ((h.writeIndices p.config.localDeviceId).run p.state) :=
            congrArg BepProcessor.state (act_writeIndices p hpc).1
          rw [hact]
          exact writeIndices_parents (hbrings h rfl hpc)
      | enqueue blocks =>
          have hact : (ServerTask.act hash sha256 debugRequest outcome (.index h) p).2 = _ :=
            (act_enqueue p hpc).1
          apply hsame
          rw [hact]
          dsimp only
          rw [storeOutgoingRequests_db]
      | returned =>
          apply hsame
          show (h.act p).2.state.db.bepFileInfo = _
          rw [IndexHandler.act, hpc]
      | panicked fault =>
          apply hsame
          show (h.act p).2.state.db.bepFileInfo = _
          rw [IndexHandler.act, hpc]
  | response h =>
      apply hsame
      have hstate : (ServerTask.act hash sha256 debugRequest outcome (.response h) p).2.state =
          stateAfter h p := (act_state h p outcome).1
      rw [hstate, stateAfter_files]
  | connection maxPendingRequests maxTotalPendingRequestsSize =>
      apply hsame
      have hact : (ServerTask.act hash sha256 debugRequest outcome
          (.connection maxPendingRequests maxTotalPendingRequestsSize) p).2 =
          RustM.endState ((BepProcessor.throttledRequests maxPendingRequests
            maxTotalPendingRequestsSize).run p) := rfl
      rw [hact, BepProcessor.throttledRequests, BepProcessor.onState_run]
      dsimp only
      rw [BepState.updatePendingRequests, onQueue_db]

end Turns

/-! ## Renames -/

section Renames

variable {ν : Type} {fs : GrizolFS ν}

/-- A command that is logged leaves the configuration. -/
theorem logCommands_config (commands : List Ran) (fs : GrizolFS ν) :
    (RustM.endState ((GrizolFS.logCommands commands).run fs)).config = fs.config := rfl

/-- So does a call on the state. -/
theorem fs_onState_config {α : Type} (x : RustM BepState α) (fs : GrizolFS ν) :
    (RustM.endState ((GrizolFS.onState x).run fs)).config = fs.config := by
  rw [fs_onState_endState]

/-- And a pure computation. -/
theorem fs_lift_config {α : Type} (x : Rust α) (fs : GrizolFS ν) :
    (RustM.endState (EStateM.run (liftM x : EStateM Fault (GrizolFS ν) α) fs)).config =
      fs.config := by
  rw [RustM.endState_lift]

/-- A rename leaves the configuration. -/
theorem renameMem_config (file : GrizolFileInfo) (destName : String) (outcomes : RenameOutcomes)
    (fs : GrizolFS ν) : (afterRenameMem fs file destName outcomes).config = fs.config := by
  rw [afterRenameMem, GrizolFS.renameMem, EStateM.run_bind, RustM.run_getThe]
  dsimp only
  refine RustM.endState_bind_eq GrizolFS.config (logCommands_config _ fs) fun _ fs₁ _ => ?_
  split
  · rfl
  · refine RustM.endState_bind_eq GrizolFS.config (fs_onState_config _ fs₁) fun _ fs₂ _ => ?_
    refine RustM.endState_bind_eq GrizolFS.config (logCommands_config _ fs₂) fun _ fs₃ _ => ?_
    refine RustM.endState_bind_eq GrizolFS.config (fs_lift_config _ fs₃) fun _ fs₄ _ => ?_
    rfl

/-- And so the rename of a row. -/
theorem renameDb_config (paths : GrizolFS.RenamePaths) (outcomes : RenameOutcomes)
    (fs : GrizolFS ν) : (afterRenameDb fs paths outcomes).config = fs.config := by
  rw [afterRenameDb, GrizolFS.renameDb, EStateM.run_bind, RustM.run_getThe]
  dsimp only
  refine RustM.endState_bind_eq GrizolFS.config (fs_lift_config _ fs) fun file fs₁ _ => ?_
  refine RustM.endState_bind_eq GrizolFS.config (logCommands_config _ fs₁) fun _ fs₂ _ => ?_
  refine RustM.endState_bind_eq GrizolFS.config (fs_lift_config _ fs₂) fun res fs₃ _ => ?_
  refine RustM.endState_bind_eq GrizolFS.config (fs_onState_config _ fs₃) fun _ fs₄ _ => ?_
  refine RustM.endState_bind_eq GrizolFS.config (fs_onState_config _ fs₄) fun _ fs₅ _ => ?_
  refine RustM.endState_bind_eq GrizolFS.config (fs_onState_config _ fs₅) fun _ fs₆ _ => ?_
  refine RustM.endState_bind_eq GrizolFS.config (logCommands_config _ fs₆) fun _ fs₇ _ => ?_
  refine RustM.endState_bind_eq GrizolFS.config (fs_lift_config _ fs₇) fun _ fs₈ _ => ?_
  rfl

/-- The paths of the rows after one file of a rename in memory. -/
theorem localPaths_renameMem (file : GrizolFileInfo) (destName : String)
    (outcomes : RenameOutcomes) :
    (MovesAway fs file destName outcomes →
      localPaths (afterRenameMem fs file destName outcomes) =
        insert (keyPath { fileKey fs file with name := destName })
          (localPaths fs \ {keyPath (fileKey fs file)})) ∧
    (¬ MovesAway fs file destName outcomes →
      localPaths (afterRenameMem fs file destName outcomes) = localPaths fs) := by
  rw [localPaths, renameMem_config]
  constructor
  · rintro ⟨hmoves, hrow, -⟩
    obtain ⟨-, hmoved⟩ := renameMem_of_movesRow fs file destName outcomes hmoves
    exact rowPaths_of_renamed rfl rfl (hmoved.moved hrow)
  · intro hstays
    apply rowPaths_congr
    intro k
    by_cases hmoves : MovesRow fs file destName outcomes
    · obtain ⟨-, hmoved⟩ := renameMem_of_movesRow fs file destName outcomes hmoves
      by_cases hrow : fs.state.db.bepFileInfo.contains (fileKey fs file) = true
      · have hname : destName = file.fileInfo.name := by
          by_contra hne
          exact hstays ⟨hmoves, hrow, hne⟩
        -- the row goes to its own name
        subst hname
        rw [Bool.eq_iff_iff, hmoved.moved hrow k]
        constructor
        · rintro (rfl | ⟨-, hk⟩)
          · exact hrow
          · exact hk
        · intro hk
          by_cases hkey : k = fileKey fs file
          · exact Or.inl hkey
          · exact Or.inr ⟨hkey, hk⟩
      · rw [hmoved.absent (by simpa using hrow)]
    · rw [(renameMem_of_not_movesRow fs file destName outcomes hmoves).2]

/-- One file that keeps the parents is waited for no more. -/
theorem renameMem_parents {file : GrizolFileInfo} {destName : String} {outcomes : RenameOutcomes}
    {awaited : Set (List String)}
    (h : Closed (insert (keyPath { fileKey fs file with name := destName })
      (awaited ∪ folderPaths)) (localPaths fs))
    (hkeeps : FileKeepsParents fs file destName outcomes awaited) :
    Closed (awaited ∪ folderPaths) (localPaths (afterRenameMem fs file destName outcomes)) := by
  by_cases hmoves : MovesAway fs file destName outcomes
  · obtain ⟨hleaf, hparents⟩ := hkeeps.1 hmoves
    rw [(localPaths_renameMem file destName outcomes).1 hmoves]
    exact h.move hleaf hparents
  · rw [(localPaths_renameMem file destName outcomes).2 hmoves]
    rw [Set.insert_eq] at h
    refine h.drop ?_
    rintro p hp q rfl hq
    exact hkeeps.2 hmoves p hp hq

/-- A file of the subtree has its path under the new prefix. -/
theorem newPaths_cons_file {origNamePrefix destNamePrefix : String} {node : FsNode}
    {nodes : List FsNode} {file : GrizolFileInfo} (hfile : node.fileType = .file file) :
    newPaths origNamePrefix destNamePrefix (node :: nodes) =
      insert (keyPath { fileKey fs file with
          name := GrizolFS.destFileName origNamePrefix destNamePrefix file.fileInfo.name })
        (newPaths origNamePrefix destNamePrefix nodes) := by
  ext p
  simp only [newPaths, List.exists_mem_cons_iff, Set.mem_insert_iff, Set.mem_ofPred_eq, hfile,
    GrizolFSFileType.file.injEq, exists_eq_left']
  exact or_congr_left eq_comm

/-- Where nothing is waited for the rows have their parents. -/
theorem closed_of_nothingAwaited {rows awaited : Set (List String)}
    (h : Closed (awaited ∪ folderPaths) rows) (hnothing : NothingAwaited rows awaited) :
    Closed folderPaths rows :=
  h.drop fun p hp q hq habove => hnothing p hp q hq habove

/-- The loop of a rename in memory, when each file keeps the parents. -/
theorem renameEach_parents {origNamePrefix destNamePrefix : String} {outcomes : ℕ → RenameOutcomes}
    (nodes : List FsNode) : ∀ (n : ℕ) (fs : GrizolFS ν),
    Closed (newPaths origNamePrefix destNamePrefix nodes ∪ folderPaths) (localPaths fs) →
      RenameKeepsParents origNamePrefix destNamePrefix outcomes n nodes fs →
        Closed folderPaths (localPaths (RustM.endState ((GrizolFS.renameEach origNamePrefix
          destNamePrefix outcomes n nodes).run fs))) := by
  induction nodes with
  | nil =>
      intro n fs h _
      have hnone : newPaths origNamePrefix destNamePrefix [] = ∅ := by
        ext p
        simp [newPaths]
      rw [hnone, Set.empty_union] at h
      exact h
  | cons node nodes ih =>
      intro n fs h hkeeps
      unfold RenameKeepsParents at hkeeps
      unfold GrizolFS.renameEach
      dsimp only at hkeeps
      cases hnode : node.fileType with
      | folder folder =>
          rw [hnode] at hkeeps
          refine closed_of_nothingAwaited ?_ hkeeps
          have hsame : newPaths origNamePrefix destNamePrefix (node :: nodes) =
              newPaths origNamePrefix destNamePrefix nodes := by
            ext p
            simp [newPaths, hnode]
          rwa [hsame] at h
      | file file =>
          rw [hnode] at hkeeps
          dsimp only at hkeeps ⊢
          split_ifs at hkeeps with hname
          · obtain ⟨hfile, hrest⟩ := hkeeps
            rw [@newPaths_cons_file _ fs _ _ _ _ _ hnode, Set.insert_union] at h
            have hclosed := renameMem_parents h hfile
            rw [Rust.assert_of hname, EStateM.run_bind, RustM.run_lift_ok]
            dsimp only
            rw [EStateM.run_bind]
            rw [afterRenameMem] at hclosed
            cases hrun : (GrizolFS.renameMem file (GrizolFS.destFileName origNamePrefix
                destNamePrefix file.fileInfo.name) (outcomes n)).run fs with
            | ok _ fs' =>
                rw [hrun] at hclosed hrest
                exact ih (n + 1) fs' hclosed hrest
            | error e fs' =>
                rw [hrun] at hclosed hrest
                exact closed_of_nothingAwaited hclosed hrest
          · have hstop : Rust.assert (origNamePrefix.toList <+: file.fileInfo.name.toList) =
                .error .assertion := if_neg hname
            rw [hstop]
            exact closed_of_nothingAwaited h hkeeps

/-- A rename from the lists. -/
theorem renameDb_parents {paths : GrizolFS.RenamePaths} {outcomes : RenameOutcomes}
    (h : Closed folderPaths (localPaths fs)) (hkeeps : RenameDbKeepsParents fs paths outcomes) :
    Closed folderPaths (localPaths (afterRenameDb fs paths outcomes)) := by
  rw [localPaths, renameDb_config]
  by_cases hmoves : MovesRowDb fs paths outcomes
  · obtain ⟨hleaf, hparents⟩ := hkeeps hmoves
    obtain ⟨-, hrows⟩ := renameDb_of_movesRow fs paths outcomes hmoves
    by_cases hsame : destKey fs paths = pathKey fs paths
    · -- the row is written and removed under the same key
      have herased : ∀ k, (afterRenameDb fs paths outcomes).state.db.bepFileInfo.contains k = true ↔
          fs.state.db.bepFileInfo.contains k = true ∧ k ≠ pathKey fs paths := by
        intro k
        rw [hrows k, hsame]
        exact and_congr_left fun hne => or_iff_right hne
      have hkey : (pathKey fs paths).device = fs.config.localDeviceId := rfl
      rw [rowPaths_of_erased hkey herased]
      exact h.erase hleaf
    · have hrenamed : ∀ k,
          (afterRenameDb fs paths outcomes).state.db.bepFileInfo.contains k = true ↔
            k = destKey fs paths ∨
              k ≠ pathKey fs paths ∧ fs.state.db.bepFileInfo.contains k = true := by
        intro k
        rw [hrows k]
        constructor
        · rintro ⟨rfl | hk, hne⟩
          · exact Or.inl rfl
          · exact Or.inr ⟨hne, hk⟩
        · rintro (rfl | ⟨hne, hk⟩)
          · exact ⟨Or.inl rfl, hsame⟩
          · exact ⟨Or.inr hk, hne⟩
      have hkey : (pathKey fs paths).device = fs.config.localDeviceId := rfl
      have hdest : (destKey fs paths).device = fs.config.localDeviceId := rfl
      rw [rowPaths_of_renamed hkey hdest hrenamed]
      exact Closed.move (h.mono (Set.subset_insert _ _)) hleaf hparents
  · obtain ⟨hdb, -⟩ := renameDb_of_not_movesRow fs paths outcomes hmoves
    rw [hdb]
    exact h

/-- A whole call leaves the configuration. -/
theorem renameEach_config {origNamePrefix destNamePrefix : String} {outcomes : ℕ → RenameOutcomes}
    (nodes : List FsNode) : ∀ (n : ℕ) (fs : GrizolFS ν),
    (RustM.endState ((GrizolFS.renameEach origNamePrefix destNamePrefix outcomes n
      nodes).run fs)).config = fs.config := by
  induction nodes with
  | nil =>
      intro n fs
      rfl
  | cons node nodes ih =>
      intro n fs
      unfold GrizolFS.renameEach
      cases node.fileType with
      | folder folder => rfl
      | file file =>
          dsimp only
          refine RustM.endState_bind_eq GrizolFS.config (fs_lift_config _ fs) fun _ fs₁ _ => ?_
          refine RustM.endState_bind_eq GrizolFS.config (renameMem_config file _ _ fs₁)
            fun _ fs₂ _ => ?_
          exact ih (n + 1) fs₂

/-- A call keeps the configuration, and the parents when what it moves does. -/
theorem rename_parents {fuseInmem : Bool} {cache : FoldersFiles} {request : RenameRequest}
    {outcomes : ℕ → RenameOutcomes}
    (hkeeps : if fuseInmem then
        ∀ targets, GrizolFS.renameTargets cache.fsMem request = .ok (.ok targets) →
          RenameKeepsParents targets.origNamePrefix targets.destNamePrefix outcomes 0
            targets.nodes fs
      else
        ∀ paths, GrizolFS.renamePaths cache.folders cache.files request = .ok (.ok paths) →
          RenameDbKeepsParents fs paths (outcomes 0))
    (h : Closed folderPaths (localPaths fs)) :
    Closed folderPaths (localPaths (RustM.endState
      ((GrizolFS.rename fuseInmem cache request outcomes).run fs))) ∧
      (RustM.endState ((GrizolFS.rename fuseInmem cache request outcomes).run fs)).config =
        fs.config := by
  unfold GrizolFS.rename
  cases fuseInmem with
  | true =>
      rw [if_pos rfl] at hkeeps ⊢
      rw [GrizolFS.renameMemCall, EStateM.run_bind]
      cases htargets : GrizolFS.renameTargets cache.fsMem request with
      | error e => exact ⟨h, rfl⟩
      | ok found =>
          rw [RustM.run_lift_ok]
          cases found with
          | error e => exact ⟨h, rfl⟩
          | ok targets =>
              dsimp only
              rw [RustM.endState_bind_pure]
              refine ⟨renameEach_parents targets.nodes 0 fs ?_ (hkeeps targets htargets),
                renameEach_config targets.nodes 0 fs⟩
              exact h.mono Set.subset_union_right
  | false =>
      rw [if_neg (by decide)] at hkeeps ⊢
      rw [GrizolFS.renameDbCall, EStateM.run_bind]
      cases hpaths : GrizolFS.renamePaths cache.folders cache.files request with
      | error e => exact ⟨h, rfl⟩
      | ok found =>
          rw [RustM.run_lift_ok]
          cases found with
          | error e => exact ⟨h, rfl⟩
          | ok paths =>
              dsimp only
              rw [RustM.endState_bind_pure]
              exact ⟨renameDb_parents h (hkeeps paths hpaths),
                renameDb_config paths (outcomes 0) fs⟩

end Renames

/-! ## The refresh -/

section Refresh

variable {db : Database} {deviceId : DeviceId} {rowid : FileKey → Int64}

/-- A listed file stands for a row of the device. -/
theorem mem_filesFuse {file : GrizolFileInfo}
    (h : file ∈ BepState.filesFuse rowid db deviceId) :
    ∃ key, db.bepFileInfo.contains key = true ∧ key.device = deviceId ∧
      GrizolFsMem.splitPath file = keyPath key ∧ file.folder = key.folder := by
  obtain ⟨e, he, rfl⟩ := List.mem_map.mp h
  obtain ⟨he, hdevice⟩ := List.mem_filter.mp he
  exact ⟨e.1, AssocMap.contains_iff.mpr ⟨e.2, AssocMap.mem_entries_iff.mp he⟩,
    by simpa using hdevice, rfl, rfl⟩

/-- Every row of the device is listed. -/
theorem filesFuse_of_row {key : FileKey} (hkey : db.bepFileInfo.contains key = true)
    (hdevice : key.device = deviceId) :
    ∃ file ∈ BepState.filesFuse rowid db deviceId, GrizolFsMem.splitPath file = keyPath key := by
  obtain ⟨row, hrow⟩ := AssocMap.contains_iff.mp hkey
  refine ⟨_, List.mem_map.mpr ⟨(key, row), List.mem_filter.mpr
    ⟨AssocMap.mem_entries_iff.mpr hrow, by simpa using hdevice⟩, rfl⟩, rfl⟩

/-- A name is in a folder once. -/
theorem filesFuse_names :
    ((BepState.filesFuse rowid db deviceId).map fun f => (f.folder, f.fileInfo.name)).Nodup := by
  have hentries : (db.bepFileInfo.entries.filter fun e => e.1.device = deviceId).Nodup :=
    List.Nodup.filter _ (List.Nodup.of_map _ db.bepFileInfo.nodup)
  rw [BepState.filesFuse, List.map_map]
  refine List.Nodup.map_on ?_ hentries
  rintro ⟨⟨folder, device, name⟩, row⟩ hrow ⟨⟨folder', device', name'⟩, row'⟩ hrow' heq
  obtain ⟨hmem, hdevice⟩ := List.mem_filter.mp hrow
  obtain ⟨hmem', hdevice'⟩ := List.mem_filter.mp hrow'
  obtain rfl : device = deviceId := by simpa using hdevice
  obtain rfl : device' = device := by simpa using hdevice'
  obtain rfl : folder = folder' := (Prod.mk.inj heq).1
  obtain rfl : name = name' := (Prod.mk.inj heq).2
  obtain rfl := Option.some.inj ((AssocMap.mem_entries_iff.mp hmem).symm.trans
    (AssocMap.mem_entries_iff.mp hmem'))
  rfl

/-- The folder of a row is in the index, and so among the folders. -/
theorem topFolder_of_row (bepFolders : BepFolders db.bepIndex) {key : FileKey}
    (hkey : db.bepFileInfo.contains key = true) (hdevice : key.device = deviceId) :
    ∃ r ∈ BepState.topFoldersFuse bepFolders deviceId, r.folder.id = key.folder := by
  obtain ⟨row, hrow⟩ := AssocMap.contains_iff.mp hkey
  have hindex := db.fileInIndex key row hrow
  obtain ⟨r, hr, hid⟩ := bepFolders.folderOfIndex _ hindex
  refine ⟨r, List.mem_filter.mpr ⟨hr, ?_⟩, hid⟩
  rw [hid, ← hdevice]
  simpa using hindex

/-- Rows that have their parents are listed with them. -/
theorem parentsListed_of_stored (h : ParentsStored db deviceId)
    (bepFolders : BepFolders db.bepIndex) :
    ParentsListed (BepState.topFoldersFuse bepFolders deviceId)
      (BepState.filesFuse rowid db deviceId) := by
  intro file hfile path hne habove
  obtain ⟨key, hkey, hdevice, hpath, -⟩ := mem_filesFuse hfile
  rw [hpath] at habove
  rw [listedPaths, List.mem_append, List.mem_map, List.mem_map]
  rcases h (keyPath key) ⟨key, hkey, hdevice, rfl⟩ path habove with
    ⟨key', hkey', hdevice', rfl⟩ | hfolder
  · exact Or.inr (filesFuse_of_row hkey' hdevice')
  · obtain ⟨r, hr, hid⟩ := topFolder_of_row bepFolders hkey hdevice
    refine Or.inl ⟨r, hr, ?_⟩
    have hlength : path.length ≤ 1 := hfolder
    cases path with
    | nil => exact absurd rfl hne
    | cons head tail =>
        obtain ⟨hhead, -⟩ := List.cons_prefix_cons.mp habove
        obtain rfl : tail = [] := by
          rw [List.length_cons] at hlength
          exact List.length_eq_zero_iff.mp (by omega)
        rw [hid, hhead]

/-- **With the parents of its rows a refresh ends.** -/
theorem refreshEnds_of_parentsStored (h : ParentsStored db deviceId) : RefreshEnds db deviceId := by
  intro bepFolders rowid folders files hfolders hfiles
  have hlisted : ParentsListed folders files := by
    intro file hfile path hne habove
    have hpath := parentsListed_of_stored h bepFolders file (hfiles.mem_iff.mp hfile) path hne habove
    rw [listedPaths] at hpath ⊢
    exact ((hfolders.map _).append (hfiles.map _)).mem_iff.mpr hpath
  refine ⟨hlisted, fun m => ?_⟩
  refine refreshFoldersFiles_ends ?_ ?_ ?_ hlisted m
  · exact (hfolders.map _).nodup_iff.mpr
      (bepFolders.primaryKey.sublist (List.filter_sublist.map _))
  · exact (hfolders.map _).nodup_iff.mpr (bepFolders.rowIds.sublist (List.filter_sublist.map _))
  · exact (hfiles.map _).nodup_iff.mpr filesFuse_names

end Refresh

/-! ## Runs -/

section Runs

variable {ι : Type} [DecidableEq ι] {readCache : ReadCacheConfig} {storageBackends : List String}
  {hash : String → ℕ → ℕ → UInt64} {sha256 : Bytes → Bytes} {debugRequest : Request → String}
  {n n' : CacheNode ι}

/-- An event that keeps the parents. -/
theorem parentsStored_step {e : RefreshEvent ι}
    (h : ParentsStored n.state.db n.config.localDeviceId)
    (hkeeps : KeepsParents readCache storageBackends n e)
    (hstep : refreshStep readCache storageBackends hash sha256 debugRequest n e = some n') :
    ParentsStored n'.state.db n'.config.localDeviceId := by
  cases e with
  | turn t =>
      rw [refreshStep, Option.map_eq_some_iff] at hstep
      obtain ⟨server, hserver, rfl⟩ := hstep
      have hshared := congrArg Processes.shared (Processes.step_eq_some.mp hserver)
      have hparents : ParentsStored ((n.server.process t.process).act hash sha256 debugRequest
          t.outcome n.server.shared).2.state.db n.server.shared.config.localDeviceId :=
        act_parents (n.server.process t.process) n.server.shared t.outcome hkeeps h
      have hconfig : ((n.server.process t.process).act hash sha256 debugRequest
          t.outcome n.server.shared).2.config = n.server.shared.config :=
        act_config (n.server.process t.process) n.server.shared t.outcome
      rw [CacheNode.state, CacheNode.config, hshared, hconfig]
      exact hparents
  | rename fuseInmem cache request outcomes =>
      obtain rfl := Option.some.inj hstep
      obtain ⟨hclosed, hconfig⟩ := @rename_parents _ (n.fileSystem readCache storageBackends)
        fuseInmem cache request outcomes hkeeps h
      rw [localPaths, hconfig] at hclosed
      exact hclosed

/-- **The refresh ends in every state reached** by handlers of messages and renames, in any
order, when each message brings the directories above what it has new for this device, and no
rename parts a row from the directories above it. -/
theorem refreshEnds_of_run {events : List (RefreshEvent ι)}
    (h₀ : ParentsStored n.state.db n.config.localDeviceId)
    (hkeeps : Transition.Meets
      (refreshStep readCache storageBackends hash sha256 debugRequest)
      (KeepsParents readCache storageBackends) n events)
    (hrun : Transition.run (refreshStep readCache storageBackends hash sha256 debugRequest)
      n events = some n') :
    RefreshEnds n'.state.db n'.config.localDeviceId :=
  refreshEnds_of_parentsStored (Transition.invariant_run_of_meets
    (fun n => ParentsStored n.state.db n.config.localDeviceId) h₀
    (fun _ _ _ hinv hcond hstep => parentsStored_step hinv hcond hstep) hkeeps hrun)

end Runs

/-! ## A file without its directory -/

section Example

/-- A device that shares an empty folder with a peer, which sends these files. -/
def listingNode (files : List FileInfo) : CacheNode Unit where
  server :=
    { shared := sharingNode
      process := fun _ => .index (.new (.index ⟨"default", files⟩) peerDevice fun _ => 0) }
  copied := .empty

/-- One event on a node with a small cache and one backend. -/
def listingStep : CacheNode Unit → RefreshEvent Unit → Option (CacheNode Unit) :=
  refreshStep smallCache ["gcs"] (fun _ _ _ => 0) id fun _ => ""

/-- The message is written. -/
def listingTurn : RefreshEvent Unit := .turn ⟨(), ⟨.ok, .exits true⟩⟩

/-- A file in a directory. -/
def nestedFile : FileInfo := { sharedFile 1 false with name := "d/f" }

/-- The directory of the nested file. -/
def parentDirectory : FileInfo :=
  { name := "d", type := 1, version := some ⟨[⟨1, 1⟩]⟩ }

/-- Files that come with all that is above them. -/
theorem bringsParents_of_names {rows : Set (List String)} {folder : String}
    {files : List FileInfo} {names : List String} (hnames : files.map FileInfo.name = names)
    (h : ∀ name ∈ names, ∀ q ∈ (folder :: Path.split name).inits,
      q.length ≤ 1 ∨ q ∈ names.map fun name => folder :: Path.split name) :
    BringsParents rows folder files := by
  subst hnames
  rintro p ⟨file, hfile, rfl⟩ q hq
  rcases h file.name (List.mem_map_of_mem hfile) q ((List.mem_inits q _).mpr hq) with
    hfolder | hfile'
  · exact Or.inr hfolder
  · obtain ⟨name, hname, rfl⟩ := List.mem_map.mp hfile'
    obtain ⟨file', hmem, rfl⟩ := List.mem_map.mp hname
    exact Or.inl (Or.inr ⟨file', hmem, rfl⟩)

/-- A file that comes before its directory in the same message is no trouble. -/
theorem refreshEnds_of_run_nested :
    ∃ n, Transition.run listingStep (listingNode [nestedFile, parentDirectory]) [listingTurn] =
      some n ∧ RefreshEnds n.state.db n.config.localDeviceId := by
  obtain ⟨n, hrun⟩ : ∃ n, Transition.run listingStep (listingNode [nestedFile, parentDirectory])
      [listingTurn] = some n := Option.isSome_iff_exists.mp (by decide +kernel)
  have hstored : ParentsStored (listingNode [nestedFile, parentDirectory]).state.db
      (listingNode [nestedFile, parentDirectory]).config.localDeviceId := by
    rintro p ⟨key, hkey, -⟩
    cases hkey
  have hkeeps : Transition.Meets listingStep (KeepsParents smallCache ["gcs"])
      (listingNode [nestedFile, parentDirectory]) [listingTurn] := by
    refine ⟨?_, fun _ _ => trivial⟩
    intro h hh _
    obtain rfl := ServerTask.index.inj hh
    refine ⟨fun hpeer => absurd hpeer (by decide), ?_⟩
    intro files s' hfiles
    have hnames : (RustM.returned ((newFilesOfIndex thisDevice
        ⟨"default", [nestedFile, parentDirectory]⟩ peerDevice).run sharingNode.state)).map
          (fun r => r.1.map FileInfo.name) = some ["d/f", "d"] := by decide +kernel
    have hrun : (newFilesOfIndex thisDevice ⟨"default", [nestedFile, parentDirectory]⟩
        peerDevice).run sharingNode.state = .ok files s' := hfiles
    rw [hrun] at hnames
    exact bringsParents_of_names (Option.some.inj hnames) (by decide +kernel)
  exact ⟨n, hrun, refreshEnds_of_run hstored hkeeps hrun⟩

/-- What is listed after an `Index` with a file, but not its directory. -/
theorem orphan_listed :
    (Transition.run listingStep (listingNode [nestedFile]) [listingTurn]).map (fun n =>
      (n.state.db.bepIndex, n.config.localDeviceId,
        (BepState.filesFuse (fun _ => 1) n.state.db thisDevice).map GrizolFsMem.splitPath)) =
      some ([("default", thisDevice), ("default", peerDevice)], thisDevice,
        [["default", "d", "f"]]) := by
  decide +kernel

/-- The folder of the example. -/
def sharedFolder : GrizolFolder := ⟨{ id := "default" }, 1⟩

/-- The table of folders of a database with the index of the example. -/
def sharedFolders {bepIndex : List (String × DeviceId)}
    (h : bepIndex = [("default", thisDevice), ("default", peerDevice)]) : BepFolders bepIndex where
  rows := [sharedFolder]
  primaryKey := List.nodup_singleton _
  rowIds := List.nodup_singleton _
  folderOfIndex := by
    subst h
    decide

/-- Without its directory the file is taken from the queue and put back for ever. -/
theorem orphan_diverges {files : List GrizolFileInfo}
    (hfiles : files.map GrizolFsMem.splitPath = [["default", "d", "f"]]) (fuel : ℕ) :
    refreshFoldersFiles fuel [sharedFolder] files .new = .error .divergence := by
  have hfolders : insertFolders [sharedFolder] .new =
      .ok (GrizolFsMem.new.insertNode ["default"] 11 (.folder sharedFolder)) := rfl
  have hmissing : (GrizolFsMem.new.insertNode ["default"] 11 (.folder sharedFolder)).tree.contains
      ["default", "d"] = false := by decide +kernel
  rw [refreshFoldersFiles, hfolders, Rust.ok_bind]
  refine insertFiles_diverges fuel ?_ ?_
  · rintro rfl
    cases hfiles
  · intro f hf hparents
    have hpath : GrizolFsMem.splitPath f = ["default", "d", "f"] := by
      have hmem : GrizolFsMem.splitPath f ∈ files.map GrizolFsMem.splitPath :=
        List.mem_map_of_mem hf
      rw [hfiles] at hmem
      exact List.mem_singleton.mp hmem
    have hin := hparents ["default", "d"] (by simp) (by rw [hpath]; exact List.prefix_refl _)
    rw [hmissing] at hin
    cases hin

/-- After an `Index` with a file but not its directory the refresh never ends. -/
theorem orphan_refresh_never_ends :
    ∃ n, Transition.run listingStep (listingNode [nestedFile]) [listingTurn] = some n ∧
      ¬ RefreshEnds n.state.db n.config.localDeviceId ∧
      ∀ fuel, refreshFoldersFiles fuel [sharedFolder]
        (BepState.filesFuse (fun _ => 1) n.state.db n.config.localDeviceId) .new =
          .error .divergence := by
  obtain ⟨n, hrun, hlisted⟩ := Option.map_eq_some_iff.mp orphan_listed
  obtain ⟨hindex, hdevice, hpaths⟩ : n.state.db.bepIndex = _ ∧ n.config.localDeviceId = _ ∧
      (BepState.filesFuse (fun _ => 1) n.state.db thisDevice).map GrizolFsMem.splitPath = _ := by
    simpa only [Prod.mk.injEq] using hlisted
  have hdiverges : ∀ fuel, refreshFoldersFiles fuel [sharedFolder]
      (BepState.filesFuse (fun _ => 1) n.state.db n.config.localDeviceId) .new =
        .error .divergence := by
    rw [hdevice]
    exact orphan_diverges hpaths
  refine ⟨n, hrun, fun hends => ?_, hdiverges⟩
  have hfolders : BepState.topFoldersFuse (sharedFolders hindex) n.config.localDeviceId =
      [sharedFolder] := by
    show [sharedFolder].filter (fun r =>
      n.state.db.bepIndex.contains (r.folder.id, n.config.localDeviceId)) = [sharedFolder]
    rw [hdevice, hindex]
    decide
  obtain ⟨fuel, hne⟩ := (hends (sharedFolders hindex) (fun _ => 1) _ _ (List.Perm.refl _)
    (List.Perm.refl _)).2 .new
  rw [hfolders] at hne
  exact hne (hdiverges fuel)

end Example

end Grizol.Analysis

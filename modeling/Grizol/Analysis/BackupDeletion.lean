import Grizol.Interface.Backups
import Grizol.Analysis.IndexCoherence

/-!
# When messages of peers keep the files of this device

An `IndexUpdate` keeps them in every state: what is to be replaced goes through
`rm_replace_file_info`, which leaves deleted files out. An `Index` goes through
`insert_file_info`, which writes what it is given, so it keeps them when it offers no
deletion of a file that is there.
-/

set_option autoImplicit false

namespace Grizol.Analysis

open Grizol.Library
open Grizol.Model Grizol.Model.Syncthing Grizol.Interface

/-! ## Frames -/

section Queueing

variable {γ : Type} {part : BepState → γ}
  (hpart : ∀ (s : BepState) (queue : OutgoingRequests) (n : Int32),
    part { s with outgoingRequests := queue, requestId := n } = part s)

include hpart

/-- A part of the state that is neither the queue nor the counter of ids stays in a call on the
queue. -/
theorem onQueue_part {α : Type} (x : RustM OutgoingRequests α) (s : BepState) :
    part (RustM.endState ((BepState.onQueue x).run s)) = part s := by
  unfold BepState.onQueue EStateM.run
  dsimp only
  split <;> exact hpart s _ s.requestId

/-- So it does when requests are inserted. -/
theorem insertEach_part (clock : ℕ → ℕ) (n : ℕ) (requests : List Request) (s : BepState) :
    part (RustM.endState ((BepState.insertEach clock n requests).run s)) = part s := by
  induction requests generalizing n s with
  | nil => rfl
  | cons request requests ih =>
      apply RustM.endState_bind_eq part
      · exact onQueue_part hpart _ s
      · intro inserted s₁ _
        rw [RustM.endState_bind_pure]
        exact ih (n + 1) s₁

/-- And when ids are taken. -/
theorem fetchAddRequestId_part (val : Int32) (s : BepState) :
    part (RustM.endState ((BepState.fetchAddRequestId val).run s)) = part s := by
  unfold BepState.fetchAddRequestId
  rw [EStateM.run_bind, RustM.run_getThe]
  dsimp only
  split_ifs
  · rfl
  · exact hpart s s.outgoingRequests _

/-- Requests for blocks change the queue and the counter of requests only. -/
theorem storeOutgoingRequests_part (unstoredBlocks : List BlockInfoExt) (clock : ℕ → ℕ)
    (s : BepState) :
    part (RustM.endState ((storeOutgoingRequests unstoredBlocks clock).run s)) = part s := by
  unfold storeOutgoingRequests
  apply RustM.endState_bind_eq part
  · rfl
  · intro s₁ s₂ _
    apply RustM.endState_bind_eq part
    · rw [RustM.endState_lift]
    · intro requests s₃ _
      apply RustM.endState_bind_eq part
      · exact fetchAddRequestId_part hpart _ s₃
      · intro _ s₄ _
        apply RustM.endState_bind_eq part
        · exact onQueue_part hpart _ s₄
        · intro _ s₅ _
          exact insertEach_part hpart clock 1 requests s₅

end Queueing

section Frames

/-- Nor are they in the database. -/
theorem onQueue_db {α : Type} (x : RustM OutgoingRequests α) (s : BepState) :
    (RustM.endState ((BepState.onQueue x).run s)).db = s.db :=
  onQueue_part (fun _ _ _ => rfl) x s

/-- The database is such a part. -/
theorem storeOutgoingRequests_db (unstoredBlocks : List BlockInfoExt) (clock : ℕ → ℕ)
    (s : BepState) :
    (RustM.endState ((storeOutgoingRequests unstoredBlocks clock).run s)).db = s.db :=
  storeOutgoingRequests_part (fun _ _ _ => rfl) unstoredBlocks clock s

/-- What a handler of an index does besides its section that writes: it queues requests,
which are not in the database. -/
def queueAfter (write : RustM BepState (List BlockInfoExt)) (clock : ℕ → ℕ) :
    RustM BepProcessor (List (Except BepProcessorError GrizolEvent)) := do
  let unstoredBlocks ← BepProcessor.onState write
  let _ ← BepProcessor.onState (storeOutgoingRequests unstoredBlocks clock)
  pure [.ok .requestCreated]

/-- A handler leaves the configuration. -/
theorem queueAfter_config (write : RustM BepState (List BlockInfoExt)) (clock : ℕ → ℕ)
    (p : BepProcessor) : (RustM.endState ((queueAfter write clock).run p)).config = p.config := by
  apply RustM.endState_bind_eq BepProcessor.config
  · rw [BepProcessor.onState_run]
  · intro unstoredBlocks p₁ _
    apply RustM.endState_bind_eq BepProcessor.config
    · rw [BepProcessor.onState_run]
    · intro _ p₂ _
      rfl

/-- A handler of an index leaves what is not about requests as its section that writes does. -/
theorem queueAfter_part {γ : Type} {part : BepState → γ}
    (hpart : ∀ (s : BepState) (queue : OutgoingRequests) (n : Int32),
      part { s with outgoingRequests := queue, requestId := n } = part s)
    (write : RustM BepState (List BlockInfoExt)) (clock : ℕ → ℕ) (p : BepProcessor) :
    part (RustM.endState ((queueAfter write clock).run p)).state =
      part (RustM.endState (write.run p.state)) := by
  have hwrite := BepProcessor.onState_run write p
  unfold queueAfter
  rw [EStateM.run_bind]
  cases hrun : (BepProcessor.onState write).run p with
  | error e p₁ =>
      rw [hrun] at hwrite
      obtain rfl : p₁ = _ := hwrite
      rfl
  | ok unstoredBlocks p₁ =>
      rw [hrun] at hwrite
      obtain rfl : p₁ = _ := hwrite
      dsimp only
      rw [RustM.endState_bind_pure, BepProcessor.onState_run]
      exact storeOutgoingRequests_part hpart unstoredBlocks clock _

/-- And so the database. -/
theorem queueAfter_db (write : RustM BepState (List BlockInfoExt)) (clock : ℕ → ℕ)
    (p : BepProcessor) : (RustM.endState ((queueAfter write clock).run p)).state.db =
      (RustM.endState (write.run p.state)).db :=
  queueAfter_part (fun _ _ _ => rfl) write clock p

/-- The handler of an index writes first, and queues afterwards. -/
theorem handleIndex_run (received : Index) (peer : DeviceId) (clock : ℕ → ℕ) (p : BepProcessor) :
    (BepProcessor.handleIndex received peer clock).run p =
      (queueAfter (BepProcessor.replaceIndices p.config.localDeviceId received peer) clock).run p := by
  rw [BepProcessor.handleIndex, EStateM.run_bind, RustM.run_getThe]
  rfl

/-- So does the handler of an index update. -/
theorem handleIndexUpdate_run (received : IndexUpdate) (peer : DeviceId) (clock : ℕ → ℕ)
    (p : BepProcessor) :
    (BepProcessor.handleIndexUpdate received peer clock).run p =
      (queueAfter (BepProcessor.updateIndices p.config.localDeviceId
        { folder := received.folder, files := received.files } peer) clock).run p := by
  rw [BepProcessor.handleIndexUpdate]
  dsimp only
  rw [EStateM.run_bind, RustM.run_getThe]
  rfl

end Frames

/-! ## Differences -/

section Differences

/-- Files of a difference are files of the added index. -/
theorem mem_of_diffFiles {existingFiles : AssocMap String FileInfo} {files : List FileInfo}
    {diff : IndexDiff} (h : diffFiles existingFiles files = .ok diff) {file : FileInfo}
    (hfile : file ∈ diff.newlyAddedFiles) : file ∈ files := by
  induction files generalizing diff with
  | nil =>
      obtain rfl := Except.ok.inj h
      exact hfile
  | cons f files ih =>
      simp only [diffFiles, Rust.bind_eq_ok] at h
      obtain ⟨place, -, rest, hrest, hdiff⟩ := h
      have hmem : file ∈ rest.newlyAddedFiles → file ∈ f :: files :=
        fun hmem => List.mem_cons_of_mem f (ih hrest hmem)
      obtain rfl := Except.ok.inj hdiff
      cases place with
      | newlyAdded =>
          rcases List.mem_cons.mp hfile with rfl | htail
          · exact List.mem_cons_self
          · exact hmem htail
      | newlyAddedConflicting => exact hmem hfile
      | existingConflicting => exact hmem hfile
      | nowhere => exact hmem hfile

/-- A difference reads the existing files by their names. -/
theorem diffFiles_congr {existing existing' : AssocMap String FileInfo}
    (h : ∀ name, existing.get name = existing'.get name) (files : List FileInfo) :
    diffFiles existing files = diffFiles existing' files := by
  induction files with
  | nil => rfl
  | cons f files ih => rw [diffFiles, diffFiles, h, ih]

/-- What the difference is where it is no panic. -/
theorem diffOrPanic_eq_ok {folder : String} {added existing : Index} {diff : IndexDiff}
    (h : diffOrPanic folder added existing = .ok diff) :
    diffIndices folder added existing = .ok (.ok diff) := by
  rw [diffOrPanic, Rust.bind_eq_ok] at h
  obtain ⟨result, hresult, h⟩ := h
  cases result with
  | error e => cases h
  | ok diff' =>
      obtain rfl := Except.ok.inj h
      exact hresult

/-- A new file is one of those that were added. -/
theorem mem_of_diffIndices {folder : String} {added existing : Index} {diff : IndexDiff}
    (h : diffIndices folder added existing = .ok (.ok diff)) {file : FileInfo}
    (hfile : file ∈ diff.newlyAddedFiles) : file ∈ added.files := by
  unfold diffIndices at h
  split_ifs at h
  · cases h
  · rw [Rust.bind_eq_ok] at h
    obtain ⟨diff', hdiff, h⟩ := h
    obtain rfl := Except.ok.inj (Except.ok.inj h)
    exact mem_of_diffFiles hdiff hfile

/-- Two indices of the folder with the same file under every name have the same
difference. -/
theorem diffIndices_congr {folder : String} {added existing existing' : Index}
    (hadded : added.folder = folder)
    (h : ∀ name, lastNamed existing.files name = lastNamed existing'.files name) :
    diffIndices folder added existing = diffIndices folder added existing' := by
  have hget : ∀ name, (GrizolIndex.insertAll .empty existing.files).get name =
      (GrizolIndex.insertAll .empty existing'.files).get name := by
    intro name
    rw [get_insertAll, get_insertAll, h]
  unfold diffIndices
  rw [if_neg (fun hne => hne.1 hadded), if_neg (fun hne => hne.1 hadded)]
  dsimp only
  rw [diffFiles_congr hget]

end Differences

/-! ## What is known of a device -/

section Known

variable {s s' : BepState} {folder : String} {deviceId other : DeviceId}

/-- A call for another device leaves the files of this one. -/
theorem rmReplaceFileInfo_other {fileInfo : List FileInfo} (hother : other ≠ deviceId)
    (h : RustM.endState ((BepState.rmReplaceFileInfo folder other fileInfo).run s) = s')
    {k : FileKey} (hk : k.device = deviceId) : stored s'.db k = stored s.db k := by
  rcases rmReplaceFileInfo_run folder other s fileInfo with ⟨e, s₁, hresult, n, rfl⟩ |
    ⟨files, tx, n, -, hwrite, hresult⟩
  · rw [hresult] at h
    obtain rfl := h
    rfl
  · rw [hresult, RustM.endState_ok] at h
    obtain rfl := h
    dsimp only
    rw [stored_replaceFiles hwrite, replaceAll_of_other]
    rintro ⟨-, hdevice⟩
    exact hother (hdevice.symm.trans hk)

/-- Files put into a map come from the map or the list. -/
theorem mem_values_insertAll {files : AssocMap String FileInfo} {added : List FileInfo}
    {file : FileInfo} (h : file ∈ (GrizolIndex.insertAll files added).values) :
    file ∈ added ∨ file ∈ files.values := by
  obtain ⟨name, hget⟩ := AssocMap.mem_values_iff.mp h
  rw [get_insertAll] at hget
  cases hlast : lastNamed added name with
  | some f =>
      rw [hlast, Option.some_or] at hget
      obtain rfl := Option.some.inj hget
      exact Or.inl (lastNamed_eq_some hlast).1
  | none =>
      rw [hlast, Option.none_or] at hget
      exact Or.inr (AssocMap.mem_values_iff.mpr ⟨name, hget⟩)

/-- What is known under an entry is the entry. -/
theorem known_of_entry {entry : GrizolIndex}
    (h : s.indices.indices.get ⟨folder, deviceId⟩ = some entry) :
    known s folder deviceId = entry.toIndex := by
  rw [known, GrizolIndices.index, h]
  rfl

/-- What is known without one is what is stored. -/
theorem known_of_no_entry (h : s.indices.indices.get ⟨folder, deviceId⟩ = none) :
    known s folder deviceId = BepState.loadIndex s.db folder deviceId := by
  rw [known, GrizolIndices.index, h]
  rfl

/-- The entry after `index` holds files that were known before. -/
theorem entry_of_index {index : Option Index}
    (h : (BepState.index folder deviceId).run s = .ok index s') :
    index = some (known s folder deviceId) ∧ s'.db = s.db ∧
      ∃ entry, s'.indices.indices.get ⟨folder, deviceId⟩ = some entry ∧
        ∀ file ∈ entry.files.values, file ∈ (known s folder deviceId).files := by
  rw [index_run] at h
  obtain ⟨rfl, rfl⟩ := EStateM.Result.ok.inj h
  refine ⟨rfl, ?_⟩
  cases hget : s.indices.indices.get ⟨folder, deviceId⟩ with
  | some entry =>
      have hcontains := AssocMap.contains_iff.mpr ⟨entry, hget⟩
      rw [if_pos hcontains, known_of_entry hget]
      exact ⟨rfl, entry, hget, fun _ hfile => hfile⟩
  | none =>
      have hcontains := AssocMap.contains_eq_false_iff.mpr hget
      rw [if_neg (by simp [hcontains]), known_of_no_entry hget]
      refine ⟨rfl, _, AssocMap.get_insert_self _ _ _, ?_⟩
      intro file hfile
      rcases mem_values_insertAll hfile with hmem | hmem
      · exact hmem
      · cases hmem

/-- `index` for another device leaves the entry of this one. -/
theorem index_other {index : Option Index} (hother : other ≠ deviceId)
    (h : (BepState.index folder other).run s = .ok index s') :
    s'.db = s.db ∧ s'.indices.indices.get ⟨folder, deviceId⟩ =
      s.indices.indices.get ⟨folder, deviceId⟩ := by
  rw [index_run] at h
  obtain ⟨-, rfl⟩ := EStateM.Result.ok.inj h
  split_ifs
  · exact ⟨rfl, rfl⟩
  · refine ⟨rfl, AssocMap.get_insert_of_ne _ _ ?_⟩
    intro heq
    exact hother (FolderDevice.mk.inj heq).2.symm

/-- After `rm_replace_file_info` the entry has got some of its files. -/
theorem entry_of_rmReplaceFileInfo {fileInfo : List FileInfo} {entry : GrizolIndex}
    (hentry : s.indices.indices.get ⟨folder, deviceId⟩ = some entry)
    (h : (BepState.rmReplaceFileInfo folder deviceId fileInfo).run s = .ok () s') :
    ∃ entry', s'.indices.indices.get ⟨folder, deviceId⟩ = some entry' ∧
      ∀ file ∈ entry'.files.values, file ∈ entry.files.values ∨
        ∃ f ∈ fileInfo, Numbered f file := by
  rcases rmReplaceFileInfo_run folder deviceId s fileInfo with ⟨e, s₁, hresult, -⟩ |
    ⟨files, tx, n, hnumbered, -, hresult⟩
  · rw [hresult] at h
    cases h
  rw [hresult] at h
  obtain ⟨-, rfl⟩ := EStateM.Result.ok.inj h
  have hget := get_insertFileInfo folder deviceId s.indices
    (files.filter fun f => !f.deleted) ⟨folder, deviceId⟩
  rw [if_pos rfl, hentry] at hget
  refine ⟨_, hget, ?_⟩
  intro file hfile
  rcases mem_values_insertAll hfile with hadded | hold
  · exact Or.inr (Numbered.mem hnumbered (List.mem_of_mem_filter hadded))
  · exact Or.inl hold

/-- The last file of a name in a loaded index is the stored one. -/
theorem lastNamed_loadIndex (db : Database) (name : String) :
    lastNamed (BepState.loadIndex db folder deviceId).files name =
      stored db ⟨folder, deviceId, name⟩ := by
  have hget := get_loadIndex db folder deviceId name
  rwa [GrizolIndex.ofIndex, get_insertAll, AssocMap.get_empty, Option.or_none] at hget

/-- A state with the same entry and the same files of a device knows the same of it, name by
name. -/
theorem lastNamed_known (hentry : s'.indices.indices.get ⟨folder, deviceId⟩ =
      s.indices.indices.get ⟨folder, deviceId⟩)
    (hstored : ∀ k : FileKey, k.device = deviceId → stored s'.db k = stored s.db k)
    (name : String) :
    lastNamed (known s' folder deviceId).files name =
      lastNamed (known s folder deviceId).files name := by
  cases hget : s.indices.indices.get ⟨folder, deviceId⟩ with
  | some entry => rw [known_of_entry hget, known_of_entry (hentry.trans hget)]
  | none =>
      rw [known_of_no_entry hget, known_of_no_entry (hentry.trans hget), lastNamed_loadIndex,
        lastNamed_loadIndex, hstored _ rfl]

end Known

/-! ## Messages -/

section Messages

variable {s s' : BepState} {folder : String} {localDeviceId clientDeviceId : DeviceId} {receivedIndex : Index}

/-- A file has its own content. -/
theorem SameContent.refl (f : FileInfo) : SameContent f f := ⟨rfl, List.Perm.refl _⟩

/-- Where the files of the device did not change they are kept. -/
theorem filesKept_of_stored {offered : List FileInfo} {db db' : Database}
    (h : ∀ k : FileKey, k.device = localDeviceId → stored db' k = stored db k) :
    FilesKept offered localDeviceId db db' := by
  intro key old hdevice hold hlive
  exact ⟨old, (h key hdevice).trans hold, hlive, Or.inl (SameContent.refl old)⟩

/-- Databases that agree on the device have the same files to keep. -/
theorem filesKept_congr {offered : List FileInfo} {db db₁ db' : Database}
    (hkept : FilesKept offered localDeviceId db₁ db')
    (h : ∀ k : FileKey, k.device = localDeviceId → stored db₁ k = stored db k) :
    FilesKept offered localDeviceId db db' := by
  intro key old hdevice hold hlive
  exact hkept key old hdevice ((h key hdevice).trans hold) hlive

/-- `rm_replace_file_info` keeps the files of the device: it leaves out what is flagged
deleted. -/
theorem rmReplaceFileInfo_filesKept {offered fileInfo : List FileInfo}
    (hoffered : ∀ file ∈ fileInfo, ∃ f ∈ offered, Numbered f file)
    (h : RustM.endState ((BepState.rmReplaceFileInfo folder localDeviceId fileInfo).run s) = s') :
    FilesKept offered localDeviceId s.db s'.db := by
  rcases rmReplaceFileInfo_run folder localDeviceId s fileInfo with ⟨e, s₁, hresult, n, rfl⟩ |
    ⟨files, tx, n, hnumbered, hwrite, hresult⟩
  · rw [hresult, RustM.endState_error] at h
    obtain rfl := h
    exact filesKept_of_stored fun _ _ => rfl
  rw [hresult, RustM.endState_ok] at h
  obtain rfl := h
  have hstored := stored_replaceFiles hwrite
  intro key old hdevice hold hlive
  dsimp only
  by_cases hkey : key.folder = folder ∧ key.device = localDeviceId
  · obtain ⟨rfl, rfl⟩ := hkey
    rw [hstored, replaceAll_apply]
    cases hlast : lastNamed (files.filter fun f => !f.deleted) key.name with
    | none =>
        rw [Option.map_none, Option.none_or]
        exact ⟨old, hold, hlive, Or.inl (SameContent.refl old)⟩
    | some file =>
        obtain ⟨hmem, hname⟩ := lastNamed_eq_some hlast
        obtain ⟨hmem, hkept⟩ := List.mem_filter.mp hmem
        have hlive' : file.deleted = false := by simpa using hkept
        obtain ⟨file₀, hfile₀, hnumber⟩ := Numbered.mem hnumbered hmem
        obtain ⟨f, hf, hnumber₀⟩ := hoffered file₀ hfile₀
        obtain ⟨m, rfl⟩ := hnumber
        obtain ⟨m₀, rfl⟩ := hnumber₀
        exact ⟨_, rfl, hlive', Or.inr ⟨f, hf, hname, hlive', rfl, List.Perm.refl _⟩⟩
  · rw [hstored, replaceAll_of_other hkey]
    exact ⟨old, hold, hlive, Or.inl (SameContent.refl old)⟩

/-- The section of `handle_index_update` that writes keeps the files of the device. -/
theorem updateIndices_filesKept (hpeer : clientDeviceId ≠ localDeviceId)
    (h : RustM.endState
      ((BepProcessor.updateIndices localDeviceId receivedIndex clientDeviceId).run s) = s') :
    FilesKept (receivedIndex.files ++ (known s receivedIndex.folder clientDeviceId).files)
      localDeviceId s.db s'.db := by
  unfold BepProcessor.updateIndices at h
  dsimp only at h
  -- the index of the peer is loaded
  obtain ⟨s₁, hindex⟩ : ∃ s₁, (BepState.index receivedIndex.folder clientDeviceId).run s =
      .ok (some (known s receivedIndex.folder clientDeviceId)) s₁ := ⟨_, index_run _ _ _⟩
  obtain ⟨-, hdb₁, entry, hentry, hknown⟩ := entry_of_index hindex
  rw [EStateM.run_bind, hindex] at h
  dsimp only at h
  rw [Rust.expect_some, EStateM.run_bind, RustM.run_lift_ok] at h
  dsimp only at h
  rw [EStateM.run_bind] at h
  cases hdiff : diffOrPanic receivedIndex.folder receivedIndex
      (known s receivedIndex.folder clientDeviceId) with
  | error e =>
      rw [hdiff] at h
      obtain rfl : s₁ = s' := h
      exact filesKept_of_stored fun k _ => by rw [hdb₁]
  | ok diff =>
      rw [hdiff, RustM.run_lift_ok] at h
      dsimp only at h
      -- and changed: the files of the device are as before
      rcases RustM.endState_bind h with hend | ⟨⟨⟩, s₂, hreplace, h⟩
      · apply filesKept_of_stored
        intro k hk
        rw [rmReplaceFileInfo_other hpeer hend hk, hdb₁]
      have hlocal : ∀ k : FileKey, k.device = localDeviceId → stored s₂.db k = stored s.db k := by
        intro k hk
        have hend := congrArg RustM.endState hreplace
        rw [RustM.endState_ok] at hend
        rw [rmReplaceFileInfo_other hpeer hend hk, hdb₁]
      obtain ⟨entry', hentry', hadded⟩ := entry_of_rmReplaceFileInfo hentry hreplace
      -- then both indices are read
      obtain ⟨s₃, hindex₃⟩ : ∃ s₃, (BepState.index receivedIndex.folder localDeviceId).run s₂ =
          .ok (some (known s₂ receivedIndex.folder localDeviceId)) s₃ := ⟨_, index_run _ _ _⟩
      obtain ⟨hdb₃, hsame⟩ := index_other (Ne.symm hpeer) hindex₃
      rw [EStateM.run_bind, hindex₃] at h
      dsimp only at h
      rw [Rust.expect_some, EStateM.run_bind, RustM.run_lift_ok] at h
      dsimp only at h
      obtain ⟨s₄, hindex₄⟩ : ∃ s₄, (BepState.index receivedIndex.folder clientDeviceId).run s₃ =
          .ok (some (known s₃ receivedIndex.folder clientDeviceId)) s₄ := ⟨_, index_run _ _ _⟩
      obtain ⟨-, hdb₄, -⟩ := entry_of_index hindex₄
      rw [EStateM.run_bind, hindex₄] at h
      dsimp only at h
      rw [Rust.expect_some, EStateM.run_bind, RustM.run_lift_ok] at h
      dsimp only at h
      have hlocal₄ : ∀ k : FileKey, k.device = localDeviceId →
          stored s₄.db k = stored s.db k := by
        intro k hk
        rw [hdb₄, hdb₃, hlocal k hk]
      rw [EStateM.run_bind] at h
      cases hdiff' : diffOrPanic receivedIndex.folder
          (known s₃ receivedIndex.folder clientDeviceId)
          (known s₂ receivedIndex.folder localDeviceId) with
      | error e =>
          rw [hdiff'] at h
          obtain rfl : s₄ = s' := h
          exact filesKept_of_stored hlocal₄
      | ok diff' =>
          rw [hdiff', RustM.run_lift_ok] at h
          dsimp only at h
          -- what is new there was offered
          have hoffered : ∀ file ∈ diff'.newlyAddedFiles, ∃ f ∈ receivedIndex.files ++
              (known s receivedIndex.folder clientDeviceId).files, Numbered f file := by
            intro file hfile
            have hmem := mem_of_diffIndices (diffOrPanic_eq_ok hdiff') hfile
            rw [known_of_entry (hsame.trans hentry')] at hmem
            rcases hadded file hmem with hold | ⟨f, hf, hnumber⟩
            · exact ⟨file, List.mem_append_right _ (hknown file hold), file.sequence, rfl⟩
            · have hreceived := mem_of_diffIndices (diffOrPanic_eq_ok hdiff) hf
              exact ⟨f, List.mem_append_left _ hreceived, hnumber⟩
          rcases RustM.endState_bind h with hend | ⟨⟨⟩, s₅, hlast, hend⟩
          · exact filesKept_congr (rmReplaceFileInfo_filesKept hoffered hend) hlocal₄
          · obtain rfl : s₅ = s' := hend
            have hend := congrArg RustM.endState hlast
            exact filesKept_congr (rmReplaceFileInfo_filesKept hoffered hend) hlocal₄

/-- The files of a message that were written leave the files of the device. -/
theorem replaceIndex_other {deviceId : DeviceId} (hpeer : clientDeviceId ≠ deviceId)
    (h : RustM.endState ((BepState.replaceIndex receivedIndex clientDeviceId).run s) = s')
    {k : FileKey} (hk : k.device = deviceId) : stored s'.db k = stored s.db k := by
  rcases replaceIndex_run clientDeviceId s receivedIndex with ⟨e, s₁, hresult, n, rfl⟩ |
    ⟨files, tx, n, -, hwrite, hresult⟩
  · rw [hresult] at h
    obtain rfl := h
    rfl
  · rw [hresult, RustM.endState_ok] at h
    obtain rfl := h
    have hother : ¬ (k.folder = receivedIndex.folder ∧ k.device = clientDeviceId) := by
      rintro ⟨-, hdevice⟩
      exact hpeer (hdevice.symm.trans hk)
    dsimp only
    rw [stored_upsertFiles hwrite, upsertAll_of_other hother, stored_deleteFileInfo,
      if_neg (by simpa using hother)]

/-- A message that was written had only files the database takes, and leaves the entry of
the device. -/
theorem replaceIndex_eq_ok {deviceId : DeviceId} (hpeer : clientDeviceId ≠ deviceId)
    (h : (BepState.replaceIndex receivedIndex clientDeviceId).run s = .ok () s') :
    (∀ file ∈ receivedIndex.files, Accepted s.db receivedIndex.folder clientDeviceId file) ∧
      s'.db.bepIndex = s.db.bepIndex ∧
      s'.indices.indices.get ⟨receivedIndex.folder, deviceId⟩ =
        s.indices.indices.get ⟨receivedIndex.folder, deviceId⟩ := by
  rcases replaceIndex_run clientDeviceId s receivedIndex with ⟨e, s₁, hresult, -⟩ |
    ⟨files, tx, n, hnumbered, hwrite, hresult⟩
  · rw [hresult] at h
    cases h
  rw [hresult] at h
  obtain ⟨-, rfl⟩ := EStateM.Result.ok.inj h
  have haccepted := writeFiles_accepted
    (fun tx => Accepted tx receivedIndex.folder clientDeviceId)
    (fun _ _ _ => upsertFile_accepted) (fun _ _ _ hindex hf => ⟨hindex ▸ hf.1, hf.2⟩) hwrite
  refine ⟨Numbered.forall_mem hnumbered (fun _ _ hf => hf) haccepted, ?_, ?_⟩
  · have hindex : tx.bepIndex = (s.db.deleteFileInfo fun k =>
        k.folder = receivedIndex.folder && k.device = clientDeviceId).bepIndex :=
      (writeFiles_rel SideTables SideTables.refl SideTables.trans
        (fun _ _ _ _ h => upsertFile_sideTables h) hwrite).bepIndex
    exact hindex
  · apply AssocMap.get_insert_of_ne
    intro heq
    exact hpeer (FolderDevice.mk.inj heq).2.symm

/-- `insert_file_info` keeps the files of the device when what it is given deletes
nothing. -/
theorem insertFileInfo_filesKept {offered fileInfo : List FileInfo}
    (hoffered : ∀ file ∈ fileInfo, file ∈ offered)
    (hlast : (∀ file ∈ fileInfo, Accepted s.db folder localDeviceId file) →
      DeletesNothing s.db folder localDeviceId fileInfo)
    (h : RustM.endState ((BepState.insertFileInfo folder localDeviceId fileInfo).run s) = s') :
    FilesKept offered localDeviceId s.db s'.db := by
  rcases insertFileInfo_run folder localDeviceId s fileInfo with ⟨e, s₁, hresult, n, rfl⟩ |
    ⟨files, tx, n, hnumbered, hwrite, hresult⟩
  · rw [hresult] at h
    obtain rfl := h
    exact filesKept_of_stored fun _ _ => rfl
  rw [hresult, RustM.endState_ok] at h
  obtain rfl := h
  have haccepted := writeFiles_accepted (fun tx => Accepted tx folder localDeviceId)
    (fun _ _ _ => upsertFile_accepted) (fun _ _ _ hindex hf => ⟨hindex ▸ hf.1, hf.2⟩) hwrite
  have hlast := hlast (Numbered.forall_mem hnumbered (fun _ _ hf => hf) haccepted)
  have hstored := stored_upsertFiles hwrite
  intro key old hdevice hold hlive
  dsimp only
  by_cases hkey : key.folder = folder ∧ key.device = localDeviceId
  · obtain ⟨rfl, rfl⟩ := hkey
    rw [hstored, upsertAll_apply]
    cases hfile : lastNamed files key.name with
    | none => exact ⟨old, hold, hlive, Or.inl (SameContent.refl old)⟩
    | some file' =>
        obtain ⟨file, hfile₀, m, rfl⟩ := Numbered.lastNamed hnumbered hfile
        obtain ⟨hmem, hname⟩ := lastNamed_eq_some hfile₀
        obtain ⟨hdeleted, hblocks⟩ := hlast key.name old file hold hlive hfile₀
        have hkept : keptBlocks (some old) files key.name =
            keptBlocks (some old) fileInfo key.name := Numbered.keptBlocks hnumbered
        have hold' : stored s.db ⟨key.folder, key.device, key.name⟩ = some old := hold
        refine ⟨_, rfl, hdeleted, ?_⟩
        rw [hold', hkept]
        rcases hblocks with hown | ⟨hsize, hsame⟩
        · exact Or.inr ⟨file, hoffered file hmem, hname, hdeleted, rfl, hown.symm⟩
        · exact Or.inl ⟨hsize, hsame.symm⟩
  · rw [hstored, upsertAll_of_other hkey]
    exact ⟨old, hold, hlive, Or.inl (SameContent.refl old)⟩

/-- The section of `handle_index` that writes keeps the files of the device when the
`Index` offers no deletion. -/
theorem replaceIndices_filesKept (hpeer : clientDeviceId ≠ localDeviceId)
    (hoffers : (∀ file ∈ receivedIndex.files,
        Accepted s.db receivedIndex.folder clientDeviceId file) →
      ∀ diff, diffIndices receivedIndex.folder receivedIndex
          (known s receivedIndex.folder localDeviceId) = .ok (.ok diff) →
        (∀ file ∈ diff.newlyAddedFiles,
          Accepted s.db receivedIndex.folder localDeviceId file) →
        DeletesNothing s.db receivedIndex.folder localDeviceId diff.newlyAddedFiles)
    (h : RustM.endState
      ((BepProcessor.replaceIndices localDeviceId receivedIndex clientDeviceId).run s) = s') :
    FilesKept receivedIndex.files localDeviceId s.db s'.db := by
  unfold BepProcessor.replaceIndices at h
  dsimp only at h
  -- the files of the peer are replaced
  rcases RustM.endState_bind h with hend | ⟨⟨⟩, s₁, hreplace, h⟩
  · exact filesKept_of_stored fun k hk => replaceIndex_other hpeer hend hk
  have hlocal : ∀ k : FileKey, k.device = localDeviceId → stored s₁.db k = stored s.db k := by
    have hend := congrArg RustM.endState hreplace
    exact fun k hk => replaceIndex_other hpeer hend hk
  obtain ⟨haccepted, hindex, hentry⟩ := replaceIndex_eq_ok hpeer hreplace
  -- what is known of the device is what was known before
  obtain ⟨s₂, hindex₂⟩ : ∃ s₂, (BepState.index receivedIndex.folder localDeviceId).run s₁ =
      .ok (some (known s₁ receivedIndex.folder localDeviceId)) s₂ := ⟨_, index_run _ _ _⟩
  obtain ⟨-, hdb₂, -⟩ := entry_of_index hindex₂
  rw [EStateM.run_bind, hindex₂] at h
  dsimp only at h
  rw [Rust.expect_some, EStateM.run_bind, RustM.run_lift_ok] at h
  dsimp only at h
  have hlocal₂ : ∀ k : FileKey, k.device = localDeviceId → stored s₂.db k = stored s.db k := by
    intro k hk
    rw [hdb₂, hlocal k hk]
  rw [EStateM.run_bind] at h
  cases hdiff : diffOrPanic receivedIndex.folder receivedIndex
      (known s₁ receivedIndex.folder localDeviceId) with
  | error e =>
      rw [hdiff] at h
      obtain rfl : s₂ = s' := h
      exact filesKept_of_stored hlocal₂
  | ok diff =>
      rw [hdiff, RustM.run_lift_ok] at h
      dsimp only at h
      have hdiff := diffOrPanic_eq_ok hdiff
      have hoffered : ∀ file ∈ diff.newlyAddedFiles, file ∈ receivedIndex.files :=
        fun file hfile => mem_of_diffIndices hdiff hfile
      rw [diffIndices_congr rfl (lastNamed_known hentry hlocal)] at hdiff
      have hlast : (∀ file ∈ diff.newlyAddedFiles,
            Accepted s₂.db receivedIndex.folder localDeviceId file) →
          DeletesNothing s₂.db receivedIndex.folder localDeviceId diff.newlyAddedFiles := by
        intro haccepted₂ name old file hold
        rw [hlocal₂ _ rfl] at hold
        have hindex₂ : s₂.db.bepIndex = s.db.bepIndex := by rw [hdb₂, hindex]
        have haccepted' : ∀ file ∈ diff.newlyAddedFiles,
            Accepted s.db receivedIndex.folder localDeviceId file := by
          intro f hf
          exact ⟨hindex₂ ▸ (haccepted₂ f hf).1, (haccepted₂ f hf).2⟩
        exact hoffers haccepted diff hdiff haccepted' name old file hold
      rcases RustM.endState_bind h with hend | ⟨⟨⟩, s₃, hlast₃, hend⟩
      · exact filesKept_congr (insertFileInfo_filesKept hoffered hlast hend) hlocal₂
      · obtain rfl : s₃ = s' := hend
        have hend := congrArg RustM.endState hlast₃
        exact filesKept_congr (insertFileInfo_filesKept hoffered hlast hend) hlocal₂

end Messages

/-! ## Runs -/

section Runs

variable {hash : String → ℕ → ℕ → UInt64} {sha256 : Bytes → Bytes}
  {debugRequest : Request → String}

/-- An event that offers no deletion keeps the files of the device. -/
theorem keepsFiles_step {p p' : BepProcessor} {e : NodeEvent} (hoffers : OffersNoDeletion p e)
    (h : nodeStep hash sha256 debugRequest p e = some p') : KeepsFiles p e p' := by
  cases e with
  | index received peer clock =>
      intro hpeer
      have hend := Option.some.inj h
      rw [handleIndex_run] at hend
      rw [← hend, queueAfter_db]
      exact replaceIndices_filesKept hpeer hoffers rfl
  | indexUpdate received peer clock =>
      intro hpeer
      have hend := Option.some.inj h
      rw [handleIndexUpdate_run] at hend
      rw [← hend, queueAfter_db]
      exact updateIndices_filesKept hpeer rfl
  | response response outcomes => trivial
  | call e => trivial

/-- The handler of an index leaves the configuration. -/
theorem config_of_index {p p' : BepProcessor} {received : Index} {peer : DeviceId}
    {clock : ℕ → ℕ}
    (h : nodeStep hash sha256 debugRequest p (.index received peer clock) = some p') :
    p'.config = p.config := by
  have hend := Option.some.inj h
  rw [handleIndex_run] at hend
  rw [← hend, queueAfter_config]

/-- **Remote deletions never delete the backup, as far as an `Index` offers none.** In a run
of messages, answers and calls, from any state, every `IndexUpdate` and every `Index` keeps
the files of this device, when each `Index` offers no deletion in the state it is handled
in. -/
theorem keepsFiles_of_run {p : BepProcessor} {events : List NodeEvent}
    (hoffers : Transition.Meets (nodeStep hash sha256 debugRequest) OffersNoDeletion p events) :
    Transition.Along (nodeStep hash sha256 debugRequest) KeepsFiles p events := by
  refine Transition.along_of_meets ?_ hoffers
  intro p e p' hcond hstep
  exact keepsFiles_step hcond hstep

end Runs

/-! ## A peer that deletes a file -/

section Example

/-- The device that keeps the backup. -/
def thisDevice : DeviceId := ⟨Vector.replicate 32 0⟩

/-- The device that it comes from. -/
def peerDevice : DeviceId := ⟨Vector.replicate 32 1⟩

/-- A device that shares an empty folder with a peer. -/
def sharingNode : BepProcessor :=
  let config : GrizolConfig :=
    { localDeviceId := thisDevice, localBaseDir := "base", storageStrategy := .remote,
      rcloneConfig := none, remoteBaseDir := "bucket" }
  { config := config
    state := .new (.ofIndex [("default", thisDevice), ("default", peerDevice)])
    storageManager := .new config [] .empty }

/-- A file of one block, at a version. -/
def sharedFile (version : UInt64) (deleted : Bool) : FileInfo :=
  { name := "a", size := 1, blockSize := 1, deleted := deleted, version := some ⟨[⟨1, version⟩]⟩,
    blocks := [⟨0, 1, List.replicate 32 7, 0⟩] }

/-- A file the peer sends stays when an `IndexUpdate` has it flagged deleted. -/
theorem keepsFiles_of_run_updated :
    Transition.Along (nodeStep (fun _ _ _ => 0) id fun _ => "") KeepsFiles sharingNode
      [.index ⟨"default", [sharedFile 1 false]⟩ peerDevice fun _ => 0,
       .indexUpdate ⟨"default", [sharedFile 2 true]⟩ peerDevice fun _ => 0] := by
  have hoffers : Transition.Meets (nodeStep (fun _ _ _ => 0) id fun _ => "") OffersNoDeletion
      sharingNode [.index ⟨"default", [sharedFile 1 false]⟩ peerDevice fun _ => 0,
        .indexUpdate ⟨"default", [sharedFile 2 true]⟩ peerDevice fun _ => 0] := by
    refine ⟨?_, fun _ _ => ⟨trivial, fun _ _ => trivial⟩⟩
    intro _ diff _ _ name old file hold
    cases hold
  exact keepsFiles_of_run hoffers

/-- The file of this device after a number of messages of the peer. -/
def fileAfter (messages : List Index) : Option (Option Bool) :=
  (Transition.run (nodeStep (fun _ _ _ => 0) id fun _ => "") sharingNode
    (messages.map fun m => .index m peerDevice fun _ => 0)).map fun p =>
      (stored p.state.db ⟨"default", thisDevice, "a"⟩).map FileInfo.deleted

/-- A peer whose next `Index` has its file flagged deleted deletes the file here. -/
theorem deletedFile_not_kept :
    ¬ Transition.Along (nodeStep (fun _ _ _ => 0) id fun _ => "") KeepsFiles sharingNode
      [.index ⟨"default", [sharedFile 1 false]⟩ peerDevice fun _ => 0,
       .index ⟨"default", [sharedFile 2 true]⟩ peerDevice fun _ => 0] := by
  intro h
  have hbefore : fileAfter [⟨"default", [sharedFile 1 false]⟩] = some (some false) := by
    decide +kernel
  have hafter : fileAfter [⟨"default", [sharedFile 1 false]⟩, ⟨"default", [sharedFile 2 true]⟩] =
      some (some true) := by
    decide +kernel
  obtain ⟨p₁, hfirst⟩ : ∃ p₁, nodeStep (fun _ _ _ => 0) id (fun _ => "") sharingNode
      (.index ⟨"default", [sharedFile 1 false]⟩ peerDevice fun _ => 0) = some p₁ := ⟨_, rfl⟩
  obtain ⟨p₂, hsecond⟩ : ∃ p₂, nodeStep (fun _ _ _ => 0) id (fun _ => "") p₁
      (.index ⟨"default", [sharedFile 2 true]⟩ peerDevice fun _ => 0) = some p₂ := ⟨_, rfl⟩
  have hconfig : p₁.config = sharingNode.config := config_of_index hfirst
  obtain ⟨-, hnext⟩ := h p₁ hfirst
  obtain ⟨hkeeps, -⟩ := hnext p₂ hsecond
  simp only [fileAfter, List.map_cons, List.map_nil, Transition.run_cons, Transition.run_nil, hfirst,
    hsecond, Option.bind_some, Option.map_some, Option.some.injEq] at hbefore hafter
  obtain ⟨old, hold, hlive⟩ := Option.map_eq_some_iff.mp hbefore
  have hpeer : peerDevice ≠ p₁.config.localDeviceId := by
    rw [hconfig]
    decide
  have hdevice : thisDevice = p₁.config.localDeviceId := by
    rw [hconfig]
    rfl
  obtain ⟨new, hnew, hkept, -⟩ := hkeeps hpeer ⟨"default", thisDevice, "a"⟩ old hdevice hold hlive
  rw [hnew, Option.map_some, Option.some.injEq, hkept] at hafter
  cases hafter

end Example

end Grizol.Analysis

import Grizol.Analysis.BackupDeletion
import Grizol.Analysis.ServerTurns

/-!
# A client is told the indices of the folders it shares

A row of `bep_index` is added for an announced folder only, and none is ever removed. So a
handler that has added the rows of its cluster config still finds them when it comes to
read the indices, and finds none but those that may be disclosed.
-/

set_option autoImplicit false

namespace Grizol.Analysis

open Grizol.Library Grizol.Model Grizol.Interface
open Grizol.Model.Syncthing

variable {codec : Codec} {hash : String → ℕ → ℕ → UInt64} {sha256 : Bytes → Bytes}
  {debugRequest : Request → String} {config : ConnectionConfig}

/-! ## Rows of announced folders -/

section Rows

variable {s s' : ServerState} {localDeviceId clientDeviceId : DeviceId}

/-- A folder whose index is returned has rows of both devices. -/
theorem mem_sharedIndexFolders {db : Database} {id : DeviceId} {folder : String} :
    folder ∈ BepState.sharedIndexFolders db id clientDeviceId ↔
      (folder, id) ∈ db.bepIndex ∧ (folder, clientDeviceId) ∈ db.bepIndex := by
  unfold BepState.sharedIndexFolders
  simp only [List.mem_flatMap, List.mem_map, List.mem_filter, Bool.and_eq_true, decide_eq_true_eq]
  constructor
  · rintro ⟨⟨f, d⟩, ha, ⟨f', d'⟩, ⟨hb, ⟨rfl, rfl⟩, rfl⟩, rfl⟩
    exact ⟨ha, hb⟩
  · rintro ⟨ha, hb⟩
    exact ⟨(folder, id), ha, (folder, clientDeviceId), ⟨hb, ⟨rfl, rfl⟩, rfl⟩, rfl⟩

/-- A folder that was shared with a device has a row. -/
theorem initIndex_ok {folder : String} {deviceId : DeviceId} {u : Unit}
    (h : (ServerState.initIndex folder deviceId).run s = .ok u s') :
    (folder, deviceId) ∈ s'.processor.state.db.bepIndex := by
  unfold ServerState.initIndex at h
  obtain ⟨s₀, s₁, hget, h⟩ := RustM.run_bind_eq_ok.mp h
  obtain ⟨rfl, rfl⟩ := EStateM.Result.ok.inj hget
  dsimp only at h
  split_ifs at h
  · have hend := onBepState_run (modify fun s : BepState =>
      { s with db := s.db.insertIndex folder deviceId }) s
    rw [h, RustM.endState_ok] at hend
    rw [hend]
    exact List.mem_insert_self
  · cases h

/-- The folders that were shared have rows for both devices. -/
theorem initIndices_ok {folders : List String} {u : Unit}
    (h : (ServerState.initIndices clientDeviceId localDeviceId folders).run s = .ok u s') :
    ∀ f ∈ folders, (f, clientDeviceId) ∈ s'.processor.state.db.bepIndex ∧
      (f, localDeviceId) ∈ s'.processor.state.db.bepIndex := by
  induction folders generalizing s with
  | nil => simp
  | cons folder folders ih =>
      obtain ⟨u₁, s₁, hclient, h⟩ := RustM.run_bind_eq_ok.mp h
      obtain ⟨u₂, s₂, hlocal, h⟩ := RustM.run_bind_eq_ok.mp h
      have hboth : Shares (fun _ => True) s₁ s₂ := by
        have hshares : Shares (fun _ => True) s₁
            (RustM.endState ((ServerState.initIndex folder localDeviceId).run s₁)) :=
          shares_initIndex trivial
        rwa [hlocal] at hshares
      have hrest : Shares (fun _ => True) s₂ s' := by
        have hshares : Shares (fun _ => True) s₂ (RustM.endState
            ((ServerState.initIndices clientDeviceId localDeviceId folders).run s₂)) :=
          shares_initIndices (fun _ _ => trivial) (fun _ _ => trivial)
        rwa [h] at hshares
      intro f hf
      rcases List.mem_cons.mp hf with rfl | hf
      · exact ⟨hrest.kept _ (hboth.kept _ (initIndex_ok hclient)),
          hrest.kept _ (initIndex_ok hlocal)⟩
      · exact ih h f hf

/-- Each folder that a cluster config announces has rows of both devices afterwards. -/
theorem shareFolders_ok {clusterConfig : ClusterConfig} {u : Unit}
    (h : (ServerState.shareFolders clusterConfig clientDeviceId).run s = .ok u s')
    {folder : String}
    (hfolder : AnnouncesTo s.processor.config.localDeviceId clusterConfig folder) :
    (folder, clientDeviceId) ∈ s'.processor.state.db.bepIndex ∧
      (folder, s.processor.config.localDeviceId) ∈ s'.processor.state.db.bepIndex := by
  unfold ServerState.shareFolders at h
  obtain ⟨s₀, s₁, hget, h⟩ := RustM.run_bind_eq_ok.mp h
  obtain ⟨rfl, rfl⟩ := EStateM.Result.ok.inj hget
  obtain ⟨tables, s₂, -, h⟩ := RustM.run_bind_eq_ok.mp h
  obtain ⟨u₁, s₃, -, h⟩ := RustM.run_bind_eq_ok.mp h
  obtain ⟨folders, s₄, hfolders, h⟩ := RustM.run_bind_eq_ok.mp h
  refine initIndices_ok h folder ?_
  cases hids : ServerState.foldersSharedWithMe s.processor.config.localDeviceId
      clusterConfig.folders with
  | error e =>
      rw [hids, RustM.run_lift_error] at hfolders
      cases hfolders
  | ok ids =>
      rw [hids, RustM.run_lift_ok] at hfolders
      obtain ⟨rfl, -⟩ := EStateM.Result.ok.inj hfolders
      exact (foldersSharedWithMe_iff hids folder).mpr hfolder

/-- One index is returned for each folder. -/
theorem folders_of_indicesOfFolders (deviceId : DeviceId) {folders : List String}
    {indices : List Index} {s s' : BepState} (hnamed : EntriesNamed s)
    (h : (BepState.indicesOfFolders [deviceId] folders).run s = .ok indices s') :
    indices.map Index.folder = folders := by
  induction folders generalizing s indices with
  | nil =>
      obtain ⟨rfl, -⟩ := EStateM.Result.ok.inj h
      rfl
  | cons folder folders ih =>
      obtain ⟨first, s₁, hfirst, h⟩ := RustM.run_bind_eq_ok.mp h
      obtain ⟨rest, s₂, hrest, h⟩ := RustM.run_bind_eq_ok.mp h
      obtain ⟨rfl, rfl⟩ := EStateM.Result.ok.inj h
      obtain ⟨index, s₃, hindex, hfirst⟩ := RustM.run_bind_eq_ok.mp hfirst
      obtain ⟨no, s₄, hno, hfirst⟩ := RustM.run_bind_eq_ok.mp hfirst
      obtain ⟨rfl, rfl⟩ := EStateM.Result.ok.inj hno
      obtain ⟨rfl, rfl⟩ := EStateM.Result.ok.inj hfirst
      have hafter := hnamed.of_loads (loadsEntries_index folder deviceId s)
      rw [hindex, RustM.endState_ok] at hafter
      rw [index_run] at hindex
      obtain ⟨rfl, -⟩ := EStateM.Result.ok.inj hindex
      simp [folder_of_known hnamed folder deviceId, ih hafter hrest]

/-- The indices the handler reads are those of the folders that both devices have one of. -/
theorem indicesOf_folders {indices : List Index}
    (hnamed : EntriesNamed s.processor.state)
    (h : (ServerState.onBepState (BepState.indicesOf none (some localDeviceId)
      clientDeviceId)).run s = .ok indices s') (folder : String) :
    (∃ i ∈ indices, i.folder = folder) ↔
      (folder, localDeviceId) ∈ s.processor.state.db.bepIndex ∧
        (folder, clientDeviceId) ∈ s.processor.state.db.bepIndex := by
  obtain ⟨t, hrun⟩ := onBepState_eq_ok h
  rw [indicesOf_run] at hrun
  rw [← mem_sharedIndexFolders, ← folders_of_indicesOfFolders localDeviceId hnamed hrun,
    List.mem_map]

end Rows

/-! ## Turns of other handlers -/

section Turns

/-- The writers of indices leave `bep_index`. -/
theorem bepIndex_of_indexWrites {db db' : Database} (h : IndexWrites db db') :
    db'.bepIndex = db.bepIndex := by
  induction h with
  | refl => rfl
  | clear _ folder deviceId ih => exact ih
  | upsert _ hwrite ih => exact (upsertFile_sideTables hwrite).bepIndex.trans ih
  | replace _ hwrite ih => exact (replaceFile_sideTables hwrite).bepIndex.trans ih

/-- Entries of the cache stay under their folders, and none is dropped. -/
structure KeepsEntries (s s' : BepState) : Prop where
  named : EntriesNamed s → EntriesNamed s'
  entries : ∀ key, s.indices.indices.contains key = true → s'.indices.indices.contains key = true

/-- Without a change the entries stay. -/
theorem KeepsEntries.refl (s : BepState) : KeepsEntries s s := ⟨id, fun _ h => h⟩

/-- Entries that stay twice stay. -/
theorem KeepsEntries.trans {s s' s'' : BepState} (h : KeepsEntries s s')
    (h' : KeepsEntries s' s'') : KeepsEntries s s'' :=
  ⟨fun hs => h'.named (h.named hs), fun key hkey => h'.entries key (h.entries key hkey)⟩

variable {s : BepState}

/-- The same indices have the same entries. -/
theorem KeepsEntries.of_same {s' : BepState} (h : s'.indices = s.indices) : KeepsEntries s s' := by
  refine ⟨fun hs key entry hentry => hs key entry ?_, fun key hkey => ?_⟩
  · rw [← h]
    exact hentry
  · rw [h]
    exact hkey

/-- A panic leaves the entries. -/
theorem keepsEntries_of_aborts {α : Type} {x : RustM BepState α} (h : Aborts s x) :
    KeepsEntries s (RustM.endState (x.run s)) := by
  obtain ⟨e, s', hrun, n, rfl⟩ := h
  rw [hrun]
  exact .of_same rfl

/-- One entry may be written anew under its own folder. -/
theorem keepsEntries_of_entry {s' : BepState} {key : FolderDevice} {entry : GrizolIndex}
    (hentry : EntriesNamed s → entry.folder = key.folder)
    (hget : ∀ k, s'.indices.indices.get k =
      if k = key then some entry else s.indices.indices.get k) : KeepsEntries s s' := by
  refine ⟨fun h => h.of_entry (hentry h) hget, fun k hk => ?_⟩
  rw [AssocMap.contains, hget]
  split_ifs
  · rfl
  · exact hk

/-- Reading an index caches it, and afterwards it is cached. -/
theorem keepsEntries_index (folder : String) (deviceId : DeviceId) :
    KeepsEntries s (RustM.endState ((BepState.index folder deviceId).run s)) ∧
      ∀ i s', (BepState.index folder deviceId).run s = .ok i s' →
        s'.indices.indices.contains ⟨folder, deviceId⟩ = true := by
  rw [index_run, RustM.endState_ok]
  split_ifs with hknown
  · refine ⟨.refl s, fun i s' h => ?_⟩
    obtain ⟨-, rfl⟩ := EStateM.Result.ok.inj h
    exact hknown
  · refine ⟨keepsEntries_of_entry (fun _ => rfl)
      fun k => AssocMap.get_insert _ _ _ _, fun i s' h => ?_⟩
    obtain ⟨-, rfl⟩ := EStateM.Result.ok.inj h
    rw [AssocMap.contains]
    simp [GrizolIndices.insert, BepState.loadIndex]

/-- Files are put into an entry that is there. -/
theorem keepsEntries_insertFiles {folder : String} {deviceId : DeviceId}
    (hknown : s.indices.indices.contains ⟨folder, deviceId⟩ = true) (files : List FileInfo)
    {s' : BepState} (h : s'.indices = s.indices.insertFileInfo folder deviceId files) :
    KeepsEntries s s' := by
  obtain ⟨entry, hentry⟩ := Option.isSome_iff_exists.mp hknown
  refine keepsEntries_of_entry (fun hnamed => ?_) fun k => by
    rw [h, get_insertFileInfo folder deviceId s.indices files k]
  show ((s.indices.indices.get ⟨folder, deviceId⟩).getD .default).folder = folder
  rw [hentry, Option.getD_some]
  exact hnamed _ _ hentry

/-- Adding files to a cached index adds no entry. -/
theorem keepsEntries_insertFileInfo {folder : String} {deviceId : DeviceId}
    (hknown : s.indices.indices.contains ⟨folder, deviceId⟩ = true) (fileInfo : List FileInfo) :
    KeepsEntries s
      (RustM.endState ((BepState.insertFileInfo folder deviceId fileInfo).run s)) := by
  rcases insertFileInfo_run folder deviceId s fileInfo with habort | ⟨files, tx, n, -, -, hrun⟩
  · exact keepsEntries_of_aborts habort
  · rw [hrun]
    exact keepsEntries_insertFiles hknown files rfl

/-- Nor does replacing files of one. -/
theorem keepsEntries_rmReplaceFileInfo {folder : String} {deviceId : DeviceId}
    (hknown : s.indices.indices.contains ⟨folder, deviceId⟩ = true) (fileInfo : List FileInfo) :
    KeepsEntries s
      (RustM.endState ((BepState.rmReplaceFileInfo folder deviceId fileInfo).run s)) := by
  rcases rmReplaceFileInfo_run folder deviceId s fileInfo with habort | ⟨files, tx, n, -, -, hrun⟩
  · exact keepsEntries_of_aborts habort
  · rw [hrun]
    exact keepsEntries_insertFiles hknown _ rfl

/-- A new index is cached under its own folder. -/
theorem keepsEntries_replaceIndex (index : Index) (deviceId : DeviceId) :
    KeepsEntries s (RustM.endState ((BepState.replaceIndex index deviceId).run s)) := by
  rcases replaceIndex_run deviceId s index with habort | ⟨files, tx, n, -, -, hrun⟩
  · exact keepsEntries_of_aborts habort
  · rw [hrun]
    exact keepsEntries_of_entry (fun _ => rfl)
      fun k => AssocMap.get_insert _ _ _ _

/-- A step that does not touch the state. -/
theorem keepsEntries_lift {α β : Type} {x : Rust α} {f : α → RustM BepState β}
    (h : ∀ a, KeepsEntries s (RustM.endState ((f a).run s))) :
    KeepsEntries s (RustM.endState (EStateM.run (liftM x >>= f) s)) := by
  rw [EStateM.run_bind]
  cases x with
  | ok a => exact h a
  | error e => exact .refl s

variable (localDeviceId : DeviceId) (received : Index) (clientDeviceId : DeviceId)

/-- The first section of the handler of an index. -/
theorem keepsEntries_replaceIndices : KeepsEntries s (RustM.endState
    ((BepProcessor.replaceIndices localDeviceId received clientDeviceId).run s)) := by
  unfold BepProcessor.replaceIndices
  refine RustM.endState_bind_rel KeepsEntries KeepsEntries.trans
    (keepsEntries_replaceIndex received clientDeviceId) fun _ s₁ _ => ?_
  refine RustM.endState_bind_rel KeepsEntries KeepsEntries.trans
    (keepsEntries_index received.folder localDeviceId).1 fun _ s₂ hindex => ?_
  refine keepsEntries_lift fun _ => keepsEntries_lift fun _ => ?_
  refine RustM.endState_bind_rel KeepsEntries KeepsEntries.trans (keepsEntries_insertFileInfo
    ((keepsEntries_index received.folder localDeviceId).2 _ _ hindex) _) fun _ s₃ _ => ?_
  exact .refl s₃

/-- The first section of the handler of an index update. -/
theorem keepsEntries_updateIndices : KeepsEntries s (RustM.endState
    ((BepProcessor.updateIndices localDeviceId received clientDeviceId).run s)) := by
  unfold BepProcessor.updateIndices
  refine RustM.endState_bind_rel KeepsEntries KeepsEntries.trans
    (keepsEntries_index received.folder clientDeviceId).1 fun _ s₁ hindex => ?_
  refine keepsEntries_lift fun _ => keepsEntries_lift fun _ => ?_
  refine RustM.endState_bind_rel KeepsEntries KeepsEntries.trans (keepsEntries_rmReplaceFileInfo
    ((keepsEntries_index received.folder clientDeviceId).2 _ _ hindex) _) fun _ s₂ _ => ?_
  refine RustM.endState_bind_rel KeepsEntries KeepsEntries.trans
    (keepsEntries_index received.folder localDeviceId).1 fun _ s₃ hlocal => ?_
  refine keepsEntries_lift fun _ => ?_
  -- the entry of this device is still there after the other one is read again
  have hkept := (keepsEntries_index (s := s₃) received.folder clientDeviceId).1.entries _
    ((keepsEntries_index received.folder localDeviceId).2 _ _ hlocal)
  refine RustM.endState_bind_rel KeepsEntries KeepsEntries.trans
    (keepsEntries_index received.folder clientDeviceId).1 fun _ s₄ hclient => ?_
  rw [hclient, RustM.endState_ok] at hkept
  refine keepsEntries_lift fun _ => keepsEntries_lift fun _ => ?_
  refine RustM.endState_bind_rel KeepsEntries KeepsEntries.trans
    (keepsEntries_rmReplaceFileInfo hkept _) fun _ s₅ _ => ?_
  exact .refl s₅

/-- The first section of either handler. -/
theorem keepsEntries_writeIndices (h : IndexHandler) : KeepsEntries s
    (RustM.endState ((h.writeIndices localDeviceId).run s)) := by
  obtain ⟨message, peer, clock, pc⟩ := h
  unfold IndexHandler.writeIndices
  cases message with
  | index received => exact keepsEntries_replaceIndices localDeviceId received peer
  | indexUpdate received => exact keepsEntries_updateIndices localDeviceId _ peer

/-- What a turn does to the rows of `bep_index` and to the entries of the cache. -/
structure AddsRows (rows : String × DeviceId → Prop) (s s' : ServerState) : Prop where
  config : s'.processor.config = s.processor.config
  index : ∀ row ∈ s'.processor.state.db.bepIndex, row ∈ s.processor.state.db.bepIndex ∨ rows row
  kept : ∀ row ∈ s.processor.state.db.bepIndex, row ∈ s'.processor.state.db.bepIndex
  named : EntriesNamed s.processor.state → EntriesNamed s'.processor.state

/-- What shares folders adds only their rows. -/
theorem Shares.addsRows {rows : String × DeviceId → Prop} {s s' : ServerState}
    (h : Shares rows s s') : AddsRows rows s s' :=
  ⟨h.config, h.index, h.kept, fun hnamed => hnamed.of_loads h.entries⟩

/-- A turn that leaves `bep_index` adds no rows. -/
theorem AddsRows.of_same {rows : String × DeviceId → Prop} {s : ServerState} {p : BepProcessor}
    (hconfig : p.config = s.processor.config)
    (hrows : p.state.db.bepIndex = s.processor.state.db.bepIndex)
    (hentries : KeepsEntries s.processor.state p.state) :
    AddsRows rows s { s with processor := p } where
  config := hconfig
  index _ hrow := .inl (hrows ▸ hrow)
  kept _ hrow := hrows ▸ hrow
  named := hentries.named

variable {s : ServerState}

/-- A turn of a handler of an index adds no rows. -/
theorem addsRows_index {rows : String × DeviceId → Prop} (h : IndexHandler) :
    AddsRows rows s { s with processor := (h.act s.processor).2 } := by
  cases hpc : h.pc with
  | writeIndices =>
      rw [(act_writeIndices s.processor hpc).1]
      exact .of_same rfl (bepIndex_of_indexWrites (writeIndices_writes _ _ h).db)
        (keepsEntries_writeIndices _ h)
  | enqueue blocks =>
      rw [(act_enqueue s.processor hpc).1]
      let part (s : BepState) := (s.db.bepIndex, s.indices)
      have hpart : ∀ (s : BepState) q n, part { s with outgoingRequests := q, requestId := n } =
          part s := fun _ _ _ => rfl
      obtain ⟨hindex, hindices⟩ :=
        Prod.mk.inj (storeOutgoingRequests_part hpart blocks h.clock s.processor.state)
      exact .of_same rfl hindex (.of_same hindices)
  | returned | panicked e =>
      unfold IndexHandler.act
      rw [hpc]
      exact .of_same rfl rfl (.refl _)

/-- A turn of a handler of a response leaves the rows and the entries. -/
theorem stateAfter_rows (h : ResponseHandler) (p : BepProcessor) :
    (stateAfter h p).db.bepIndex = p.state.db.bepIndex ∧
      (stateAfter h p).indices = p.state.indices := by
  unfold stateAfter
  cases h.pc with
  | updateState request fileSize blockSize =>
      dsimp only
      rcases updateBlockStorageState_run h.response.id p.config.localDeviceId p.state with
        ⟨e, hrun⟩ | ⟨r, status, -, hrun⟩
      · rw [hrun]
        exact ⟨rfl, rfl⟩
      · rw [hrun]
        exact ⟨rfl, rfl⟩
  | updateLocations request locations =>
      dsimp only
      rw [BepState.updateFileLocations, EStateM.run_bind, RustM.run_getThe]
      dsimp only
      cases hinsert : BepState.insertLocations ⟨request.folder, p.config.localDeviceId,
          request.name⟩ locations p.state.db with
      | error e => exact ⟨rfl, rfl⟩
      | ok tx => exact ⟨insertLocations_part Database.bepIndex (fun _ _ _ => rfl) hinsert, rfl⟩
  | removeRequest stored =>
      dsimp only
      rw [BepState.removeRequest, onQueue_run]
      exact ⟨rfl, rfl⟩
  | _ => exact ⟨rfl, rfl⟩

/-- The rows a turn of a handler may add. -/
def addedRows (localDeviceId : DeviceId) : MessageHandler → String × DeviceId → Prop
  | .clusterConfig h => AnnouncedRow localDeviceId h.clientDeviceId h.received
  | _ => fun _ => False

/-- A turn of any handler adds only the rows of its config. -/
theorem addsRows_act (hash : String → ℕ → ℕ → UInt64) (sha256 : Bytes → Bytes)
    (debugRequest : Request → String) (s : ServerState) (h : MessageHandler)
    (outcome : TurnOutcome) :
    AddsRows (addedRows s.processor.config.localDeviceId h) s
      (h.act hash sha256 debugRequest outcome s).2 := by
  cases h with
  | clusterConfig h => exact (shares_act h s).addsRows
  | index h => exact addsRows_index h
  | response h =>
      obtain ⟨hstate, hconfig⟩ : (h.act hash sha256 debugRequest s.processor outcome).2.state =
          stateAfter h s.processor ∧ _ := act_state h s.processor outcome
      obtain ⟨hrows, hentries⟩ := stateAfter_rows h s.processor
      rw [← hstate] at hrows hentries
      exact .of_same hconfig hrows (.of_same hentries)
  | returned results | panicked e => exact .of_same rfl rfl (.refl _)

/-- The loop adds no rows. -/
theorem addsRows_requestsFor (rows : String × DeviceId → Prop) (config : ConnectionConfig)
    (s : ServerState) (event : GrizolEvent) :
    AddsRows rows s
      ⟨RustM.endState ((Connection.requestsFor config event).run s.processor),
        s.sharedFolders⟩ := by
  cases event with
  | message m => exact .of_same rfl rfl (.refl _)
  | requestProcessed | requestCreated =>
      dsimp only [Connection.requestsFor]
      rw [BepProcessor.throttledRequests, BepProcessor.onState_run, BepState.updatePendingRequests,
        onQueue_run]
      exact .of_same rfl rfl (.of_same rfl)

/-- No step changes the configuration. -/
theorem config_of_moved {k k' : Connection} {event : ConnectionEvent} {s' : ServerState}
    (hmoved : Moved codec hash sha256 debugRequest config k s event k' s') :
    s'.processor.config = s.processor.config := by
  cases hmoved with
  | turn i input task task' queued s' htask hturned hqueued =>
      cases hturned with
      | act h messages => exact (addsRows_act hash sha256 debugRequest s h input.outcome).config
      | _ => rfl
  | broken event events p outcome hevents hp hwritten =>
      rw [hp]
      exact (addsRows_requestsFor (fun _ => True) config s event).config
  | wrote event events requests p data outcome hevents hrequests hdata =>
      have hadds := addsRows_requestsFor (fun _ => True) config s event
      rw [hrequests] at hadds
      exact hadds.config
  | _ => rfl

end Turns

/-! ## What tasks know -/

section Tasks

variable (db : Database) (localDeviceId : DeviceId) (announced : List (DeviceId × ClusterConfig))
  (clientDeviceId : DeviceId) (rows : List (String × DeviceId))

/-- Indices that answer a cluster config. -/
structure IndicesTold (received : ClusterConfig) (indices : List Index) : Prop where
  sound : ∀ i ∈ indices, Disclosed db localDeviceId announced clientDeviceId i.folder
  complete : ∀ folder, AnnouncesTo localDeviceId received folder → ∃ i ∈ indices, i.folder = folder

/-- What the handler of a cluster config knows at each of its turns. -/
def PcTold (received : ClusterConfig) : ClusterConfigPc → Prop
  | .shareFolders | .panicked _ => True
  | .indices => ∀ folder, AnnouncesTo localDeviceId received folder →
      (folder, clientDeviceId) ∈ rows ∧ (folder, localDeviceId) ∈ rows
  | .clusterConfig indices | .returned _ indices =>
      IndicesTold db localDeviceId announced clientDeviceId received indices

/-- What is returned for a message. -/
def ResultsTold (results : List (Except BepProcessorError GrizolEvent)) : Prop :=
  ∀ i, .ok (.message (.index i)) ∈ results →
    Disclosed db localDeviceId announced clientDeviceId i.folder

/-- What the handler of a cluster config knows. -/
def ConfigTold (h : ClusterConfigHandler) : Prop :=
  h.clientDeviceId = clientDeviceId ∧ (clientDeviceId, h.received) ∈ announced ∧
    PcTold db localDeviceId announced clientDeviceId rows h.received h.pc

/-- What any handler knows. -/
abbrev HandlerTold : MessageHandler → Prop :=
  HandlerFollows (ConfigTold db localDeviceId announced clientDeviceId rows)
    (ResultsTold db localDeviceId announced clientDeviceId)

/-- What is known of a message to the client. -/
def MessageTold (m : CompleteMessage) : Prop :=
  ∀ i, m = .index i → Disclosed db localDeviceId announced clientDeviceId i.folder

variable {db localDeviceId announced clientDeviceId rows}

/-- With more announced, no less is disclosed. -/
theorem disclosed_mono {announced' : List (DeviceId × ClusterConfig)} {folder : String}
    (h : Disclosed db localDeviceId announced clientDeviceId folder)
    (hmore : announced ⊆ announced') :
    Disclosed db localDeviceId announced' clientDeviceId folder :=
  h.imp_right fun ⟨x, hx, hfolder⟩ => ⟨x, hmore hx, hfolder⟩

/-- With more announced, the indices still tell no more. -/
theorem IndicesTold.mono {announced' : List (DeviceId × ClusterConfig)} {received : ClusterConfig}
    {indices : List Index}
    (h : IndicesTold db localDeviceId announced clientDeviceId received indices)
    (hmore : announced ⊆ announced') :
    IndicesTold db localDeviceId announced' clientDeviceId received indices :=
  ⟨fun i hi => disclosed_mono (h.sound i hi) hmore, h.complete⟩

/-- With more announced, the results still tell no more. -/
theorem ResultsTold.mono {announced' : List (DeviceId × ClusterConfig)}
    {results : List (Except BepProcessorError GrizolEvent)}
    (h : ResultsTold db localDeviceId announced clientDeviceId results)
    (hmore : announced ⊆ announced') :
    ResultsTold db localDeviceId announced' clientDeviceId results :=
  fun i hi => disclosed_mono (h i hi) hmore

/-- With more announced and more rows, the handler is still as it should be. -/
theorem ConfigTold.mono {announced' : List (DeviceId × ClusterConfig)}
    {rows' : List (String × DeviceId)} {h : ClusterConfigHandler}
    (hh : ConfigTold db localDeviceId announced clientDeviceId rows h)
    (hmore : announced ⊆ announced') (hrows : rows ⊆ rows') :
    ConfigTold db localDeviceId announced' clientDeviceId rows' h := by
  obtain ⟨hclient, hreceived, hpc⟩ := hh
  refine ⟨hclient, hmore hreceived, ?_⟩
  cases hcase : h.pc with
  | shareFolders | panicked e => trivial
  | indices =>
      rw [hcase] at hpc
      exact fun folder hfolder => ⟨hrows (hpc folder hfolder).1, hrows (hpc folder hfolder).2⟩
  | clusterConfig indices | returned c indices =>
      rw [hcase] at hpc
      exact hpc.mono hmore

/-- Results without an index or a cluster config. -/
theorem resultsTold_of_other {results : List (Except BepProcessorError GrizolEvent)}
    (h : RepliesToOther results) : ResultsTold db localDeviceId announced clientDeviceId results :=
  fun i hi => absurd hi (h.index i)

variable {s : ServerState}

/-- The rows that are there are of folders that may be disclosed. -/
structure RowsTold (db : Database) (localDeviceId : DeviceId)
    (announced : List (DeviceId × ClusterConfig)) (s : ServerState) : Prop where
  device : s.processor.config.localDeviceId = localDeviceId
  named : EntriesNamed s.processor.state
  rows : ∀ row ∈ s.processor.state.db.bepIndex, Disclosed db localDeviceId announced row.2 row.1

/-- Where only disclosed rows are added, every row is disclosed. -/
theorem RowsTold.of_addsRows {added : String × DeviceId → Prop} {s' : ServerState}
    (h : RowsTold db localDeviceId announced s) (hadds : AddsRows added s s')
    (hadded : ∀ row, added row → Disclosed db localDeviceId announced row.2 row.1) :
    RowsTold db localDeviceId announced s' where
  device := by rw [hadds.config, h.device]
  named := hadds.named h.named
  rows row hrow := (hadds.index row hrow).elim (h.rows row) (hadded row)

/-- What the handler of a cluster config returns with the last of its turns. -/
theorem answersConfig_of_returned {h : ClusterConfigHandler}
    {results : List (Except BepProcessorError GrizolEvent)}
    (hh : ConfigTold db localDeviceId announced clientDeviceId rows h)
    (hreturned : MessageHandler.ofClusterConfig (h.act s).1 = .returned results) :
    AnswersConfig db localDeviceId announced ⟨clientDeviceId, h.received, results⟩ := by
  obtain ⟨received, client, pc⟩ := h
  obtain ⟨rfl, hreceived, hpc⟩ : client = clientDeviceId ∧ _ := hh
  unfold ClusterConfigHandler.act at hreturned
  cases pc with
  | shareFolders =>
      dsimp only at hreturned
      cases hrun : (ServerState.shareFolders received client).run s with
      | error e s₁ | ok u s₁ =>
          rw [hrun] at hreturned
          cases hreturned
  | indices =>
      dsimp only at hreturned
      cases hrun : (ServerState.onBepState (BepState.indicesOf none
          (some s.processor.config.localDeviceId) client)).run s with
      | error e s₁ | ok indices s₁ =>
          rw [hrun] at hreturned
          cases hreturned
  | clusterConfig indices | returned c indices =>
      obtain rfl := MessageHandler.returned.inj hreturned
      refine ⟨hreceived, fun i hi => ?_, fun folder hfolder => ?_⟩
      · obtain ⟨i', hi', heq⟩ := List.mem_map.mp ((List.mem_cons.mp hi).resolve_left (by simp))
        cases heq
        exact hpc.sound i hi'
      · obtain ⟨i, hi, hfolder⟩ := hpc.complete folder hfolder
        exact ⟨i, List.mem_cons_of_mem _ (List.mem_map.mpr ⟨i, hi, rfl⟩), hfolder⟩
  | panicked e => cases hreturned

/-- One turn of the handler of a cluster config. -/
theorem handlerTold_clusterConfig (hs : RowsTold db localDeviceId announced s)
    {h : ClusterConfigHandler}
    (hh : ConfigTold db localDeviceId announced clientDeviceId s.processor.state.db.bepIndex h) :
    HandlerTold db localDeviceId announced clientDeviceId (h.act s).2.processor.state.db.bepIndex
      (.ofClusterConfig (h.act s).1) := by
  have hanswers := fun results (h' : _ = MessageHandler.returned results) =>
    answersConfig_of_returned (s := s) hh h'
  obtain ⟨received, client, pc⟩ := h
  obtain ⟨rfl, hreceived, hpc⟩ : client = clientDeviceId ∧ _ := hh
  unfold ClusterConfigHandler.act
  cases pc with
  | shareFolders =>
      dsimp only
      cases hrun : (ServerState.shareFolders received client).run s with
      | error e s₁ => trivial
      | ok u s₁ =>
          refine ⟨rfl, hreceived, fun folder hfolder => ?_⟩
          rw [← hs.device] at hfolder ⊢
          exact shareFolders_ok hrun hfolder
  | indices =>
      dsimp only
      cases hrun : (ServerState.onBepState (BepState.indicesOf none
          (some s.processor.config.localDeviceId) client)).run s with
      | error e s₁ => trivial
      | ok indices s₁ =>
          have hfolders := indicesOf_folders hs.named hrun
          rw [hs.device] at hfolders
          refine ⟨rfl, hreceived, fun i hi => ?_, fun folder hfolder => ?_⟩
          · exact hs.rows _ ((hfolders i.folder).mp ⟨i, hi, rfl⟩).2
          · exact (hfolders folder).mpr ((hpc folder hfolder).symm)
  | clusterConfig indices | returned c indices => exact (hanswers _ rfl).sound
  | panicked e => trivial

end Tasks

/-! ## Runs -/

section Runs

variable {db : Database} {localDeviceId : DeviceId} {announced : List (DeviceId × ClusterConfig)}
  {s s' : ServerState} {k k' : Connection} {event : ConnectionEvent} {r : ConnectionRecord}

/-- What a connection knows, and what it has told its client. -/
def ClientTold (db : Database) (localDeviceId : DeviceId)
    (announced : List (DeviceId × ClusterConfig)) (s : ServerState) (k : Connection)
    (r : ConnectionRecord) : Prop :=
  ConnectionFollows
    (HandlerTold db localDeviceId announced k.clientDeviceId s.processor.state.db.bepIndex)
    (MessageTold db localDeviceId announced k.clientDeviceId) k r

/-- With more announced, the connection is still as it should be. -/
theorem ClientTold.mono {announced' : List (DeviceId × ClusterConfig)}
    (h : ClientTold db localDeviceId announced s k r) (hmore : announced ⊆ announced')
    (hrows : s.processor.state.db.bepIndex ⊆ s'.processor.state.db.bepIndex) :
    ClientTold db localDeviceId announced' s' k r :=
  ConnectionFollows.mono h
    (fun _ hh => hh.mono (fun _ hC => hC.mono hmore hrows) fun _ hR => hR.mono hmore)
    fun _ hm i hi => disclosed_mono (hm i hi) hmore

/-- The rows a step adds are of a folder that its client announced. -/
theorem addsRows_of_moved (hs : RowsTold db localDeviceId announced s)
    (hk : ClientTold db localDeviceId announced s k r)
    (hmoved : Moved codec hash sha256 debugRequest config k s event k' s') :
    AddsRows (fun row => Disclosed db localDeviceId announced row.2 row.1) s s' := by
  have hsame : AddsRows (fun row => Disclosed db localDeviceId announced row.2 row.1) s s :=
    .of_same rfl rfl (.refl _)
  cases hmoved with
  | turn i input task task' queued s' htask hturned hqueued =>
      cases hturned with
      | act h messages =>
          have hadds := addsRows_act hash sha256 debugRequest s h input.outcome
          refine ⟨hadds.config, fun row hrow => (hadds.index row hrow).imp_right fun hrow => ?_,
            hadds.kept, hadds.named⟩
          rw [hs.device] at hrow
          cases h with
          | clusterConfig h =>
              obtain ⟨hclient, hreceived, -⟩ := hk.tasks _ (List.mem_of_getElem? htask)
              rw [← hclient] at hreceived
              obtain ⟨hfolder, hdevice⟩ := hrow
              exact .inr ⟨_, hreceived, hdevice.imp Eq.symm id, hfolder⟩
          | _ => exact absurd hrow id
      | _ => exact hsame
  | broken event events p outcome hevents hp hwritten =>
      rw [hp]
      exact addsRows_requestsFor _ config s event
  | wrote event events requests p data outcome hevents hrequests hdata =>
      have hadds := addsRows_requestsFor
        (fun row => Disclosed db localDeviceId announced row.2 row.1) config s event
      rw [hrequests] at hadds
      exact hadds
  | _ => exact hsame

/-- A step of a connection adds only disclosed rows. -/
theorem rowsTold_of_moved (hs : RowsTold db localDeviceId announced s)
    (hk : ClientTold db localDeviceId announced s k r)
    (hmoved : Moved codec hash sha256 debugRequest config k s event k' s') :
    RowsTold db localDeviceId (announced ++ announcedBy s k event) s' := by
  have hafter := hs.of_addsRows (addsRows_of_moved hs hk hmoved) fun _ => id
  exact ⟨hafter.device, hafter.named,
    fun row hrow => disclosed_mono (hafter.rows row hrow) (List.subset_append_left _ _)⟩

/-- What one step hands out is known from then on. -/
theorem clientTold_of_moved (hs : RowsTold db localDeviceId announced s)
    (hk : ClientTold db localDeviceId announced s k r)
    (hmoved : Moved codec hash sha256 debugRequest config k s event k' s') :
    ClientTold db localDeviceId (announced ++ announcedBy s k event) s' k'
      (r.extend codec config s k event) := by
  have hmore : announced ⊆ announced ++ announcedBy s k event := List.subset_append_left _ _
  unfold ClientTold
  rw [client_of_moved hmoved]
  refine follows_of_moved hk hmoved
    (fun _ hh => hh.mono (fun _ hC => hC.mono hmore (addsRows_of_moved hs hk hmoved).kept)
      fun _ hR => hR.mono hmore)
    (fun _ hm i hi => disclosed_mono (hm i hi) hmore) (fun clock m hm => ?_)
    (fun h outcome hh heq => ?_) (fun results hresults m hm i hi => ?_) (fun i hi => ?_)
    (fun request i hi => ?_)
  · refine handlerFollows_handleCompleteMessage clock (fun x hx => ⟨rfl, ?_, trivial⟩)
      fun _ => resultsTold_of_other
    exact List.mem_append_right _ (List.mem_filterMap.mpr ⟨m, hm, by rw [hx]; rfl⟩)
  · refine handlerFollows_act hh outcome (fun c hc hC => ?_) (fun _ hR => hR.mono hmore)
      fun _ => resultsTold_of_other
    have htold := handlerTold_clusterConfig hs hC
    subst hc
    rw [heq]
    exact htold.mono (fun _ hC => hC.mono hmore (List.Subset.refl _)) fun _ hR => hR.mono hmore
  · exact hresults i (hi ▸ hm)
  · cases hi
  · cases hi

/-- What the server knows after a run, and what each connection does. -/
theorem told_of_run {state : ServerState} {db : Database}
    (hstart : state.processor.state = .new db) {es : List ServerEvent} {s : Server}
    (hrun : Transition.run (serverStep codec hash sha256 debugRequest config) (.start state) es =
      some s) :
    let announced := announcedIn codec hash sha256 debugRequest config (.start state) es
    RowsTold db state.processor.config.localDeviceId announced s.state ∧
      ∀ c k, s.connections c = some k →
        ClientTold db state.processor.config.localDeviceId announced s.state k
          (recordOn codec hash sha256 debugRequest config c (.start state) es) := by
  have hfirst : RowsTold db state.processor.config.localDeviceId [] state := by
    refine ⟨rfl, ?_, ?_⟩
    · rw [hstart]
      intro key entry hentry
      simp [BepState.new, GrizolIndices.default] at hentry
    · rw [hstart]
      exact fun row hrow => .inl hrow
  exact server_of_run announcedBy
    (P := RowsTold db state.processor.config.localDeviceId)
    (Q := ClientTold db state.processor.config.localDeviceId) hfirst
    (fun bs s d => follows_new d)
    (fun bs s k event k' s' r hs hk hmoved =>
      ⟨rowsTold_of_moved hs hk hmoved, clientTold_of_moved hs hk hmoved⟩)
    (fun bs s k event k' s' r k₂ r₂ hs hk hmoved hk₂ =>
      hk₂.mono (List.subset_append_left _ _) (addsRows_of_moved hs hk hmoved).kept) hrun

/-- A call that returns at a step answers the config it was made for. -/
theorem answersConfig_of_answeredBy (hk : ClientTold db localDeviceId announced s k r)
    {x : AnsweredConfig} (hx : x ∈ answeredBy s k event) :
    AnswersConfig db localDeviceId announced x := by
  cases event with
  | turn i input =>
      unfold answeredBy at hx
      dsimp only at hx
      split at hx
      · rename_i h messages htask
        split at hx
        · rename_i results hreturned
          obtain rfl := List.mem_singleton.mp hx
          exact answersConfig_of_returned (hk.tasks _ (List.mem_of_getElem? htask)) hreturned
        · cases hx
      · cases hx
  | _ => cases hx

/-- **A client is told the indices of the folders it shares, and of no others.** However the
connections of a server take turns, what is sent to a client is of folders that the database
knew it to share or that it announced itself, and each cluster config is answered with an
index of each folder that it announces to this device. -/
theorem disclosesShared_of_run (codec : Codec) (hash : String → ℕ → ℕ → UInt64)
    (sha256 : Bytes → Bytes) (debugRequest : Request → String) (config : ConnectionConfig)
    {state : ServerState} {db : Database} (hstart : state.processor.state = .new db)
    {es : List ServerEvent} {s : Server}
    (hrun : Transition.run (serverStep codec hash sha256 debugRequest config) (.start state) es =
      some s) {c : ℕ} {k : Connection} (hk : s.connections c = some k) :
    DisclosesShared db state.processor.config.localDeviceId
      (announcedIn codec hash sha256 debugRequest config (.start state) es)
      (answeredIn codec hash sha256 debugRequest config (.start state) es)
      (recordOn codec hash sha256 debugRequest config c (.start state) es).sent
      k.clientDeviceId := by
  refine ⟨fun i hi => ((told_of_run hstart hrun).2 c k hk).sent _ hi i rfl, fun x hx => ?_⟩
  obtain ⟨es₁, e, es₂, s₁, rfl, hrun₁, hx⟩ := Transition.exists_step_of_mem_collect hx
  cases hk₁ : s₁.connections e.connection with
  | none =>
      rw [handedOver, hk₁] at hx
      cases hx
  | some k₁ =>
      rw [handedOver, hk₁] at hx
      obtain ⟨hreceived, hsound, hcomplete⟩ :=
        answersConfig_of_answeredBy ((told_of_run hstart hrun₁).2 _ k₁ hk₁) hx
      -- what was announced by then is announced in the whole run
      have hmore : announcedIn codec hash sha256 debugRequest config (.start state) es₁ ⊆
          announcedIn codec hash sha256 debugRequest config (.start state) (es₁ ++ e :: es₂) := by
        unfold announcedIn
        rw [Transition.collect_append hrun₁]
        exact List.subset_append_left _ _
      exact ⟨hmore hreceived, fun i hi => disclosed_mono (hsound i hi) hmore, hcomplete⟩

/-- A folder that the client shares with the server. -/
def sharing (folder : String) : ClusterConfig :=
  { folders := [{
      id := folder
      devices := [{ id := serverDevice.id.toList }, { id := clientDevice.id.toList }] }] }

/-- The codec of the two announced configs, with the bytes that `prost` writes. -/
def announcingMessages : Codec :=
  { shortMessages with
    decodeClusterConfig := decodeAmong encodeClusterConfig [sharing "photos", sharing "notes"] }

/-- The client says Hello and announces the folder; it is told its index. -/
def announcedRun : List ServerEvent :=
  [⟨0, .accept clientDevice⟩,
    ⟨0, .read (greeting ++ plainFrame .clusterConfig (encodeClusterConfig (sharing "photos")))⟩] ++
  List.replicate 12 ⟨0, .turn 0 quietInput⟩ ++ List.replicate 3 ⟨0, .send .done⟩

/-- Witness: the config is answered, and the index of its folder is sent. -/
theorem disclosesShared_of_run_announced :
    ∃ s k, Transition.run (serverStep announcingMessages (fun _ _ _ => 0) pairHash (fun _ => "")
        unnamedConfig) (.start unsharedState) announcedRun = some s ∧ s.connections 0 = some k ∧
      CompleteMessage.index { folder := "photos" } ∈ (recordOn announcingMessages (fun _ _ _ => 0)
        pairHash (fun _ => "") unnamedConfig 0 (.start unsharedState) announcedRun).sent ∧
      (answeredIn announcingMessages (fun _ _ _ => 0) pairHash (fun _ => "") unnamedConfig
        (.start unsharedState) announcedRun).map AnsweredConfig.received = [sharing "photos"] ∧
      DisclosesShared unsharedState.processor.state.db serverDevice
        (announcedIn announcingMessages (fun _ _ _ => 0) pairHash (fun _ => "") unnamedConfig
          (.start unsharedState) announcedRun)
        (answeredIn announcingMessages (fun _ _ _ => 0) pairHash (fun _ => "") unnamedConfig
          (.start unsharedState) announcedRun)
        (recordOn announcingMessages (fun _ _ _ => 0) pairHash (fun _ => "") unnamedConfig 0
          (.start unsharedState) announcedRun).sent clientDevice := by
  have hsome : ((Transition.run (serverStep announcingMessages (fun _ _ _ => 0) pairHash
      (fun _ => "") unnamedConfig) (.start unsharedState) announcedRun).bind
        fun s => s.connections 0).map Connection.clientDeviceId = some clientDevice := by
    decide +kernel
  obtain ⟨k, hk, hclient⟩ := Option.map_eq_some_iff.mp hsome
  obtain ⟨s, hrun, hk⟩ := Option.bind_eq_some_iff.mp hk
  have hdiscloses := disclosesShared_of_run announcingMessages (fun _ _ _ => 0) pairHash
    (fun _ => "") unnamedConfig rfl hrun hk
  rw [hclient] at hdiscloses
  exact ⟨s, k, hrun, hk, by decide +kernel, by decide +kernel, hdiscloses⟩

end Runs

end Grizol.Analysis

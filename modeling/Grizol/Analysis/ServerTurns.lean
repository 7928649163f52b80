import Grizol.Analysis.Connections
import Grizol.Interface.AnnouncedFolders
import Grizol.Analysis.StateWriters

/-!
# What connections leave of the state they share

The handler of a cluster config writes the tables of shared folders and rows of
`bep_index`, and loads indices; all else it leaves. With it, an invariant of the state that
all connections share is one that every step of a connection keeps.
-/

set_option autoImplicit false

namespace Grizol.Analysis

open Grizol.Library Grizol.Model Grizol.Interface
open Grizol.Model.Syncthing

variable {codec : Codec} {hash : String → ℕ → ℕ → UInt64} {sha256 : Bytes → Bytes}
  {debugRequest : Request → String} {config : ConnectionConfig}

/-! ## Cluster configs -/

section ClusterConfigs

variable {s s' : ServerState} {localDeviceId clientDeviceId : DeviceId}

/-- The entries of the cache are under the folders they are of. -/
def EntriesNamed (s : BepState) : Prop :=
  ∀ key entry, s.indices.indices.get key = some entry → entry.folder = key.folder

/-- What the state knows of a folder is an index of that folder. -/
theorem folder_of_known {s : BepState} (h : EntriesNamed s) (folder : String)
    (deviceId : DeviceId) : (known s folder deviceId).folder = folder := by
  unfold known GrizolIndices.index
  cases hget : s.indices.indices.get ⟨folder, deviceId⟩ with
  | none => rfl
  | some entry => exact h _ _ hget

/-- An entry put under its own folder. -/
theorem EntriesNamed.of_entry {s s' : BepState} (h : EntriesNamed s) {key : FolderDevice}
    {entry : GrizolIndex} (hentry : entry.folder = key.folder)
    (hget : ∀ k, s'.indices.indices.get k =
      if k = key then some entry else s.indices.indices.get k) : EntriesNamed s' := by
  intro k e he
  rw [hget] at he
  split_ifs at he with hk
  · obtain rfl := Option.some.inj he
    rw [hk, hentry]
  · exact h k e he

/-- The entry is the index of a database with the files and blocks of this one. -/
def LoadedFrom (db : Database) (key : FolderDevice) (entry : GrizolIndex) : Prop :=
  ∃ db' : Database, db'.bepFileInfo = db.bepFileInfo ∧ db'.bepBlockInfo = db.bepBlockInfo ∧
    entry = .ofIndex (BepState.loadIndex db' key.folder key.deviceId)

/-- No entry of the cache is new but those that are loaded. -/
def LoadsEntries (s s' : BepState) : Prop :=
  ∀ key entry, s'.indices.indices.get key = some entry →
    s.indices.indices.get key = some entry ∨ LoadedFrom s.db key entry

/-- Without a call nothing is loaded. -/
theorem LoadsEntries.refl (s : BepState) : LoadsEntries s s := fun _ _ h => .inl h

/-- What is loaded by the second call is what the tables had before the first. -/
theorem LoadsEntries.trans {s s' s'' : BepState} (h : LoadsEntries s s')
    (h' : LoadsEntries s' s'') (hfiles : s'.db.bepFileInfo = s.db.bepFileInfo)
    (hblocks : s'.db.bepBlockInfo = s.db.bepBlockInfo) : LoadsEntries s s'' := by
  intro key entry hentry
  rcases h' key entry hentry with hold | ⟨db, hfiles', hblocks', hloaded⟩
  · exact h key entry hold
  · exact .inr ⟨db, hfiles'.trans hfiles, hblocks'.trans hblocks, hloaded⟩

/-- Reading an index loads it from the tables. -/
theorem loadsEntries_index (folder : String) (deviceId : DeviceId) (s : BepState) :
    LoadsEntries s (RustM.endState ((BepState.index folder deviceId).run s)) := by
  rw [index_run, RustM.endState_ok]
  split_ifs
  · exact .refl s
  · intro key entry hentry
    dsimp only [GrizolIndices.insert, BepState.loadIndex] at hentry
    rw [AssocMap.get_insert] at hentry
    split_ifs at hentry with hkey
    · obtain rfl := hkey
      exact .inr ⟨s.db, rfl, rfl, (Option.some.inj hentry).symm⟩
    · exact .inl hentry

/-- Loaded entries are under their folders. -/
theorem EntriesNamed.of_loads {s s' : BepState} (h : EntriesNamed s) (hloads : LoadsEntries s s') :
    EntriesNamed s' := by
  intro key entry hentry
  rcases hloads key entry hentry with hold | ⟨db, -, -, rfl⟩
  · exact h key entry hold
  · rfl

/-- A section of the handler: rows of `bep_index` are added that it is allowed to, and entries of
the cache; what is committed stays when it panics. -/
structure Shares (rows : String × DeviceId → Prop) (s s' : ServerState) : Prop where
  config : s'.processor.config = s.processor.config
  storage : s'.processor.storageManager = s.processor.storageManager
  queue : s'.processor.state.outgoingRequests = s.processor.state.outgoingRequests
  requestId : s'.processor.state.requestId = s.processor.state.requestId
  sequence : s'.processor.state.sequence = s.processor.state.sequence
  index : ∀ row ∈ s'.processor.state.db.bepIndex, row ∈ s.processor.state.db.bepIndex ∨ rows row
  kept : ∀ row ∈ s.processor.state.db.bepIndex, row ∈ s'.processor.state.db.bepIndex
  entries : LoadsEntries s.processor.state s'.processor.state
  files : s'.processor.state.db.bepFileInfo = s.processor.state.db.bepFileInfo
  blocks : s'.processor.state.db.bepBlockInfo = s.processor.state.db.bepBlockInfo

variable {rows : String × DeviceId → Prop}

/-- Without a call nothing is shared. -/
theorem Shares.refl (s : ServerState) : Shares rows s s :=
  ⟨rfl, rfl, rfl, rfl, rfl, fun _ h => .inl h, fun _ h => h, .refl _, rfl, rfl⟩

/-- What is shared twice is shared. -/
theorem Shares.trans {s'' : ServerState} (h : Shares rows s s') (h' : Shares rows s' s'') :
    Shares rows s s'' where
  config := h'.config.trans h.config
  storage := h'.storage.trans h.storage
  queue := h'.queue.trans h.queue
  requestId := h'.requestId.trans h.requestId
  sequence := h'.sequence.trans h.sequence
  index row hrow := (h'.index row hrow).elim (h.index row) .inr
  kept row hrow := h'.kept row (h.kept row hrow)
  entries := h.entries.trans h'.entries h.files h.blocks
  files := h'.files.trans h.files
  blocks := h'.blocks.trans h.blocks

/-- A call on the state of the processor leaves the rest. -/
theorem onBepState_run {α : Type} (x : RustM BepState α) (s : ServerState) :
    RustM.endState ((ServerState.onBepState x).run s) =
      { s with processor :=
        { s.processor with state := RustM.endState (x.run s.processor.state) } } := by
  have hlock : RustM.endState ((ServerState.onBepState x).run s) =
      { s with processor := RustM.endState ((BepProcessor.onState x).run s.processor) } := by
    unfold ServerState.onBepState EStateM.run
    dsimp only
    cases BepProcessor.onState x s.processor <;> rfl
  rw [hlock, BepProcessor.onState_run]

/-- What it returns was read in its section. -/
theorem onBepState_eq_ok {α : Type} {x : RustM BepState α} {s s' : ServerState} {a : α}
    (h : (ServerState.onBepState x).run s = .ok a s') :
    ∃ t, x.run s.processor.state = .ok a t := by
  unfold ServerState.onBepState BepProcessor.onState EStateM.run at h
  unfold EStateM.run
  dsimp only at h
  cases hx : x s.processor.state with
  | ok b t =>
      rw [hx] at h
      obtain ⟨rfl, -⟩ := EStateM.Result.ok.inj h
      exact ⟨t, rfl⟩
  | error e t =>
      rw [hx] at h
      cases h

/-- Sharing one folder with one device. -/
theorem shares_initIndex {folder : String} {deviceId : DeviceId} (h : rows (folder, deviceId)) :
    Shares rows s (RustM.endState ((ServerState.initIndex folder deviceId).run s)) := by
  unfold ServerState.initIndex
  refine RustM.endState_bind_rel (Shares rows) Shares.trans ?_ fun s₁ s₂ hs => ?_
  · exact .refl s
  · dsimp only
    split_ifs
    · rw [onBepState_run]
      refine ⟨rfl, rfl, rfl, rfl, rfl, fun row hrow => ?_, fun row hrow => ?_, .refl _, rfl, rfl⟩
      · rcases List.mem_insert_iff.mp hrow with rfl | hrow
        · exact .inr h
        · exact .inl hrow
      · exact List.mem_insert_of_mem hrow
    · exact .refl s₂

/-- Sharing folders with both devices. -/
theorem shares_initIndices {folders : List String}
    (hclient : ∀ f ∈ folders, rows (f, clientDeviceId))
    (hlocal : ∀ f ∈ folders, rows (f, localDeviceId)) :
    Shares rows s
      (RustM.endState ((ServerState.initIndices clientDeviceId localDeviceId folders).run s)) := by
  induction folders generalizing s with
  | nil => exact .refl s
  | cons folder folders ih =>
      refine RustM.endState_bind_rel (Shares rows) Shares.trans
        (shares_initIndex (hclient folder List.mem_cons_self)) fun _ s₁ _ => ?_
      refine RustM.endState_bind_rel (Shares rows) Shares.trans
        (shares_initIndex (hlocal folder List.mem_cons_self)) fun _ s₂ _ => ?_
      exact ih (fun f hf => hclient f (List.mem_cons_of_mem _ hf))
        (fun f hf => hlocal f (List.mem_cons_of_mem _ hf))

/-- A device is listed if one of the ids is its own. -/
theorem listsDevice_iff {devices : List Device} {listed : Bool}
    (h : ServerState.listsDevice localDeviceId devices = .ok listed) :
    listed = true ↔ ∃ d ∈ devices, DeviceId.ofBytes d.id = some localDeviceId := by
  induction devices with
  | nil =>
      obtain rfl := Except.ok.inj h
      simp
  | cons d devices ih =>
      rw [ServerState.listsDevice] at h
      obtain ⟨id, hid, h⟩ := Rust.bind_eq_ok.mp h
      rw [List.exists_mem_cons_iff, Rust.unwrap_eq_ok.mp hid]
      split_ifs at h with hlocal
      · obtain rfl := Except.ok.inj h
        simp [hlocal]
      · rw [ih h]
        simp [hlocal]

/-- The shared folders are those announced to this device. -/
theorem foldersSharedWithMe_iff {folders : List Folder} {ids : List String}
    (h : ServerState.foldersSharedWithMe localDeviceId folders = .ok ids) (id : String) :
    id ∈ ids ↔ AnnouncesTo localDeviceId { folders := folders } id := by
  unfold AnnouncesTo
  induction folders generalizing ids with
  | nil =>
      obtain rfl := Except.ok.inj h
      simp
  | cons f folders ih =>
      rw [ServerState.foldersSharedWithMe] at h
      obtain ⟨shared, hshared, h⟩ := Rust.bind_eq_ok.mp h
      obtain ⟨rest, hrest, h⟩ := Rust.bind_eq_ok.mp h
      obtain rfl := Except.ok.inj h
      rw [List.exists_mem_cons_iff, ← ih hrest, ← listsDevice_iff hshared]
      cases shared <;> simp [eq_comm]

/-- The rows a cluster config may lead to: those of the folders it announces. -/
def AnnouncedRow (localDeviceId clientDeviceId : DeviceId) (clusterConfig : ClusterConfig)
    (row : String × DeviceId) : Prop :=
  AnnouncesTo localDeviceId clusterConfig row.1 ∧ (row.2 = clientDeviceId ∨ row.2 = localDeviceId)

/-- The first section of the handler of a config shares the folders it announces, and no others. -/
theorem shares_shareFolders (clusterConfig : ClusterConfig) (clientDeviceId : DeviceId) :
    Shares (AnnouncedRow s.processor.config.localDeviceId clientDeviceId clusterConfig) s
      (RustM.endState ((ServerState.shareFolders clusterConfig clientDeviceId).run s)) := by
  let R := Shares (AnnouncedRow s.processor.config.localDeviceId clientDeviceId clusterConfig)
  refine RustM.endState_bind_rel R Shares.trans (.refl s) fun s₀ s₁ hs => ?_
  obtain ⟨rfl, rfl⟩ : s = s₀ ∧ s = s₁ := by simpa using hs
  refine RustM.endState_bind_rel R Shares.trans ?_ fun tables s₁ htables => ?_
  · rw [RustM.endState_lift]
    exact .refl s
  refine RustM.endState_bind_rel R Shares.trans ?_ fun _ s₂ _ => ?_
  · exact ⟨rfl, rfl, rfl, rfl, rfl, fun _ h => .inl h, fun _ h => h, .refl _, rfl, rfl⟩
  refine RustM.endState_bind_rel R Shares.trans ?_ fun folders s₃ hfolders => ?_
  · rw [RustM.endState_lift]
    exact .refl s₂
  have hannounced : ∀ f ∈ folders, AnnouncesTo s.processor.config.localDeviceId clusterConfig f := by
    cases hids : ServerState.foldersSharedWithMe s.processor.config.localDeviceId
        clusterConfig.folders with
    | error e =>
        rw [hids, RustM.run_lift_error] at hfolders
        cases hfolders
    | ok ids =>
        rw [hids, RustM.run_lift_ok] at hfolders
        obtain ⟨rfl, -⟩ : ids = folders ∧ s₂ = s₃ := by simpa using hfolders
        exact fun f => (foldersSharedWithMe_iff hids f).mp
  exact shares_initIndices (fun f hf => ⟨hannounced f hf, .inl rfl⟩)
    (fun f hf => ⟨hannounced f hf, .inr rfl⟩)

/-- Only entries of the cache are loaded. -/
structure Loads (s s' : BepState) : Prop where
  db : s'.db = s.db
  queue : s'.outgoingRequests = s.outgoingRequests
  requestId : s'.requestId = s.requestId
  sequence : s'.sequence = s.sequence
  entries : LoadsEntries s s'

/-- Without a call nothing is loaded. -/
theorem Loads.refl (s : BepState) : Loads s s := ⟨rfl, rfl, rfl, rfl, .refl s⟩

/-- What is loaded twice is loaded. -/
theorem Loads.trans {s s' s'' : BepState} (h : Loads s s') (h' : Loads s' s'') : Loads s s'' :=
  ⟨h'.db.trans h.db, h'.queue.trans h.queue, h'.requestId.trans h.requestId,
    h'.sequence.trans h.sequence, h.entries.trans h'.entries (by rw [h.db]) (by rw [h.db])⟩

/-- Reading an index leaves all but the cache. -/
theorem loads_index (folder : String) (deviceId : DeviceId) (s : BepState) :
    Loads s (RustM.endState ((BepState.index folder deviceId).run s)) := by
  refine ⟨index_db folder deviceId s, ?_, ?_, ?_, loadsEntries_index folder deviceId s⟩ <;>
  · rw [index_run, RustM.endState_ok]
    split_ifs <;> rfl

/-- So does reading those of a folder. -/
theorem loads_indicesOfFolder (folder : String) (deviceIds : List DeviceId) (s : BepState) :
    Loads s (RustM.endState ((BepState.indicesOfFolder folder deviceIds).run s)) := by
  induction deviceIds generalizing s with
  | nil => exact .refl s
  | cons deviceId deviceIds ih =>
      refine RustM.endState_bind_rel Loads Loads.trans (loads_index folder deviceId s)
        fun index s₁ _ => ?_
      rw [RustM.endState_bind_pure]
      exact ih s₁

/-- And those of several folders. -/
theorem loads_indicesOfFolders (deviceIds : List DeviceId) (folders : List String) (s : BepState) :
    Loads s (RustM.endState ((BepState.indicesOfFolders deviceIds folders).run s)) := by
  induction folders generalizing s with
  | nil => exact .refl s
  | cons folder folders ih =>
      refine RustM.endState_bind_rel Loads Loads.trans
        (loads_indicesOfFolder folder deviceIds s) fun indices s₁ _ => ?_
      rw [RustM.endState_bind_pure]
      exact ih s₁

/-- The handler asks for the folders that it shares with the client. -/
theorem indicesOf_run (deviceId clientDeviceId : DeviceId) (s : BepState) :
    (BepState.indicesOf none (some deviceId) clientDeviceId).run s =
      (BepState.indicesOfFolders [deviceId]
        (BepState.sharedIndexFolders s.db deviceId clientDeviceId)).run s := rfl

/-- The second section of the handler of a config shares nothing. -/
theorem shares_indicesOf (deviceId clientDeviceId : DeviceId) :
    Shares rows s (RustM.endState ((ServerState.onBepState
      (BepState.indicesOf none (some deviceId) clientDeviceId)).run s)) := by
  rw [onBepState_run, indicesOf_run]
  obtain ⟨hdb, hqueue, hid, hsequence, hentries⟩ := loads_indicesOfFolders [deviceId]
    (BepState.sharedIndexFolders s.processor.state.db deviceId clientDeviceId) s.processor.state
  refine ⟨rfl, rfl, hqueue, hid, hsequence, fun row hrow => .inl (hdb ▸ hrow), fun row hrow => ?_,
    hentries, by rw [hdb], by rw [hdb]⟩
  rw [hdb]
  exact hrow

/-- One turn of the handler of a cluster config. -/
theorem shares_act (h : ClusterConfigHandler) (s : ServerState) :
    Shares (AnnouncedRow s.processor.config.localDeviceId h.clientDeviceId h.received) s
      (h.act s).2 := by
  unfold ClusterConfigHandler.act
  cases h.pc with
  | shareFolders =>
      have hshares := shares_shareFolders (s := s) h.received h.clientDeviceId
      dsimp only
      cases hrun : (ServerState.shareFolders h.received h.clientDeviceId).run s with
      | ok u s₁ | error e s₁ =>
          rw [hrun] at hshares
          exact hshares
  | indices =>
      have hshares : Shares (AnnouncedRow s.processor.config.localDeviceId h.clientDeviceId
          h.received) s _ :=
        shares_indicesOf s.processor.config.localDeviceId h.clientDeviceId
      dsimp only
      cases hrun : (ServerState.onBepState (BepState.indicesOf none
          (some s.processor.config.localDeviceId) h.clientDeviceId)).run s with
      | ok u s₁ | error e s₁ =>
          rw [hrun] at hshares
          exact hshares
  | _ => exact .refl s

end ClusterConfigs

/-- The requests for an event are taken from the queue; storage is left alone. -/
theorem requestsFor_storage (config : ConnectionConfig) (event : GrizolEvent) (p : BepProcessor) :
    (RustM.endState ((Connection.requestsFor config event).run p)).storageManager =
      p.storageManager := by
  cases event with
  | message m => rfl
  | requestProcessed | requestCreated =>
      dsimp only [Connection.requestsFor]
      rw [BepProcessor.throttledRequests, BepProcessor.onState_run]

/-! ## Messages from the handler to the client -/

section Messages

variable {s s' : ServerState} {k k' : Connection} {event : ConnectionEvent} {r : ConnectionRecord}
  {H H' : MessageHandler → Prop} {T T' : CompleteMessage → Prop}

/-- What holds of the handler of a task, or of the messages it still sends. -/
def TaskFollows (H : MessageHandler → Prop) (T : CompleteMessage → Prop) : MessageTask → Prop
  | .handling h _ => H h
  | .sending results _ => ∀ m, .ok (.message m) ∈ results → T m
  | _ => True

/-- What holds of the handlers of a connection, and of every message on its way to the client. -/
structure ConnectionFollows (H : MessageHandler → Prop) (T : CompleteMessage → Prop)
    (k : Connection) (r : ConnectionRecord) : Prop where
  tasks : ∀ task ∈ k.tasks, TaskFollows H T task
  events : ∀ m, .message m ∈ k.events → T m
  sent : ∀ m ∈ r.sent, T m

/-- What follows one account of the handlers follows a wider one. -/
theorem ConnectionFollows.mono (h : ConnectionFollows H T k r) (hH : ∀ h, H h → H' h)
    (hT : ∀ m, T m → T' m) : ConnectionFollows H' T' k r where
  tasks task htask := by
    have hbefore := h.tasks task htask
    cases task with
    | handling handler messages => exact hH handler hbefore
    | sending results messages => exact fun m hm => hT m (hbefore m hm)
    | _ => trivial
  events m hm := hT m (h.events m hm)
  sent m hm := hT m (h.sent m hm)

/-- A new connection has nothing to account for. -/
theorem follows_new (d : DeviceId) : ConnectionFollows H T (.new d) .empty where
  tasks := by simp [Connection.new]
  events := by simp [Connection.new]
  sent := by simp [ConnectionRecord.sent, ConnectionRecord.empty]

/-- What is known of the handler of a cluster config, and of what is returned for a message. -/
def HandlerFollows (C : ClusterConfigHandler → Prop)
    (R : List (Except BepProcessorError GrizolEvent) → Prop) : MessageHandler → Prop
  | .clusterConfig h => C h
  | .response h => ∀ event, h.pc = .returned (.ok event) → event = .requestProcessed
  | .returned results => R results
  | .index _ | .panicked _ => True

/-- Results that are for another message than a cluster config. -/
structure RepliesToOther (results : List (Except BepProcessorError GrizolEvent)) : Prop where
  index : ∀ i, .ok (.message (.index i)) ∉ results
  clusterConfig : ∀ c, .ok (.message (.clusterConfig c)) ∉ results

section Handlers

variable {C C' : ClusterConfigHandler → Prop}
  {R R' : List (Except BepProcessorError GrizolEvent) → Prop}

/-- The same of one handler. -/
theorem HandlerFollows.mono {h : MessageHandler} (hh : HandlerFollows C R h)
    (hC : ∀ h, C h → C' h) (hR : ∀ results, R results → R' results) : HandlerFollows C' R' h := by
  cases h with
  | clusterConfig h => exact hC h hh
  | response h => exact hh
  | returned results => exact hR results hh
  | index h | panicked e => trivial

/-- A handler knows about its own message only. -/
theorem handlerFollows_handleCompleteMessage {clientDeviceId : DeviceId} (clock : ℕ → ℕ)
    {m : CompleteMessage} (hC : ∀ x, m = .clusterConfig x → C (.new x clientDeviceId))
    (hR : ∀ results, RepliesToOther results → R results) :
    HandlerFollows C R (.handleCompleteMessage config clientDeviceId clock m) := by
  cases m with
  | clusterConfig x => exact hC x rfl
  | hello x => exact hR _ ⟨by simp, by simp⟩
  | request x | ping x | close x => exact hR _ ⟨by simp, by simp⟩
  | index x | indexUpdate x | downloadProgress x => trivial
  | response x =>
      unfold MessageHandler.handleCompleteMessage MessageHandler.handleResponse
      dsimp only
      split
      · trivial
      · split_ifs
        · exact hR _ ⟨by simp, by simp⟩
        · intro event hpc
          cases hpc

/-- One turn of a handler: only that of a cluster config says anything new. -/
theorem handlerFollows_act {h : MessageHandler} (hh : HandlerFollows C R h) (outcome : TurnOutcome)
    (hC : ∀ c, h = .clusterConfig c → C c → HandlerFollows C' R' (.ofClusterConfig (c.act s).1))
    (hR : ∀ results, R results → R' results)
    (hother : ∀ results, RepliesToOther results → R' results) :
    HandlerFollows C' R' (h.act hash sha256 debugRequest outcome s).1 := by
  cases h with
  | clusterConfig h => exact hC h rfl hh
  | index h =>
      dsimp only [MessageHandler.act, MessageHandler.ofIndex]
      split
      · exact hother _ ⟨by simp, by simp⟩
      · trivial
      · trivial
  | response h =>
      have hok : ∀ event, (h.act hash sha256 debugRequest s.processor outcome).1.pc =
          .returned (.ok event) → event = .requestProcessed :=
        fun event hret => (act_returned_ok hret).elim (hh event) id
      dsimp only [MessageHandler.act, MessageHandler.ofResponse]
      split
      · rename_i result hpc
        refine hother _ ⟨fun i hi => ?_, fun c hc => ?_⟩
        · cases hok _ (hpc.trans (congrArg _ (List.mem_singleton.mp hi).symm))
        · cases hok _ (hpc.trans (congrArg _ (List.mem_singleton.mp hc).symm))
      · trivial
      · exact hok
  | returned results => exact hR results hh
  | panicked e => trivial

end Handlers

/-- A step leaves the device of the connection. -/
theorem client_of_moved (hmoved : Moved codec hash sha256 debugRequest config k s event k' s') :
    k'.clientDeviceId = k.clientDeviceId := by
  cases hmoved with
  | wrote event events requests p data outcome hevents hrequests hdata =>
      exact (writeData_tasks ({ k with events := events } : Connection) data outcome).2.1
  | _ => rfl

/-- **The rule for messages.** What holds of every message that a handler returns, of pings and of
requests, holds of all that is sent. What is said may depend on the step, which must not make
it false. -/
theorem follows_of_moved (hk : ConnectionFollows H T k r)
    (hmoved : Moved codec hash sha256 debugRequest config k s event k' s')
    (hH : ∀ h, H h → H' h) (hT : ∀ m, T m → T' m)
    (htake : ∀ clock, ∀ m ∈ takenMessage k event,
      H' (.handleCompleteMessage config k.clientDeviceId clock m))
    (hact : ∀ h outcome, H h → s' = (h.act hash sha256 debugRequest outcome s).2 →
      H' (h.act hash sha256 debugRequest outcome s).1)
    (hreturned : ∀ results, H (.returned results) → ∀ m, .ok (.message m) ∈ results → T m)
    (hping : T' (.ping {})) (hrequest : ∀ request, T' (.request request)) :
    ConnectionFollows H' T' k' (r.extend codec config s k event) := by
  have hafter := hk.mono hH hT
  cases hmoved with
  | read buf p p' messages hparser hparse =>
      rw [extend_read r s k hparser hparse]
      refine ⟨fun task htask => ?_, hafter.events, hafter.sent⟩
      rcases List.mem_append.mp htask with htask | htask
      · exact hafter.tasks task htask
      · obtain rfl := List.mem_singleton.mp htask
        trivial
  | readFails buf p hparser hparse =>
      rw [extend_readFails r s k hparser hparse]
      exact ⟨hafter.tasks, hafter.events, hafter.sent⟩
  | readEnd =>
      rw [extend_readEnd]
      exact ⟨hafter.tasks, hafter.events, hafter.sent⟩
  | turn i input task task' queued s' htask hturned hqueued =>
      rw [extend_turn]
      have hbefore := hk.tasks task (List.mem_of_getElem? htask)
      have hturn : TaskFollows H' T' task' ∧ ∀ m, .message m ∈ queued → T' m := by
        cases hturned with
        | finish | panic | sent | fail => exact ⟨trivial, by simp⟩
        | take m messages =>
            refine ⟨htake input.clock m ?_, by simp⟩
            simp [takenMessage, htask]
        | act h messages => exact ⟨hact h _ hbefore rfl, by simp⟩
        | deliver results messages =>
            exact ⟨fun m hm => hT m (hreturned results hbefore m hm), by simp⟩
        | log e results messages =>
            exact ⟨fun m hm => hT m (hbefore m (List.mem_cons_of_mem _ hm)), by simp⟩
        | send event results messages hreceiving =>
            refine ⟨fun m hm => hT m (hbefore m (List.mem_cons_of_mem _ hm)),
              fun m hm => hT m (hbefore m ?_)⟩
            rw [List.mem_singleton.mp hm]
            exact List.mem_cons_self
      refine ⟨fun t ht => ?_, fun m hm => ?_, hafter.sent⟩
      · rcases List.mem_or_eq_of_mem_set ht with ht | rfl
        · exact hafter.tasks t ht
        · exact hturn.1
      · exact (List.mem_append.mp hm).elim (hafter.events m) (hturn.2 m)
  | ping hreceiving =>
      rw [extend_ping]
      refine ⟨hafter.tasks, fun m hm => ?_, hafter.sent⟩
      rcases List.mem_append.mp hm with hm | hm
      · exact hafter.events m hm
      · cases List.mem_singleton.mp hm
        exact hping
  | pingFails hclosed =>
      rw [extend_ping]
      exact ⟨hafter.tasks, hafter.events, hafter.sent⟩
  | broken event events p outcome hevents hp hwritten =>
      rw [extend_send, hwritten, List.append_nil]
      exact ⟨hafter.tasks, fun m hm => absurd hm List.not_mem_nil, hafter.sent⟩
  | wrote event events requests p data outcome hevents hrequests hdata =>
      have hwritten : writtenEvent codec config s k (.send outcome) = [(event, requests)] := by
        simp [writtenEvent, hevents, hrequests, hdata]
      rw [extend_send, hwritten]
      refine ⟨fun task htask => ?_, fun m hm => hafter.events m ?_, fun m hm => ?_⟩
      · rw [(writeData_tasks ({ k with events := events } : Connection) data outcome).1] at htask
        exact hafter.tasks task htask
      · rcases writeData_events ({ k with events := events } : Connection) data outcome with
          hsame | ⟨hnone, -⟩
        · rw [hsame] at hm
          rw [hevents]
          exact List.mem_cons_of_mem _ hm
        · rw [hnone] at hm
          cases hm
      · rw [ConnectionRecord.sent, List.flatMap_append, List.flatMap_singleton] at hm
        rcases List.mem_append.mp hm with hm | hm
        · exact hafter.sent m hm
        · cases event with
          | message m' =>
              refine hafter.events m ?_
              rw [hevents, List.mem_singleton.mp hm]
              exact List.mem_cons_self
          | requestProcessed | requestCreated =>
              obtain ⟨request, -, rfl⟩ := List.mem_map.mp hm
              exact hrequest request

end Messages

/-! ## Invariants -/

section Runs

variable {β : Type} (out : ServerState → Connection → ConnectionEvent → List β)
  {P : List β → ServerState → Prop} {state : ServerState} {es : List ServerEvent} {s : Server}

/-- **The rule for a server.** A step of one connection keeps what holds of the state all share, of
the connection with its record, and of every other one; then it holds of all of them
after a run. -/
theorem server_of_run {Q : List β → ServerState → Connection → ConnectionRecord → Prop}
    (hstart : P [] state) (hnew : ∀ bs s d, Q bs s (.new d) .empty)
    (hstep : ∀ bs s k event k' s' r, P bs s → Q bs s k r →
      Moved codec hash sha256 debugRequest config k s event k' s' →
        P (bs ++ out s k event) s' ∧
          Q (bs ++ out s k event) s' k' (r.extend codec config s k event))
    (hother : ∀ bs s k event k' s' r k₂ r₂, P bs s → Q bs s k r →
      Moved codec hash sha256 debugRequest config k s event k' s' → Q bs s k₂ r₂ →
        Q (bs ++ out s k event) s' k₂ r₂)
    (hrun : Transition.run (serverStep codec hash sha256 debugRequest config) (.start state) es =
      some s) :
    let bs := Transition.collect (serverStep codec hash sha256 debugRequest config)
      (handedOver out) (.start state) es
    P bs s.state ∧ ∀ c k, s.connections c = some k →
      Q bs s.state k (recordOn codec hash sha256 debugRequest config c (.start state) es) := by
  let Inv (es : List ServerEvent) (s : Server) : Prop :=
    let bs := Transition.collect (serverStep codec hash sha256 debugRequest config)
      (handedOver out) (.start state) es
    P bs s.state ∧ ∀ c, (∀ k, s.connections c = some k →
      Q bs s.state k (recordOn codec hash sha256 debugRequest config c (.start state) es)) ∧
      (s.connections c = none →
        recordOn codec hash sha256 debugRequest config c (.start state) es = .empty)
  have hinv : Inv es s := by
    refine Transition.run_induction (motive := Inv) ?_ ?_ hrun
    · refine ⟨hstart, fun c => ⟨fun k hk => ?_, fun _ => rfl⟩⟩
      cases hk
    intro es s e s' hes hinv he
    obtain ⟨hP, hQ⟩ := hinv
    dsimp only [Inv]
    obtain ⟨k', state', hconnection, rfl⟩ := serverStep_eq_some.mp he
    have hrecord : ∀ c, recordOn codec hash sha256 debugRequest config c (.start state)
        (es ++ [e]) = recordStep codec config c (recordOn codec hash sha256 debugRequest config c
          (.start state) es) s e _ := fun c => Transition.account_concat he hes
    rw [Transition.collect_concat hes he]
    cases hk : s.connections e.connection with
    | some k =>
        have hhanded : handedOver out s e = out s.state k e.event := by
          unfold handedOver
          rw [hk]
        rw [hk] at hconnection
        have hmoved := moved_of_stepConnection hconnection
        have hQk := (hQ e.connection).1 k hk
        obtain ⟨hP', hQ'⟩ := hstep _ _ _ _ _ _ _ hP hQk hmoved
        rw [hhanded]
        refine ⟨hP', fun c => ?_⟩
        rw [hrecord]
        unfold recordStep
        dsimp only
        by_cases hc : e.connection = c
        · subst hc
          rw [if_pos rfl, hk, Function.update_self]
          refine ⟨fun k₁ hk₁ => ?_, by simp⟩
          obtain rfl := Option.some.inj hk₁
          exact hQ'
        · rw [if_neg hc, Function.update_of_ne (Ne.symm hc)]
          exact ⟨fun k₂ hk₂ => hother _ _ _ _ _ _ _ _ _ hP hQk hmoved ((hQ c).1 k₂ hk₂), (hQ c).2⟩
    | none =>
        have hhanded : handedOver out s e = [] := by
          unfold handedOver
          rw [hk]
        rw [hk] at hconnection
        rw [hhanded, List.append_nil]
        cases hevent : e.event with
        | accept d =>
            rw [hevent] at hconnection
            obtain ⟨rfl, rfl⟩ := Prod.mk.inj (Option.some.inj hconnection)
            refine ⟨hP, fun c => ?_⟩
            rw [hrecord]
            unfold recordStep
            dsimp only
            by_cases hc : e.connection = c
            · subst hc
              rw [if_pos rfl, hk, Function.update_self]
              refine ⟨fun k₁ hk₁ => ?_, by simp⟩
              obtain rfl := Option.some.inj hk₁
              dsimp only
              rw [(hQ e.connection).2 hk]
              exact hnew _ _ d
            · rw [if_neg hc, Function.update_of_ne (Ne.symm hc)]
              exact hQ c
        | _ =>
            rw [hevent] at hconnection
            cases hconnection
  exact ⟨hinv.1, fun c k hk => (hinv.2 c).1 k hk⟩

/-- The same of the shared state, and of what the steps handed out. -/
theorem handedOver_of_run (hstart : P [] state)
    (hstep : ∀ bs k s event k' s', P bs s →
      Moved codec hash sha256 debugRequest config k s event k' s' → P (bs ++ out s k event) s')
    (hrun : Transition.run (serverStep codec hash sha256 debugRequest config) (.start state) es =
      some s) :
    P (Transition.collect (serverStep codec hash sha256 debugRequest config) (handedOver out)
      (.start state) es) s.state :=
  (server_of_run out (Q := fun _ _ _ _ => True) hstart (fun _ _ _ => trivial)
    (fun bs s k event k' s' _ hP _ hmoved => ⟨hstep bs k s event k' s' hP hmoved, trivial⟩)
    (fun _ _ _ _ _ _ _ _ _ _ _ _ _ => trivial) hrun).1

end Runs

end Grizol.Analysis

import Grizol.Analysis.AnnouncedFolders
import Grizol.Analysis.SharedFolders
import Grizol.Interface.RememberedFolders

/-!
# The last announcement counts

A pass over a device or a folder puts its row over the one that was there, so a whole config
leaves what is last in it, and configs one after the other leave what is last in all of them.
No other step writes these tables; a reply is read off them.
-/

set_option autoImplicit false

namespace Grizol.Analysis

open Grizol.Library Grizol.Model Grizol.Interface
open Grizol.Model.Syncthing

variable {codec : Codec} {hash : String → ℕ → ℕ → UInt64} {sha256 : Bytes → Bytes}
  {debugRequest : Request → String} {config : ConnectionConfig}

/-! ## One cluster config -/

section Tables

variable {before tables tables' : SharedFolders} {localDeviceId clientDeviceId : DeviceId}
  {announced : List Folder}

/-- The devices of two lists of folders. -/
theorem placedDevices_append (folders folders' : List Folder) :
    placedDevices (folders ++ folders') = placedDevices folders ++ placedDevices folders' :=
  List.flatMap_append

/-- The last folder of an id is in the second list, if there. -/
theorem lastFolder_append (folders folders' : List Folder) (id : String) :
    lastFolder (folders ++ folders') id = (lastFolder folders' id).or (lastFolder folders id) := by
  rw [lastFolder, List.reverse_append, List.find?_append]
  rfl

/-- So is the last device. -/
theorem lastDevice_append (devices devices' : List (String × Device)) (id : DeviceId) :
    lastDevice (devices ++ devices') id =
      (lastDevice devices' id).or (lastDevice devices id) := by
  rw [lastDevice, List.reverse_append, List.find?_append]
  rfl

/-- Without an announcement the tables are as before. -/
theorem remembers_nil (tables : SharedFolders) : Remembers tables localDeviceId [] tables :=
  ⟨fun _ => rfl, fun _ => rfl⟩

/-- What comes after goes over it. -/
theorem remembers_append {announced' : List Folder}
    (h : Remembers before localDeviceId announced tables)
    (h' : Remembers tables localDeviceId announced' tables') :
    Remembers before localDeviceId (announced ++ announced') tables' where
  folders id := by
    rw [h'.folders, h.folders, lastFolder_append]
    cases lastFolder announced' id <;> simp
  devices id := by
    rw [h'.devices, h.devices, placedDevices_append, lastDevice_append]
    cases lastDevice (placedDevices announced') id <;> simp

/-- The devices of one folder, the last one counts. -/
theorem lastDevice_of_updateDevices {folder : String} {devices : List Device}
    (h : devices.foldlM (BepState.updateDevice folder localDeviceId) tables = .ok tables')
    (id : DeviceId) : tables'.bepDevices.get id =
      ((lastDevice (devices.map fun d => (folder, d)) id).map fun d =>
        BepState.deviceRow d.1 localDeviceId d.2).or (tables.bepDevices.get id) := by
  induction devices generalizing tables with
  | nil =>
      obtain rfl := Except.ok.inj h
      rfl
  | cons device devices ih =>
      rw [List.foldlM_cons, Rust.bind_eq_ok] at h
      obtain ⟨tables₁, hfirst, h⟩ := h
      obtain ⟨-, -, id₁, hid₁, hget⟩ := updateDevice_eq_ok hfirst
      rw [ih h, hget, List.map_cons, ← List.singleton_append, lastDevice_append]
      have hself : lastDevice [(folder, device)] id =
          if id = id₁ then some (folder, device) else none := by
        by_cases hid : id = id₁
        · rw [if_pos hid]
          exact List.find?_cons_of_pos (decide_eq_true (by rw [hid]; exact hid₁))
        · rw [if_neg hid]
          refine List.find?_cons_of_neg fun hsame => hid ?_
          exact toBytes_injective ((of_decide_eq_true hsame).symm.trans hid₁)
      rw [hself]
      cases lastDevice (devices.map fun d => (folder, d)) id with
      | some d => simp
      | none => split_ifs <;> simp

/-- One folder with its devices. -/
theorem remembers_updateFolder {folder : Folder}
    (h : BepState.updateFolder localDeviceId tables folder = .ok tables') :
    Remembers tables localDeviceId [folder] tables' where
  folders id := by
    obtain ⟨-, hfolders, -⟩ := updateDevices_eq_ok h
    rw [hfolders]
    show (tables.bepFolders.insert folder.id _).get id = _
    rw [AssocMap.get_insert]
    by_cases hid : id = folder.id
    · have hself : lastFolder [folder] id = some folder :=
        List.find?_cons_of_pos (decide_eq_true hid.symm)
      rw [if_pos hid, hself]
      rfl
    · have hnone : lastFolder [folder] id = none :=
        List.find?_cons_of_neg fun hsame => hid (of_decide_eq_true hsame).symm
      rw [if_neg hid, hnone]
      rfl
  devices id := by
    have hplaced : placedDevices [folder] = folder.devices.map fun d => (folder.id, d) :=
      List.flatMap_singleton _ _
    rw [lastDevice_of_updateDevices h, hplaced]
    rfl

/-- A whole cluster config. -/
theorem remembers_updateClusterConfig {clusterConfig : ClusterConfig}
    (h : BepState.updateClusterConfig tables clusterConfig localDeviceId = .ok tables') :
    Remembers tables localDeviceId clusterConfig.folders tables' := by
  unfold BepState.updateClusterConfig at h
  generalize clusterConfig.folders = folders at h
  induction folders generalizing tables with
  | nil =>
      obtain rfl := Except.ok.inj h
      exact remembers_nil tables
  | cons folder folders ih =>
      rw [List.foldlM_cons, Rust.bind_eq_ok] at h
      obtain ⟨tables₁, hfirst, h⟩ := h
      exact remembers_append (remembers_updateFolder hfirst) (ih h)

/-- It is stored if and only if all its devices can be. -/
theorem updateClusterConfig_returns_iff {clusterConfig : ClusterConfig} :
    (∃ tables', BepState.updateClusterConfig tables clusterConfig localDeviceId = .ok tables') ↔
      StorableDevices clusterConfig := by
  unfold BepState.updateClusterConfig StorableDevices
  generalize clusterConfig.folders = folders
  constructor
  · rintro ⟨tables', h⟩
    exact storable_of_updateClusterConfig h
  · intro h
    induction folders generalizing tables with
    | nil => exact ⟨tables, rfl⟩
    | cons folder folders ih =>
        obtain ⟨hfolder, hfolders⟩ := List.forall_mem_cons.mp h
        have hrow : (tables.insertFolder folder.id
            (BepState.folderRow folder)).bepFolders.contains folder.id = true := by
          rw [AssocMap.contains_iff]
          exact ⟨_, AssocMap.get_insert_self _ _ _⟩
        obtain ⟨tables₁, hfirst⟩ := updateDevices_returns localDeviceId hrow hfolder
        obtain ⟨tables', hrest⟩ := ih hfolders
        refine ⟨tables', ?_⟩
        rw [List.foldlM_cons, Rust.bind_eq_ok]
        exact ⟨tables₁, hfirst, hrest⟩

/-! ## Replies -/

/-- A device is in the folder where it was placed last. -/
theorem folder_of_row (h : Remembers before localDeviceId announced tables) (id : DeviceId) :
    (tables.bepDevices.get id).map DeviceRow.folder = lastPlace before announced id := by
  rw [h.devices, lastPlace]
  cases lastDevice (placedDevices announced) id <;> rfl

/-- The reply has the one folder of the row of the client. -/
theorem clusterConfig_folders : (BepState.clusterConfig tables localDeviceId
      clientDeviceId).folders =
    ((tables.bepDevices.get clientDeviceId).bind fun row =>
      (tables.bepFolders.get row.folder).map fun fo =>
        { id := row.folder
          label := fo.label
          readOnly := fo.readOnly
          ignorePermissions := fo.ignorePermissions
          ignoreDelete := fo.ignoreDelete
          disableTempIndexes := fo.disableTempIndexes
          paused := fo.paused
          devices := ((BepState.configDevices tables localDeviceId clientDeviceId).filter
            fun d => d.1 = row.folder).map Prod.snd : Folder }).toList := by
  rw [BepState.clusterConfig, configFolders_eq]
  cases tables.bepDevices.get clientDeviceId with
  | none => rfl
  | some row =>
      rw [Option.toList_some, List.flatMap_singleton, Option.bind_some, List.map_map]
      dsimp only
      cases tables.bepFolders.get row.folder <;> rfl

/-- The devices of a folder are those that have their rows in it. -/
theorem configDevices_folder (id : String) :
    ((BepState.configDevices tables localDeviceId clientDeviceId).filter
        fun d => d.1 = id).map Prod.snd =
      (tables.bepDevices.entries.filter fun e =>
        decide (e.2.folder = id) && (e.1 = localDeviceId || e.1 = clientDeviceId)).map
          fun e => BepState.deviceOf e.1 e.2 := by
  rw [BepState.configDevices, List.filter_map, List.filter_filter, List.map_map]
  rfl

/-- The answer is read from what is remembered. -/
theorem answeredFrom_of_remembers (h : Remembers before localDeviceId announced tables) :
    AnsweredFrom before localDeviceId clientDeviceId announced
      (BepState.clusterConfig tables localDeviceId clientDeviceId) := by
  have hfolder : ∀ f ∈ (BepState.clusterConfig tables localDeviceId clientDeviceId).folders,
      (∃ fo, tables.bepFolders.get f.id = some fo ∧ f.label = fo.label ∧
        f.readOnly = fo.readOnly ∧ f.ignorePermissions = fo.ignorePermissions ∧
        f.ignoreDelete = fo.ignoreDelete ∧ f.disableTempIndexes = fo.disableTempIndexes ∧
        f.paused = fo.paused) ∧
      f.devices = (tables.bepDevices.entries.filter fun e =>
        decide (e.2.folder = f.id) && (e.1 = localDeviceId || e.1 = clientDeviceId)).map
          fun e => BepState.deviceOf e.1 e.2 := by
    intro f hf
    rw [clusterConfig_folders, Option.mem_toList] at hf
    obtain ⟨row, -, hf⟩ := Option.bind_eq_some_iff.mp hf
    obtain ⟨fo, hfo, rfl⟩ := Option.map_eq_some_iff.mp hf
    exact ⟨⟨fo, hfo, rfl, rfl, rfl, rfl, rfl, rfl⟩, configDevices_folder row.folder⟩
  constructor
  · rw [clusterConfig_folders, ← folder_of_row h]
    cases hrow : tables.bepDevices.get clientDeviceId with
    | none => rfl
    | some row =>
        obtain ⟨fo, hfo⟩ := AssocMap.contains_iff.mp (tables.folderOfDevice _ _ hrow)
        simp [hfo]
  · intro f hf f' hlast
    obtain ⟨⟨fo, hfo, h₁, h₂, h₃, h₄, h₅, h₆⟩, -⟩ := hfolder f hf
    rw [h.folders, hlast] at hfo
    obtain rfl := Option.some.inj hfo
    have hid : f'.id = f.id := by simpa using List.find?_some hlast
    simp only [folderHeader, h₁, h₂, h₃, h₄, h₅, h₆, hid, BepState.folderRow]
  · intro f hf
    rw [(hfolder f hf).2, List.map_map]
    have hids : (tables.bepDevices.entries.filter fun e =>
        decide (e.2.folder = f.id) && (e.1 = localDeviceId || e.1 = clientDeviceId)).map
          (Device.id ∘ fun e => BepState.deviceOf e.1 e.2) =
        ((tables.bepDevices.entries.filter fun e => decide (e.2.folder = f.id) &&
          (e.1 = localDeviceId || e.1 = clientDeviceId)).map Prod.fst).map DeviceId.toBytes := by
      rw [List.map_map]
      rfl
    rw [hids]
    apply List.Perm.map
    refine (List.perm_ext_iff_of_nodup ?_ ((List.nodup_dedup _).filter _)).mpr fun id => ?_
    · exact tables.bepDevices.nodup.sublist (List.filter_sublist.map Prod.fst)
    · rw [List.mem_filter, ← folder_of_row h, decide_eq_true_iff, Option.map_eq_some_iff]
      simp only [List.mem_map, List.mem_filter, AssocMap.mem_entries_iff, Prod.exists,
        Bool.and_eq_true, Bool.or_eq_true, decide_eq_true_eq, List.mem_dedup, List.mem_cons,
        List.not_mem_nil, or_false]
      constructor
      · rintro ⟨k, row, ⟨hrow, hplace, hk⟩, rfl⟩
        exact ⟨hk, row, hrow, hplace⟩
      · rintro ⟨hid, row, hrow, hplace⟩
        exact ⟨id, row, ⟨hrow, hplace, hid⟩, rfl⟩
  · intro f hf d hd id x hid hlast
    rw [(hfolder f hf).2] at hd
    obtain ⟨⟨k, row⟩, hentry, rfl⟩ := List.mem_map.mp hd
    obtain rfl : k = id := toBytes_injective hid
    have hrow := AssocMap.mem_entries_iff.mp (List.mem_of_mem_filter hentry)
    rw [h.devices, hlast] at hrow
    rw [← Option.some.inj hrow]

end Tables

/-! ## Turns -/

section Turns

variable {before : SharedFolders} {localDeviceId clientDeviceId : DeviceId}
  {stored : List ClusterConfig} {s s' : ServerState} {k k' : Connection}
  {event : ConnectionEvent} {r : ConnectionRecord}

/-- The loop over the shared folders leaves the tables. -/
theorem initIndices_sharedFolders (folders : List String) :
    (RustM.endState ((ServerState.initIndices clientDeviceId localDeviceId folders).run s)
      ).sharedFolders = s.sharedFolders := by
  have hindex : ∀ folder deviceId s, (RustM.endState
      ((ServerState.initIndex folder deviceId).run s)).sharedFolders = s.sharedFolders := by
    intro folder deviceId s
    unfold ServerState.initIndex
    rw [EStateM.run_bind, RustM.run_getThe]
    dsimp only
    split_ifs
    · rw [onBepState_run]
    · rfl
  induction folders generalizing s with
  | nil => rfl
  | cons folder folders ih =>
      refine RustM.endState_bind_eq ServerState.sharedFolders (hindex folder clientDeviceId s)
        fun _ s₁ _ => ?_
      exact RustM.endState_bind_eq ServerState.sharedFolders (hindex folder localDeviceId s₁)
        fun _ s₂ _ => ih

/-- The first section of the handler stores the config, or nothing. -/
theorem shareFolders_tables (received : ClusterConfig) (clientDeviceId : DeviceId)
    (h : s.processor.config.localDeviceId = localDeviceId) :
    Remembers s.sharedFolders localDeviceId
      (foldersOf (if StorableDevices received then [received] else []))
      (RustM.endState
        ((ServerState.shareFolders received clientDeviceId).run s)).sharedFolders := by
  unfold ServerState.shareFolders
  rw [EStateM.run_bind, RustM.run_getThe]
  dsimp only
  rw [h, EStateM.run_bind]
  cases hupdate : BepState.updateClusterConfig s.sharedFolders received localDeviceId with
  | error e =>
      have hnot : ¬ StorableDevices received := fun hstorable => by
        obtain ⟨tables, htables⟩ := updateClusterConfig_returns_iff.mpr hstorable
        rw [hupdate] at htables
        cases htables
      rw [if_neg hnot]
      exact remembers_nil _
  | ok tables =>
      have hfolders : foldersOf [received] = received.folders := List.flatMap_singleton _ _
      rw [if_pos (updateClusterConfig_returns_iff.mp ⟨tables, hupdate⟩), hfolders]
      -- what comes after the tables were written does not touch them
      have hrest : (RustM.endState (EStateM.run (do
          let folders ← liftM (ServerState.foldersSharedWithMe localDeviceId received.folders)
          ServerState.initIndices clientDeviceId localDeviceId folders)
            { s with sharedFolders := tables })).sharedFolders = tables := by
        refine RustM.endState_bind_eq ServerState.sharedFolders ?_ fun folders s₁ _ => ?_
        · rw [RustM.endState_lift]
        · exact initIndices_sharedFolders folders
      rw [← hrest] at hupdate
      exact remembers_updateClusterConfig hupdate

/-- One turn of any handler. -/
theorem act_tables (hash : String → ℕ → ℕ → UInt64) (sha256 : Bytes → Bytes)
    (debugRequest : Request → String) (h : MessageHandler) (outcome : TurnOutcome)
    (hdevice : s.processor.config.localDeviceId = localDeviceId) :
    Remembers s.sharedFolders localDeviceId
      (foldersOf (match h with
        | .clusterConfig ⟨received, _, .shareFolders⟩ =>
            if StorableDevices received then [received] else []
        | _ => []))
      (h.act hash sha256 debugRequest outcome s).2.sharedFolders := by
  cases h with
  | clusterConfig h =>
      obtain ⟨received, client, pc⟩ := h
      cases pc with
      | shareFolders =>
          have htables := shareFolders_tables received client hdevice
          dsimp only [MessageHandler.act, ClusterConfigHandler.act]
          cases hrun : (ServerState.shareFolders received client).run s with
          | ok u s₁ | error e s₁ =>
              rw [hrun] at htables
              exact htables
      | indices =>
          have hrun := onBepState_run (BepState.indicesOf none
            (some s.processor.config.localDeviceId) client) s
          dsimp only [MessageHandler.act, ClusterConfigHandler.act]
          cases hresult : (ServerState.onBepState (BepState.indicesOf none
              (some s.processor.config.localDeviceId) client)).run s with
          | ok u s₁ | error e s₁ =>
              rw [hresult] at hrun
              obtain rfl := hrun
              exact remembers_nil _
      | _ => exact remembers_nil _
  | _ => exact remembers_nil _

/-- The tables after a step have what the step stored over what they had. -/
theorem tables_of_moved (hdevice : s.processor.config.localDeviceId = localDeviceId)
    (hmoved : Moved codec hash sha256 debugRequest config k s event k' s') :
    Remembers s.sharedFolders localDeviceId (foldersOf (storedConfig s k event))
      s'.sharedFolders := by
  cases hmoved with
  | turn i input task task' queued s' htask hturned hqueued =>
      unfold storedConfig
      dsimp only
      rw [htask]
      cases hturned with
      | act h messages =>
          have htables := act_tables hash sha256 debugRequest h input.outcome hdevice
          cases h with
          | clusterConfig h =>
              obtain ⟨received, client, pc⟩ := h
              cases pc <;> exact htables
          | _ => exact htables
      | _ => exact remembers_nil _
  | _ => exact remembers_nil _

end Turns

/-! ## Replies on their way -/

section Replies

variable {before : SharedFolders} {localDeviceId clientDeviceId : DeviceId}
  {stored : List ClusterConfig} {s s' : ServerState} {k k' : Connection}
  {event : ConnectionEvent} {r : ConnectionRecord}

/-- A cluster config for the client is what the tables had at some time before. -/
def MessageAnswers (before : SharedFolders) (localDeviceId clientDeviceId : DeviceId)
    (stored : List ClusterConfig) (m : CompleteMessage) : Prop :=
  ∀ reply, m = .clusterConfig reply → ∃ earlier, earlier <+: stored ∧
    AnsweredFrom before localDeviceId clientDeviceId (foldersOf earlier) reply

/-- What any handler knows: that of a cluster config answers the client, and has not returned. -/
abbrev HandlerAnswers (before : SharedFolders) (localDeviceId clientDeviceId : DeviceId)
    (stored : List ClusterConfig) : MessageHandler → Prop :=
  HandlerFollows
    (fun h => h.clientDeviceId = clientDeviceId ∧ ∀ reply indices, h.pc ≠ .returned reply indices)
    fun results => ∀ m, .ok (.message m) ∈ results →
      MessageAnswers before localDeviceId clientDeviceId stored m

/-- With more stored, an answer is still one. -/
theorem MessageAnswers.mono {stored' : List ClusterConfig} {m : CompleteMessage}
    (h : MessageAnswers before localDeviceId clientDeviceId stored m) (hmore : stored <+: stored') :
    MessageAnswers before localDeviceId clientDeviceId stored' m := by
  intro reply hreply
  obtain ⟨earlier, hearlier, hanswered⟩ := h reply hreply
  exact ⟨earlier, hearlier.trans hmore, hanswered⟩

/-- Other handlers answer with no config. -/
theorem messageAnswers_of_other {results : List (Except BepProcessorError GrizolEvent)}
    (h : RepliesToOther results) : ∀ m, .ok (.message m) ∈ results →
      MessageAnswers before localDeviceId clientDeviceId stored m := by
  rintro m hm reply rfl
  exact absurd hm (h.clusterConfig reply)

/-- What is kept of the state all along. -/
structure TablesKept (before : SharedFolders) (localDeviceId : DeviceId)
    (stored : List ClusterConfig) (s : ServerState) : Prop where
  device : s.processor.config.localDeviceId = localDeviceId
  tables : Remembers before localDeviceId (foldersOf stored) s.sharedFolders

/-- The handler of a cluster config returns what it reads off the tables. -/
theorem handlerAnswers_clusterConfig (hs : TablesKept before localDeviceId stored s)
    {h : ClusterConfigHandler} (hclient : h.clientDeviceId = clientDeviceId)
    (hreturned : ∀ reply indices, h.pc ≠ .returned reply indices) :
    HandlerAnswers before localDeviceId clientDeviceId stored (.ofClusterConfig (h.act s).1) := by
  obtain ⟨received, client, pc⟩ := h
  obtain rfl : client = clientDeviceId := hclient
  unfold ClusterConfigHandler.act
  cases pc with
  | shareFolders =>
      dsimp only
      cases (ServerState.shareFolders received client).run s with
      | ok u s₁ => exact ⟨rfl, by simp⟩
      | error e s₁ => trivial
  | indices =>
      dsimp only
      cases (ServerState.onBepState (BepState.indicesOf none
          (some s.processor.config.localDeviceId) client)).run s with
      | ok indices s₁ => exact ⟨rfl, by simp⟩
      | error e s₁ => trivial
  | clusterConfig indices =>
      rintro m hm reply rfl
      refine ⟨stored, List.prefix_refl _, ?_⟩
      have hreply : reply =
          BepState.clusterConfig s.sharedFolders s.processor.config.localDeviceId client := by
        rcases List.mem_cons.mp hm with hm | hm
        · simpa using hm
        · simp at hm
      rw [hreply, hs.device]
      exact answeredFrom_of_remembers hs.tables
  | returned reply indices => exact absurd rfl (hreturned reply indices)
  | panicked e => trivial

/-- What one connection knows, and what it has told its client. -/
abbrev ClientAnswered (before : SharedFolders) (localDeviceId : DeviceId)
    (stored : List ClusterConfig) (k : Connection) (r : ConnectionRecord) : Prop :=
  ConnectionFollows (HandlerAnswers before localDeviceId k.clientDeviceId stored)
    (MessageAnswers before localDeviceId k.clientDeviceId stored) k r

/-- With more stored, the client is still answered. -/
theorem ClientAnswered.mono {stored' : List ClusterConfig}
    (h : ClientAnswered before localDeviceId stored k r) (hmore : stored <+: stored') :
    ClientAnswered before localDeviceId stored' k r :=
  ConnectionFollows.mono h
    (fun _ hh => hh.mono (fun _ hC => hC) fun _ hR m hm => (hR m hm).mono hmore) fun _ hm => hm.mono hmore

/-- A step answers from what is stored. -/
theorem clientAnswered_of_moved (hs : TablesKept before localDeviceId stored s)
    (hk : ClientAnswered before localDeviceId stored k r)
    (hmoved : Moved codec hash sha256 debugRequest config k s event k' s') :
    ClientAnswered before localDeviceId (stored ++ storedConfig s k event) k'
      (r.extend codec config s k event) := by
  have hmore : stored <+: stored ++ storedConfig s k event := List.prefix_append _ _
  unfold ClientAnswered
  rw [client_of_moved hmoved]
  refine follows_of_moved hk hmoved
    (fun _ hh => hh.mono (fun _ hC => hC) fun _ hR m hm => (hR m hm).mono hmore)
    (fun _ hm => hm.mono hmore) (fun clock m _ => ?_) (fun h outcome hh _ => ?_)
    (fun _ hresults => hresults) (fun reply hreply => ?_) (fun request reply hreply => ?_)
  · exact handlerFollows_handleCompleteMessage clock
      (fun x _ => ⟨rfl, by simp [ClusterConfigHandler.new]⟩) fun _ => messageAnswers_of_other
  · refine handlerFollows_act hh outcome (fun c _ hC => ?_)
      (fun _ hR m hm => (hR m hm).mono hmore) fun _ => messageAnswers_of_other
    exact (handlerAnswers_clusterConfig hs hC.1 hC.2).mono (fun _ hC => hC)
      fun _ hR m hm => (hR m hm).mono hmore
  · cases hreply
  · cases hreply

/-- **The last announcement counts.** However the connections of a server take turns, its tables
have what all the clients announced last; a cluster config that is sent has the one folder
that the client was placed in last when it was read off them, by whichever client. -/
theorem remembersLast_of_run (codec : Codec) (hash : String → ℕ → ℕ → UInt64)
    (sha256 : Bytes → Bytes) (debugRequest : Request → String) (config : ConnectionConfig)
    {state : ServerState} {es : List ServerEvent} {s : Server}
    (hrun : Transition.run (serverStep codec hash sha256 debugRequest config) (.start state) es =
      some s) {c : ℕ} {k : Connection} (hk : s.connections c = some k) :
    RemembersLast state.sharedFolders state.processor.config.localDeviceId k.clientDeviceId
      (storedIn codec hash sha256 debugRequest config (.start state) es)
      (recordOn codec hash sha256 debugRequest config c (.start state) es).sent
      s.state.sharedFolders := by
  obtain ⟨htables, hclients⟩ := server_of_run storedConfig
    (P := TablesKept state.sharedFolders state.processor.config.localDeviceId)
    (Q := fun stored _ k r => ClientAnswered state.sharedFolders
      state.processor.config.localDeviceId stored k r)
    ⟨rfl, remembers_nil _⟩ (fun _ _ d => follows_new d)
    (fun stored s k event k' s' r hs hk hmoved => by
      refine ⟨⟨(congrArg _ (config_of_moved hmoved)).trans hs.device, ?_⟩,
        clientAnswered_of_moved hs hk hmoved⟩
      rw [foldersOf, List.flatMap_append]
      exact remembers_append hs.tables (tables_of_moved hs.device hmoved))
    (fun _ _ _ _ _ _ _ _ _ _ _ _ hk₂ => hk₂.mono (List.prefix_append _ _)) hrun
  exact ⟨htables.tables, fun reply hreply => (hclients c k hk).sent _ hreply reply rfl⟩

/-- The client says Hello and announces one folder, then the other. -/
def announcedTwice : List ServerEvent :=
  [⟨0, .accept clientDevice⟩,
    ⟨0, .read (greeting ++ plainFrame .clusterConfig (encodeClusterConfig (sharing "photos")))⟩] ++
  List.replicate 12 ⟨0, .turn 0 quietInput⟩ ++
  [⟨0, .read (plainFrame .clusterConfig (encodeClusterConfig (sharing "notes")))⟩] ++
  List.replicate 9 ⟨0, .turn 1 quietInput⟩ ++ List.replicate 5 ⟨0, .send .done⟩

/-- The folders of the cluster configs among messages. -/
def configsSent (sent : List CompleteMessage) : List (List String) :=
  sent.filterMap fun m =>
    match m with
    | .clusterConfig reply => some (reply.folders.map Folder.id)
    | _ => none

/-- Witness: the first folder is not listed any more. -/
theorem remembersLast_of_run_twice :
    ∃ s k, Transition.run (serverStep announcingMessages (fun _ _ _ => 0) pairHash (fun _ => "")
        unnamedConfig) (.start unsharedState) announcedTwice = some s ∧ s.connections 0 = some k ∧
      configsSent (recordOn announcingMessages (fun _ _ _ => 0) pairHash (fun _ => "")
        unnamedConfig 0 (.start unsharedState) announcedTwice).sent = [["photos"], ["notes"]] ∧
      RemembersLast unsharedState.sharedFolders serverDevice clientDevice
        (storedIn announcingMessages (fun _ _ _ => 0) pairHash (fun _ => "") unnamedConfig
          (.start unsharedState) announcedTwice)
        (recordOn announcingMessages (fun _ _ _ => 0) pairHash (fun _ => "") unnamedConfig 0
          (.start unsharedState) announcedTwice).sent s.state.sharedFolders := by
  have hsome : ((Transition.run (serverStep announcingMessages (fun _ _ _ => 0) pairHash
      (fun _ => "") unnamedConfig) (.start unsharedState) announcedTwice).bind
        fun s => s.connections 0).map Connection.clientDeviceId = some clientDevice := by
    decide +kernel
  obtain ⟨k, hk, hclient⟩ := Option.map_eq_some_iff.mp hsome
  obtain ⟨s, hrun, hk⟩ := Option.bind_eq_some_iff.mp hk
  have hremembers := remembersLast_of_run announcingMessages (fun _ _ _ => 0) pairHash
    (fun _ => "") unnamedConfig hrun hk
  rw [hclient] at hremembers
  exact ⟨s, k, hrun, hk, by decide +kernel, hremembers⟩

end Replies

end Grizol.Analysis

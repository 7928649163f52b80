import Grizol.Interface.SharedFolders

/-!
# When shared folders are restored

The table of devices has one row for a device, so what it says of the client is one folder:
more than one cannot be given back. Of one folder everything is given back but the addresses,
which are kept as one text.
-/

set_option autoImplicit false

namespace Grizol.Analysis

open Grizol.Library
open Grizol.Model Grizol.Model.Syncthing Grizol.Interface

/-! ## Rows -/

section Rows

variable {tables tables' : SharedFolders} {folder : String} {localDeviceId : DeviceId}

/-- Devices have different bytes. -/
theorem toBytes_injective : Function.Injective DeviceId.toBytes := by
  rintro ⟨id⟩ ⟨id'⟩ h
  exact congrArg DeviceId.mk (Vector.toList_inj.mp h)

/-- A device is read from its bytes only. -/
theorem ofBytes_eq_some {input : Bytes} {id : DeviceId} :
    DeviceId.ofBytes input = some id ↔ input = id.toBytes := by
  unfold DeviceId.ofBytes
  constructor
  · intro h
    split_ifs at h
    rw [← Option.some.inj h]
    rfl
  · rintro rfl
    have hlength : id.toBytes.length = 32 := id.id.length_toList
    rw [dif_pos hlength]
    rfl

/-- What the pass over a device that returned has written. -/
theorem updateDevice_eq_ok {device : Device}
    (h : BepState.updateDevice folder localDeviceId tables device = .ok tables') :
    StorableDevice device ∧ tables'.bepFolders = tables.bepFolders ∧
      ∃ id, device.id = id.toBytes ∧ ∀ id', tables'.bepDevices.get id' =
        if id' = id then some (BepState.deviceRow folder localDeviceId device)
        else tables.bepDevices.get id' := by
  rw [BepState.updateDevice, Rust.bind_eq_ok] at h
  obtain ⟨id, hid, h⟩ := h
  have hbytes : device.id = id.toBytes := by
    cases hof : DeviceId.ofBytes device.id with
    | none =>
        rw [hof] at hid
        cases hid
    | some id' =>
        rw [hof] at hid
        obtain rfl : id' = id := Except.ok.inj hid
        exact ofBytes_eq_some.mp hof
  unfold SharedFolders.insertDevice at h
  split_ifs at h with hconstraints
  obtain rfl := Except.ok.inj h
  refine ⟨⟨?_, hconstraints.2⟩, rfl, id, hbytes, fun id' => AssocMap.get_insert _ _ _ _⟩
  rw [hbytes]
  exact id.id.length_toList

/-- It returns if the device can be stored. -/
theorem updateDevice_returns (localDeviceId : DeviceId) {device : Device}
    (hfolder : tables.bepFolders.contains folder = true)
    (hdevice : StorableDevice device) :
    ∃ tables', BepState.updateDevice folder localDeviceId tables device = .ok tables' := by
  have hid : DeviceId.ofBytes device.id = some ⟨⟨device.id.toArray, hdevice.1⟩⟩ :=
    dif_pos hdevice.1
  have hconstraints : tables.bepFolders.contains
        (BepState.deviceRow folder localDeviceId device).folder = true ∧
      (BepState.deviceRow folder localDeviceId device).compression ∈ compressionTypes :=
    ⟨hfolder, hdevice.2⟩
  rw [BepState.updateDevice, hid, Rust.expect_some, Rust.ok_bind, SharedFolders.insertDevice,
    dif_pos hconstraints]
  exact ⟨_, rfl⟩

/-- What the devices of a folder leave of every id: the row of one that has it, or what was
there. -/
theorem updateDevices_eq_ok {devices : List Device}
    (h : devices.foldlM (BepState.updateDevice folder localDeviceId) tables = .ok tables') :
    (∀ d ∈ devices, StorableDevice d) ∧ tables'.bepFolders = tables.bepFolders ∧
      ∀ id, (∃ d ∈ devices, d.id = id.toBytes ∧
          tables'.bepDevices.get id = some (BepState.deviceRow folder localDeviceId d)) ∨
        (∀ d ∈ devices, d.id ≠ id.toBytes) ∧
          tables'.bepDevices.get id = tables.bepDevices.get id := by
  induction devices generalizing tables with
  | nil =>
      obtain rfl := Except.ok.inj h
      exact ⟨fun _ h => (by cases h), rfl, fun id => Or.inr ⟨fun _ h => (by cases h), rfl⟩⟩
  | cons device devices ih =>
      rw [List.foldlM_cons, Rust.bind_eq_ok] at h
      obtain ⟨tables₁, hfirst, h⟩ := h
      obtain ⟨hstorable, hfolders, id₁, hid₁, hget⟩ := updateDevice_eq_ok hfirst
      obtain ⟨hrest, hfolders', hrows⟩ := ih h
      refine ⟨List.forall_mem_cons.mpr ⟨hstorable, hrest⟩, hfolders'.trans hfolders, ?_⟩
      intro id
      rcases hrows id with ⟨d, hd, hrow⟩ | ⟨hnone, hsame⟩
      · exact Or.inl ⟨d, List.mem_cons_of_mem _ hd, hrow⟩
      · rw [hget] at hsame
        split_ifs at hsame with hid
        · exact Or.inl ⟨device, List.mem_cons_self, hid ▸ hid₁, hsame⟩
        · refine Or.inr ⟨List.forall_mem_cons.mpr ⟨?_, hnone⟩, hsame⟩
          rw [hid₁]
          exact fun heq => hid (toBytes_injective heq).symm

/-- The loop over the devices returns if all can be stored. -/
theorem updateDevices_returns (localDeviceId : DeviceId) {devices : List Device}
    (hfolder : tables.bepFolders.contains folder = true)
    (hdevices : ∀ d ∈ devices, StorableDevice d) :
    ∃ tables', devices.foldlM (BepState.updateDevice folder localDeviceId) tables =
      .ok tables' := by
  induction devices generalizing tables with
  | nil => exact ⟨tables, rfl⟩
  | cons device devices ih =>
      obtain ⟨hdevice, hdevices⟩ := List.forall_mem_cons.mp hdevices
      obtain ⟨tables₁, hfirst⟩ := updateDevice_returns localDeviceId hfolder hdevice
      obtain ⟨-, hfolders, -⟩ := updateDevice_eq_ok hfirst
      obtain ⟨tables', hrest⟩ := ih (hfolders ▸ hfolder) hdevices
      refine ⟨tables', ?_⟩
      rw [List.foldlM_cons, hfirst, Rust.ok_bind, hrest]

/-- An update that returned has stored every device. -/
theorem storable_of_updateClusterConfig {folders : List Folder}
    (h : folders.foldlM (BepState.updateFolder localDeviceId) tables = .ok tables') :
    ∀ f ∈ folders, ∀ d ∈ f.devices, StorableDevice d := by
  induction folders generalizing tables with
  | nil => exact fun _ hf => by cases hf
  | cons f folders ih =>
      rw [List.foldlM_cons, Rust.bind_eq_ok] at h
      obtain ⟨tables₁, hfirst, h⟩ := h
      exact List.forall_mem_cons.mpr ⟨(updateDevices_eq_ok hfirst).1, ih h⟩

end Rows

/-! ## Queries -/

section Queries

variable {tables : SharedFolders} {localDeviceId clientDeviceId : DeviceId}

/-- The client has at most one row, so it is joined with at most one folder. -/
theorem configFolders_eq :
    BepState.configFolders tables clientDeviceId =
      (tables.bepDevices.get clientDeviceId).toList.flatMap fun row =>
        (tables.bepFolders.get row.folder).toList.map fun folder => (row.folder, folder) := by
  have hclient : ∀ fo : String × FolderRow,
      (tables.bepDevices.entries.filter fun de => fo.1 = de.2.folder && de.1 = clientDeviceId) =
        ((tables.bepDevices.get clientDeviceId).toList.map fun row =>
          (clientDeviceId, row)).filter fun de => fo.1 = de.2.folder := by
    intro fo
    rw [← AssocMap.filter_key, List.filter_filter]
  rw [BepState.configFolders, List.flatMap_congr fun fo _ => by rw [hclient fo]]
  cases tables.bepDevices.get clientDeviceId with
  | none => simp
  | some row =>
      rw [Option.toList_some, List.flatMap_singleton, ← AssocMap.filter_key]
      induction tables.bepFolders.entries with
      | nil => rfl
      | cons fo entries ih =>
          rw [List.flatMap_cons, ih, List.filter_cons]
          by_cases hfolder : fo.1 = row.folder
          · simp [hfolder]
          · simp [hfolder]

/-- Every device is in the folder of its row. -/
theorem configDevices_ids {id : String}
    (hrows : ∀ k row, tables.bepDevices.get k = some row → row.folder = id)
    (hlocal : tables.bepDevices.contains localDeviceId = true)
    (hclient : tables.bepDevices.contains clientDeviceId = true) :
    (((BepState.configDevices tables localDeviceId clientDeviceId).filter
        fun d => d.1 = id).map Prod.snd).map Device.id |>.Perm
      ([localDeviceId, clientDeviceId].dedup.map DeviceId.toBytes) := by
  have hall : ∀ d ∈ BepState.configDevices tables localDeviceId clientDeviceId, d.1 = id := by
    intro d hd
    obtain ⟨e, he, rfl⟩ := List.mem_map.mp hd
    exact hrows e.1 e.2 (AssocMap.mem_entries_iff.mp (List.mem_of_mem_filter he))
  have hids : ((BepState.configDevices tables localDeviceId clientDeviceId).map Prod.snd).map
      Device.id = ((tables.bepDevices.entries.filter fun e =>
        e.1 = localDeviceId || e.1 = clientDeviceId).map Prod.fst).map DeviceId.toBytes := by
    rw [BepState.configDevices, List.map_map, List.map_map, List.map_map]
    rfl
  rw [List.filter_eq_self.mpr fun d hd => decide_eq_true (hall d hd), hids]
  apply List.Perm.map
  refine (List.perm_ext_iff_of_nodup ?_ (List.nodup_dedup _)).mpr fun k => ?_
  · exact tables.bepDevices.nodup.sublist (List.filter_sublist.map Prod.fst)
  · have hkey : k ∈ [localDeviceId, clientDeviceId].dedup ↔
        k = localDeviceId ∨ k = clientDeviceId := by simp
    rw [hkey, List.mem_map]
    constructor
    · rintro ⟨e, he, rfl⟩
      simpa using (List.mem_filter.mp he).2
    · intro hk
      have hcontains : tables.bepDevices.contains k = true := by
        rcases hk with rfl | rfl
        · exact hlocal
        · exact hclient
      obtain ⟨row, hrow⟩ := AssocMap.contains_iff.mp hcontains
      exact ⟨(k, row), List.mem_filter.mpr ⟨AssocMap.mem_entries_iff.mpr hrow, by simpa using hk⟩,
        rfl⟩

/-- There is at most one folder for a client. -/
theorem configFolders_length_le :
    (BepState.configFolders tables clientDeviceId).length ≤ 1 := by
  rw [configFolders_eq]
  cases tables.bepDevices.get clientDeviceId with
  | none => exact Nat.zero_le _
  | some row =>
      rw [Option.toList_some, List.flatMap_singleton]
      cases tables.bepFolders.get row.folder with
      | none => exact Nat.zero_le _
      | some folder => exact Nat.le_refl _

end Queries

/-! ## One folder -/

section Restoring

variable {tables : SharedFolders} {localDeviceId clientDeviceId : DeviceId} {folder : Folder}
  {announced : ClusterConfig}

/-- A single folder is announced again, with the addresses split that were joined. -/
theorem clusterConfig_of_single
    (hboth : ListsBoth localDeviceId clientDeviceId ⟨[folder]⟩)
    (h : BepState.updateClusterConfig .empty ⟨[folder]⟩ localDeviceId = .ok tables) :
    ∃ folder', BepState.clusterConfig tables localDeviceId clientDeviceId = ⟨[folder']⟩ ∧
      folderHeader folder' = folderHeader folder ∧
      (folder'.devices.map Device.id).Perm
        ([localDeviceId, clientDeviceId].dedup.map DeviceId.toBytes) ∧
      ∀ d ∈ folder'.devices, ∃ d₀ ∈ folder.devices, d₀.id = d.id ∧
        d.addresses = Separated.split ',' (Separated.join ',' d₀.addresses) := by
  rw [BepState.updateClusterConfig, List.foldlM_cons, Rust.bind_eq_ok] at h
  obtain ⟨tables', hfolder, hend⟩ := h
  obtain rfl := Except.ok.inj hend
  obtain ⟨-, hfolders, hrows⟩ := updateDevices_eq_ok hfolder
  obtain ⟨hlocal, hclient⟩ := hboth folder (List.mem_singleton_self folder)
  -- every row is one of the folder, and both devices have one
  have hrow : ∀ id row, tables'.bepDevices.get id = some row →
      ∃ d ∈ folder.devices, d.id = id.toBytes ∧
        row = BepState.deviceRow folder.id localDeviceId d := by
    intro id row hget
    rcases hrows id with ⟨d, hd, hid, hrow⟩ | ⟨-, hnone⟩
    · rw [hget] at hrow
      exact ⟨d, hd, hid, Option.some.inj hrow⟩
    · rw [hget] at hnone
      cases hnone
  have hlisted : ∀ id : DeviceId, id.toBytes ∈ folder.devices.map Device.id →
      ∃ d, tables'.bepDevices.get id = some (BepState.deviceRow folder.id localDeviceId d) := by
    intro id hmem
    obtain ⟨d', hd', hid'⟩ := List.mem_map.mp hmem
    rcases hrows id with ⟨d, -, -, hget⟩ | ⟨hnone, -⟩
    · exact ⟨d, hget⟩
    · exact absurd hid' (hnone d' hd')
  have hinFolder : ∀ k row, tables'.bepDevices.get k = some row → row.folder = folder.id := by
    intro k row hget
    obtain ⟨d, -, -, rfl⟩ := hrow k row hget
    rfl
  obtain ⟨dl, hgetLocal⟩ := hlisted localDeviceId hlocal
  obtain ⟨dc, hgetClient⟩ := hlisted clientDeviceId hclient
  have hsingle : BepState.configFolders tables' clientDeviceId =
      [(folder.id, BepState.folderRow folder)] := by
    have hget : tables'.bepFolders.get folder.id = some (BepState.folderRow folder) := by
      rw [hfolders]
      exact AssocMap.get_insert_self _ _ _
    rw [configFolders_eq, hgetClient, Option.toList_some, List.flatMap_singleton]
    show (tables'.bepFolders.get folder.id).toList.map _ = _
    rw [hget]
    rfl
  let devices := ((BepState.configDevices tables' localDeviceId clientDeviceId).filter
    fun d => d.1 = folder.id).map Prod.snd
  refine ⟨{ folder with devices := devices }, ?_, rfl, ?_, ?_⟩
  · rw [BepState.clusterConfig, hsingle]
    rfl
  · exact configDevices_ids hinFolder (AssocMap.contains_iff.mpr ⟨_, hgetLocal⟩)
      (AssocMap.contains_iff.mpr ⟨_, hgetClient⟩)
  · intro d hd
    obtain ⟨e, he, rfl⟩ := List.mem_map.mp hd
    obtain ⟨⟨k, row⟩, hentry, rfl⟩ := List.mem_map.mp (List.mem_of_mem_filter he)
    obtain ⟨d₀, hd₀, hid, rfl⟩ :=
      hrow k row (AssocMap.mem_entries_iff.mp (List.mem_of_mem_filter hentry))
    exact ⟨d₀, hd₀, hid, rfl⟩

/-- **When shared folders are restored.** A cluster config whose folders all list this server
and the client is given back by a database that was empty, each folder with both devices and
their addresses, if and only if the tables can hold it. -/
theorem restoresConfig_iff (hboth : ListsBoth localDeviceId clientDeviceId announced) :
    RestoresConfig localDeviceId clientDeviceId announced ↔
      StorableConfig localDeviceId clientDeviceId announced := by
  constructor
  · rintro ⟨tables, hupdate, hrestores⟩
    have hsingle : announced.folders.length ≤ 1 := by
      have hlength := hrestores.folders.length_eq
      rw [List.length_map, List.length_map, BepState.clusterConfig, List.length_map] at hlength
      rw [← hlength]
      exact configFolders_length_le
    refine ⟨storable_of_updateClusterConfig hupdate, hsingle, ?_⟩
    intro folder hfolder d hd hdevice
    obtain ⟨f, hf⟩ : ∃ f, announced.folders = [f] :=
      List.length_eq_one_iff.mp (Nat.le_antisymm hsingle (List.length_pos_of_mem hfolder))
    obtain rfl : announced = ⟨[f]⟩ := congrArg ClusterConfig.mk hf
    obtain rfl := List.mem_singleton.mp hfolder
    obtain ⟨folder', hconfig, hheader, hids, haddresses⟩ := clusterConfig_of_single hboth hupdate
    rw [hconfig] at hrestores
    have hdevices := hrestores.devices folder' (List.mem_singleton_self _) folder hfolder
      (Folder.mk.inj hheader).1.symm
    -- the device is given back with the addresses of a listing, which were not torn apart
    obtain ⟨given, hgiven, hid⟩ : ∃ given ∈ folder'.devices, given.id = d.id := by
      refine List.mem_map.mp (hids.mem_iff.mpr ?_)
      rcases hdevice with hdevice | hdevice <;> simp [hdevice]
    obtain ⟨listed, hlisted, hid', hsplit⟩ := haddresses given hgiven
    have hsame := hdevices.addresses given hgiven
    have hseparable : SeparableAddresses listed := by
      apply Separated.split_join_iff.mp
      rw [← hsplit]
      exact hsame listed hlisted hid'
    have hd' := hsame d hd hid.symm
    have hlisted' := hsame listed hlisted hid'
    refine ⟨?_, fun d' hd'' hid'' => ?_⟩
    · unfold SeparableAddresses at hseparable ⊢
      rw [← hd', hlisted']
      exact hseparable
    · rw [← hd', hsame d' hd'' (hid''.trans hid.symm)]
  · intro hstorable
    cases hfolders : announced.folders with
    | nil =>
        obtain rfl : announced = ⟨[]⟩ := congrArg ClusterConfig.mk hfolders
        exact ⟨.empty, rfl, List.Perm.refl _, fun _ hf => by cases hf⟩
    | cons folder rest =>
        have hrest : rest = [] := by
          have hsingle := hstorable.single
          rw [hfolders, List.length_cons] at hsingle
          exact List.eq_nil_of_length_eq_zero (by omega)
        obtain rfl : announced = ⟨[folder]⟩ := by
          rw [hrest] at hfolders
          exact congrArg ClusterConfig.mk hfolders
        have hmem : folder ∈ (⟨[folder]⟩ : ClusterConfig).folders := List.mem_singleton_self folder
        have hcontains : (SharedFolders.empty.insertFolder folder.id
            (BepState.folderRow folder)).bepFolders.contains folder.id = true :=
          AssocMap.contains_iff.mpr ⟨_, AssocMap.get_insert_self _ _ _⟩
        obtain ⟨tables, hloop⟩ := updateDevices_returns localDeviceId hcontains
          (hstorable.devices folder hmem)
        have hupdate : BepState.updateClusterConfig .empty ⟨[folder]⟩ localDeviceId = .ok tables := by
          show (BepState.updateFolder localDeviceId .empty folder >>= pure) = _
          rw [BepState.updateFolder, hloop]
          rfl
        obtain ⟨folder', hconfig, hheader, hids, haddresses⟩ :=
          clusterConfig_of_single hboth hupdate
        refine ⟨tables, hupdate, ?_⟩
        rw [hconfig]
        refine ⟨?_, ?_⟩
        · rw [List.map_singleton, List.map_singleton, hheader]
        · intro f hf f' hf' _
          obtain rfl := List.mem_singleton.mp hf
          obtain rfl := List.mem_singleton.mp hf'
          refine ⟨hids, fun d hd d' hd' hid => ?_⟩
          obtain ⟨listed, hlisted, hid', hsplit⟩ := haddresses d hd
          have hdevice : listed.id = localDeviceId.toBytes ∨
              listed.id = clientDeviceId.toBytes := by
            have hgiven := hids.mem_iff.mp (List.mem_map_of_mem hd)
            rw [hid']
            simpa [eq_comm] using hgiven
          obtain ⟨hseparable, hsame⟩ := hstorable.addresses f' hmem listed hlisted hdevice
          rw [hsplit, Separated.split_join_iff.mpr hseparable, hsame d' hd' (hid.trans hid'.symm)]

end Restoring

/-! ## Two folders -/

section Example

/-- This server and a client. -/
def aServer : DeviceId := ⟨Vector.replicate 32 0⟩

/-- The device of a client. -/
def aClient : DeviceId := ⟨Vector.replicate 32 1⟩

/-- A folder that both have. -/
def folderOfBoth (id : String) : Folder :=
  { id := id, label := id,
    devices := [{ id := aServer.toBytes, addresses := ["dynamic"] },
      { id := aClient.toBytes, addresses := ["tcp://a", "tcp://b"] }] }

/-- The folders list both devices. -/
theorem listsBoth_folders (ids : List String) :
    ListsBoth aServer aClient ⟨ids.map folderOfBoth⟩ := by
  intro folder hfolder
  obtain ⟨id, -, rfl⟩ := List.mem_map.mp hfolder
  exact ⟨List.mem_cons_self, List.mem_cons_of_mem _ List.mem_cons_self⟩

/-- One folder is given back. -/
theorem restoresConfig_one : RestoresConfig aServer aClient ⟨[folderOfBoth "default"]⟩ := by
  refine (restoresConfig_iff (listsBoth_folders ["default"])).mpr ⟨?_, Nat.le_refl 1, ?_⟩
  · intro folder hfolder d hd
    obtain rfl := List.mem_singleton.mp hfolder
    have hall : ∀ d ∈ (folderOfBoth "default").devices,
        d.id.length = 32 ∧ d.compression ∈ compressionTypes := by decide
    exact hall d hd
  · intro folder hfolder d hd _
    obtain rfl := List.mem_singleton.mp hfolder
    have hall : ∀ d ∈ (folderOfBoth "default").devices, (d.addresses ≠ [] ∧
        ∀ address ∈ d.addresses, ',' ∉ address.toList) ∧
        ∀ d' ∈ (folderOfBoth "default").devices, d'.id = d.id → d'.addresses = d.addresses := by
      decide +kernel
    exact hall d hd

/-- Of two, only the last. -/
theorem secondFolder_only :
    ¬ ∀ announced : ClusterConfig, ListsBoth aServer aClient announced →
      RestoresConfig aServer aClient announced := by
  intro hall
  obtain ⟨tables, hupdate, hrestores⟩ :=
    hall ⟨["photos", "music"].map folderOfBoth⟩ (listsBoth_folders ["photos", "music"])
  have hfolders : ((BepState.updateClusterConfig .empty ⟨["photos", "music"].map folderOfBoth⟩
      aServer).toOption.map fun tables =>
        (BepState.clusterConfig tables aServer aClient).folders.map Folder.id) =
      some ["music"] := by
    decide +kernel
  rw [hupdate] at hfolders
  have hids : (BepState.clusterConfig tables aServer aClient).folders.map Folder.id = ["music"] :=
    Option.some.inj hfolders
  have hlength := hrestores.folders.length_eq
  rw [List.length_map, ← @List.length_map _ _ _ Folder.id, hids] at hlength
  cases hlength

end Example

end Grizol.Analysis

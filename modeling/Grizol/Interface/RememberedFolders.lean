import Grizol.Interface.Connections
import Grizol.Interface.SharedFolders

/-!
# What is remembered of announced folders

Every cluster config is written into the same two tables, whichever client it comes from. A
folder is kept as it was announced last, and a device in the folder it was announced in last:
what one client says of a device replaces what another one said.
-/

set_option autoImplicit false

namespace Grizol.Interface

open Grizol.Library
open Grizol.Model Grizol.Model.Syncthing

/-! ## Announcements, the newest last -/

/-- The folders of these configs, in their order. -/
def foldersOf (configs : List ClusterConfig) : List Folder := configs.flatMap ClusterConfig.folders

/-- The devices of folders, each with the folder it is listed in. -/
def placedDevices (folders : List Folder) : List (String × Device) :=
  folders.flatMap fun f => f.devices.map fun d => (f.id, d)

/-- The last announcement of a folder. -/
def lastFolder (folders : List Folder) (id : String) : Option Folder :=
  folders.reverse.find? fun f => f.id = id

/-- The last place of a device. -/
def lastDevice (devices : List (String × Device)) (id : DeviceId) : Option (String × Device) :=
  devices.reverse.find? fun d => d.2.id = id.toBytes

/-- The tables are those from before, with what was announced last over them. -/
structure Remembers (before : SharedFolders) (localDeviceId : DeviceId) (announced : List Folder)
    (tables : SharedFolders) : Prop where
  folders : ∀ id, tables.bepFolders.get id =
    ((lastFolder announced id).map BepState.folderRow).or (before.bepFolders.get id)
  devices : ∀ id, tables.bepDevices.get id =
    ((lastDevice (placedDevices announced) id).map fun d =>
      BepState.deviceRow d.1 localDeviceId d.2).or (before.bepDevices.get id)

/-! ## Cluster configs of a server -/

/-- Every device can be stored. -/
def StorableDevices (clusterConfig : ClusterConfig) : Prop :=
  ∀ f ∈ clusterConfig.folders, ∀ d ∈ f.devices, StorableDevice d

instance (device : Device) : Decidable (StorableDevice device) :=
  inferInstanceAs (Decidable (_ ∧ _))

instance (clusterConfig : ClusterConfig) : Decidable (StorableDevices clusterConfig) :=
  inferInstanceAs (Decidable (∀ f ∈ clusterConfig.folders, ∀ d ∈ f.devices, StorableDevice d))

/-- The cluster config a step stores: the whole of it, or nothing. -/
def storedConfig (_ : ServerState) (connection : Connection) :
    ConnectionEvent → List ClusterConfig
  | .turn i _ =>
      match connection.tasks[i]? with
      | some (.handling (.clusterConfig ⟨received, _, .shareFolders⟩) _) =>
          if StorableDevices received then [received] else []
      | _ => []
  | _ => []

/-- The cluster configs that all connections store in a run. -/
def storedIn (codec : Codec) (hash : String → ℕ → ℕ → UInt64) (sha256 : Bytes → Bytes)
    (debugRequest : Request → String) (config : ConnectionConfig) (s : Server)
    (es : List ServerEvent) : List ClusterConfig :=
  Transition.collect (serverStep codec hash sha256 debugRequest config) (handedOver storedConfig)
    s es

/-- The folder a device was placed in last. -/
def lastPlace (before : SharedFolders) (announced : List Folder) (id : DeviceId) : Option String :=
  ((lastDevice (placedDevices announced) id).map Prod.fst).or
    ((before.bepDevices.get id).map DeviceRow.folder)

/-- **A reply lists the folder the client was placed in last, and no other.** In it are this server
and the client, where that is the place of each, as they were announced last. -/
structure AnsweredFrom (before : SharedFolders) (localDeviceId clientDeviceId : DeviceId)
    (announced : List Folder) (reply : ClusterConfig) : Prop where
  place : reply.folders.map Folder.id = (lastPlace before announced clientDeviceId).toList
  header : ∀ f ∈ reply.folders, ∀ f', lastFolder announced f.id = some f' →
    folderHeader f = folderHeader f'
  devices : ∀ f ∈ reply.folders, (f.devices.map Device.id).Perm
    (([localDeviceId, clientDeviceId].dedup.filter fun id =>
      lastPlace before announced id = some f.id).map DeviceId.toBytes)
  asAnnounced : ∀ f ∈ reply.folders, ∀ d ∈ f.devices, ∀ id x, d.id = id.toBytes →
    lastDevice (placedDevices announced) id = some x →
      d = BepState.deviceOf id (BepState.deviceRow x.1 localDeviceId x.2)

/-- **The last announcement counts.** The tables have what all the clients announced last, and
every cluster config that was sent says what they had at some time before. -/
structure RemembersLast (before : SharedFolders) (localDeviceId clientDeviceId : DeviceId)
    (stored : List ClusterConfig) (sent : List CompleteMessage) (tables : SharedFolders) :
    Prop where
  tables : Remembers before localDeviceId (foldersOf stored) tables
  replies : ∀ reply, .clusterConfig reply ∈ sent → ∃ earlier, earlier <+: stored ∧
    AnsweredFrom before localDeviceId clientDeviceId (foldersOf earlier) reply

end Grizol.Interface

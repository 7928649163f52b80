import Grizol.Model.SharedFolders

/-!
# The folders two devices share

A cluster config announces folders and, for each, the devices that have it. What is stored
of it should be announced again to the same client: every folder once, with this server and
the client, and the addresses each was announced with.
-/

set_option autoImplicit false

namespace Grizol.Interface

open Grizol.Library
open Grizol.Model Grizol.Model.Syncthing

variable (localDeviceId clientDeviceId : DeviceId)

/-- Every folder lists both devices. -/
def ListsBoth (config : ClusterConfig) : Prop :=
  ∀ folder ∈ config.folders, localDeviceId.toBytes ∈ folder.devices.map Device.id ∧
    clientDeviceId.toBytes ∈ folder.devices.map Device.id

/-- The id, the label and the flags of a folder. -/
def folderHeader (folder : Folder) : Folder := { folder with devices := [] }

/-- A folder has exactly these devices, with the addresses that were announced for it. -/
structure DevicesOf (announced folder : Folder) : Prop where
  ids : (folder.devices.map Device.id).Perm
    ([localDeviceId, clientDeviceId].dedup.map DeviceId.toBytes)
  addresses : ∀ d ∈ folder.devices, ∀ d' ∈ announced.devices, d'.id = d.id →
    d.addresses = d'.addresses

/-- **What was announced is announced again.** -/
structure Restores (announced config : ClusterConfig) : Prop where
  folders : (config.folders.map folderHeader).Perm (announced.folders.map folderHeader)
  devices : ∀ folder ∈ config.folders, ∀ folder' ∈ announced.folders, folder'.id = folder.id →
    DevicesOf localDeviceId clientDeviceId folder' folder

/-- An empty database takes the config, and gives it back. -/
def RestoresConfig (announced : ClusterConfig) : Prop :=
  ∃ tables, BepState.updateClusterConfig .empty announced localDeviceId = .ok tables ∧
    Restores localDeviceId clientDeviceId announced
      (BepState.clusterConfig tables localDeviceId clientDeviceId)

/-- The constraints of the table of devices, and the length of an id. -/
def StorableDevice (device : Device) : Prop :=
  device.id.length = 32 ∧ device.compression ∈ compressionTypes

/-- Addresses that a text with commas keeps apart. -/
def SeparableAddresses (device : Device) : Prop :=
  device.addresses ≠ [] ∧ ∀ address ∈ device.addresses, ',' ∉ address.toList

/-- What the two tables can hold: one folder, whose devices are well formed, with addresses for
both devices that a comma does not tear apart, the same wherever a device is listed. -/
structure StorableConfig (config : ClusterConfig) : Prop where
  devices : ∀ folder ∈ config.folders, ∀ d ∈ folder.devices, StorableDevice d
  single : config.folders.length ≤ 1
  addresses : ∀ folder ∈ config.folders, ∀ d ∈ folder.devices,
    (d.id = localDeviceId.toBytes ∨ d.id = clientDeviceId.toBytes) →
    SeparableAddresses d ∧ ∀ d' ∈ folder.devices, d'.id = d.id → d'.addresses = d.addresses

end Grizol.Interface

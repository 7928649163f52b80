import Grizol.Library.AssocMap
import Grizol.Library.Rust
import Grizol.Library.Separated
import Grizol.Model.Syncthing

/-!
# The tables of shared folders

`update_cluster_config` and `cluster_config` of `core/bep_state.rs`, with the two tables of the
migration they write and read. A device is stored with one folder, the primary key of its
table is its id. As in the other tables, the columns have the types of the program, and the
constraints of the schema are fields.
-/

set_option autoImplicit false

namespace Grizol.Model

open Grizol.Library
open Grizol.Model.Syncthing

/-- The columns of `bep_folders` that are not its key. -/
structure FolderRow where
  label : String
  readOnly : Bool
  ignorePermissions : Bool
  ignoreDelete : Bool
  disableTempIndexes : Bool
  paused : Bool
  deriving DecidableEq, Repr

/-- The columns of `bep_devices` that are not its key. -/
structure DeviceRow where
  folder : String
  name : String
  addresses : String
  compression : Int32
  certName : String
  maxSequence : Int64
  introducer : Bool
  indexId : UInt64
  skipIntroductionRemovals : Bool
  encryptionPasswordToken : Bytes
  deriving DecidableEq, Repr

/-- The rows of `bep_compression`. -/
def compressionTypes : List Int32 := [0, 1, 2]

/-- The tables of folders and devices, with what their foreign key and their check demand. -/
structure SharedFolders where
  bepFolders : AssocMap String FolderRow
  bepDevices : AssocMap DeviceId DeviceRow
  folderOfDevice : ∀ id row, bepDevices.get id = some row → bepFolders.contains row.folder = true
  compressionOfDevice : ∀ id row, bepDevices.get id = some row → row.compression ∈ compressionTypes

namespace SharedFolders

/-- Both tables of a new database. -/
def empty : SharedFolders where
  bepFolders := .empty
  bepDevices := .empty
  folderOfDevice := by simp
  compressionOfDevice := by simp

variable (tables : SharedFolders)

/-- `INSERT INTO bep_folders .. ON CONFLICT(id) DO UPDATE`. -/
def insertFolder (id : String) (row : FolderRow) : SharedFolders :=
  { tables with
    bepFolders := tables.bepFolders.insert id row
    folderOfDevice := by
      intro deviceId device hdevice
      have hfolder := tables.folderOfDevice deviceId device hdevice
      rw [AssocMap.contains, AssocMap.get_insert]
      split_ifs
      · rfl
      · exact hfolder }

/-- `INSERT INTO bep_devices .. ON CONFLICT(id) DO UPDATE`. -/
def insertDevice (id : DeviceId) (row : DeviceRow) : Rust SharedFolders :=
  if h : tables.bepFolders.contains row.folder = true ∧ row.compression ∈ compressionTypes then
    .ok { tables with
      bepDevices := tables.bepDevices.insert id row
      folderOfDevice := by
        intro id' row' hrow
        rw [AssocMap.get_insert] at hrow
        split_ifs at hrow
        · rw [← Option.some.inj hrow]
          exact h.1
        · exact tables.folderOfDevice id' row' hrow
      compressionOfDevice := by
        intro id' row' hrow
        rw [AssocMap.get_insert] at hrow
        split_ifs at hrow
        · rw [← Option.some.inj hrow]
          exact h.2
        · exact tables.compressionOfDevice id' row' hrow }
  else .error (.expect "Failed to execute query")

end SharedFolders

namespace DeviceId

/-- `Vec::<u8>::from`. -/
def toBytes (deviceId : DeviceId) : Bytes := deviceId.id.toList

/-- `try_from(input: &Vec<u8>)`, without the text of its error, which is dropped. -/
def ofBytes (input : Bytes) : Option DeviceId :=
  if h : input.length = 32 then some ⟨⟨input.toArray, h⟩⟩ else none

end DeviceId

namespace BepState

/-- What is stored of a folder. -/
def folderRow (folder : Folder) : FolderRow where
  label := folder.label
  readOnly := folder.readOnly
  ignorePermissions := folder.ignorePermissions
  ignoreDelete := folder.ignoreDelete
  disableTempIndexes := folder.disableTempIndexes
  paused := folder.paused

/-- What is stored of a device of a folder. -/
def deviceRow (folder : String) (localDeviceId : DeviceId) (device : Device) : DeviceRow where
  folder := folder
  name := device.name
  addresses := Separated.join ',' device.addresses
  compression := device.compression
  certName := device.certName
  maxSequence := 0
  introducer := device.introducer
  indexId := if device.id = localDeviceId.toBytes then 0 else device.indexId
  skipIntroductionRemovals := device.skipIntroductionRemovals
  encryptionPasswordToken := device.encryptionPasswordToken

/-- One pass of the inner loop. -/
def updateDevice (folder : String) (localDeviceId : DeviceId) (tables : SharedFolders)
    (device : Device) : Rust SharedFolders := do
  let deviceId ← Rust.expect "Wrong device id format" (DeviceId.ofBytes device.id)
  tables.insertDevice deviceId (deviceRow folder localDeviceId device)

/-- One pass of the outer loop. -/
def updateFolder (localDeviceId : DeviceId) (tables : SharedFolders) (otherFolder : Folder) :
    Rust SharedFolders :=
  otherFolder.devices.foldlM (updateDevice otherFolder.id localDeviceId)
    (tables.insertFolder otherFolder.id (folderRow otherFolder))

/-- `update_cluster_config`: one transaction, which a panic rolls back. -/
def updateClusterConfig (tables : SharedFolders) (other : ClusterConfig)
    (localDeviceId : DeviceId) : Rust SharedFolders :=
  other.folders.foldlM (updateFolder localDeviceId) tables

/-- The device of a row. The compression is always `Never`. -/
def deviceOf (id : DeviceId) (row : DeviceRow) : Device where
  id := id.toBytes
  name := row.name
  addresses := Separated.split ',' row.addresses
  compression := 1
  certName := row.certName
  maxSequence := row.maxSequence
  introducer := row.introducer
  indexId := row.indexId
  skipIntroductionRemovals := row.skipIntroductionRemovals
  encryptionPasswordToken := row.encryptionPasswordToken

/-- The first query, with the folder of each device. -/
def configDevices (tables : SharedFolders) (localDeviceId clientDeviceId : DeviceId) :
    List (String × Device) :=
  (tables.bepDevices.entries.filter fun e => e.1 = localDeviceId || e.1 = clientDeviceId).map
    fun e => (e.2.folder, deviceOf e.1 e.2)

/-- The second query: folders joined with the devices they are stored with. -/
def configFolders (tables : SharedFolders) (clientDeviceId : DeviceId) :
    List (String × FolderRow) :=
  tables.bepFolders.entries.flatMap fun fo =>
    (tables.bepDevices.entries.filter fun de => fo.1 = de.2.folder && de.1 = clientDeviceId).map
      fun _ => fo

/-- `cluster_config`. -/
def clusterConfig (tables : SharedFolders) (localDeviceId clientDeviceId : DeviceId) :
    ClusterConfig where
  folders := (configFolders tables clientDeviceId).map fun fo =>
    { id := fo.1
      label := fo.2.label
      readOnly := fo.2.readOnly
      ignorePermissions := fo.2.ignorePermissions
      ignoreDelete := fo.2.ignoreDelete
      disableTempIndexes := fo.2.disableTempIndexes
      paused := fo.2.paused
      devices := ((configDevices tables localDeviceId clientDeviceId).filter
        fun d => d.1 = fo.1).map Prod.snd }

end BepState

end Grizol.Model

import Grizol.Model.BepProcessor
import Grizol.Model.SharedFolders

/-!
# Cluster configs

`handle_cluster_config` of `core/bep_processor.rs`, with `init_index` and `indices` of
`core/bep_state.rs`. It is the one handler that touches both groups of tables: the
folders and devices that are shared, and the indices that refer to them. It takes the lock
of the state three times.
-/

set_option autoImplicit false

namespace Grizol.Model

open Grizol.Library
open Grizol.Model.Syncthing

/-- The processor, with the tables of the database that its state leaves out. -/
structure ServerState where
  processor : BepProcessor
  sharedFolders : SharedFolders

namespace ServerState

/-- A section that does not touch the tables of shared folders. -/
def onBepState {α : Type} (x : RustM BepState α) : RustM ServerState α := fun s =>
  match (BepProcessor.onState x).run s.processor with
  | .ok a p => .ok a { s with processor := p }
  | .error e p => .error e { s with processor := p }

/-- `init_index`: a transaction of one statement. Both columns of `bep_index` refer to the
tables of shared folders. -/
def initIndex (folder : String) (deviceId : DeviceId) : RustM ServerState Unit := do
  let tables := (← getThe ServerState).sharedFolders
  if tables.bepDevices.contains deviceId = true ∧ tables.bepFolders.contains folder = true then
    onBepState (modify fun s => { s with db := s.db.insertIndex folder deviceId })
  else throw Database.failedQuery

/-- The devices of a folder are looked through up to this one. -/
def listsDevice (localDeviceId : DeviceId) : List Device → Rust Bool
  | [] => pure false
  | d :: devices => do
      let id ← Rust.unwrap (DeviceId.ofBytes d.id)
      if id = localDeviceId then pure true else listsDevice localDeviceId devices

/-- The ids of the folders that list this device. -/
def foldersSharedWithMe (localDeviceId : DeviceId) : List Folder → Rust (List String)
  | [] => pure []
  | f :: folders => do
      let shared ← listsDevice localDeviceId f.devices
      let rest ← foldersSharedWithMe localDeviceId folders
      pure (if shared then f.id :: rest else rest)

/-- The loop over the shared folders. -/
def initIndices (clientDeviceId localDeviceId : DeviceId) : List String → RustM ServerState Unit
  | [] => pure ()
  | folder :: folders => do
      initIndex folder clientDeviceId
      initIndex folder localDeviceId
      initIndices clientDeviceId localDeviceId folders

/-- The first section of `handle_cluster_config`; what a panic leaves is what was committed. -/
def shareFolders (clusterConfig : ClusterConfig) (clientDeviceId : DeviceId) :
    RustM ServerState Unit := do
  let s ← getThe ServerState
  let localDeviceId := s.processor.config.localDeviceId
  let tables ← BepState.updateClusterConfig s.sharedFolders clusterConfig localDeviceId
  modify fun s => { s with sharedFolders := tables }
  let folders ← foldersSharedWithMe localDeviceId clusterConfig.folders
  initIndices clientDeviceId localDeviceId folders

end ServerState

namespace BepState

/-- The devices that have an index of a folder. -/
def indexDevices (db : Database) (folder : String) : List DeviceId :=
  (db.bepIndex.filter fun row => row.1 = folder).map Prod.snd

/-- The folders two devices have an index of: `bep_index` joined with itself. -/
def sharedIndexFolders (db : Database) (id clientDeviceId : DeviceId) : List String :=
  db.bepIndex.flatMap fun indA =>
    (db.bepIndex.filter fun indB =>
      indA.1 = indB.1 && indA.2 = id && indB.2 = clientDeviceId).map fun _ => indA.1

/-- The inner loop of `indices`: the index of each device for one folder. -/
def indicesOfFolder (folder : String) : List DeviceId → RustM BepState (List Index)
  | [] => pure []
  | deviceId :: deviceIds => do
      let index ← BepState.index folder deviceId
      let res ← indicesOfFolder folder deviceIds
      pure (index.toList ++ res)

/-- The outer loop. -/
def indicesOfFolders (deviceIds : List DeviceId) : List String → RustM BepState (List Index)
  | [] => pure []
  | folder :: folders => do
      let indices ← indicesOfFolder folder deviceIds
      let res ← indicesOfFolders deviceIds folders
      pure (indices ++ res)

/-- `indices`, which has the name of a field; at least one of the parameters must be set. -/
def indicesOf (folder : Option String) (deviceId : Option DeviceId) (clientDeviceId : DeviceId) :
    RustM BepState (List Index) := do
  if folder.isNone ∧ deviceId.isNone then
    throw (.explicit "not yet implemented: At least one must be set")
  let db := (← getThe BepState).db
  let deviceIds ←
    match deviceId with
    | some id => pure [id]
    | none => do
        let f ← Rust.unwrap folder
        pure (indexDevices db f)
  let folders ←
    match folder with
    | some f => pure [f]
    | none => do
        let id ← Rust.unwrap deviceIds.head?
        pure (sharedIndexFolders db id clientDeviceId)
  indicesOfFolders deviceIds folders

end BepState

/-- Where `handle_cluster_config` stands. -/
inductive ClusterConfigPc where
  | shareFolders
  | indices
  | clusterConfig (indices : List Index)
  | returned (config : ClusterConfig) (indices : List Index)
  | panicked (fault : Fault)

/-- A handler of a cluster config. -/
structure ClusterConfigHandler where
  received : ClusterConfig
  clientDeviceId : DeviceId
  pc : ClusterConfigPc

namespace ClusterConfigHandler

/-- The handler of a config that has just come. -/
def new (received : ClusterConfig) (clientDeviceId : DeviceId) : ClusterConfigHandler :=
  ⟨received, clientDeviceId, .shareFolders⟩

variable (h : ClusterConfigHandler) (s : ServerState)

/-- One turn of the handler. -/
def act : ClusterConfigHandler × ServerState :=
  match h.pc with
  | .shareFolders =>
      match (ServerState.shareFolders h.received h.clientDeviceId).run s with
      | .ok _ s => ({ h with pc := .indices }, s)
      | .error e s => ({ h with pc := .panicked e }, s)
  | .indices =>
      match (ServerState.onBepState (BepState.indicesOf none
          (some s.processor.config.localDeviceId) h.clientDeviceId)).run s with
      | .ok indices s => ({ h with pc := .clusterConfig indices }, s)
      | .error e s => ({ h with pc := .panicked e }, s)
  | .clusterConfig indices =>
      ({ h with pc := .returned (BepState.clusterConfig s.sharedFolders
        s.processor.config.localDeviceId h.clientDeviceId) indices }, s)
  | .returned _ _ | .panicked _ => (h, s)

end ClusterConfigHandler

end Grizol.Model

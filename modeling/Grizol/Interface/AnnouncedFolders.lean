import Grizol.Interface.Connections

/-!
# Folders that clients announce

A client announces its folders, and the devices it shares them with, in a cluster config. The
server answers with its own index of the folders that both of them are in.
-/

set_option autoImplicit false

namespace Grizol.Interface

open Grizol.Library
open Grizol.Model Grizol.Model.Syncthing

/-- A cluster config names a folder and lists the device in it. -/
def AnnouncesTo (deviceId : DeviceId) (clusterConfig : ClusterConfig) (folder : String) : Prop :=
  ∃ f ∈ clusterConfig.folders, f.id = folder ∧
    ∃ d ∈ f.devices, DeviceId.ofBytes d.id = some deviceId

/-- The cluster config a step takes, with the client it came from. -/
def announcedBy (_ : ServerState) (connection : Connection) (event : ConnectionEvent) :
    List (DeviceId × ClusterConfig) :=
  (takenMessage connection event).filterMap fun m =>
    match m with
    | .clusterConfig x => some (connection.clientDeviceId, x)
    | _ => none

/-- The cluster configs that all connections took in a run. -/
def announcedIn (codec : Codec) (hash : String → ℕ → ℕ → UInt64) (sha256 : Bytes → Bytes)
    (debugRequest : Request → String) (config : ConnectionConfig) (s : Server)
    (es : List ServerEvent) : List (DeviceId × ClusterConfig) :=
  Transition.collect (serverStep codec hash sha256 debugRequest config) (handedOver announcedBy)
    s es

/-- A device may be told the index of a folder: the database had an index of it for the device,
or the device announced it, and that this device is in it. -/
def Disclosed (db : Database) (localDeviceId : DeviceId)
    (announced : List (DeviceId × ClusterConfig)) (deviceId : DeviceId) (folder : String) : Prop :=
  (folder, deviceId) ∈ db.bepIndex ∨
    ∃ x ∈ announced, (x.1 = deviceId ∨ deviceId = localDeviceId) ∧
      AnnouncesTo localDeviceId x.2 folder

/-- A call of `handle_cluster_config` that has returned: whose it was, and for which config. -/
structure AnsweredConfig where
  clientDeviceId : DeviceId
  received : ClusterConfig
  results : List (Except BepProcessorError GrizolEvent)

/-- The call that a step is the last turn of. -/
def answeredBy (s : ServerState) (connection : Connection) : ConnectionEvent → List AnsweredConfig
  | .turn i _ =>
      match connection.tasks[i]? with
      | some (.handling (.clusterConfig h) _) =>
          match MessageHandler.ofClusterConfig (h.act s).1 with
          | .returned results => [⟨connection.clientDeviceId, h.received, results⟩]
          | _ => []
      | _ => []
  | _ => []

/-- The calls that returned in a run, on all connections. -/
def answeredIn (codec : Codec) (hash : String → ℕ → ℕ → UInt64) (sha256 : Bytes → Bytes)
    (debugRequest : Request → String) (config : ConnectionConfig) (s : Server)
    (es : List ServerEvent) : List AnsweredConfig :=
  Transition.collect (serverStep codec hash sha256 debugRequest config) (handedOver answeredBy)
    s es

/-- What is returned for a cluster config: an index of each folder that it announces to this
device, and none of a folder that may not be disclosed to the client. -/
structure AnswersConfig (db : Database) (localDeviceId : DeviceId)
    (announced : List (DeviceId × ClusterConfig)) (x : AnsweredConfig) : Prop where
  received : (x.clientDeviceId, x.received) ∈ announced
  sound : ∀ i, .ok (.message (.index i)) ∈ x.results →
    Disclosed db localDeviceId announced x.clientDeviceId i.folder
  complete : ∀ folder, AnnouncesTo localDeviceId x.received folder →
    ∃ i : Index, .ok (.message (.index i)) ∈ x.results ∧ i.folder = folder

/-- **A client is told the indices of the folders it shares, and of no others.** What is sent to it
is of folders that may be disclosed to it, and every cluster config is answered with an index
of each folder that this very config announces to this device. -/
structure DisclosesShared (db : Database) (localDeviceId : DeviceId)
    (announced : List (DeviceId × ClusterConfig)) (answered : List AnsweredConfig)
    (sent : List CompleteMessage) (clientDeviceId : DeviceId) : Prop where
  sound : ∀ i, .index i ∈ sent → Disclosed db localDeviceId announced clientDeviceId i.folder
  complete : ∀ x ∈ answered, AnswersConfig db localDeviceId announced x

end Grizol.Interface

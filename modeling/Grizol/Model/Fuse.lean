import Grizol.Model.FsMem
import Grizol.Model.StorageManager

/-!
# The file system

The calls of `fuse.rs` that write to the shared state: a read brings its file into the
read cache, a rename moves the rows of a file. Each holds the lock of the state, a read
for the whole of it. Of the directory of the cache the model has what was copied last
to each path; what is copied is a parameter. The ends of commands and of file
operations are given.
-/

set_option autoImplicit false

namespace Grizol.Model

open Grizol.Library
open Grizol.Model.Syncthing

/-- `std::process::Output`. -/
structure Output where
  success : Bool
  stdout : Bytes

/-- The fields of `GrizolConfig` the read cache depends on. -/
structure ReadCacheConfig where
  readCacheDir : String
  readCacheSize : ℕ

/-- A command that ran, and whether it exited with success. -/
structure Ran where
  command : List String
  success : Bool
  deriving DecidableEq, Repr

/-- What the calls work on, `ν` is what a copied file holds; `ran` is what the renames had
`rclone` do. -/
structure GrizolFS (ν : Type) where
  config : GrizolConfig
  readCache : ReadCacheConfig
  storageBackends : List String
  state : BepState
  copied : AssocMap String ν
  ran : List Ran := []

/-- The ends of what one read asks for. -/
structure ReadOutcomes where
  remove : Except String Unit
  rclone : List String → Except String Output
  now : Int64
  readCached : Except String Bytes

/-- The ends of the commands of one rename. -/
structure RenameOutcomes where
  rclone : List String → Except String Output
  copy : ℕ → CommandOutcome
  delete : ℕ → CommandOutcome

namespace GrizolFS

variable {ν : Type}

/-- A section that holds the lock of the state. -/
def onState {α : Type} (x : RustM BepState α) : RustM (GrizolFS ν) α := fun fs =>
  match x.run fs.state with
  | .ok a s => .ok a { fs with state := s }
  | .error e s => .error e { fs with state := s }

/-! ## Reading -/

/-- The path of a file in the read cache. -/
def cachePath (readCache : ReadCacheConfig) (folder name : String) : String :=
  readCache.readCacheDir ++ "/" ++ folder ++ "/" ++ name

/-- The command of `run_rclone`. -/
def rcloneCommand (config : GrizolConfig) (command : List String) : List String :=
  ["rclone", (config.rcloneConfig.map ("--config=" ++ ·)).getD ""] ++ command

/-- The location on the backend that is preferred. -/
def preferredLocation (fileLocations : List FileLocation) : Option FileLocation :=
  fileLocations.find? fun x => x.storageBackend = .remote "gcs"

/-- `cp_remote_to_read_cache`; the status of the copy is not looked at. -/
def cpRemoteToReadCache (file : GrizolFileInfo) (fileLocations : List FileLocation)
    (rclone : List String → Except String Output) (content : ν) :
    RustM (GrizolFS ν) (Except String String) := do
  let fs ← getThe (GrizolFS ν)
  match preferredLocation fileLocations with
  | none => pure (.error "Storage backend gcs not found")
  | some fileLocation =>
      let orig := fileLocation.location
      match rclone (rcloneCommand fs.config ["ls", orig]) with
      | .error e => pure (.error ("Failed to run command: " ++ e))
      | .ok output =>
          if output.stdout = [] then pure (.error ("No file present at " ++ orig))
          else
            let dest := cachePath fs.readCache file.folder file.fileInfo.name
            match rclone (rcloneCommand fs.config ["copyto", orig, dest]) with
            | .error e => pure (.error ("Failed to run command: " ++ e))
            | .ok output => do
                if output.success then
                  set { fs with copied := fs.copied.insert dest content }
                pure (.ok dest)

variable (debugFiles : List (String × String) → String)

/-- What `read_from_local_cache` does for a file that is not in the cache. -/
def fillReadCache (file : GrizolFileInfo) (outcomes : ReadOutcomes) (content : ν) :
    RustM (GrizolFS ν) (Except String Unit) := do
  let fs ← getThe (GrizolFS ν)
  let neededBytes ← BepState.u64 file.fileInfo.size
  match ← onState (BepState.freeReadCache fs.readCache.readCacheSize neededBytes) with
  | .error _ => throw (.expect "Failed to remove from database")
  | .ok removedFiles =>
      match outcomes.remove with
      | .error e => pure (.error ("Could not remove '" ++ debugFiles removedFiles ++
          "' from the temporary storage due to: Failed to remove file " ++ e))
      | .ok () => do
          match ← cpRemoteToReadCache file file.fileLocations outcomes.rclone content with
          | .error e => pure (.error e)
          | .ok _ => pure (.ok ())

/-- Reads a file from the read cache, where it is put first if it is not there. -/
def readFromLocalCache (file : GrizolFileInfo) (outcomes : ReadOutcomes) (content : ν) :
    RustM (GrizolFS ν) (Except String Bytes) := do
  let fs ← getThe (GrizolFS ν)
  let inReadCache := fs.state.isFileInReadCache fs.config.localDeviceId file.folder
    file.fileInfo.name
  match ← (if inReadCache then pure (.ok ()) else fillReadCache debugFiles file outcomes content) with
  | .error e => pure (.error e)
  | .ok () => do
      onState (BepState.updateReadCache fs.config.localDeviceId file.folder file.fileInfo.name
        outcomes.now)
      pure outcomes.readCached

/-! ## Renaming -/

/-- The path of a file on a backend. -/
def remotePath (config : GrizolConfig) (folder name storageBackend : String) : String :=
  storageBackend ++ ":" ++ config.remoteBaseDir ++ "/" ++ folder ++ "/" ++ name

/-- Appends to the commands that were run. -/
def logCommands (commands : List Ran) : RustM (GrizolFS ν) Unit :=
  modify fun fs => { fs with ran := fs.ran ++ commands }

/-- `cp_remote_to_remote`: one copy for each location. -/
def cpRemoteToRemote (config : GrizolConfig) (folder destFileName : String)
    (rclone : List String → Except String Output) :
    List FileLocation → Except String (List FileLocation)
  | [] => .ok []
  | fileLocation :: fileLocations =>
      match fileLocation.storageBackend with
      | .remote storageBackend =>
          let dest := remotePath config folder destFileName storageBackend
          match rclone (rcloneCommand config ["copyto", fileLocation.location, dest]) with
          | .error e => .error ("Failed to run command: " ++ e)
          | .ok _ => do
              let rest ← cpRemoteToRemote config folder destFileName rclone fileLocations
              pure ({ location := dest, storageBackend := .remote storageBackend } :: rest)

/-- The copies of `cp_remote_to_remote` that ran. -/
def copiesRan (config : GrizolConfig) (folder destFileName : String)
    (rclone : List String → Except String Output) : List FileLocation → List Ran
  | [] => []
  | fileLocation :: fileLocations =>
      match fileLocation.storageBackend with
      | .remote storageBackend =>
          let command := rcloneCommand config ["copyto", fileLocation.location,
            remotePath config folder destFileName storageBackend]
          match rclone command with
          | .error _ => []
          | .ok output =>
              ⟨command, output.success⟩ ::
                copiesRan config folder destFileName rclone fileLocations

/-- The loop of `cp` and `rm_remote`: one command for each backend, whose exit status is not
looked at; `n` counts them. -/
def backendLoop (remoteBaseDir folder name : String) (run : ℕ → CommandOutcome) :
    ℕ → List String → Rust (List (String × String))
  | _, [] => pure []
  | n, storageBackend :: rest =>
      match run n with
      | .notStarted => .error (.expect "command failed to start")
      | .waitFails => .error (.expect "command failed to run")
      | .exits _ => do
          let res ← backendLoop remoteBaseDir folder name run (n + 1) rest
          pure ((storageBackend,
            storageBackend ++ ":" ++ remoteBaseDir ++ "/" ++ folder ++ "/" ++ name) :: res)

/-- The commands of that loop that ran. -/
def backendRan (command : String → List String) (run : ℕ → CommandOutcome) :
    ℕ → List String → List Ran
  | _, [] => []
  | n, storageBackend :: rest =>
      match run n with
      | .exits success => ⟨command storageBackend, success⟩ :: backendRan command run (n + 1) rest
      | _ => []

/-- The command of `cp`. -/
def cpCommand (config : GrizolConfig) (origFolder origName destFolder destName
    storageBackend : String) : List String :=
  rcloneCommand config ["copyto", remotePath config origFolder origName storageBackend,
    remotePath config destFolder destName storageBackend]

/-- The command of `rm_remote`. -/
def rmCommand (config : GrizolConfig) (folder name storageBackend : String) : List String :=
  rcloneCommand config ["delete", remotePath config folder name storageBackend]

/-- The body of the loop of `rename_mem` for one file. -/
def renameMem (file : GrizolFileInfo) (destFileName : String) (outcomes : RenameOutcomes) :
    RustM (GrizolFS ν) Unit := do
  let fs ← getThe (GrizolFS ν)
  logCommands (copiesRan fs.config file.folder destFileName outcomes.rclone file.fileLocations)
  match cpRemoteToRemote fs.config file.folder destFileName outcomes.rclone
      file.fileLocations with
  | .error _ => pure ()
  | .ok fileLocations => do
      onState (BepState.mvFileInfo file.folder fs.config.localDeviceId file.fileInfo destFileName
        fileLocations)
      logCommands (backendRan (rmCommand fs.config file.folder file.fileInfo.name)
        outcomes.delete 0 fs.storageBackends)
      let _ ← backendLoop fs.config.remoteBaseDir file.folder file.fileInfo.name outcomes.delete 0
        fs.storageBackends
      pure ()

/-- The part of `rename_db` that holds the lock. -/
def renameDb (origFolder origName destFolder destName : String) (outcomes : RenameOutcomes) :
    RustM (GrizolFS ν) Unit := do
  let fs ← getThe (GrizolFS ν)
  let file ← Rust.unwrap (fs.state.fileInfo origFolder fs.config.localDeviceId origName)
  let file := { file with name := destName }
  logCommands (backendRan (cpCommand fs.config origFolder origName destFolder destName)
    outcomes.copy 0 fs.storageBackends)
  let res ← backendLoop fs.config.remoteBaseDir destFolder destName outcomes.copy 0
    fs.storageBackends
  onState (BepState.insertFileInfo destFolder fs.config.localDeviceId [file])
  onState (BepState.updateFileLocations destFolder fs.config.localDeviceId file.name res)
  onState (BepState.rmFileInfo origFolder fs.config.localDeviceId origName)
  logCommands (backendRan (rmCommand fs.config origFolder origName) outcomes.delete 0
    fs.storageBackends)
  let _ ← backendLoop fs.config.remoteBaseDir origFolder origName outcomes.delete 0
    fs.storageBackends
  pure ()

end GrizolFS

end Grizol.Model

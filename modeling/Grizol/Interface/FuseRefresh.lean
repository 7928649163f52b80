import Grizol.Interface.Listings
import Grizol.Interface.ReadCache
import Grizol.Interface.Renames
import Grizol.Library.Prefixes
import Grizol.Model.FuseQueries

/-!
# The refresh of the file system

A refresh puts each file under its directory, and a file whose directory is not listed
goes to the end of the queue again. So it ends when the rows of this device have the
directories above them (`ParentsStored`), which no constraint of the schema says: it is
up to what messages bring and renames move. Handlers of messages take turns, a rename is
one event; the lists and the tree a rename works on are those of any earlier refresh.
-/

set_option autoImplicit false

namespace Grizol.Interface

open Grizol.Library Grizol.Library.Prefixes
open Grizol.Model Grizol.Model.Syncthing

/-! ## The rows of this device -/

/-- The path of a row: its folder, and the parts of its name. -/
def keyPath (key : FileKey) : List String := key.folder :: Path.split key.name

/-- The paths of the rows of a device. -/
def rowPaths (db : Database) (deviceId : DeviceId) : Set (List String) :=
  { p | ∃ key, db.bepFileInfo.contains key = true ∧ key.device = deviceId ∧ keyPath key = p }

/-- The root and the folders, which are always there. -/
def folderPaths : Set (List String) := { p | p.length ≤ 1 }

/-- The directories above a row of the device are rows, too. -/
def ParentsStored (db : Database) (deviceId : DeviceId) : Prop :=
  Closed folderPaths (rowPaths db deviceId)

/-- **The refresh ends**: every file it lists has the directories above it listed, and with any
tree of an earlier refresh its loop is over after a number of rounds. -/
def RefreshEnds (db : Database) (deviceId : DeviceId) : Prop :=
  ∀ (bepFolders : BepFolders db.bepIndex) (rowid : FileKey → Int64) (folders : List GrizolFolder)
    (files : List GrizolFileInfo),
    folders.Perm (BepState.topFoldersFuse bepFolders deviceId) →
      files.Perm (BepState.filesFuse rowid db deviceId) →
        ParentsListed folders files ∧
          ∀ m, ∃ fuel, refreshFoldersFiles fuel folders files m ≠ .error .divergence

/-! ## What messages bring -/

/-- The paths of files of a folder. -/
def filePaths (folder : String) (files : List FileInfo) : Set (List String) :=
  { p | ∃ file ∈ files, folder :: Path.split file.name = p }

/-- What is above the files is in the set, or comes with them. -/
def BringsParents (rows : Set (List String)) (folder : String) (files : List FileInfo) : Prop :=
  ∀ p ∈ filePaths folder files, ∀ q, q <+: p → q ∈ rows ∪ filePaths folder files ∪ folderPaths

section Messages

variable (localDeviceId : DeviceId) (received : Index) (clientDeviceId : DeviceId)

/-- The files an `Index` has new for this device, once it is in the database. -/
def newFilesOfIndex : RustM BepState (List FileInfo) := do
  BepState.replaceIndex received clientDeviceId
  let localIndex ← BepState.index received.folder localDeviceId
  let localIndex ← Rust.expect "The local index must exist" localIndex
  let diff ← diffOrPanic received.folder received localIndex
  pure diff.newlyAddedFiles

/-- The files an `IndexUpdate` has new for the device that sent it. -/
def newFilesOfPeer : RustM BepState (List FileInfo) := do
  let otherDeviceLocalIndex ← BepState.index received.folder clientDeviceId
  let otherDeviceLocalIndex ← Rust.expect "The local index must exist" otherDeviceLocalIndex
  let diff ← diffOrPanic received.folder received otherDeviceLocalIndex
  pure diff.newlyAddedFiles

/-- The files it then has new for this device. -/
def newFilesOfUpdate : RustM BepState (List FileInfo) := do
  BepState.rmReplaceFileInfo received.folder clientDeviceId
    (← newFilesOfPeer received clientDeviceId)
  let localIndex ← BepState.index received.folder localDeviceId
  let localIndex ← Rust.expect "The index must exist" localIndex
  let otherDeviceLocalIndex ← BepState.index received.folder clientDeviceId
  let otherDeviceLocalIndex ← Rust.expect "The index must exist" otherDeviceLocalIndex
  let diff ← diffOrPanic received.folder otherDeviceLocalIndex localIndex
  pure diff.newlyAddedFiles

/-- The files an `Index` has new for this device come with their parents. An `Index` in the name
of this device replaces the rows of the folder. -/
def IndexBringsParents (s : BepState) : Prop :=
  (clientDeviceId = localDeviceId → BringsParents ∅ received.folder received.files) ∧
    ∀ files s', (newFilesOfIndex localDeviceId received clientDeviceId).run s = .ok files s' →
      BringsParents (rowPaths s'.db localDeviceId) received.folder files

/-- The files an `IndexUpdate` has new for this device come with their parents. -/
def UpdateBringsParents (s : BepState) : Prop :=
  (clientDeviceId = localDeviceId → ∀ files s',
    (newFilesOfPeer received clientDeviceId).run s = .ok files s' →
      BringsParents (rowPaths s'.db localDeviceId) received.folder (notDeleted files)) ∧
    ∀ files s', (newFilesOfUpdate localDeviceId received clientDeviceId).run s = .ok files s' →
      BringsParents (rowPaths s'.db localDeviceId) received.folder (notDeleted files)

/-- With the files of the message come their directories, as far as they are not known. -/
def MessageBringsParents (message : IndexMessage) (s : BepState) : Prop :=
  match message with
  | .index received => IndexBringsParents localDeviceId received clientDeviceId s
  | .indexUpdate indexUpdate =>
      UpdateBringsParents localDeviceId { folder := indexUpdate.folder, files := indexUpdate.files }
        clientDeviceId s

end Messages

/-! ## What renames move -/

/-- A path with nothing below it goes where the directories above it are. -/
def MoveKeepsParents (rows given : Set (List String)) (a b : List String) : Prop :=
  Leaf rows a ∧ ∀ q, q <+: b → q ≠ b → q ∈ rows \ {a} ∪ given

/-- No row is below one of these paths, unless there is a row at it. -/
def NothingAwaited (rows awaited : Set (List String)) : Prop :=
  ∀ p ∈ rows, ∀ q ∈ awaited, q <+: p → q ∈ rows ∪ folderPaths

section Renames

variable {ν : Type}

/-- The paths of the rows of this device. -/
def localPaths (fs : GrizolFS ν) : Set (List String) :=
  rowPaths fs.state.db fs.config.localDeviceId

variable (fs : GrizolFS ν)

/-- The row of a file, which there is, goes to another name. -/
def MovesAway (file : GrizolFileInfo) (destName : String) (outcomes : RenameOutcomes) : Prop :=
  MovesRow fs file destName outcomes ∧
    fs.state.db.bepFileInfo.contains (fileKey fs file) = true ∧ destName ≠ file.fileInfo.name

/-- One file of a rename in memory: if its row goes away there is nothing left below it, and the
directories above its new name are there or are still to come; if not, its new name is not
waited for. -/
def FileKeepsParents (file : GrizolFileInfo) (destName : String) (outcomes : RenameOutcomes)
    (awaited : Set (List String)) : Prop :=
  (MovesAway fs file destName outcomes →
    MoveKeepsParents (localPaths fs) (awaited ∪ folderPaths) (keyPath (fileKey fs file))
      (keyPath { fileKey fs file with name := destName })) ∧
  (¬ MovesAway fs file destName outcomes →
    ∀ p ∈ localPaths fs, keyPath { fileKey fs file with name := destName } <+: p →
      keyPath { fileKey fs file with name := destName } ∈
        localPaths fs ∪ (awaited ∪ folderPaths))

/-- The new paths of the files that a rename in memory has still to handle. -/
def newPaths (origNamePrefix destNamePrefix : String) (nodes : List FsNode) :
    Set (List String) :=
  { p | ∃ node ∈ nodes, ∃ file, node.fileType = .file file ∧
      file.folder :: Path.split (GrizolFS.destFileName origNamePrefix destNamePrefix
        file.fileInfo.name) = p }

/-- The files of a rename in memory move so that each finds the directories above it; where the
call stops none is waited for. -/
def RenameKeepsParents (origNamePrefix destNamePrefix : String)
    (outcomes : ℕ → RenameOutcomes) : ℕ → List FsNode → GrizolFS ν → Prop
  | _, [], _ => True
  | n, node :: nodes, fs =>
      let awaited := newPaths origNamePrefix destNamePrefix nodes
      match node.fileType with
      | .file file =>
          if origNamePrefix.toList <+: file.fileInfo.name.toList then
            let dest := GrizolFS.destFileName origNamePrefix destNamePrefix file.fileInfo.name
            FileKeepsParents fs file dest (outcomes n) awaited ∧
              match (GrizolFS.renameMem file dest (outcomes n)).run fs with
              | .ok _ fs' =>
                  RenameKeepsParents origNamePrefix destNamePrefix outcomes (n + 1) nodes fs'
              | .error _ fs' => NothingAwaited (localPaths fs') awaited
          else
            NothingAwaited (localPaths fs)
              (newPaths origNamePrefix destNamePrefix (node :: nodes))
      | .folder _ => NothingAwaited (localPaths fs) awaited

/-- A rename from the lists, if it moves its row: there is nothing left below it, and the
directories above the new path are there. -/
def RenameDbKeepsParents (paths : GrizolFS.RenamePaths) (outcomes : RenameOutcomes) : Prop :=
  MovesRowDb fs paths outcomes →
    MoveKeepsParents (localPaths fs) folderPaths
      (keyPath ⟨paths.origFolder, fs.config.localDeviceId, paths.origName⟩)
      (keyPath ⟨paths.destFolder, fs.config.localDeviceId, paths.destName⟩)

end Renames

/-! ## Runs -/

/-- A turn of a task, or a rename with the lists and the tree it works on. -/
inductive RefreshEvent (ι : Type) where
  | turn (t : Turn ι TurnOutcome)
  | rename (fuseInmem : Bool) (cache : FoldersFiles) (request : RenameRequest)
      (outcomes : ℕ → RenameOutcomes)

section Step

variable {ι : Type} [DecidableEq ι] (readCache : ReadCacheConfig) (storageBackends : List String)
  (hash : String → ℕ → ℕ → UInt64) (sha256 : Bytes → Bytes) (debugRequest : Request → String)

/-- One event on a node that also renames and refreshes. -/
def refreshStep (n : CacheNode ι) : RefreshEvent ι → Option (CacheNode ι)
  | .turn t =>
      (Processes.step (ServerTask.act hash sha256 debugRequest) n.server t).map fun server =>
        { n with server := server }
  | .rename fuseInmem cache request outcomes =>
      some (n.call readCache storageBackends
        (GrizolFS.rename fuseInmem cache request outcomes))

end Step

/-- **What is needed of an event**: a message brings the directories above what it has new for
this device, and a rename moves no directory away from a row and no row to where its
directories are not. -/
def KeepsParents {ι : Type} (readCache : ReadCacheConfig) (storageBackends : List String)
    (n : CacheNode ι) : RefreshEvent ι → Prop
  | .turn t =>
      ∀ h, n.server.process t.process = .index h → h.pc = .writeIndices →
        MessageBringsParents n.config.localDeviceId h.clientDeviceId h.message n.state
  | .rename fuseInmem cache request outcomes =>
      let fs := n.fileSystem readCache storageBackends
      if fuseInmem then
        ∀ targets, GrizolFS.renameTargets cache.fsMem request = .ok (.ok targets) →
          RenameKeepsParents targets.origNamePrefix targets.destNamePrefix outcomes 0
            targets.nodes fs
      else
        ∀ paths, GrizolFS.renamePaths cache.folders cache.files request = .ok (.ok paths) →
          RenameDbKeepsParents fs paths (outcomes 0)

end Grizol.Interface

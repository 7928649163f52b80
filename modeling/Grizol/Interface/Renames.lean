import Grizol.Interface.IndexCache
import Grizol.Model.FuseRename

/-!
# Renames and the copies on the backends

A rename copies the object of a file on each backend, moves its row and deletes the old
object. It should delete an object only after a copy of it that succeeded, and leave the
row and its locations when a copy fails (`SafeRename`). What the backends hold is known
by the commands that ran and their exit status. A rename of a directory in memory is the
run of its loop (`EachRenamed`).
-/

set_option autoImplicit false

namespace Grizol.Interface

open Grizol.Library
open Grizol.Model Grizol.Model.Syncthing

variable {ν : Type}

/-! ## What a rename should do -/

section Memory

variable (fs : GrizolFS ν) (file : GrizolFileInfo) (destFileName : String)
  (outcomes : RenameOutcomes)

/-- The row of a file of this device. -/
def fileKey : FileKey := ⟨file.folder, fs.config.localDeviceId, file.fileInfo.name⟩

/-- The state after the loop of `rename_mem` handled one file. -/
def afterRenameMem : GrizolFS ν :=
  RustM.endState ((GrizolFS.renameMem file destFileName outcomes).run fs)

/-- The row of a file can be moved: there is a number for it, and none under the new name. -/
def Movable (s : BepState) (key : FileKey) (destName : String)
    (fileLocations : List FileLocation) : Prop :=
  ∃ n, nextSequence s = some n ∧
    (s.db.bepFileInfo.contains key = true →
      (destName = key.name ∨
        s.db.bepFileInfo.contains { key with name := destName } = false) ∧
      s.db.sequenceFree key n = true) ∧
    (s.db.bepFileInfo.contains key = false →
      fileLocations = [] ∨ s.db.bepFileInfo.contains { key with name := destName } = true)

/-- The copies that run. -/
def copies : List Ran :=
  GrizolFS.copiesRan fs.config file.folder destFileName outcomes.rclone file.fileLocations

/-- Every copy was started, and the row can be moved. -/
def MovesRow : Prop :=
  (copies fs file destFileName outcomes).length = file.fileLocations.length ∧
    Movable fs.state (fileKey fs file) destFileName file.fileLocations

/-- The deletions that run when the row is moved. -/
def deletions : List Ran :=
  GrizolFS.backendRan (GrizolFS.rmCommand fs.config file.folder file.fileInfo.name)
    outcomes.delete 0 fs.storageBackends

/-- No copy that runs fails. -/
def NoCopyFails : Prop := ∀ copy ∈ copies fs file destFileName outcomes, copy.success = true

end Memory

/-- A property of every file the loop of `rename_mem` gets to, in the state it is handled in. -/
def EachRenamed
    (P : GrizolFS ν → GrizolFileInfo → String → RenameOutcomes → Prop)
    (origNamePrefix destNamePrefix : String) (outcomes : ℕ → RenameOutcomes) :
    ℕ → List FsNode → GrizolFS ν → Prop
  | _, [], _ => True
  | n, node :: nodes, fs =>
      ∀ file, node.fileType = .file file → origNamePrefix.toList <+: file.fileInfo.name.toList →
        let dest := GrizolFS.destFileName origNamePrefix destNamePrefix file.fileInfo.name
        P fs file dest (outcomes n) ∧
          ∀ fs', (GrizolFS.renameMem file dest (outcomes n)).run fs = .ok () fs' →
            EachRenamed P origNamePrefix destNamePrefix outcomes (n + 1) nodes fs'

/-! ## From the lists -/

section Lists

variable (fs : GrizolFS ν) (paths : GrizolFS.RenamePaths) (outcomes : RenameOutcomes)

/-- The copies that run. -/
def copiesDb : List Ran :=
  GrizolFS.backendRan (GrizolFS.cpCommand fs.config paths.origFolder paths.origName
    paths.destFolder paths.destName) outcomes.copy 0 fs.storageBackends

/-- The deletions that run when the row is moved. -/
def deletionsDb : List Ran :=
  GrizolFS.backendRan (GrizolFS.rmCommand fs.config paths.origFolder paths.origName)
    outcomes.delete 0 fs.storageBackends

/-- The file is recorded, every copy ran to its end, and the database takes the row under the
new path. -/
def MovesRowDb : Prop :=
  ∃ file n,
    fs.state.fileInfo paths.origFolder fs.config.localDeviceId paths.origName = some file ∧
    (copiesDb fs paths outcomes).length = fs.storageBackends.length ∧
    nextSequence fs.state = some n ∧
    Accepted fs.state.db paths.destFolder fs.config.localDeviceId file ∧
    fs.state.db.sequenceFree
      ⟨paths.destFolder, fs.config.localDeviceId, paths.destName⟩ n = true

end Lists

/-! ## A whole call -/

end Grizol.Interface

import Grizol.Interface.IndexIntake
import Grizol.Interface.WrittenRows

/-!
# What an index update leaves in the tables

An update passes two comparisons: its files with those of the client, and what the client has
then with the files of this device. `clientFile` is what the client has of a name in between,
and `LeavesRows` says for every file what its rows are afterwards, or that they are as before.
-/

set_option autoImplicit false

namespace Grizol.Interface

open Grizol.Library
open Grizol.Model Grizol.Model.Syncthing

/-- The entry of a folder and device in memory, if there is one, is what the tables hold. -/
def AgreesWithTables (s : BepState) (folder : String) (deviceId : DeviceId) : Prop :=
  ∀ entry, s.indices.indices.get ⟨folder, deviceId⟩ = some entry →
    ∀ name, Option.Rel SameFile (entry.files.get name) (stored s.db ⟨folder, deviceId, name⟩)

/-- The file is newer than that of its name, or there is none. -/
def Supersedes (old : Option FileInfo) (file : FileInfo) : Prop := ∀ f ∈ old, Newer f file

instance (old : Option FileInfo) (file : FileInfo) : Decidable (Supersedes old file) :=
  inferInstanceAs (Decidable (∀ f ∈ old, Newer f file))

section Files

variable (db : Database) (update : IndexUpdate) (client localDeviceId : DeviceId) (name : String)

/-- The client's file after the first comparison: that of the update if it is newer and not
flagged deleted, else the stored one. -/
def clientFile : Option FileInfo :=
  let known := stored db ⟨update.folder, client, name⟩
  match lastNamed update.files name with
  | some file => if file.deleted = false ∧ Supersedes known file then some file else known
  | none => known

/-- The local file becomes this one: the client's, not flagged deleted, and newer. -/
def Brings (file : FileInfo) : Prop :=
  clientFile db update client name = some file ∧ file.deleted = false ∧
    Supersedes (stored db ⟨update.folder, localDeviceId, name⟩) file

end Files

/-- The file at a key was replaced: its number comes after the last one given out, its blocks
are those of the new one, none of them stored, and nothing says where it was or that it is in
the read cache. -/
structure ReplacedBy (file : FileInfo) (key : FileKey) (s : BepState) (db' : Database) : Prop where
  row : ∃ sequence, (∀ last, lastSequence s = some last → last < sequence) ∧
    db'.bepFileInfo.get key = some (.ofFileInfo { file with sequence := sequence })
  rows : RowsOf db' key file
  locations : ∀ k : LocationKey, k.file = key → db'.bepFileLocation.get k = none
  cache : db'.bepLocalCache.get key = none

/-- **What an update leaves.** The rows of a local file are those of the file it brings, or as
before; those of a file of the client, too. All rows of other folders and other devices are as
before. -/
structure LeavesRows (update : IndexUpdate) (client localDeviceId : DeviceId) (s : BepState)
    (db' : Database) : Prop where
  replaced : ∀ name file, Brings s.db update client localDeviceId name file →
    ReplacedBy file ⟨update.folder, localDeviceId, name⟩ s db'
  kept : ∀ name, (∀ file, ¬ Brings s.db update client localDeviceId name file) →
    SameRowsAt ⟨update.folder, localDeviceId, name⟩ s.db db'
  sent : ∀ name file, clientFile s.db update client name = some file →
    stored s.db ⟨update.folder, client, name⟩ ≠ some file →
      ReplacedBy file ⟨update.folder, client, name⟩ s db'
  unsent : ∀ name, clientFile s.db update client name =
    stored s.db ⟨update.folder, client, name⟩ → SameRowsAt ⟨update.folder, client, name⟩ s.db db'
  others : ∀ key : FileKey, key.folder ≠ update.folder ∨
    key.device ≠ client ∧ key.device ≠ localDeviceId → SameRowsAt key s.db db'
  indices : db'.bepIndex = s.db.bepIndex

end Grizol.Interface

import Grizol.Model.ReadDir

/-!
# The two listings of a directory

The tree and the lists of one refresh should list the same directories (`SameListing`).
A `Snapshot` is what the queries of a refresh return: rows have ids of their own, a name
is in a folder once, and a file comes with the directories above it.
-/

set_option autoImplicit false

namespace Grizol.Interface

open Grizol.Library
open Grizol.Model Grizol.Model.Syncthing

/-- The paths of the folders and of the files. -/
def listedPaths (folders : List GrizolFolder) (files : List GrizolFileInfo) :
    List (List String) :=
  (folders.map fun f => [f.folder.id]) ++ files.map GrizolFsMem.splitPath

/-- Every directory above a file is listed, up to its folder. -/
def ParentsListed (folders : List GrizolFolder) (files : List GrizolFileInfo) : Prop :=
  ∀ file ∈ files, ∀ path, path ≠ [] → path <+: GrizolFsMem.splitPath file →
    path ∈ listedPaths folders files

/-- Row ids that have an inode number: those of folders end below the first of a file. -/
structure NumberedRows (folders : List GrizolFolder) (files : List GrizolFileInfo) : Prop where
  folders : ∀ folder ∈ folders, 0 ≤ folder.id.toInt ∧ folder.id.toInt + topDirsStart < entriesStart
  files : ∀ file ∈ files, 0 ≤ file.id.toInt

/-- The folders and files of one refresh. -/
structure Listing (folders : List GrizolFolder) (files : List GrizolFileInfo) : Prop where
  folderIds : (folders.map fun f => f.folder.id).Nodup
  folderRows : (folders.map GrizolFolder.id).Nodup
  names : (files.map fun f => (f.folder, f.fileInfo.name)).Nodup
  fileRows : (files.map GrizolFileInfo.id).Nodup
  rows : NumberedRows folders files
  parents : ParentsListed folders files

/-- Lists whose files have a type, and names that are relative paths in canonical form. -/
structure Snapshot (folders : List GrizolFolder) (files : List GrizolFileInfo) : Prop
    extends Listing folders files where
  types : ∀ file ∈ files, 0 ≤ file.fileInfo.type ∧ file.fileInfo.type ≤ 4
  canonical : ∀ file ∈ files, Path.Canonical file.fileInfo.name

/-- What a reply shows of an entry. -/
def shown (e : DirEntry) : ℕ × FileType × String := (e.ino, e.kind, e.name)

/-- **Both replies say that there is no such directory, or show the same entries.** -/
def SameListing (r r' : Rust (Except Errno (List DirEntry))) : Prop :=
  (r = .ok (.error .enoent) ∧ r' = .ok (.error .enoent)) ∨
    ∃ entries entries', r = .ok (.ok entries) ∧ r' = .ok (.ok entries') ∧
      ∀ x, x ∈ entries.map shown ↔ x ∈ entries'.map shown

/-- A reply that is never full. -/
def unbounded : List DirEntry → DirEntry → Bool := fun _ _ => false

end Grizol.Interface

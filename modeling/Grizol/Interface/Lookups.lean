import Grizol.Interface.DirectoryPaging
import Grizol.Model.Lookup

/-!
# Looking up what is listed

A name that is looked up in a directory should be found when the directory lists it, with
the number it is listed with, and only then.
-/

set_option autoImplicit false

namespace Grizol.Interface

open Grizol.Library
open Grizol.Model Grizol.Model.Syncthing

/-- The listing has this name with this inode number. -/
def ShowsName (listing : Rust (Except Errno (List DirEntry))) (name : OsStr) (ino : ℕ) : Prop :=
  ∃ entries, listing = .ok (.ok entries) ∧ ∃ e ∈ entries, OsStr.text e.name = name ∧ e.ino = ino

/-- **A lookup agrees with the listing**: it replies with the entry that is listed, or that there
is none. -/
structure LookupAgrees (lookup : Rust (Except Errno FileAttr))
    (listing : Rust (Except Errno (List DirEntry))) (name : OsStr) : Prop where
  found : ∀ ino, (∃ attr, lookup = .ok (.ok attr) ∧ attr.ino = ino) ↔ ShowsName listing name ino
  notFound : (∀ ino, ¬ ShowsName listing name ino) → lookup = .ok (.error .enoent)

/-- The time of the last change is one of the system. -/
def HasModifiedTime (file : GrizolFileInfo) : Prop :=
  file.fileInfo.modifiedS.toUInt64.toNat +
    file.fileInfo.modifiedNs.toInt64.toUInt64.toNat / 1000000000 < 2 ^ 63

/-- **What is needed of a lookup in the tree**: the name is a text, and a file that has it in this
directory has a time. -/
def FoundInTree (folders : List GrizolFolder) (files : List GrizolFileInfo) (parent : ℕ)
    (name : OsStr) : Prop :=
  ∃ s, name = .text s ∧ ∀ path kind, Located folders files parent path kind →
    ∀ f ∈ files, GrizolFsMem.splitPath f = path ++ [s] → HasModifiedTime f

/-- The parts of the name of a directory; a folder has none. -/
def parentParts (files : List GrizolFileInfo) (parent : ℕ) : List String :=
  ((files.find? fun f => entryId f.id = .ok parent).map fun f =>
    Path.split f.fileInfo.name).getD []

/-- The first file of this relative name, in whatever folder. -/
def firstNamed (files : List GrizolFileInfo) (parts : List String) : Option GrizolFileInfo :=
  files.find? fun f => Path.split f.fileInfo.name = parts

/-- **What is needed of a lookup in the lists**: at the root, the name is a text, or there are no
folders. Below, the number of the directory is known if it is that of a file, and the first file
of the relative name, in whatever folder, is in the folder of the directory and has a time. -/
structure FoundInLists (folders : List GrizolFolder) (files : List GrizolFileInfo) (parent : ℕ)
    (name : OsStr) : Prop where
  root : parent = fuseRootId → folders = [] ∨ ∃ s, name = .text s
  known : entriesStart ≤ parent → ∃ f ∈ files, entryId f.id = .ok parent
  first : parent ≠ fuseRootId → ∀ s, name = .text s →
    ∀ f, firstNamed files (parentParts files parent ++ [s]) = some f →
      HasModifiedTime f ∧
        ∃ path kind, Located folders files parent path kind ∧ [f.folder] <+: path

end Grizol.Interface

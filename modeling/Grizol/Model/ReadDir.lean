import Grizol.Model.FsMem

/-!
# Listing directories

The two implementations of `readdir` in `fuse.rs`: one reads the children of a node of
the tree, the other filters the lists of the last refresh. What the kernel still takes
up in its buffer is a parameter (`isFull`); an entry that fills it is not in the reply.
-/

set_option autoImplicit false

namespace Grizol.Model

open Grizol.Library
open Grizol.Model.Syncthing

/-- The error numbers of the replies. -/
inductive Errno where
  | eperm
  | enoent
  | eio
  | efault
  deriving DecidableEq, Repr

/-- `fuser::FileType`. -/
inductive FileType where
  | regularFile
  | directory
  | symlink
  deriving DecidableEq, Repr

/-- `file_type`. -/
def fileType (fileTypeCode : Int32) : Rust FileType :=
  if fileTypeCode = 0 then .ok .regularFile
  else if fileTypeCode = 1 then .ok .directory
  else if 2 ≤ fileTypeCode ∧ fileTypeCode ≤ 4 then .ok .symlink
  else .error (.explicit "not yet implemented")

/-- What one `reply.add` adds. -/
structure DirEntry where
  ino : ℕ
  offset : ℕ
  kind : FileType
  name : String
  deriving DecidableEq, Repr

/-- The inode number of the root. -/
abbrev fuseRootId : ℕ := 1

section

variable (isFull : List DirEntry → DirEntry → Bool)

/-- The loop of `readdir`; `i` counts the entries, those that were skipped too. -/
def replyEntries {α : Type} (entry : α → Rust (ℕ × FileType × String)) :
    ℕ → List α → List DirEntry → Rust (List DirEntry)
  | _, [], added => pure added
  | i, x :: xs, added => do
      let (ino, kind, name) ← entry x
      let e : DirEntry := ⟨ino, i + 1, kind, name⟩
      if isFull added e then pure added
      else replyEntries entry (i + 1) xs (added ++ [e])

/-! ## In memory -/

/-- The entry of a child. -/
def childEntry : String × FsNode → Rust (ℕ × FileType × String)
  | (name, node) => do
      let kind ← match node.fileType with
        | .folder _ => pure FileType.directory
        | .file f => fileType f.fileInfo.type
      pure (node.id, kind, name)

/-- `readdir` in the tree: the children behind the offset, until the buffer is full. -/
def readdirMem (m : GrizolFsMem) (ino offset : ℕ) : Rust (Except Errno (List DirEntry)) :=
  match m.nodes.get ino with
  | none => pure (.error .enoent)
  | some dir => do
      let _ ← Rust.unwrap (m.upgrade dir)
      let entries ← replyEntries isFull childEntry offset ((m.children dir.path).drop offset) []
      pure (.ok entries)

/-! ## From the lists -/

/-- `find` by an inode number. -/
def findId {α : Type} (id : α → Rust ℕ) (ino : ℕ) : List α → Rust (Option α)
  | [] => pure none
  | x :: xs => do
      if (← id x) = ino then pure (some x) else findId id ino xs

/-- The folder that an inode number is in. -/
def topFolder (ino : ℕ) (folders : List GrizolFolder) (files : List GrizolFileInfo) :
    Rust (Option String) := do
  if ino < entriesStart then
    let folder ← findId (fun f => topDirId f.id) ino folders
    pure (folder.map fun f => f.folder.id)
  else
    let file ← findId (fun f => entryId f.id) ino files
    pure (file.map fun f => f.folder)

/-- The name of the directory of an inode number; a folder has none. -/
def baseDir (ino : ℕ) (files : List GrizolFileInfo) : Rust (Option String) := do
  if ino < entriesStart then pure (some "")
  else
    let file ← findId (fun f => entryId f.id) ino files
    pure (file.map fun f => f.fileInfo.name)

/-- The file is directly in the directory: behind the name of the directory its path has one part.
-/
def isFileInCurrentDir (baseDir : String) (file : GrizolFileInfo) : Bool :=
  match Path.stripPrefix (Path.components file.fileInfo.name) (Path.components baseDir) with
  | none => false
  | some strippedPath =>
      match Path.fileName strippedPath with
      | none => false
      | some fileName => strippedPath = Path.components fileName

/-- The entry of a folder. -/
def folderEntry (folder : GrizolFolder) : Rust (ℕ × FileType × String) := do
  let id ← topDirId folder.id
  pure (id, .directory, folder.folder.id)

/-- The entry of a file below `baseDir`. -/
def fileEntry (baseDir : String) (file : GrizolFileInfo) : Rust (ℕ × FileType × String) := do
  let fileName ← Rust.unwrap
    (Path.stripPrefix (Path.components file.fileInfo.name) (Path.components baseDir))
  let id ← entryId file.id
  let kind ← fileType file.fileInfo.type
  pure (id, kind, Path.asOsStr fileName)

/-- `readdir` in the lists, behind the offset, until the buffer is full. -/
def readdirDb (folders : List GrizolFolder) (files : List GrizolFileInfo) (ino offset : ℕ) :
    Rust (Except Errno (List DirEntry)) := do
  if ino = fuseRootId then
    if offset = folders.length then pure (.ok [])
    else
      let entries ← replyEntries isFull folderEntry offset (folders.drop offset) []
      pure (.ok entries)
  else
    let topFolder ← topFolder ino folders files
    let baseDir ← baseDir ino files
    match topFolder, baseDir with
    | some topFolder, some baseDir =>
        let files := files.filter fun file =>
          file.folder = topFolder && isFileInCurrentDir baseDir file
        if offset = files.length then pure (.ok [])
        else
          let entries ← replyEntries isFull (fileEntry baseDir) offset (files.drop offset) []
          pure (.ok entries)
    | _, _ => pure (.error .enoent)

end

end Grizol.Model

import Grizol.Model.Fuse
import Grizol.Model.ReadDir

/-!
# Renaming through the file system

The calls `rename_mem` and `rename_db`: what is renamed is looked up in the tree, or in
the lists of the last refresh. In the tree a directory stands for all that is below it,
and each file is handled on its own, a file after those below it; from the lists only
the row of the name itself is moved. A rename in memory goes on after a copy that could
not be started.
-/

set_option autoImplicit false

namespace Grizol.Model

open Grizol.Library
open Grizol.Model.Syncthing

/-- The arguments of `rename`. -/
structure RenameRequest where
  origParentDirIno : ℕ
  origName : String
  destParentDirIno : ℕ
  destName : String

/-- The lists and the tree of the last refresh. -/
structure FoldersFiles where
  folders : List GrizolFolder
  files : List GrizolFileInfo
  fsMem : GrizolFsMem

namespace GrizolFS

variable {ν : Type}

/-! ## In memory -/

/-- The path of a name in a directory, within its folder. -/
def namePrefix (dir : FsNode) (name : String) : String :=
  match dir.fileType with
  | .file f => f.fileInfo.name ++ "/" ++ name
  | .folder _ => name

/-- The child of a directory with this name. -/
def findChild (name : String) : List (String × FsNode) → Rust (Option (String × FsNode))
  | [] => pure none
  | (childName, child) :: children =>
      match child.fileType with
      | .file f =>
          if f.fileInfo.name = name then pure (some (childName, child))
          else findChild name children
      | .folder _ => throw (.explicit "not yet implemented")

/-- What a rename in memory works on. -/
structure RenameTargets where
  nodes : List FsNode
  origNamePrefix : String
  destNamePrefix : String
  deriving DecidableEq, Repr

/-- The part of `rename_mem` before its loop. -/
def renameTargets (m : GrizolFsMem) (request : RenameRequest) :
    Rust (Except Errno RenameTargets) := do
  if request.origParentDirIno = fuseRootId then pure (.error .eperm)
  else
    let origParent ← Rust.unwrap (m.nodes.get request.origParentDirIno)
    match m.upgrade origParent with
    | none => pure (.error .eio)
    | some origParentDir => do
        let destParent ← Rust.unwrap (m.nodes.get request.destParentDirIno)
        match m.upgrade destParent with
        | none => pure (.error .eio)
        | some destParentDir => do
            let origNamePrefix := namePrefix origParentDir request.origName
            match ← findChild origNamePrefix (m.children origParent.path) with
            | none => pure (.error .enoent)
            | some (childName, origFile) =>
                pure (.ok
                  { nodes := m.traversePost m.tree.entries.length (origParent.path ++ [childName])
                      origFile
                    origNamePrefix := origNamePrefix
                    destNamePrefix := namePrefix destParentDir request.destName })

/-- `orig_file_name.replacen(orig_name_prefix, dest_name_prefix, 1)`, for a name that begins
with the prefix. -/
def destFileName (origNamePrefix destNamePrefix origFileName : String) : String :=
  destNamePrefix ++ String.ofList (origFileName.toList.drop origNamePrefix.toList.length)

/-- The loop of `rename_mem`; `outcomes n` is what its `n`-th file meets. -/
def renameEach (origNamePrefix destNamePrefix : String) (outcomes : ℕ → RenameOutcomes) :
    ℕ → List FsNode → RustM (GrizolFS ν) Unit
  | _, [] => pure ()
  | n, node :: nodes =>
      match node.fileType with
      | .file file => do
          Rust.assert (origNamePrefix.toList <+: file.fileInfo.name.toList)
          renameMem file (destFileName origNamePrefix destNamePrefix file.fileInfo.name)
            (outcomes n)
          renameEach origNamePrefix destNamePrefix outcomes (n + 1) nodes
      | .folder _ => throw .assertion

/-- `rename` in the tree: each file of the subtree on its own, until one fails. -/
def renameMemCall (m : GrizolFsMem) (request : RenameRequest) (outcomes : ℕ → RenameOutcomes) :
    RustM (GrizolFS ν) (Except Errno Unit) := do
  match ← renameTargets m request with
  | .error e => pure (.error e)
  | .ok targets => do
      renameEach targets.origNamePrefix targets.destNamePrefix outcomes 0 targets.nodes
      pure (.ok ())

/-! ## From the lists -/

/-- `Dirs` of `rename_db`. -/
structure Dirs where
  topFolder : Option String
  dir : Option String

/-- The folder and the directory of an inode number, as far as it has them. -/
def parentDirs (ino : ℕ) (folders : List GrizolFolder) (files : List GrizolFileInfo) :
    Rust (Option Dirs) := do
  if ino = fuseRootId then pure (some ⟨none, none⟩)
  else if ino < entriesStart then
    let folder ← findId (fun f => topDirId f.id) ino folders
    pure (folder.map fun f => ⟨some f.folder.id, none⟩)
  else
    let file ← findId (fun f => entryId f.id) ino files
    pure (file.map fun f => ⟨some f.folder, some f.fileInfo.name⟩)

/-- The files that are, by folder and name, the ones to be moved. -/
def isOrigFile (origParentDir : Dirs) (origName : String) (f : GrizolFileInfo) : Bool :=
  origParentDir.topFolder = some f.folder &&
    (match origParentDir.dir with
      | some d => d ++ "/" ++ origName = f.fileInfo.name
      | none => origName = f.fileInfo.name) &&
    isFileInCurrentDir (origParentDir.dir.getD "") f

/-- What a rename from the lists works on. -/
structure RenamePaths where
  origFolder : String
  origName : String
  destFolder : String
  destName : String
  deriving DecidableEq, Repr

/-- The part of `rename_db` before the lock is taken. -/
def renamePaths (folders : List GrizolFolder) (files : List GrizolFileInfo)
    (request : RenameRequest) : Rust (Except Errno RenamePaths) := do
  let origParentDir ← parentDirs request.origParentDirIno folders files
  let destParentDir ← parentDirs request.destParentDirIno folders files
  match origParentDir, destParentDir with
  | some origParentDir, some destParentDir =>
      match files.find? (isOrigFile origParentDir request.origName) with
      | none => pure (.error .enoent)
      | some file =>
          match folders.find? fun f => destParentDir.topFolder = some f.folder.id with
          | none => pure (.error .enoent)
          | some destFolder =>
              pure (.ok
                { origFolder := file.folder
                  origName := file.fileInfo.name
                  destFolder := destFolder.folder.id
                  destName := (destParentDir.dir.map (· ++ "/")).getD "" ++ request.destName })
  | _, _ => pure (.error .enoent)

/-- `rename` from the lists: the one row at the path. -/
def renameDbCall (folders : List GrizolFolder) (files : List GrizolFileInfo)
    (request : RenameRequest) (outcomes : RenameOutcomes) :
    RustM (GrizolFS ν) (Except Errno Unit) := do
  match ← renamePaths folders files request with
  | .error e => pure (.error e)
  | .ok paths => do
      renameDb paths.origFolder paths.origName paths.destFolder paths.destName outcomes
      pure (.ok ())

/-- `rename` of the file system. -/
def rename (fuseInmem : Bool) (cache : FoldersFiles) (request : RenameRequest)
    (outcomes : ℕ → RenameOutcomes) : RustM (GrizolFS ν) (Except Errno Unit) :=
  if fuseInmem then renameMemCall cache.fsMem request outcomes
  else renameDbCall cache.folders cache.files request (outcomes 0)

end GrizolFS

end Grizol.Model

import Grizol.Library.Path
import Grizol.Model.BepState

/-!
# The tree of the file system

`GrizolFsMem` of `fuse.rs`: a tree of folders and files that is built from the lists of
the database by splitting names at slashes. It is kept here as the map from a path to
its node. The inode table holds weak references: a node is named by its path and by the
number it was created with, and is gone when another node was put in its place, or in
the place of one above it.
-/

set_option autoImplicit false

namespace Grizol.Model

open Grizol.Library
open Grizol.Model.Syncthing

/-- `GrizolFolder`. -/
structure GrizolFolder where
  folder : Folder
  id : Int64
  deriving DecidableEq, Repr

/-- `GrizolFileInfo`. -/
structure GrizolFileInfo where
  fileInfo : FileInfo
  fileLocations : List FileLocation
  folder : String
  id : Int64
  deriving DecidableEq, Repr

/-- What a node of the tree stands for. -/
inductive GrizolFSFileType where
  | file (file : GrizolFileInfo)
  | folder (folder : GrizolFolder)
  deriving DecidableEq, Repr

/-- `GrizolFSErr`. -/
inductive GrizolFSErr where
  | noParent (file : GrizolFileInfo)
  deriving DecidableEq, Repr

/-! ## Inode numbers -/

/-- Inode numbers from here on are those of files. -/
abbrev entriesStart : ℕ := 2 ^ 32

/-- The inode number of the row of a file; the id is cast, so a negative one overflows. -/
def entryId (id : Int64) : Rust ℕ := Rust.add 64 id.toUInt64.toNat entriesStart

/-- Inode numbers from here up to those of files are those of folders. -/
abbrev topDirsStart : ℕ := 10

/-- The inode number of the row of a folder. -/
def topDirId (id : Int64) : Rust ℕ := do
  let res ← Rust.add 64 id.toUInt64.toNat topDirsStart
  if entriesStart ≤ res then
    throw (.explicit "Too many operations performed on the top level dirs")
  pure res

/-! ## The tree -/

/-- `FsNode`; `serial` tells it from every other node that was created. -/
structure FsNode where
  serial : ℕ
  id : ℕ
  fileType : GrizolFSFileType
  deriving DecidableEq, Repr

/-- `WeakFsNode`. -/
structure WeakFsNode where
  path : List String
  serial : ℕ
  deriving DecidableEq, Repr

/-- The tree: the owned nodes by their path, and the index of weak references by inode number. The
counter tells apart nodes that were made at one path. -/
structure GrizolFsMem where
  tree : AssocMap (List String) FsNode
  nodes : AssocMap ℕ WeakFsNode
  created : ℕ

namespace GrizolFsMem

/-- The tree with a new node, in the place of what was there and below. -/
def insertNode (m : GrizolFsMem) (path : List String) (id : ℕ) (fileType : GrizolFSFileType) :
    GrizolFsMem where
  tree := (m.tree.retain fun p _ => !path.isPrefixOf p).insert path ⟨m.created, id, fileType⟩
  nodes := m.nodes.insert id ⟨path, m.created⟩
  created := m.created + 1

/-- `GrizolFsMem::new`. -/
def new : GrizolFsMem :=
  insertNode ⟨.empty, .empty, 0⟩ [] 1 (.folder ⟨{}, 1⟩)

/-- Puts the node of a folder below the root, in place of one of its name. -/
def insertFolder (m : GrizolFsMem) (folder : GrizolFolder) : Rust GrizolFsMem := do
  let folderId ← topDirId folder.id
  pure (m.insertNode [folder.folder.id] folderId (.folder folder))

/-- The folder of a file and the parts of its name. -/
def splitPath (file : GrizolFileInfo) : List String :=
  file.folder :: Path.split file.fileInfo.name

/-- The walk from the node at `path` down to a parent. -/
def findParent (m : GrizolFsMem) : List String → List String → Option (List String)
  | path, [] => some path
  | path, nodeName :: rest =>
      if m.tree.contains (path ++ [nodeName]) then findParent m (path ++ [nodeName]) rest else none

/-- Puts the node of a file below its parent, in place of one of its name; without a parent it is
refused. -/
def insertFile (m : GrizolFsMem) (file : GrizolFileInfo) :
    Rust (Except GrizolFSErr GrizolFsMem) :=
  let splitPath := splitPath file
  match m.findParent [] splitPath.dropLast with
  | none => pure (.error (.noParent file))
  | some parent => do
      let nodeId ← entryId file.id
      let nodeName ← Rust.unwrap splitPath.getLast?
      pure (.ok (m.insertNode (parent ++ [nodeName]) nodeId (.file file)))

/-- `upgrade` of a weak reference. -/
def upgrade (m : GrizolFsMem) (node : WeakFsNode) : Option FsNode :=
  (m.tree.get node.path).filter fun n => n.serial = node.serial

/-- The children of the node at a path, with their names. -/
def children (m : GrizolFsMem) (path : List String) : List (String × FsNode) :=
  m.tree.entries.filterMap fun (p, node) =>
    match p.getLast? with
    | some name => if p.dropLast = path then some (name, node) else none
    | none => none

/-- `traverse_post`; the depth below the node is given. -/
def traversePost (m : GrizolFsMem) : ℕ → List String → FsNode → List FsNode
  | 0, _, node => [node]
  | depth + 1, path, node =>
      (m.children path).flatMap (fun (name, child) => traversePost m depth (path ++ [name]) child)
        ++ [node]

end GrizolFsMem

/-! ## Refreshing -/

/-- The folders, one after the other. -/
def insertFolders : List GrizolFolder → GrizolFsMem → Rust GrizolFsMem
  | [], m => .ok m
  | folder :: folders, m => do
      let m ← m.insertFolder folder
      insertFolders folders m

/-- The loop of `refresh_expired_folders_files`: a file without a parent goes to the end of the
queue. -/
def insertFiles : ℕ → List GrizolFileInfo → GrizolFsMem → Rust GrizolFsMem
  | _, [], m => .ok m
  | 0, _ :: _, _ => .error .divergence
  | fuel + 1, file :: files, m => do
      match ← m.insertFile file with
      | .ok m => insertFiles fuel files m
      | .error (.noParent f) => insertFiles fuel (files ++ [f]) m

/-- The tree after a refresh with these lists. -/
def refreshFoldersFiles (fuel : ℕ) (folders : List GrizolFolder) (files : List GrizolFileInfo)
    (m : GrizolFsMem) : Rust GrizolFsMem := do
  let m ← insertFolders folders m
  insertFiles fuel files m

end Grizol.Model

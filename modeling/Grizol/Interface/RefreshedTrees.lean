import Grizol.Interface.Listings
import Grizol.Library.Transition

/-!
# One refresh after the other

The tree is not built anew by a refresh: the folders and files of the database are put into
what the refreshes before have left. The tree should then be that of the last lists alone,
and the index, which is never cleaned, should not name nodes that are gone.
-/

set_option autoImplicit false

namespace Grizol.Interface

open Grizol.Library
open Grizol.Model Grizol.Model.Syncthing

/-- What the keys of the database say of the lists read in one transaction: a file is in a
folder that is listed. -/
structure DatabaseRows (folders : List GrizolFolder) (files : List GrizolFileInfo) : Prop where
  folderIds : (folders.map fun f => f.folder.id).Nodup
  folderRows : (folders.map GrizolFolder.id).Nodup
  names : (files.map fun f => (f.folder, f.fileInfo.name)).Nodup
  fileRows : (files.map GrizolFileInfo.id).Nodup
  inFolder : ∀ file ∈ files, ∃ folder ∈ folders, folder.folder.id = file.folder

/-- A refresh: what the database returned, in the order it came, and the turns its loop took. -/
structure Refresh where
  folders : List GrizolFolder
  files : List GrizolFileInfo
  rows : DatabaseRows folders files
  turns : ℕ

/-- The tree after a refresh, when it ends. -/
def afterRefresh (m : GrizolFsMem) (r : Refresh) : Option GrizolFsMem :=
  (refreshFoldersFiles r.turns r.folders r.files m).toOption

/-- A node that is found from the root, going from child to child. -/
inductive Reachable (m : GrizolFsMem) : List String → FsNode → Prop
  | root {node : FsNode} : m.tree.get [] = some node → Reachable m [] node
  | child {path : List String} {name : String} {node child : FsNode} :
      Reachable m path node → (name, child) ∈ m.children path →
        Reachable m (path ++ [name]) child

/-- **The tree of these lists**: below the root are the folders, and in each its files, at the
parts of their names; every node has the inode number of its row and is found by it. -/
structure TreeOf (folders : List GrizolFolder) (files : List GrizolFileInfo) (m : GrizolFsMem) :
    Prop where
  root : ∃ serial fileType, Reachable m [] ⟨serial, fuseRootId, fileType⟩
  folder : ∀ f ∈ folders, ∃ serial id, topDirId f.id = .ok id ∧
    Reachable m [f.folder.id] ⟨serial, id, .folder f⟩
  file : ∀ f ∈ files, ∃ serial id, entryId f.id = .ok id ∧
    Reachable m (GrizolFsMem.splitPath f) ⟨serial, id, .file f⟩
  only : ∀ path node, Reachable m path node → path = [] ∨ path ∈ listedPaths folders files
  unique : ∀ path path' node node', Reachable m path node → Reachable m path' node' →
    (path = path' → node = node') ∧ (node.id = node'.id → path = path')
  resolved : ∀ path node, Reachable m path node →
    ∃ weak, m.nodes.get node.id = some weak ∧ weak.path = path ∧ m.upgrade weak = some node

/-- **Every inode number of the index names a node of the tree.** -/
def AllLive (m : GrizolFsMem) : Prop :=
  ∀ ino weak, m.nodes.get ino = some weak → ∃ node, m.upgrade weak = some node

/-- **What is needed of a refresh**: an inode number that the index has for something in one of
the listed folders is again that of a listed folder or file. -/
def KeepsInodes (m : GrizolFsMem) (r : Refresh) : Prop :=
  ∀ ino weak, m.nodes.get ino = some weak →
    (∃ f ∈ r.folders, [f.folder.id] <+: weak.path) →
      (∃ f ∈ r.folders, topDirId f.id = .ok ino) ∨ ∃ f ∈ r.files, entryId f.id = .ok ino

end Grizol.Interface

import Grizol.Model.ReadDir

/-!
# Looking up a name

The two implementations of `lookup` in `fuse.rs`, and the attributes they reply with. A
name that the kernel hands over need not be a text.
-/

set_option autoImplicit false

namespace Grizol.Model

open Grizol.Library
open Grizol.Model.Syncthing

/-- `OsStr`: a text, or bytes that are none. -/
inductive OsStr where
  | text (s : String)
  | other (bytes : Bytes)
  deriving DecidableEq, Repr

/-- `OsStr::to_str`. -/
def OsStr.toStr : OsStr → Option String
  | .text s => some s
  | .other _ => none

/-! ## Attributes -/

/-- `SystemTime`, from the epoch on. -/
structure SystemTime where
  secs : ℕ
  nanos : ℕ
  deriving DecidableEq, Repr

/-- The time zero of the system. -/
def unixEpoch : SystemTime := ⟨0, 0⟩

/-- `SystemTime::checked_add`; the seconds are an `i64`. -/
def SystemTime.checkedAdd (t : SystemTime) (secs nanos : ℕ) : Option SystemTime :=
  let secs := t.secs + secs + (t.nanos + nanos) / 1000000000
  if secs < 2 ^ 63 then some ⟨secs, (t.nanos + nanos) % 1000000000⟩ else none

/-- `fuser::FileAttr`. -/
structure FileAttr where
  ino : ℕ
  size : UInt64
  blocks : UInt64
  atime : SystemTime
  mtime : SystemTime
  ctime : SystemTime
  crtime : SystemTime
  kind : FileType
  perm : UInt16
  nlink : UInt32
  uid : UInt32
  gid : UInt32
  rdev : UInt32
  flags : UInt32
  blksize : UInt32
  deriving DecidableEq, Repr

/-- The fields of `GrizolConfig` the attributes depend on. -/
structure OwnerConfig where
  uid : UInt32
  gid : UInt32

section

variable (config : OwnerConfig)

/-- The attributes of a folder; it has no times of its own. -/
def attrFromFolder (gFolder : GrizolFolder) : Rust FileAttr := do
  let modifiedTs := unixEpoch
  let ino ← topDirId gFolder.id
  pure
    { ino := ino, size := 0, blocks := 0
      atime := modifiedTs, mtime := modifiedTs, ctime := modifiedTs, crtime := modifiedTs
      kind := .directory, perm := 0o755, nlink := 0, uid := config.uid, gid := config.gid
      rdev := 0, flags := 0, blksize := 1024 }

/-- The attributes of a file. The casts keep the bits, so a negative time becomes one far ahead, and
adding it can overflow the time. -/
def attrFromFile (gFile : GrizolFileInfo) : Rust FileAttr := do
  let file := gFile.fileInfo
  let nanos := file.modifiedNs.toInt64.toUInt64.toNat
  let modifiedTs ← Rust.unwrap
    ((unixEpoch.checkedAdd file.modifiedS.toUInt64.toNat 0).bind fun ts =>
      ts.checkedAdd (nanos / 1000000000) (nanos % 1000000000))
  let ino ← entryId gFile.id
  let kind ← fileType file.type
  pure
    { ino := ino, size := file.size.toUInt64, blocks := 0
      atime := modifiedTs, mtime := modifiedTs, ctime := modifiedTs, crtime := modifiedTs
      kind := kind, perm := file.permissions.toUInt16, nlink := 0, uid := config.uid
      gid := config.gid, rdev := 0, flags := 0, blksize := file.blockSize.toUInt32 }

/-! ## In memory -/

/-- The attributes of a node. -/
def attrFromNode (node : FsNode) : Rust FileAttr :=
  match node.fileType with
  | .folder f => attrFromFolder config f
  | .file f => attrFromFile config f

/-- `lookup` in the tree: the child by its name. -/
def lookupMem (m : GrizolFsMem) (parentIno : ℕ) (name : OsStr) : Rust (Except Errno FileAttr) :=
  match name.toStr with
  | none => pure (.error .efault)
  | some name =>
      match m.nodes.get parentIno with
      | none => pure (.error .enoent)
      | some parent => do
          let _ ← Rust.unwrap (m.upgrade parent)
          match m.tree.get (parent.path ++ [name]) with
          | none => pure (.error .enoent)
          | some node => do
              let attr ← attrFromNode config node
              pure (.ok attr)

/-! ## From the lists -/

/-- The name of the directory of a lookup; a folder has none, and an unknown number panics. -/
def parentDir (files : List GrizolFileInfo) (parentIno : ℕ) : Rust String :=
  if parentIno < entriesStart then pure ""
  else do
    let file ← findId (fun f => entryId f.id) parentIno files
    Rust.unwrap (file.map fun f => f.fileInfo.name)

/-- The reply with an attribute that was found, or not. -/
def replyEntry {α : Type} (attr : α → Rust FileAttr) : Option α → Rust (Except Errno FileAttr)
  | none => pure (.error .enoent)
  | some x => do
      let attr ← attr x
      pure (.ok attr)

/-- The folder of a name; the name is a text where it is compared. -/
def findFolder (folders : List GrizolFolder) (name : OsStr) : Rust (Option GrizolFolder) :=
  match folders with
  | [] => pure none
  | _ :: _ => do
      let name ← Rust.unwrap name.toStr
      pure (folders.find? fun f => f.folder.id = name)

/-- The last part of the name of a file is this name. -/
def hasFileName (name : OsStr) (file : GrizolFileInfo) : Bool :=
  match Path.fileName (Path.components file.fileInfo.name) with
  | some f => OsStr.text f = name
  | none => false

/-- `lookup` in the lists: at the root a folder, below it the first file of the relative name. The
folder is not compared. -/
def lookupDb (folders : List GrizolFolder) (files : List GrizolFileInfo) (parentIno : ℕ)
    (name : OsStr) : Rust (Except Errno FileAttr) := do
  if parentIno = fuseRootId then
    let folder ← findFolder folders name
    replyEntry (attrFromFolder config) folder
  else
    let parentDir ← parentDir files parentIno
    replyEntry (attrFromFile config)
      ((files.filter (hasFileName name)).find? (isFileInCurrentDir parentDir))

end

end Grizol.Model

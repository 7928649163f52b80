import Grizol.Model.Lookup

/-!
# Attributes by number

The two implementations of `getattr` in `fuse.rs`, and what `read_mem` looks at before it
reads a file.
-/

set_option autoImplicit false

namespace Grizol.Model

open Grizol.Library
open Grizol.Model.Syncthing

section

variable (config : OwnerConfig)

/-- The attributes of the root. -/
def rootDirAttr : FileAttr where
  ino := fuseRootId
  size := 0
  blocks := 0
  atime := unixEpoch
  mtime := unixEpoch
  ctime := unixEpoch
  crtime := unixEpoch
  kind := .directory
  perm := 0o755
  nlink := 0
  uid := config.uid
  gid := config.gid
  rdev := 0
  flags := 0
  blksize := 512

/-- `getattr` in the tree. -/
def getattrMem (m : GrizolFsMem) (ino : ℕ) : Rust (Except Errno FileAttr) :=
  if ino = fuseRootId then pure (.ok (rootDirAttr config))
  else
    match m.nodes.get ino with
    | none => pure (.error .enoent)
    | some node => do
        let n ← Rust.unwrap (m.upgrade node)
        let attr ← attrFromNode config n
        pure (.ok attr)

/-- `getattr` in the lists. -/
def getattrDb (folders : List GrizolFolder) (files : List GrizolFileInfo) (ino : ℕ) :
    Rust (Except Errno FileAttr) :=
  if ino = fuseRootId then pure (.ok (rootDirAttr config))
  else if ino < entriesStart then do
    let folder ← findId (fun f => topDirId f.id) ino folders
    replyEntry (attrFromFolder config) folder
  else do
    let file ← findId (fun f => entryId f.id) ino files
    replyEntry (attrFromFile config) file

end

/-! ## Before a read -/

/-- The error numbers of a read; `EIO` is for what fails later. -/
inductive ReadErrno where
  | eisdir
  | enoent
  | efbig
  deriving DecidableEq, Repr

/-- The file that `read_mem` goes on to read. -/
def fileToRead (readCacheSize : ℕ) (m : GrizolFsMem) (ino : ℕ) :
    Rust (Except ReadErrno GrizolFileInfo) :=
  if ino < entriesStart then pure (.error .eisdir)
  else
    match m.nodes.get ino with
    | none => pure (.error .enoent)
    | some node => do
        let node ← Rust.unwrap (m.upgrade node)
        match node.fileType with
        | .folder _ => pure (.error .eisdir)
        | .file file => do
            let size ← BepState.u64 file.fileInfo.size
            if readCacheSize < size then pure (.error .efbig)
            else pure (.ok file)

end Grizol.Model

import Grizol.Interface.DirectoryPaging
import Grizol.Model.GetAttr

/-!
# The file system without a tree

What the calls in memory reply with, said without nodes and references: a refresh replaces
what is in the folders it lists, and the numbers of what was there are gone unless it lists
them again. The tree should do the same for every sequence of refreshes.
-/

set_option autoImplicit false

namespace Grizol.Interface

open Grizol.Library
open Grizol.Model Grizol.Model.Syncthing

/-- A row of a refresh: where it is, its inode number, and what it stands for. -/
structure ListedRow where
  path : List String
  ino : ℕ
  fileType : GrizolFSFileType

namespace Refresh

/-- What a refresh lists, folders first: the paths and the inode numbers. -/
def listedRows (r : Refresh) : List ListedRow :=
  (r.folders.map fun f => ⟨[f.folder.id], f.id.toUInt64.toNat + topDirsStart, .folder f⟩) ++
    r.files.map fun f => ⟨GrizolFsMem.splitPath f, f.id.toUInt64.toNat + entriesStart, .file f⟩

/-- The path is in one of the listed folders. -/
def Covers (r : Refresh) (path : List String) : Prop :=
  ∃ f ∈ r.folders, [f.folder.id] <+: path

instance (r : Refresh) (path : List String) : Decidable (r.Covers path) :=
  inferInstanceAs (Decidable (∃ f ∈ r.folders, [f.folder.id] <+: path))

end Refresh

/-- What is known of an inode number. -/
inductive InodeState where
  | unknown
  | gone
  | present (path : List String) (fileType : GrizolFSFileType)

/-- What there is at every path, and what every inode number stands for. -/
@[ext]
structure FsView where
  entry : List String → Option (ℕ × GrizolFSFileType)
  inode : ℕ → InodeState

namespace FsView

/-- The root. -/
def new : FsView where
  entry path := if path = [] then some (fuseRootId, .folder ⟨{}, 1⟩) else none
  inode ino := if ino = fuseRootId then .present [] (.folder ⟨{}, 1⟩) else .unknown

/-- A number that is not listed again. -/
def unlisted (r : Refresh) : InodeState → InodeState
  | .present path fileType => if r.Covers path then .gone else .present path fileType
  | .gone => .gone
  | .unknown => .unknown

/-- A refresh replaces what it covers, and the index of its inode numbers; numbers that it does not
list any more but whose path it covers are gone. -/
def refresh (v : FsView) (r : Refresh) : FsView where
  entry path :=
    if r.Covers path then
      (r.listedRows.find? fun row => row.path = path).map fun row => (row.ino, row.fileType)
    else v.entry path
  inode ino :=
    match r.listedRows.find? fun row => row.ino = ino with
    | some row => .present row.path row.fileType
    | none => unlisted r (v.inode ino)

/-- The view after a sequence of refreshes. -/
def after (refreshes : List Refresh) : FsView := refreshes.foldl refresh new

/-! ## What the calls should reply -/

section Replies

variable (v : FsView) (config : OwnerConfig)

/-- The attributes of a file or folder. -/
def attr : GrizolFSFileType → Rust FileAttr
  | .folder f => attrFromFolder config f
  | .file f => attrFromFile config f

/-- What `getattr` answers on the view. -/
def getattr (ino : ℕ) : Rust (Except Errno FileAttr) :=
  if ino = fuseRootId then pure (.ok (rootDirAttr config))
  else
    match v.inode ino with
    | .unknown => pure (.error .enoent)
    | .gone => throw .unwrap
    | .present _ fileType => Except.ok <$> attr config fileType

/-- What `lookup` answers on the view. -/
def lookup (parent : ℕ) (name : OsStr) : Rust (Except Errno FileAttr) :=
  match name with
  | .other _ => pure (.error .efault)
  | .text name =>
      match v.inode parent with
      | .unknown => pure (.error .enoent)
      | .gone => throw .unwrap
      | .present path _ => replyEntry (fun x => attr config x.2) (v.entry (path ++ [name]))

/-- The kind a listing shows. -/
def kind : GrizolFSFileType → Rust FileType
  | .folder _ => pure .directory
  | .file f => fileType f.fileInfo.type

/-- A listing shows these entries, if what is in the directory has kinds. -/
def Lists (ino : ℕ) (listing : Rust (Except Errno (List DirEntry))) : Prop :=
  match v.inode ino with
  | .unknown => listing = .ok (.error .enoent)
  | .gone => listing = .error .unwrap
  | .present path _ =>
      (∀ name x, v.entry (path ++ [name]) = some x → ∃ k, kind x.2 = .ok k) →
        ∃ entries, listing = .ok (.ok entries) ∧
          ∀ ino k name, (ino, k, name) ∈ entries.map shown ↔
            ∃ t, v.entry (path ++ [name]) = some (ino, t) ∧ kind t = .ok k

/-- The file that a `read` of this inode number is about. -/
def fileToRead (readCacheSize : ℕ) (ino : ℕ) : Rust (Except ReadErrno GrizolFileInfo) :=
  if ino < entriesStart then pure (.error .eisdir)
  else
    match v.inode ino with
    | .unknown => pure (.error .enoent)
    | .gone => throw .unwrap
    | .present _ (.folder _) => pure (.error .eisdir)
    | .present _ (.file file) => do
        let size ← BepState.u64 file.fileInfo.size
        pure (if size ≤ readCacheSize then .ok file else .error .efbig)

end Replies

end FsView

/-- **The tree answers as the view does**, whatever it is asked. -/
structure AnswersAs (config : OwnerConfig) (readCacheSize : ℕ) (m : GrizolFsMem) (v : FsView) :
    Prop where
  getattr : ∀ ino, getattrMem config m ino = v.getattr config ino
  lookup : ∀ parent name, lookupMem config m parent name = v.lookup config parent name
  readdir : ∀ ino, v.Lists ino (readdirMem unbounded m ino 0)
  read : ∀ ino, fileToRead readCacheSize m ino = v.fileToRead readCacheSize ino

/-! ## Walking down a path -/

/-- The walk of the kernel: every name is looked up in what the reply before named. -/
def walk (lookup : ℕ → OsStr → Rust (Except Errno FileAttr)) :
    ℕ → List String → Rust (Except Errno ℕ)
  | ino, [] => pure (.ok ino)
  | ino, name :: names => do
      match ← lookup ino (.text name) with
      | .error e => pure (.error e)
      | .ok attr => walk lookup attr.ino names

/-- **What is listed is found, and nothing else**: by walking down its path, and by its number in
the tree and in the lists. Of a number that is not listed the lists know nothing; the tree does
not either, or panics when the number was listed before. -/
structure ResolvesListed (config : OwnerConfig) (folders : List GrizolFolder)
    (files : List GrizolFileInfo) (earlier : List Refresh) (m : GrizolFsMem) : Prop where
  found : ∀ path ino kind, Located folders files ino path kind →
    walk (lookupMem config m) fuseRootId path = .ok (.ok ino) ∧
      ∃ attr, getattrMem config m ino = .ok (.ok attr) ∧
        getattrDb config folders files ino = .ok (.ok attr) ∧ attr.ino = ino ∧ attr.kind = kind
  missing : ∀ path, (¬ ∃ ino kind, Located folders files ino path kind) →
    walk (lookupMem config m) fuseRootId path = .ok (.error .enoent)
  unlisted : ∀ ino, (¬ ∃ path kind, Located folders files ino path kind) →
    getattrDb config folders files ino = .ok (.error .enoent) ∧
      getattrMem config m ino =
        if ∃ r ∈ earlier, ∃ row ∈ r.listedRows, row.ino = ino then .error .unwrap
        else .ok (.error .enoent)

end Grizol.Interface

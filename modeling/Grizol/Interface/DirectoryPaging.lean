import Grizol.Interface.RefreshedTrees

/-!
# Listing a directory in several calls

The kernel asks for the entries of a directory in parts, each from the offset of the last
entry it got. An offset is a position in an order that comes from a hash map, and a refresh
between two calls may change it.
-/

set_option autoImplicit false

namespace Grizol.Interface

open Grizol.Library
open Grizol.Model Grizol.Model.Syncthing

/-- What the lists say of an inode number: the path it stands for, and its kind. -/
inductive Located (folders : List GrizolFolder) (files : List GrizolFileInfo) :
    ℕ → List String → FileType → Prop
  | root : Located folders files fuseRootId [] .directory
  | folder {f : GrizolFolder} {ino : ℕ} : f ∈ folders → topDirId f.id = .ok ino →
      Located folders files ino [f.folder.id] .directory
  | file {f : GrizolFileInfo} {ino : ℕ} {kind : FileType} : f ∈ files →
      entryId f.id = .ok ino → fileType f.fileInfo.type = .ok kind →
        Located folders files ino (GrizolFsMem.splitPath f) kind

/-- An entry of the directory at a path: number, kind and name of something one part below. -/
def IsChild (folders : List GrizolFolder) (files : List GrizolFileInfo) (path : List String)
    (x : ℕ × FileType × String) : Prop :=
  Located folders files x.1 (path ++ [x.2.2]) x.2.1

/-- The names of what is one part below a path, in the order of the paths. -/
def childNames (path : List String) (paths : List (List String)) : List String :=
  paths.filterMap fun p => if p.dropLast = path then p.getLast? else none

/-- The calls of one listing, from this one on: each begins where the one before ended, and an
empty reply is the last. -/
inductive Session (call : ℕ → ℕ → Rust (Except Errno (List DirEntry))) :
    ℕ → ℕ → List DirEntry → Prop
  | done {k offset : ℕ} : call k offset = .ok (.ok []) → Session call k offset []
  | page {k offset : ℕ} {entries rest : List DirEntry} {last : DirEntry} :
      call k offset = .ok (.ok entries) → entries.getLast? = some last →
        Session call (k + 1) last.offset rest → Session call k offset (entries ++ rest)

/-- **A listing is complete**: whatever the buffers of the calls take, at least one entry each,
the calls end and every child of the directory was listed once. -/
def CompletePaging (folders : List GrizolFolder) (files : List GrizolFileInfo)
    (path : List String)
    (call : (List DirEntry → DirEntry → Bool) → ℕ → ℕ → Rust (Except Errno (List DirEntry))) :
    Prop :=
  ∀ buffers : ℕ → List DirEntry → DirEntry → Bool, (∀ k e, buffers k [] e = false) →
    ∃ entries, Session (fun k => call (buffers k) k) 0 0 entries ∧
      (entries.map shown).Nodup ∧ ∀ x, x ∈ entries.map shown ↔ IsChild folders files path x

/-- **What is needed of the orders**: a call, counted from zero, finds the children from its
number on where the first call found them. -/
def SameOrderOn (path : List String) (paths : ℕ → List (List String)) : Prop :=
  ∀ k, (childNames path (paths k)).drop k = (childNames path (paths 0)).drop k

end Grizol.Interface

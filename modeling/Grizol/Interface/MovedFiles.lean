import Grizol.Interface.FuseRefresh
import Grizol.Interface.NewerFiles
import Grizol.Interface.RefreshedTrees

/-!
# Where a rename leaves the files

A rename should carry the rows of a file, and of all files below it, over to the new path
and leave every other row alone (`FilesMoved`). In memory it works on a tree that is that
of the database, from a directory of one folder to one of the same or another, and the
refresh that follows should show it (`SubtreeMoved`).
-/

set_option autoImplicit false

namespace Grizol.Interface

open Grizol.Library
open Grizol.Model Grizol.Model.Syncthing

/-! ## Rows that move -/

/-- The rows of one file are those of another file before, under a new number: its blocks, with
their status, and its version, too. -/
structure CarriedOver (key dest : FileKey) (db db' : Database) : Prop where
  file : ∃ row sequence, db.bepFileInfo.get key = some row ∧
    db'.bepFileInfo.get dest = some { row with sequence := sequence }
  blocks : ∀ k : BlockKey, k.file = key →
    db'.bepBlockInfo.get { k with file := dest } = db.bepBlockInfo.get k
  versions : ∀ k : VersionKey, k.file = key →
    db'.bepFileVersion.get { k with file := dest } = db.bepFileVersion.get k

/-- **Files have moved**, each from its key to another, and the others are where they were. -/
structure FilesMoved (moves : FileKey → FileKey → Prop) (db db' : Database) : Prop where
  carried : ∀ key dest, moves key dest → CarriedOver key dest db db'
  gone : ∀ key dest, moves key dest → db'.bepFileInfo.contains key = false
  others : ∀ key, (∀ k, ¬ moves key k) → (∀ k, ¬ moves k key) → SameRowsAt key db db'

section Moves

variable {db db₁ db₂ : Database} {key dest : FileKey}

namespace CarriedOver

/-- What was carried over stays if the rows at the destination do. -/
theorem trans_same (h : CarriedOver key dest db db₁) (h' : SameRowsAt dest db₁ db₂) :
    CarriedOver key dest db db₂ where
  file := by
    obtain ⟨row, sequence, hrow, hdest⟩ := h.file
    exact ⟨row, sequence, hrow, h'.file.trans hdest⟩
  blocks k hk := (h'.blocks _ rfl).trans (h.blocks k hk)
  versions k hk := (h'.versions _ rfl).trans (h.versions k hk)

/-- What had not changed before is carried over. -/
theorem same_trans (h : SameRowsAt key db db₁) (h' : CarriedOver key dest db₁ db₂) :
    CarriedOver key dest db db₂ where
  file := by
    obtain ⟨row, sequence, hrow, hdest⟩ := h'.file
    exact ⟨row, sequence, h.file.symm.trans hrow, hdest⟩
  blocks k hk := (h'.blocks k hk).trans (h.blocks k hk)
  versions k hk := (h'.versions k hk).trans (h.versions k hk)

/-- Where a file has moved there is one. -/
theorem contains (h : CarriedOver key dest db db₁) : db₁.bepFileInfo.contains dest = true := by
  obtain ⟨row, sequence, -, hdest⟩ := h.file
  exact AssocMap.contains_iff.mpr ⟨_, hdest⟩

end CarriedOver

/-- A key with the same rows is there or not, as before. -/
theorem SameRowsAt.contains (h : SameRowsAt key db db₁) :
    db₁.bepFileInfo.contains key = db.bepFileInfo.contains key := by
  rw [AssocMap.contains, AssocMap.contains, h.file]

namespace FilesMoved

variable {moves moves' : FileKey → FileKey → Prop}

/-- Where nothing moves, nothing changes. -/
theorem none (db : Database) : FilesMoved (fun _ _ => False) db db :=
  ⟨fun _ _ h => h.elim, fun _ _ h => h.elim, fun key _ _ => .refl key db⟩

/-- The same files move. -/
theorem congr (h : FilesMoved moves db db₁) (hsame : ∀ k d, moves' k d ↔ moves k d) :
    FilesMoved moves' db db₁ where
  carried k d hmoves := h.carried k d ((hsame k d).mp hmoves)
  gone k d hmoves := h.gone k d ((hsame k d).mp hmoves)
  others k hsource hdest := h.others k (fun d hmoves => hsource d ((hsame k d).mpr hmoves))
    fun d hmoves => hdest d ((hsame d k).mpr hmoves)

/-- Files move, and then others that have nothing to do with them. -/
theorem trans (h : FilesMoved moves db db₁) (h' : FilesMoved moves' db₁ db₂)
    (hapart : ∀ k d k' d', moves k d → moves' k' d' → k ≠ k' ∧ k ≠ d' ∧ d ≠ k' ∧ d ≠ d') :
    FilesMoved (fun k d => moves k d ∨ moves' k d) db db₂ where
  carried := by
    rintro k d (hmoves | hmoves)
    · refine (h.carried k d hmoves).trans_same (h'.others d ?_ ?_)
      · exact fun d' hmoves' => (hapart k d d d' hmoves hmoves').2.2.1 rfl
      · exact fun k' hmoves' => (hapart k d k' d hmoves hmoves').2.2.2 rfl
    · refine CarriedOver.same_trans (h.others k ?_ ?_) (h'.carried k d hmoves)
      · exact fun d' hmoves' => (hapart k d' k d hmoves' hmoves).1 rfl
      · exact fun k' hmoves' => (hapart k' k k d hmoves' hmoves).2.2.1 rfl
  gone := by
    rintro k d (hmoves | hmoves)
    · have hsame : SameRowsAt k db₁ db₂ := h'.others k
        (fun d' hmoves' => (hapart k d k d' hmoves hmoves').1 rfl)
        fun k' hmoves' => (hapart k d k' k hmoves hmoves').2.1 rfl
      rw [hsame.contains, h.gone k d hmoves]
    · exact h'.gone k d hmoves
  others k hsource hdest :=
    (h.others k (fun d hmoves => hsource d (Or.inl hmoves))
      fun d hmoves => hdest d (Or.inl hmoves)).trans
    (h'.others k (fun d hmoves => hsource d (Or.inr hmoves))
      fun d hmoves => hdest d (Or.inr hmoves))

end FilesMoved

end Moves

/-- What follows the path of a directory in the path of something below it, or of itself. -/
def Below (rel : String) : Prop := rel = "" ∨ ∃ name, rel = "/" ++ name

/-- The files of a device that should move with a path, and where to. -/
def SubtreeMoves (db : Database) (deviceId : DeviceId) (paths : GrizolFS.RenamePaths)
    (key dest : FileKey) : Prop :=
  db.bepFileInfo.contains key = true ∧ ∃ rel, Below rel ∧
    key = ⟨paths.origFolder, deviceId, paths.origName ++ rel⟩ ∧
      dest = ⟨paths.destFolder, deviceId, paths.destName ++ rel⟩

/-- What a rename is asked to do, in paths. -/
def renamedPaths (request : RenameRequest) (origFolder : String) (origParent : List String)
    (destFolder : String) (destParent : List String) : GrizolFS.RenamePaths :=
  ⟨origFolder, Path.join (origParent ++ [request.origName]), destFolder,
    Path.join (destParent ++ [request.destName])⟩

/-! ## In memory -/

/-- The tree is that of the database. -/
def TreeMatches (db : Database) (deviceId : DeviceId) (m : GrizolFsMem) : Prop :=
  ∃ (bepFolders : BepFolders db.bepIndex) (rowid : FileKey → Int64)
    (folders : List GrizolFolder) (files : List GrizolFileInfo),
    folders.Perm (BepState.topFoldersFuse bepFolders deviceId) ∧
      files.Perm (BepState.filesFuse rowid db deviceId) ∧ TreeOf folders files m

/-- A rename from one directory to another, to a name that is free there. -/
structure RenameIn (m : GrizolFsMem) (request : RenameRequest) (origFolder : String)
    (origParent : List String) (destFolder : String) (destParent : List String) : Prop where
  orig : ∃ node, Reachable m (origFolder :: origParent) node ∧
    node.id = request.origParentDirIno
  dest : ∃ node, Reachable m (destFolder :: destParent) node ∧
    node.id = request.destParentDirIno
  name : '/' ∉ request.destName.toList
  free : ∀ node, ¬ Reachable m (destFolder :: destParent ++ [request.destName]) node

/-- Every copy of the objects of a file ran, and with success. -/
def CopiesToRemote {ν : Type} (fs : GrizolFS ν) (file : GrizolFileInfo) (destName : String)
    (outcomes : RenameOutcomes) : Prop :=
  (copies fs file destName outcomes).length = file.fileLocations.length ∧
    NoCopyFails fs file destName outcomes

/-- A refresh, whatever refreshes there were before, shows the files that moved where they are
now, and not where they were. -/
def ShownMoved (moves : FileKey → FileKey → Prop) (db : Database) (deviceId : DeviceId) : Prop :=
  ∀ (bepFolders : BepFolders db.bepIndex) (rowid : FileKey → Int64)
    (folders : List GrizolFolder) (files : List GrizolFileInfo),
    folders.Perm (BepState.topFoldersFuse bepFolders deviceId) →
      files.Perm (BepState.filesFuse rowid db deviceId) →
        (files.map GrizolFileInfo.id).Nodup →
          ∀ earlier m fuel m', Transition.run afterRefresh .new earlier = some m →
            refreshFoldersFiles fuel folders files m = .ok m' → ∀ key dest, moves key dest →
              (∃ node, ∃ file ∈ files, Reachable m' (keyPath dest) node ∧
                node.fileType = .file file) ∧
                ∀ node, ¬ Reachable m' (keyPath key) node

/-- **The subtree has moved**: its rows have, with all other rows as before, and a refresh ends
and shows it. -/
structure SubtreeMoved (deviceId : DeviceId) (paths : GrizolFS.RenamePaths)
    (db db' : Database) : Prop where
  rows : FilesMoved (SubtreeMoves db deviceId paths) db db'
  ends : RefreshEnds db' deviceId
  shown : ShownMoved (SubtreeMoves db deviceId paths) db' deviceId

end Grizol.Interface

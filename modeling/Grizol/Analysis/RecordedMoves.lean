import Grizol.Analysis.MovedFiles
import Grizol.Analysis.UpdatedRows
import Grizol.Interface.RecordedMoves

/-!
# Where a rename from the lists records a file

The row of the file is written under the new path from what `file_info` reads, which is the
row without the storage status of its blocks; then come a location for every backend there
is, and the deletion of the one old row.
-/

set_option autoImplicit false

namespace Grizol.Analysis

open Grizol.Library
open Grizol.Model Grizol.Model.Syncthing Grizol.Interface

open GrizolFsMem (splitPath)

/-! ## What the request names -/

section Paths

variable {folders : List GrizolFolder} {files : List GrizolFileInfo}

/-- What is found has the number that was asked for. -/
theorem findId_eq_some {α : Type} {id : α → Rust ℕ} {ino : ℕ} {x : α} (l : List α) :
    findId id ino l = .ok (some x) → x ∈ l ∧ id x = .ok ino := by
  induction l with
  | nil =>
      intro h
      cases h
  | cons y l ih =>
      intro h
      obtain ⟨n, hn, h⟩ := Rust.bind_eq_ok.mp h
      split_ifs at h with hsame
      · obtain rfl := Option.some.inj (Except.ok.inj h)
        exact ⟨List.mem_cons_self, by rw [hn, hsame]⟩
      · obtain ⟨hmem, hid⟩ := ih h
        exact ⟨List.mem_cons_of_mem _ hmem, hid⟩

/-- The directory at a path, as `rename_db` has it. -/
theorem parentDirs_of_atPath (hrows : DatabaseRows folders files) {ino : ℕ} {top : String}
    {parent : List String} (hpath : AtPath folders files ino (top :: parent))
    {dirs : GrizolFS.Dirs} (h : GrizolFS.parentDirs ino folders files = .ok (some dirs)) :
    dirs.topFolder = some top ∧ ∀ name,
      (dirs.dir.map (· ++ "/")).getD "" ++ name = Path.join (parent ++ [name]) := by
  rw [GrizolFS.parentDirs] at h
  split_ifs at h with hroot hfolder
  · have hnil := path_of_inode hrows (Or.inr hpath) (Or.inl ⟨rfl, hroot⟩)
    cases hnil
  · obtain ⟨found, hfound, h⟩ := Rust.bind_eq_ok.mp h
    cases found with
    | none => cases Except.ok.inj h
    | some f =>
        obtain rfl := Option.some.inj (Except.ok.inj h)
        obtain ⟨hf, hid⟩ := findId_eq_some folders hfound
        obtain ⟨rfl, rfl⟩ := List.cons.inj
          (path_of_inode hrows (Or.inr hpath) (Or.inr (Or.inl ⟨f, hf, rfl, hid⟩)))
        exact ⟨rfl, fun name => by
          rw [List.nil_append, Path.join_singleton]
          exact String.empty_append⟩
  · obtain ⟨found, hfound, h⟩ := Rust.bind_eq_ok.mp h
    cases found with
    | none => cases Except.ok.inj h
    | some f =>
        obtain rfl := Option.some.inj (Except.ok.inj h)
        obtain ⟨hf, hid⟩ := findId_eq_some files hfound
        obtain ⟨rfl, rfl⟩ := List.cons.inj
          (path_of_inode hrows (Or.inr hpath) (Or.inr (Or.inr ⟨f, hf, rfl, hid⟩)))
        exact ⟨rfl, fun name => by
          rw [Path.join_append (Path.split_ne_nil _) (List.cons_ne_nil _ _), Path.join_split,
            Path.join_singleton]
          rfl⟩

/-- The file that is to be moved has the path that was asked for. -/
theorem orig_of_isOrigFile {dirs : GrizolFS.Dirs} {top : String} {parent : List String}
    (htop : dirs.topFolder = some top)
    (hdir : ∀ name, (dirs.dir.map (· ++ "/")).getD "" ++ name = Path.join (parent ++ [name]))
    {origName : String} {f : GrizolFileInfo} (h : GrizolFS.isOrigFile dirs origName f = true) :
    f.folder = top ∧ f.fileInfo.name = Path.join (parent ++ [origName]) := by
  obtain ⟨topFolder, dir⟩ := dirs
  rw [GrizolFS.isOrigFile, Bool.and_eq_true, Bool.and_eq_true, decide_eq_true_iff] at h
  obtain ⟨⟨hfolder, hname⟩, -⟩ := h
  refine ⟨Option.some.inj (hfolder.symm.trans htop), ?_⟩
  rw [← hdir origName]
  cases dir with
  | none => exact (of_decide_eq_true hname).symm.trans String.empty_append.symm
  | some d => exact (of_decide_eq_true hname).symm

/-- **The paths are those of the request**, and there is a file at the first. -/
theorem renamePaths_eq_ok (hrows : DatabaseRows folders files) {request : RenameRequest}
    {origFolder destFolder : String} {origParent destParent : List String}
    (horig : AtPath folders files request.origParentDirIno (origFolder :: origParent))
    (hdest : AtPath folders files request.destParentDirIno (destFolder :: destParent))
    {paths : GrizolFS.RenamePaths}
    (h : GrizolFS.renamePaths folders files request = .ok (.ok paths)) :
    paths = renamedPaths request origFolder origParent destFolder destParent ∧
      ∃ f ∈ files, f.folder = paths.origFolder ∧ f.fileInfo.name = paths.origName := by
  obtain ⟨origDir, horigDir, h⟩ := Rust.bind_eq_ok.mp h
  obtain ⟨destDir, hdestDir, h⟩ := Rust.bind_eq_ok.mp h
  cases origDir with
  | none => cases Except.ok.inj h
  | some origDir =>
  cases destDir with
  | none => cases Except.ok.inj h
  | some destDir =>
      obtain ⟨horigTop, horigName⟩ := parentDirs_of_atPath hrows horig horigDir
      obtain ⟨hdestTop, hdestName⟩ := parentDirs_of_atPath hrows hdest hdestDir
      dsimp only at h
      cases hfile : files.find? (GrizolFS.isOrigFile origDir request.origName) with
      | none =>
          rw [hfile] at h
          cases Except.ok.inj h
      | some f =>
          rw [hfile] at h
          dsimp only at h
          cases hfolder : folders.find? fun f => destDir.topFolder = some f.folder.id with
          | none =>
              rw [hfolder] at h
              cases Except.ok.inj h
          | some g =>
              rw [hfolder] at h
              obtain rfl := Except.ok.inj (Except.ok.inj h)
              obtain ⟨hfolderOf, hname⟩ := orig_of_isOrigFile horigTop horigName
                (List.find?_some hfile)
              have hdestFolder : destDir.topFolder = some g.folder.id := by
                simpa using List.find?_some hfolder
              refine ⟨?_, f, List.mem_of_find?_eq_some hfile, rfl, rfl⟩
              rw [renamedPaths, hfolderOf, hname, hdestName,
                Option.some.inj (hdestTop.symm.trans hdestFolder)]

end Paths

/-! ## What is written of the file -/

section Written

variable {db tx : Database} {key : FileKey} {destFolder : String} {file : FileInfo} {n : Int64}

/-- The rows of blocks of a file. -/
theorem mem_blockRowsOf_iff {k : BlockKey} {row : BlockRow} :
    (k, row) ∈ db.blockRowsOf key ↔ k.file = key ∧ db.bepBlockInfo.get k = some row := by
  rw [Database.blockRowsOf, List.mem_filter, AssocMap.mem_entries_iff, decide_eq_true_iff,
    and_comm]

/-- And its blocks. -/
theorem mem_blocksOf_iff {block : BlockInfo} : block ∈ db.blocksOf key ↔
    ∃ row, db.bepBlockInfo.get (BepState.blockKey key block) = some row ∧
      row.weakHash = block.weakHash := by
  rw [Database.blocksOf, List.mem_map]
  constructor
  · rintro ⟨⟨k, row⟩, hmem, rfl⟩
    obtain ⟨rfl, hget⟩ := mem_blockRowsOf_iff.mp hmem
    exact ⟨row, hget, rfl⟩
  · rintro ⟨row, hget, hweak⟩
    refine ⟨_, mem_blockRowsOf_iff.mpr ⟨rfl, hget⟩, ?_⟩
    rw [Database.blockInfo, hweak]
    rfl

/-- The blocks of a file differ, as their rows do. -/
theorem blocksOf_distinct (db : Database) (key : FileKey) :
    (db.blocksOf key).Pairwise fun a b => sameBlock a b = false := by
  have hentries : (db.blockRowsOf key).Pairwise fun a b => a.1 ≠ b.1 :=
    (List.pairwise_map.mp db.bepBlockInfo.nodup).sublist List.filter_sublist
  refine List.pairwise_map.mpr (hentries.imp_of_mem ?_)
  rintro ⟨⟨file, offset, size, hash⟩, row⟩ ⟨⟨file', offset', size', hash'⟩, row'⟩ hmem hmem' hne
  obtain ⟨rfl, -⟩ := mem_blockRowsOf_iff.mp hmem
  obtain ⟨rfl, -⟩ := mem_blockRowsOf_iff.mp hmem'
  rw [← Bool.not_eq_true]
  intro hsame
  apply hne
  rw [sameBlock, Bool.and_eq_true, Bool.and_eq_true] at hsame
  obtain ⟨⟨hoffset, hsize⟩, hhash⟩ := hsame
  obtain rfl : offset = offset' := of_decide_eq_true hoffset
  obtain rfl : size = size' := of_decide_eq_true hsize
  obtain rfl : hash = hash' := of_decide_eq_true hhash
  rfl

/-- A block of the file in its new place: it is not stored. -/
theorem get_block_of_rowsOf {dest : FileKey} (h : RowsOf tx dest file)
    (hblocks : file.blocks = db.blocksOf key) {k : BlockKey} (hk : k.file = key) :
    tx.bepBlockInfo.get { k with file := dest } =
      (db.bepBlockInfo.get k).map fun row => { row with storageStatus := .notStored } := by
  obtain ⟨_, offset, size, hash⟩ := k
  subst hk
  refine Option.ext fun row => ?_
  have hnew := h.blocks (⟨dest, offset, size, hash⟩, row)
  rw [mem_blockRowsOf_iff, and_iff_right rfl, hblocks] at hnew
  rw [hnew, Option.map_eq_some_iff]
  constructor
  · rintro ⟨block, hblock, heq⟩
    obtain ⟨hkey, rfl⟩ := Prod.mk.inj heq
    obtain ⟨-, rfl, rfl, rfl⟩ := BlockKey.mk.inj hkey
    obtain ⟨row, hrow, hweak⟩ := mem_blocksOf_iff.mp hblock
    exact ⟨row, hrow, by rw [hweak]⟩
  · rintro ⟨row, hrow, rfl⟩
    exact ⟨⟨offset, size, hash, row.weakHash⟩, mem_blocksOf_iff.mpr ⟨row, hrow, rfl⟩, rfl⟩

/-- A counter of the file in its new place. -/
theorem get_version_of_rowsOf {dest : FileKey} (h : RowsOf tx dest file)
    (hcounters : countersOf file = db.countersOf key) {k : VersionKey} (hk : k.file = key) :
    tx.bepFileVersion.get { k with file := dest } = db.bepFileVersion.get k := by
  obtain ⟨_, id, value⟩ := k
  subst hk
  refine Option.ext fun _ => ?_
  have hnew := h.versions ⟨id, value⟩
  rwa [mem_countersOf_iff, hcounters, mem_countersOf_iff] at hnew

end Written

/-! ## The call -/

section Call

variable {ν : Type} {fs fs' : GrizolFS ν}

/-- One file that was inserted. -/
theorem insertFileInfo_one_eq_ok {s s' : BepState} {folder : String} {deviceId : DeviceId}
    {file : FileInfo} (h : (BepState.insertFileInfo folder deviceId [file]).run s = .ok () s') :
    ∃ n : Int64, BepState.upsertFile folder deviceId { file with sequence := n } s.db =
      .ok s'.db := by
  obtain ⟨_, s₁, hget, h⟩ := RustM.run_bind_eq_ok.mp h
  cases hget
  obtain ⟨files, s₂, hassign, h⟩ := RustM.run_bind_eq_ok.mp h
  obtain ⟨n, s₃, -, hassign⟩ := RustM.run_bind_eq_ok.mp hassign
  obtain ⟨rest, s₄, hrest, hassign⟩ := RustM.run_bind_eq_ok.mp hassign
  cases hrest
  cases hassign
  obtain ⟨tx, s₅, hwrite, h⟩ := RustM.run_bind_eq_ok.mp h
  obtain ⟨hwritten, rfl⟩ := RustM.run_lift_eq_ok.mp hwrite
  obtain ⟨tx₁, hupsert, hrest⟩ := Rust.bind_eq_ok.mp hwritten
  obtain rfl : tx₁ = tx := Except.ok.inj hrest
  cases h
  exact ⟨n, hupsert⟩

/-- A section of a call that returned. -/
theorem fs_onState_eq_ok {α : Type} {x : RustM BepState α} {a : α}
    (h : (GrizolFS.onState x).run fs = .ok a fs') :
    ∃ s', x.run fs.state = .ok a s' ∧ fs' = { fs with state := s' } := by
  rw [fs_onState_run] at h
  cases hrun : x.run fs.state with
  | error e s =>
      rw [hrun] at h
      cases h
  | ok b s =>
      rw [hrun] at h
      cases h
      exact ⟨s, rfl, rfl⟩

/-- The backends of the copies are those there are. -/
theorem backends_of_backendLoop {remoteBaseDir folder name : String} {run : ℕ → CommandOutcome}
    (backends : List String) : ∀ {n : ℕ} {res : List (String × String)},
      GrizolFS.backendLoop remoteBaseDir folder name run n backends = .ok res →
        res.map Prod.fst = backends := by
  induction backends with
  | nil =>
      intro n res h
      obtain rfl := Except.ok.inj h
      rfl
  | cons storageBackend backends ih =>
      intro n res h
      rw [GrizolFS.backendLoop] at h
      cases hrun : run n with
      | notStarted =>
          rw [hrun] at h
          cases h
      | waitFails =>
          rw [hrun] at h
          cases h
      | exits success =>
          rw [hrun] at h
          obtain ⟨rest, hrest, h⟩ := Rust.bind_eq_ok.mp h
          obtain rfl := Except.ok.inj h
          rw [List.map_cons, ih hrest]

/-- **What a rename from the lists writes.** -/
theorem renameDb_eq_ok {paths : GrizolFS.RenamePaths} {outcomes : RenameOutcomes}
    (h : (GrizolFS.renameDb paths.origFolder paths.origName paths.destFolder paths.destName
      outcomes).run fs = .ok () fs') :
    ∃ file n res tx tx', fs.state.fileInfo paths.origFolder fs.config.localDeviceId
        paths.origName = some file ∧
      BepState.upsertFile paths.destFolder fs.config.localDeviceId
        { file with name := paths.destName, sequence := n } fs.state.db = .ok tx ∧
      res.map Prod.fst = fs.storageBackends ∧
      BepState.insertLocations (destKey fs paths) res tx = .ok tx' ∧
      fs'.state.db = tx'.deleteFileInfo fun k => k = pathKey fs paths := by
  obtain ⟨_, fs₀, hget, h⟩ := RustM.run_bind_eq_ok.mp h
  cases hget
  obtain ⟨file, fs₁, hfile, h⟩ := RustM.run_bind_eq_ok.mp h
  obtain ⟨hread, rfl⟩ := RustM.run_lift_eq_ok.mp hfile
  obtain ⟨_, fs₂, hlog, h⟩ := RustM.run_bind_eq_ok.mp h
  cases hlog
  obtain ⟨res, fs₃, hcopied, h⟩ := RustM.run_bind_eq_ok.mp h
  obtain ⟨hres, rfl⟩ := RustM.run_lift_eq_ok.mp hcopied
  obtain ⟨_, fs₄, hinsert, h⟩ := RustM.run_bind_eq_ok.mp h
  obtain ⟨_, fs₅, hlocate, h⟩ := RustM.run_bind_eq_ok.mp h
  obtain ⟨_, fs₆, hremove, h⟩ := RustM.run_bind_eq_ok.mp h
  obtain ⟨_, fs₇, hlog, h⟩ := RustM.run_bind_eq_ok.mp h
  cases hlog
  obtain ⟨_, fs₈, hdeleted, h⟩ := RustM.run_bind_eq_ok.mp h
  obtain ⟨-, rfl⟩ := RustM.run_lift_eq_ok.mp hdeleted
  cases h
  obtain ⟨s₁, hinserted, rfl⟩ := fs_onState_eq_ok hinsert
  obtain ⟨n, hupsert⟩ := insertFileInfo_one_eq_ok hinserted
  obtain ⟨s₂, hlocated, rfl⟩ := fs_onState_eq_ok hlocate
  obtain ⟨_, _, hget, hlocated⟩ := RustM.run_bind_eq_ok.mp hlocated
  cases hget
  obtain ⟨tx, _, hlift, hend⟩ := RustM.run_bind_eq_ok.mp hlocated
  obtain ⟨hlocations, rfl⟩ := RustM.run_lift_eq_ok.mp hlift
  cases hend
  obtain ⟨s₃, hremoved, rfl⟩ := fs_onState_eq_ok hremove
  cases hremoved
  exact ⟨file, n, res, _, tx, Rust.unwrap_eq_ok.mp hread, hupsert,
    backends_of_backendLoop _ hres, hlocations, rfl⟩

end Call

/-! ## What the tables hold then -/

section Tables

variable {db db' : Database} {key dest : FileKey} {storageBackends : List String}

/-- What a rename from the lists leaves: the file is there under its new key, on the backends
there are and with no block stored, and not under the old one. -/
structure WrittenAnew (key dest : FileKey) (storageBackends : List String)
    (db db' : Database) : Prop where
  file : ∃ row sequence, db.bepFileInfo.get key = some row ∧
    db'.bepFileInfo.get dest = some { row with sequence := sequence }
  blocks : ∀ k : BlockKey, k.file = key → db'.bepBlockInfo.get { k with file := dest } =
    (db.bepBlockInfo.get k).map fun row => { row with storageStatus := .notStored }
  versions : ∀ k : VersionKey, k.file = key →
    db'.bepFileVersion.get { k with file := dest } = db.bepFileVersion.get k
  locations : ∀ storageBackend,
    StoredOn db' dest storageBackend ↔ storageBackend ∈ storageBackends
  gone : db'.bepFileInfo.contains key = false
  others : ∀ k, k ≠ key → k ≠ dest → SameRowsAt k db db'

/-- Locations on the backends of the copies. -/
theorem storedOn_of_insertLocations {tx tx' : Database} {locations : List (String × String)}
    (h : BepState.insertLocations dest locations tx = .ok tx')
    (hfile : tx.bepFileInfo.contains dest = true)
    (hnone : ∀ k : LocationKey, tx.bepFileLocation.contains k = true → k.file ≠ dest)
    (storageBackend : String) :
    StoredOn tx' dest storageBackend ↔ storageBackend ∈ locations.map Prod.fst := by
  obtain ⟨tx₁, hinsert, hcontains⟩ := insertLocations_contains locations hfile
  obtain rfl : tx' = tx₁ := Except.ok.inj (h.symm.trans hinsert)
  rw [StoredOn, List.mem_map]
  constructor
  · rintro ⟨location, hlocation⟩
    rcases (hcontains _).mp hlocation with hold | ⟨l, hl, hkey⟩
    · exact absurd rfl (hnone _ hold)
    · exact ⟨l, hl, (LocationKey.mk.inj hkey).2.1.symm⟩
  · rintro ⟨l, hl, rfl⟩
    exact ⟨l.2, (hcontains _).mpr (Or.inr ⟨l, hl, rfl⟩)⟩

/-- Where no file is there is nothing of one. -/
theorem nothingElse_of_absent (h : db.bepFileInfo.get key = none) (file : FileInfo) :
    NothingElse db key file := by
  constructor
  · intro e he
    rw [blockRowsOf_of_absent h] at he
    cases he
  · intro c hc
    rw [countersOf_of_absent h] at hc
    cases hc

/-- **A rename from the lists writes the file anew.** -/
theorem writtenAnew_of_renameDb {ν : Type} {fs fs' : GrizolFS ν} {paths : GrizolFS.RenamePaths}
    {outcomes : RenameOutcomes}
    (h : (GrizolFS.renameDb paths.origFolder paths.origName paths.destFolder paths.destName
      outcomes).run fs = .ok () fs')
    (hfree : fs.state.db.bepFileInfo.contains (destKey fs paths) = false) :
    WrittenAnew (pathKey fs paths) (destKey fs paths) fs.storageBackends fs.state.db
      fs'.state.db := by
  obtain ⟨file, n, res, tx, tx', hread, hupsert, hbackends, hlocations, hdb⟩ :=
    renameDb_eq_ok h
  obtain ⟨row, hrow, rfl⟩ := Option.map_eq_some_iff.mp hread
  have hne : destKey fs paths ≠ pathKey fs paths := by
    intro heq
    rw [heq, AssocMap.contains_eq_false_iff] at hfree
    exact Option.some_ne_none row (hrow.symm.trans hfree)
  have habsent := AssocMap.contains_eq_false_iff.mp hfree
  have hwritten : RowsOf tx (destKey fs paths) _ :=
    (upsertFile_rowsOf (blocksOf_distinct _ _) hupsert).mpr
      (nothingElse_of_absent habsent _)
  have hlocated := relocated_insertLocations res hlocations
  have hdeleted : SameRowsAt (destKey fs paths) tx' fs'.state.db := by
    rw [hdb]
    exact sameRowsAt_deleteFileInfo (decide_eq_false hne)
  have hfiles := upsertFile_files hupsert
  refine ⟨⟨row, n, hrow, ?_⟩, ?_, ?_, ?_, ?_, ?_⟩
  · rw [hdeleted.file, hlocated.files, hfiles]
    exact AssocMap.get_insert_self _ _ _
  · intro k hk
    rw [hdeleted.blocks _ rfl, hlocated.blocks]
    exact get_block_of_rowsOf hwritten rfl hk
  · intro k hk
    rw [hdeleted.versions _ rfl, hlocated.versions]
    exact get_version_of_rowsOf hwritten rfl hk
  · intro storageBackend
    have hsame : StoredOn fs'.state.db (destKey fs paths) storageBackend ↔
        StoredOn tx' (destKey fs paths) storageBackend := by
      refine exists_congr fun location => ?_
      rw [AssocMap.contains, AssocMap.contains, hdeleted.locations _ rfl]
    rw [hsame, ← hbackends]
    refine storedOn_of_insertLocations hlocations ?_ ?_ storageBackend
    · rw [hfiles]
      exact AssocMap.contains_iff.mpr ⟨_, AssocMap.get_insert_self _ _ _⟩
    · intro k hk
      rw [(upsertFile_sideTables hupsert).locations] at hk
      obtain ⟨v, hv⟩ := AssocMap.contains_iff.mp hk
      exact ne_of_refers fs.state.db.locationOfFile hfree hv
  · rw [hdb, AssocMap.contains]
    show ((tx'.bepFileInfo.retain _).get _).isSome = false
    rw [AssocMap.get_retain]
    cases tx'.bepFileInfo.get (pathKey fs paths) <;> simp [pathKey]
  · intro k hkey hdest
    have hinserted : SameRowsAt k fs.state.db tx := sameRowsAt_upsertFile hdest hupsert
    refine (hinserted.trans (hlocated.sameRowsAt hdest)).trans ?_
    rw [hdb]
    exact sameRowsAt_deleteFileInfo (decide_eq_false hkey)

/-- A block that moved without its status had none. -/
theorem status_of_carried (h : WrittenAnew key dest storageBackends db db') {k : BlockKey}
    (hk : k.file = key) {row : BlockRow} (hrow : db.bepBlockInfo.get k = some row) :
    db'.bepBlockInfo.get { k with file := dest } = db.bepBlockInfo.get k ↔
      row.storageStatus = .notStored := by
  rw [h.blocks k hk, hrow, Option.map_some, Option.some_inj]
  obtain ⟨weakHash, storageStatus⟩ := row
  rw [BlockRow.mk.injEq, and_iff_right rfl]
  exact eq_comm

/-- **Exactly an entry that can move as it is** is recorded at its new path with all that is
below it. -/
theorem subtreeRecorded_iff_of_writtenAnew {ν : Type} {fs : GrizolFS ν}
    {paths : GrizolFS.RenamePaths}
    (h : WrittenAnew (pathKey fs paths) (destKey fs paths) fs.storageBackends fs.state.db db')
    (hfree : fs.state.db.bepFileInfo.contains (destKey fs paths) = false) :
    SubtreeRecorded fs.config.localDeviceId paths fs.state.db db' ↔ MovesAsItIs fs paths := by
  obtain ⟨row, sequence, hrow, hdest⟩ := h.file
  have hmoves : SubtreeMoves fs.state.db fs.config.localDeviceId paths (pathKey fs paths)
      (destKey fs paths) := by
    refine ⟨AssocMap.contains_iff.mpr ⟨row, hrow⟩, "", Or.inl rfl, ?_, ?_⟩
    · rw [String.append_empty, pathKey]
    · rw [String.append_empty, destKey]
  -- What is below the path is another row, unless it is the one that was written.
  have hbelow : ∀ rel, rel ≠ "" → ⟨paths.origFolder, fs.config.localDeviceId,
      paths.origName ++ rel⟩ ≠ destKey fs paths →
        db'.bepFileInfo.contains ⟨paths.origFolder, fs.config.localDeviceId,
          paths.origName ++ rel⟩ = fs.state.db.bepFileInfo.contains ⟨paths.origFolder,
            fs.config.localDeviceId, paths.origName ++ rel⟩ := by
    intro rel hrel hne
    refine (h.others _ ?_ hne).contains
    intro heq
    have hname : paths.origName ++ rel = paths.origName ++ "" :=
      (FileKey.mk.inj heq).2.2.trans String.append_empty.symm
    exact hrel ((String.append_right_inj _).mp hname)
  constructor
  · intro hrecorded
    constructor
    · intro rel hrel hcontains
      by_contra hne
      have hgone := hrecorded.nothing rel hrel
      rw [hbelow rel hne, hcontains] at hgone
      · cases hgone
      · intro heq
        rw [heq, hfree] at hcontains
        cases hcontains
    · intro k block hk hblock
      exact (status_of_carried h hk hblock).mp
        ((hrecorded.rows.carried _ _ hmoves).blocks k hk)
    · intro storageBackend hremote
      rw [← h.locations]
      exact hrecorded.backends _ _ hmoves storageBackend hremote
    · rintro hfolder ⟨rel, hrel, hname⟩
      have hgone := hrecorded.nothing rel hrel
      rw [← hfolder, ← hname, ← destKey, (hrecorded.rows.carried _ _ hmoves).contains] at hgone
      cases hgone
  · intro has
    have hsingle : ∀ k d, SubtreeMoves fs.state.db fs.config.localDeviceId paths k d ↔
        k = pathKey fs paths ∧ d = destKey fs paths := by
      intro k d
      constructor
      · rintro ⟨hcontains, rel, hrel, rfl, rfl⟩
        obtain rfl := has.alone rel hrel hcontains
        exact ⟨by rw [String.append_empty, pathKey], by rw [String.append_empty, destKey]⟩
      · rintro ⟨rfl, rfl⟩
        exact hmoves
    refine ⟨FilesMoved.congr ⟨?_, ?_, ?_⟩ hsingle, ?_, ?_⟩
    · rintro k d ⟨rfl, rfl⟩
      refine ⟨h.file, ?_, h.versions⟩
      intro k hk
      cases hblock : fs.state.db.bepBlockInfo.get k with
      | none => rw [h.blocks k hk, hblock, Option.map_none]
      | some block =>
          rw [← hblock]
          exact (status_of_carried h hk hblock).mpr (has.unstored k block hk hblock)
    · rintro k d ⟨rfl, rfl⟩
      exact h.gone
    · intro k hsource hdestOf
      exact h.others k (fun hk => hsource _ ⟨hk, rfl⟩) fun hk => hdestOf _ ⟨rfl, hk⟩
    · intro k d hkd storageBackend hremote
      obtain ⟨rfl, rfl⟩ := (hsingle k d).mp hkd
      rw [h.locations]
      exact has.backends storageBackend hremote
    · intro rel hrel
      by_cases hne : rel = ""
      · rw [hne, String.append_empty]
        exact h.gone
      · rw [hbelow rel hne, ← Bool.not_eq_true]
        · exact fun hcontains => hne (has.alone rel hrel hcontains)
        · intro heq
          obtain ⟨hfolder, -, hname⟩ := FileKey.mk.inj heq
          exact has.apart hfolder.symm ⟨rel, hrel, hname.symm⟩

end Tables

/-! ## The rename -/

section Rename

variable {ν : Type} {fs fs' : GrizolFS ν}

/-- **A rename from the lists** records what it moves at the new path exactly when that is an
entry with nothing below it and no stored block, on all the backends there are and no others,
that does not go below itself. -/
theorem subtreeRecorded_iff {folders : List GrizolFolder} {files : List GrizolFileInfo}
    {request : RenameRequest} {origFolder destFolder : String}
    {origParent destParent : List String} {outcomes : RenameOutcomes}
    (hlists : ListsMatch fs.state.db fs.config.localDeviceId folders files)
    (hfrom : RenameFrom fs.state.db fs.config.localDeviceId folders files request origFolder
      origParent destFolder destParent)
    (hok : (GrizolFS.renameDbCall folders files request outcomes).run fs = .ok (.ok ()) fs') :
    SubtreeRecorded fs.config.localDeviceId
        (renamedPaths request origFolder origParent destFolder destParent) fs.state.db
        fs'.state.db ↔
      MovesAsItIs fs (renamedPaths request origFolder origParent destFolder destParent) := by
  obtain ⟨bepFolders, hfolders⟩ := hlists.folderRows
  obtain ⟨rowid, hfiles⟩ := hlists.fileRows
  have hrows := databaseRows_of_queries hfolders hfiles hlists.rowIds
  obtain ⟨found, fs₁, hpaths, hcall⟩ := RustM.run_bind_eq_ok.mp hok
  obtain ⟨hfound, rfl⟩ := RustM.run_lift_eq_ok.mp hpaths
  cases found with
  | error e => cases hcall
  | ok paths =>
      obtain ⟨rfl, -⟩ := renamePaths_eq_ok hrows hfrom.orig hfrom.dest hfound
      obtain ⟨_, fs₂, hrename, hend⟩ := RustM.run_bind_eq_ok.mp hcall
      cases hend
      exact subtreeRecorded_iff_of_writtenAnew (writtenAnew_of_renameDb hrename hfrom.free)
        hfrom.free

end Rename

section Example

/-- The lists match the database. -/
theorem listsMatch_folderPair :
    ListsMatch twoFolderNode.state.db thisDevice folderPair twoFolderFiles :=
  ⟨folderRows_folderPair, ⟨_, List.Perm.refl _⟩, by decide +kernel⟩

/-- A folder is at its id. -/
theorem atPath_folderPair {folder : GrizolFolder} (hfolder : folder ∈ folderPair) {ino : ℕ}
    (hino : topDirId folder.id = .ok ino) :
    AtPath folderPair twoFolderFiles ino [folder.folder.id] :=
  Or.inl ⟨folder, hfolder, rfl, hino⟩

/-- The directory goes to the other folder, and the file in it stays behind. -/
theorem left_below_directory :
    ListsMatch twoFolderNode.state.db thisDevice folderPair twoFolderFiles ∧
      RenameFrom twoFolderNode.state.db thisDevice folderPair twoFolderFiles (moveDirectory 12)
        "default" [] "other" [] ∧
      ∃ fs', (GrizolFS.renameDbCall folderPair twoFolderFiles (moveDirectory 12)
          everyCommandSucceeds).run twoFolderNode = .ok (.ok ()) fs' ∧
        fs'.state.db.bepFileInfo.keys.map keyPath = [["default", "d", "f"], ["other", "e"]] ∧
        ¬ SubtreeRecorded thisDevice ⟨"default", "d", "other", "e"⟩ twoFolderNode.state.db
          fs'.state.db := by
  refine ⟨listsMatch_folderPair,
    ⟨@atPath_folderPair ⟨{ id := "default" }, 1⟩ (by decide) 11 (by decide),
      @atPath_folderPair ⟨{ id := "other" }, 2⟩ (by decide) 12 (by decide), by decide +kernel⟩, ?_⟩
  have hrun : (RustM.returned ((GrizolFS.renameDbCall folderPair twoFolderFiles
      (moveDirectory 12) everyCommandSucceeds).run twoFolderNode)).map (fun r =>
        (r.1, r.2.state.db.bepFileInfo.keys.map keyPath,
          r.2.state.db.bepFileInfo.contains ⟨"default", thisDevice, "d/f"⟩)) =
      some (.ok (), [["default", "d", "f"], ["other", "e"]], true) := by decide +kernel
  obtain ⟨⟨reply, fs'⟩, hreturned, hafter⟩ := Option.map_eq_some_iff.mp hrun
  obtain ⟨rfl, hkeys, hleft⟩ : reply = .ok () ∧ _ ∧ _ := by
    simpa only [Prod.mk.injEq] using hafter
  refine ⟨fs', RustM.returned_eq_some.mp hreturned, hkeys, fun hrecorded => ?_⟩
  have hnothing := hrecorded.nothing ("/" ++ "f") (Or.inr ⟨"f", rfl⟩)
  exact Bool.eq_false_iff.mp hnothing hleft

/-- The file of the directory goes to a name in the other folder. -/
def moveFileOut : RenameRequest := ⟨4294967297, "f", 12, "g"⟩

/-- The file of the directory moves as it is. -/
theorem movesAsItIs_file :
    MovesAsItIs twoFolderNode (renamedPaths moveFileOut "default" ["d"] "other" []) where
  alone := by
    have hkeys : ∀ k ∈ twoFolderNode.state.db.bepFileInfo.keys, k.name = "d" ∨ k.name = "d/f" := by
      decide +kernel
    intro rel _ hcontains
    obtain ⟨row, hrow⟩ := AssocMap.contains_iff.mp hcontains
    rcases hkeys _ (AssocMap.mem_keys_iff.mpr ⟨row, hrow⟩) with hname | hname
    · have hlength := congrArg (fun name => name.toList.length) hname
      simp [renamedPaths, moveFileOut, Path.join, Separated.join] at hlength
    · exact (String.append_right_inj _).mp (hname.trans (by decide : "d/f" = "d/f" ++ ""))
  unstored := by
    have hblocks : ∀ e ∈ twoFolderNode.state.db.bepBlockInfo.entries,
        e.2.storageStatus = .notStored := by decide +kernel
    intro k row _ hrow
    exact hblocks (k, row) (AssocMap.mem_entries_iff.mpr hrow)
  backends := by
    have hlocations : ∀ k ∈ twoFolderNode.state.db.bepFileLocation.keys,
        k.storageBackend ∈ twoFolderNode.storageBackends := by decide +kernel
    intro storageBackend _
    constructor
    · intro hmem
      obtain rfl := List.mem_singleton.mp hmem
      exact ⟨objectPath "d/f", by decide +kernel⟩
    · rintro ⟨location, hlocation⟩
      obtain ⟨v, hv⟩ := AssocMap.contains_iff.mp hlocation
      exact hlocations _ (AssocMap.mem_keys_iff.mpr ⟨v, hv⟩)
  apart := by
    intro hfolder
    exact absurd hfolder (by decide)

/-- Witness: the file of the directory moves as it is. -/
theorem subtreeRecorded_iff_file :
    ∃ fs', (GrizolFS.renameDbCall folderPair twoFolderFiles moveFileOut
        everyCommandSucceeds).run twoFolderNode = .ok (.ok ()) fs' ∧
      SubtreeRecorded thisDevice (renamedPaths moveFileOut "default" ["d"] "other" [])
        twoFolderNode.state.db fs'.state.db := by
  have hrun : (RustM.returned ((GrizolFS.renameDbCall folderPair twoFolderFiles moveFileOut
      everyCommandSucceeds).run twoFolderNode)).map Prod.fst = some (.ok ()) := by
    decide +kernel
  obtain ⟨⟨reply, fs'⟩, hreturned, rfl⟩ := Option.map_eq_some_iff.mp hrun
  have hok := RustM.returned_eq_some.mp hreturned
  have horig : AtPath folderPair twoFolderFiles moveFileOut.origParentDirIno ["default", "d"] := by
    refine Or.inr ?_
    decide +kernel
  exact ⟨fs', hok, (subtreeRecorded_iff listsMatch_folderPair
    ⟨horig, @atPath_folderPair ⟨{ id := "other" }, 2⟩ (by decide) 12 (by decide),
      by decide +kernel⟩ hok).mpr movesAsItIs_file⟩

end Example

end Grizol.Analysis

import Grizol.Interface.StoredFiles

/-!
# The statements of the state on the stored files

Each writer of `BepState` that goes through acts on the tables as its counterpart on
the stored files does, and the queries of `index` and `file_info` read these.
-/

set_option autoImplicit false

namespace Grizol.Analysis

open Grizol.Library
open Grizol.Model Grizol.Model.Syncthing Grizol.Interface

/-! ## Single statements -/

section Statements

variable {db db' : Database}

/-- Two databases with the same row, counters and blocks at a key hold the same file there. -/
theorem stored_congr {key : FileKey} (hrow : db'.bepFileInfo.get key = db.bepFileInfo.get key)
    (hcounters : db'.countersOf key = db.countersOf key)
    (hblocks : db'.blocksOf key = db.blocksOf key) : stored db' key = stored db key := by
  simp only [stored, hrow, hcounters, hblocks]

/-- Deleting takes the files away that meet the condition. -/
theorem stored_deleteFileInfo (p : FileKey → Bool) (key : FileKey) :
    stored (db.deleteFileInfo p) key = if p key = true then none else stored db key := by
  split_ifs with hp
  · simp [stored, Database.deleteFileInfo, AssocMap.get_retain, hp]
  · apply stored_congr
    · rw [Database.deleteFileInfo, AssocMap.get_retain]
      cases db.bepFileInfo.get key <;> simp [hp]
    · simp only [Database.countersOf, Database.deleteFileInfo]
      rw [AssocMap.filter_retain _ _ (fun k : VersionKey => decide (k.file = key))]
      intro k _ hk
      obtain rfl := of_decide_eq_true hk
      simpa using hp
    · simp only [Database.blocksOf, Database.blockRowsOf, Database.deleteFileInfo]
      rw [AssocMap.filter_retain _ _ (fun k : BlockKey => decide (k.file = key))]
      intro k _ hk
      obtain rfl := of_decide_eq_true hk
      simpa using hp

/-- The tables besides `bep_file_info` after its statement. -/
theorem insertFileInfo_eq_ok {key : FileKey} {row : FileRow}
    (h : db.insertFileInfo key row = .ok db') :
    db'.bepFileInfo = db.bepFileInfo.insert key row ∧ db'.bepBlockInfo = db.bepBlockInfo ∧
      db'.bepFileVersion = db.bepFileVersion := by
  unfold Database.insertFileInfo at h
  split_ifs at h
  obtain rfl := Except.ok.inj h
  exact ⟨rfl, rfl, rfl⟩

/-- Added counters are those of both lists. -/
theorem mem_addCounters {counters added : List Counter} {c : Counter} :
    c ∈ addCounters counters added ↔ c ∈ counters ∨ c ∈ added := by
  induction added generalizing counters with
  | nil => simp [addCounters]
  | cons c' added ih =>
      have hstep : addCounters counters (c' :: added) =
          addCounters (addCounter counters c') added := rfl
      rw [hstep, ih, addCounter]
      split_ifs with hmem
      · rw [List.mem_cons]
        constructor
        · rintro (h | h)
          · exact Or.inl h
          · exact Or.inr (Or.inr h)
        · rintro (h | rfl | h)
          · exact Or.inl h
          · exact Or.inl hmem
          · exact Or.inr h
      · simp only [List.mem_orderedInsert, List.mem_cons]
        tauto

/-- Counters are in the order of their key. -/
theorem counterLE_iff {a b : Counter} : Database.CounterLE a b ↔ a.id.toNat < b.id.toNat ∨
    a.id.toNat = b.id.toNat ∧ a.value.toNat ≤ b.value.toNat := by
  rw [Database.CounterLE, UInt64.lt_iff_toNat_lt, ← UInt64.toNat_inj, UInt64.le_iff_toNat_le]

instance : Std.Total Database.CounterLE where
  total a b := by
    rw [counterLE_iff, counterLE_iff]
    omega

instance : IsTrans Counter Database.CounterLE where
  trans a b c := by
    rw [counterLE_iff, counterLE_iff, counterLE_iff]
    omega

instance : Std.Antisymm Database.CounterLE where
  antisymm a b := by
    rw [counterLE_iff, counterLE_iff]
    intro hab hba
    have hid : a.id = b.id := UInt64.toNat_inj.mp (by omega)
    have hvalue : a.value = b.value := UInt64.toNat_inj.mp (by omega)
    cases a
    cases b
    rw [Counter.mk.injEq]
    exact ⟨hid, hvalue⟩

/-- A counter that comes last is put in its place. -/
theorem insertionSort_concat (counters : List Counter) (counter : Counter) :
    (counters ++ [counter]).insertionSort Database.CounterLE =
      (counters.insertionSort Database.CounterLE).orderedInsert Database.CounterLE counter := by
  refine List.Perm.eq_of_pairwise' (List.pairwise_insertionSort Database.CounterLE _)
    ((List.pairwise_insertionSort Database.CounterLE _).orderedInsert _ _) ?_
  refine (List.perm_insertionSort _ _).trans (List.perm_append_comm.trans ?_)
  exact ((List.perm_insertionSort _ counters).symm.cons counter).trans
    (List.perm_orderedInsert _ _ _).symm

/-- The counters of a file are the rows of its key. -/
theorem mem_countersOf_iff {key : FileKey} {counter : Counter} : counter ∈ db.countersOf key ↔
    db.bepFileVersion.get ⟨key, counter.id, counter.value⟩ = some () := by
  rw [Database.countersOf, List.mem_insertionSort, List.mem_map]
  constructor
  · rintro ⟨⟨k, row⟩, hmem, rfl⟩
    obtain ⟨hget, hfile⟩ := List.mem_filter.mp hmem
    obtain rfl := of_decide_eq_true hfile
    exact AssocMap.mem_entries_iff.mp hget
  · intro hget
    exact ⟨_, List.mem_filter.mpr ⟨AssocMap.mem_entries_iff.mpr hget, decide_eq_true rfl⟩, rfl⟩

/-- A counter that is inserted is put into the order, unless it is there. -/
theorem countersOf_insertVersion {key : VersionKey} (h : db.insertVersion key = .ok db')
    (file : FileKey) :
    db'.countersOf file = if file = key.file
      then addCounter (db.countersOf file) ⟨key.id, key.value⟩ else db.countersOf file := by
  unfold Database.insertVersion at h
  split_ifs at h
  obtain rfl := Except.ok.inj h
  have hmem : db.bepFileVersion.contains key = true ↔
      (⟨key.id, key.value⟩ : Counter) ∈ db.countersOf key.file := by
    rw [AssocMap.contains_iff, mem_countersOf_iff]
    exact ⟨fun ⟨_, hrow⟩ => hrow, fun hrow => ⟨(), hrow⟩⟩
  have hlist : ∀ rows : AssocMap VersionKey Unit, rows = (db.bepFileVersion.entryOrInsert key ()).1 →
      ((rows.entries.filter fun e => e.1.file = file).map fun e : VersionKey × Unit =>
          ({ id := e.1.id, value := e.1.value } : Counter)) =
        ((db.bepFileVersion.entries.filter fun e => e.1.file = file).map fun e =>
          { id := e.1.id, value := e.1.value }) ++
          if db.bepFileVersion.contains key = false ∧ key.file = file
            then [⟨key.id, key.value⟩] else [] := by
    rintro _ rfl
    rw [AssocMap.filter_entryOrInsert _ _ _ (fun k : VersionKey => decide (k.file = file)),
      List.map_append]
    simp only [decide_eq_true_eq]
    split_ifs <;> rfl
  refine (congrArg (List.insertionSort Database.CounterLE) (hlist _ rfl)).trans ?_
  by_cases hfile : file = key.file
  · subst hfile
    rw [if_pos rfl, addCounter]
    by_cases hcontains : db.bepFileVersion.contains key = true
    · rw [if_pos (hmem.mp hcontains), if_neg (by simp [hcontains]), List.append_nil,
        Database.countersOf]
    · rw [if_neg (fun hin => hcontains (hmem.mpr hin)), if_pos (by simp [hcontains]),
        insertionSort_concat, Database.countersOf]
  · rw [if_neg hfile, if_neg (fun h => hfile h.2.symm), List.append_nil, Database.countersOf]

/-- The tables of files and blocks after a statement for a version. -/
theorem insertVersion_tables {key : VersionKey} (h : db.insertVersion key = .ok db') :
    db'.bepFileInfo = db.bepFileInfo ∧ db'.bepBlockInfo = db.bepBlockInfo := by
  unfold Database.insertVersion at h
  split_ifs at h
  obtain rfl := Except.ok.inj h
  exact ⟨rfl, rfl⟩

/-- The tables of files and versions after a statement for a block. -/
theorem insertBlock_tables {key : BlockKey} {row : BlockRow}
    (h : db.insertBlock key row = .ok db') :
    db'.bepFileInfo = db.bepFileInfo ∧ db'.bepFileVersion = db.bepFileVersion := by
  unfold Database.insertBlock at h
  split_ifs at h
  obtain rfl := Except.ok.inj h
  exact ⟨rfl, rfl⟩

/-- A block that is not there yet becomes the last row of its file. -/
theorem blockRowsOf_insertBlock {key : BlockKey} {row : BlockRow}
    (h : db.insertBlock key row = .ok db') (file : FileKey) :
    db'.blockRowsOf file = db.blockRowsOf file ++
      if db.bepBlockInfo.contains key = false ∧ key.file = file then [(key, row)] else [] := by
  unfold Database.insertBlock at h
  split_ifs at h
  obtain rfl := Except.ok.inj h
  have hrows := AssocMap.filter_entryOrInsert db.bepBlockInfo key row
    (fun k : BlockKey => decide (k.file = file))
  simp only [decide_eq_true_eq] at hrows
  exact hrows

/-- A block has a row when one of the blocks of its file is the same. -/
theorem contains_blockKey_iff {key : FileKey} {block : BlockInfo} :
    db.bepBlockInfo.contains (BepState.blockKey key block) = true ↔
      (db.blocksOf key).any (sameBlock block) = true := by
  rw [AssocMap.contains_iff]
  simp only [Database.blocksOf, Database.blockRowsOf, List.any_eq_true, List.mem_map,
    List.mem_filter, Prod.exists, AssocMap.mem_entries_iff, decide_eq_true_eq, sameBlock,
    Bool.and_eq_true]
  constructor
  · rintro ⟨v, hv⟩
    exact ⟨_, ⟨BepState.blockKey key block, v, ⟨hv, rfl⟩, rfl⟩, ⟨rfl, rfl⟩, rfl⟩
  · rintro ⟨_, ⟨⟨file', offset, size, hash⟩, v, ⟨hv, rfl⟩, rfl⟩, ⟨hoffset, hsize⟩, hhash⟩
    refine ⟨v, ?_⟩
    simp only [Database.blockInfo] at hoffset hsize hhash
    rw [BepState.blockKey, hoffset, hsize, hhash]
    exact hv

/-- A block is added to the blocks of its file. -/
theorem blocksOf_insertBlock {key : FileKey} {block : BlockInfo} {status : StorageStatus}
    (h : db.insertBlock (BepState.blockKey key block) ⟨block.weakHash, status⟩ = .ok db')
    (file : FileKey) :
    db'.blocksOf file = if file = key then addBlock (db.blocksOf file) block
      else db.blocksOf file := by
  rw [Database.blocksOf, blockRowsOf_insertBlock h, List.map_append]
  by_cases hfile : file = key
  · subst hfile
    rw [if_pos rfl, addBlock]
    by_cases hcontains : db.bepBlockInfo.contains (BepState.blockKey file block) = true
    · rw [if_pos (contains_blockKey_iff.mp hcontains), if_neg (by simp [hcontains]),
        List.map_nil, List.append_nil, Database.blocksOf]
    · rw [if_neg (fun hin => hcontains (contains_blockKey_iff.mpr hin)),
        if_pos ⟨by simpa using hcontains, rfl⟩]
      rfl
  · rw [if_neg hfile, if_neg (fun h => hfile h.2.symm), List.map_nil, List.append_nil,
      Database.blocksOf]

/-- A file that is not there has no counters, for its rows would refer to it. -/
theorem countersOf_of_absent {key : FileKey} (h : db.bepFileInfo.get key = none) :
    db.countersOf key = [] := by
  refine List.eq_nil_iff_forall_not_mem.mpr fun counter hcounter => ?_
  have hfile := db.versionOfFile _ _ (mem_countersOf_iff.mp hcounter)
  simp [AssocMap.contains, h] at hfile

/-- Nor has it blocks. -/
theorem blockRowsOf_of_absent {key : FileKey} (h : db.bepFileInfo.get key = none) :
    db.blockRowsOf key = [] := by
  simp only [Database.blockRowsOf, List.filter_eq_nil_iff, decide_eq_true_eq]
  rintro ⟨k, v⟩ hmem rfl
  have hfile := db.blockOfFile k v (AssocMap.mem_entries_iff.mp hmem)
  simp [AssocMap.contains, h] at hfile

/-- The counters of a stored file are its rows. -/
theorem countersOf_stored (key : FileKey) :
    ((stored db key).map Interface.countersOf).getD [] = db.countersOf key := by
  cases hrow : db.bepFileInfo.get key with
  | none => simp [stored, hrow, countersOf_of_absent hrow]
  | some row => simp [stored, hrow, Interface.countersOf, FileRow.toFileInfo]

/-- So are its blocks. -/
theorem blocks_stored (key : FileKey) :
    ((stored db key).map FileInfo.blocks).getD [] = db.blocksOf key := by
  cases hrow : db.bepFileInfo.get key with
  | none => simp [stored, hrow, Database.blocksOf, blockRowsOf_of_absent hrow]
  | some row => simp [stored, hrow, FileRow.toFileInfo]

/-- The one statement does what a statement for each block does, where it does not fail. -/
theorem insertBlocks_of_insertNewBlocks {key : FileKey} {blocks : List BlockInfo}
    (h : BepState.insertNewBlocks key blocks db = .ok db') :
    BepState.insertBlocks key blocks db = .ok db' := by
  induction blocks generalizing db with
  | nil => exact h
  | cons block blocks ih =>
      obtain ⟨db₁, hinsert, hrest⟩ := Rust.bind_eq_ok.mp h
      unfold Database.insertNewBlock at hinsert
      split_ifs at hinsert
      exact Rust.bind_eq_ok.mpr ⟨db₁, hinsert, ih hrest⟩

end Statements

/-! ## What all statements of a writer do -/

section Relations

variable (R : Database → Database → Prop) (hrefl : ∀ tx, R tx tx)
  (htrans : ∀ {tx tx' tx''}, R tx tx' → R tx' tx'' → R tx tx'') {key : FileKey}
  {tx tx' : Database}

include hrefl htrans

/-- Writing counters is writing each. -/
theorem insertVersions_rel
    (hversion : ∀ id value tx tx', tx.insertVersion ⟨key, id, value⟩ = .ok tx' → R tx tx')
    {counters : List Counter} (h : BepState.insertVersions key counters tx = .ok tx') :
    R tx tx' := by
  induction counters generalizing tx with
  | nil =>
      obtain rfl := Except.ok.inj h
      exact hrefl tx
  | cons counter counters ih =>
      rw [BepState.insertVersions, Rust.bind_eq_ok] at h
      obtain ⟨-, -, h⟩ := h
      obtain ⟨tx₁, hinsert, hrest⟩ := Rust.bind_eq_ok.mp h
      exact htrans (hversion _ _ tx tx₁ hinsert) (ih hrest)

/-- Writing blocks is writing each. -/
theorem insertBlocks_rel {blocks : List BlockInfo}
    (hblock : ∀ b ∈ blocks, ∀ row tx tx', tx.insertBlock (BepState.blockKey key b) row = .ok tx' →
      R tx tx')
    (h : BepState.insertBlocks key blocks tx = .ok tx') : R tx tx' := by
  induction blocks generalizing tx with
  | nil =>
      obtain rfl := Except.ok.inj h
      exact hrefl tx
  | cons block blocks ih =>
      obtain ⟨hfirst, hblock⟩ := List.forall_mem_cons.mp hblock
      rw [BepState.insertBlocks, Rust.bind_eq_ok] at h
      obtain ⟨tx₁, hinsert, hrest⟩ := h
      exact htrans (hfirst _ tx tx₁ hinsert) (ih hblock hrest)

variable {folder : String} {deviceId : DeviceId} {file : FileInfo}

/-- The statements of an upsert, each for the rows of its file. -/
theorem upsertFile_rel
    (hfile : ∀ row tx tx', tx.insertFileInfo ⟨folder, deviceId, file.name⟩ row = .ok tx' → R tx tx')
    (hversion : ∀ id value tx tx',
      tx.insertVersion ⟨⟨folder, deviceId, file.name⟩, id, value⟩ = .ok tx' → R tx tx')
    (hblock : ∀ b ∈ file.blocks, ∀ row tx tx',
      tx.insertBlock (BepState.blockKey ⟨folder, deviceId, file.name⟩ b) row = .ok tx' → R tx tx')
    (h : BepState.upsertFile folder deviceId file tx = .ok tx') : R tx tx' := by
  simp only [BepState.upsertFile, Rust.bind_eq_ok] at h
  obtain ⟨tx₁, hinsert, version, -, tx₂, hcounters, hblocks⟩ := h
  have hversions := insertVersions_rel R hrefl htrans hversion hcounters
  exact htrans (htrans (hfile _ tx tx₁ hinsert) hversions)
    (insertBlocks_rel R hrefl htrans hblock hblocks)

/-- Those of a replacement, which come after a deletion. -/
theorem replaceFile_rel
    (hfile : ∀ row tx tx', tx.insertFileInfo ⟨folder, deviceId, file.name⟩ row = .ok tx' → R tx tx')
    (hversion : ∀ id value tx tx',
      tx.insertVersion ⟨⟨folder, deviceId, file.name⟩, id, value⟩ = .ok tx' → R tx tx')
    (hblock : ∀ b ∈ file.blocks, ∀ row tx tx',
      tx.insertBlock (BepState.blockKey ⟨folder, deviceId, file.name⟩ b) row = .ok tx' → R tx tx')
    (h : BepState.replaceFile folder deviceId file tx = .ok tx') :
    R (tx.deleteFileInfo fun k => k = ⟨folder, deviceId, file.name⟩) tx' := by
  simp only [BepState.replaceFile, Rust.bind_eq_ok] at h
  obtain ⟨tx₁, hinsert, version, -, tx₂, hcounters, hblocks⟩ := h
  split_ifs at hblocks
  have hversions := insertVersions_rel R hrefl htrans hversion hcounters
  exact htrans (htrans (hfile _ _ tx₁ hinsert) hversions)
    (insertBlocks_rel R hrefl htrans hblock (insertBlocks_of_insertNewBlocks hblocks))

/-- What one file after the other does, each of the list. -/
theorem writeFiles_rel {write : FileInfo → Database → Rust Database} {files : List FileInfo}
    (hwrite : ∀ file ∈ files, ∀ tx tx', write file tx = .ok tx' → R tx tx')
    (h : BepState.writeFiles write files tx = .ok tx') : R tx tx' := by
  induction files generalizing tx with
  | nil =>
      obtain rfl := Except.ok.inj h
      exact hrefl tx
  | cons file files ih =>
      obtain ⟨hfirst, hwrite⟩ := List.forall_mem_cons.mp hwrite
      obtain ⟨tx₁, hfile, hrest⟩ := Rust.bind_eq_ok.mp h
      exact htrans (hfirst tx tx₁ hfile) (ih hwrite hrest)

end Relations

/-- Where each file is written to rows of its own, and all have different names, the rows of
one of them change with its statements only. -/
theorem writeFiles_split {R : FileKey → Database → Database → Prop} (hrefl : ∀ k tx, R k tx tx)
    (htrans : ∀ {k tx tx' tx''}, R k tx tx' → R k tx' tx'' → R k tx tx'')
    {folder : String} {deviceId : DeviceId} {write : FileInfo → Database → Rust Database}
    (hother : ∀ file tx tx', write file tx = .ok tx' →
      ∀ k, k ≠ ⟨folder, deviceId, file.name⟩ → R k tx tx')
    {files : List FileInfo} {tx tx' : Database} (hnodup : (files.map FileInfo.name).Nodup)
    (h : BepState.writeFiles write files tx = .ok tx') {file : FileInfo} (hfile : file ∈ files) :
    ∃ tx₁ tx₂, write file tx₁ = .ok tx₂ ∧ R ⟨folder, deviceId, file.name⟩ tx tx₁ ∧
      R ⟨folder, deviceId, file.name⟩ tx₂ tx' := by
  induction files generalizing tx with
  | nil => cases hfile
  | cons f files ih =>
      rw [BepState.writeFiles, Rust.bind_eq_ok] at h
      obtain ⟨tx₁, hwrite, h⟩ := h
      rw [List.map_cons, List.nodup_cons] at hnodup
      have hne : ∀ g ∈ files, (⟨folder, deviceId, f.name⟩ : FileKey) ≠ ⟨folder, deviceId, g.name⟩ := by
        intro g hg heq
        exact hnodup.1 ((FileKey.mk.inj heq).2.2 ▸ List.mem_map_of_mem hg)
      rcases List.mem_cons.mp hfile with rfl | hmem
      · refine ⟨tx, tx₁, hwrite, hrefl _ tx, ?_⟩
        exact writeFiles_rel (R _) (hrefl _) htrans
          (fun g hg tx tx' hwrite => hother g tx tx' hwrite _ (hne g hg)) h
      · obtain ⟨tx₂, tx₃, hthis, hbefore, hafter⟩ := ih hnodup.2 h hmem
        exact ⟨tx₂, tx₃, hthis, htrans (hother f tx tx₁ hwrite _ (hne file hmem).symm) hbefore, hafter⟩

/-- The tables in which writing files does nothing but delete. -/
structure SideTables (tx tx' : Database) : Prop where
  bepIndex : tx'.bepIndex = tx.bepIndex
  locations : tx'.bepFileLocation = tx.bepFileLocation
  localCache : tx'.bepLocalCache = tx.bepLocalCache

section SideTables

variable {folder : String} {deviceId : DeviceId} {file : FileInfo} {tx tx' tx'' : Database}

/-- Without a write the other tables are the same. -/
theorem SideTables.refl (tx : Database) : SideTables tx tx := ⟨rfl, rfl, rfl⟩

/-- Tables that are the same twice are the same. -/
theorem SideTables.trans (h : SideTables tx tx') (h' : SideTables tx' tx'') : SideTables tx tx'' :=
  ⟨h'.bepIndex.trans h.bepIndex, h'.locations.trans h.locations, h'.localCache.trans h.localCache⟩

/-- A row of a file leaves the other tables. -/
theorem insertFileInfo_sideTables {key : FileKey} {row : FileRow}
    (h : tx.insertFileInfo key row = .ok tx') : SideTables tx tx' := by
  unfold Database.insertFileInfo at h
  split_ifs at h
  obtain rfl := Except.ok.inj h
  exact ⟨rfl, rfl, rfl⟩

/-- So does a counter. -/
theorem insertVersion_sideTables {key : VersionKey} (h : tx.insertVersion key = .ok tx') :
    SideTables tx tx' := by
  unfold Database.insertVersion at h
  split_ifs at h
  obtain rfl := Except.ok.inj h
  exact ⟨rfl, rfl, rfl⟩

/-- And a block. -/
theorem insertBlock_sideTables {key : BlockKey} {row : BlockRow}
    (h : tx.insertBlock key row = .ok tx') : SideTables tx tx' := by
  unfold Database.insertBlock at h
  split_ifs at h
  obtain rfl := Except.ok.inj h
  exact ⟨rfl, rfl, rfl⟩

/-- And so a file with all it has. -/
theorem upsertFile_sideTables (h : BepState.upsertFile folder deviceId file tx = .ok tx') :
    SideTables tx tx' :=
  upsertFile_rel SideTables SideTables.refl SideTables.trans
    (fun _ _ _ h => insertFileInfo_sideTables h) (fun _ _ _ _ h => insertVersion_sideTables h)
    (fun _ _ _ _ _ h => insertBlock_sideTables h) h

/-- A replacement deletes the rows of its file. -/
theorem replaceFile_sideTables (h : BepState.replaceFile folder deviceId file tx = .ok tx') :
    SideTables (tx.deleteFileInfo fun k => k = ⟨folder, deviceId, file.name⟩) tx' :=
  replaceFile_rel SideTables SideTables.refl SideTables.trans
    (fun _ _ _ h => insertFileInfo_sideTables h) (fun _ _ _ _ h => insertVersion_sideTables h)
    (fun _ _ _ _ _ h => insertBlock_sideTables h) h

end SideTables

/-! ## One file -/

section Files

variable {tx tx' : Database}

/-- What the counters of a file are after they were written. -/
theorem insertVersions_eq_ok {key : FileKey} {counters : List Counter}
    (h : BepState.insertVersions key counters tx = .ok tx') :
    tx'.bepFileInfo = tx.bepFileInfo ∧ tx'.bepBlockInfo = tx.bepBlockInfo ∧
      ∀ file, tx'.countersOf file =
        if file = key then addCounters (tx.countersOf file) counters else tx.countersOf file := by
  induction counters generalizing tx with
  | nil =>
      obtain rfl := Except.ok.inj h
      refine ⟨rfl, rfl, ?_⟩
      intro file
      split_ifs <;> rfl
  | cons counter counters ih =>
      rw [BepState.insertVersions, Rust.bind_eq_ok] at h
      obtain ⟨-, -, h⟩ := h
      rw [Rust.bind_eq_ok] at h
      obtain ⟨tx₁, hinsert, h⟩ := h
      obtain ⟨hfiles, hblocks, hcounters⟩ := ih h
      have htables := insertVersion_tables hinsert
      refine ⟨hfiles.trans htables.1, hblocks.trans htables.2, ?_⟩
      intro file
      rw [hcounters, countersOf_insertVersion hinsert]
      split_ifs <;> rfl

/-- What its blocks are. -/
theorem insertBlocks_eq_ok {key : FileKey} {blocks : List BlockInfo}
    (h : BepState.insertBlocks key blocks tx = .ok tx') :
    tx'.bepFileInfo = tx.bepFileInfo ∧ tx'.bepFileVersion = tx.bepFileVersion ∧
      ∀ file, tx'.blocksOf file =
        if file = key then addBlocks (tx.blocksOf file) blocks else tx.blocksOf file := by
  induction blocks generalizing tx with
  | nil =>
      obtain rfl := Except.ok.inj h
      refine ⟨rfl, rfl, ?_⟩
      intro file
      split_ifs <;> rfl
  | cons block blocks ih =>
      rw [BepState.insertBlocks, Rust.bind_eq_ok] at h
      obtain ⟨tx₁, hinsert, h⟩ := h
      obtain ⟨hfiles, hversions, hblocks⟩ := ih h
      have htables := insertBlock_tables hinsert
      refine ⟨hfiles.trans htables.1, hversions.trans htables.2, ?_⟩
      intro file
      rw [hblocks, blocksOf_insertBlock hinsert]
      split_ifs <;> rfl

/-- The rows a file is given when it is replaced. -/
def newBlockRows (key : FileKey) (blocks : List BlockInfo) : List (BlockKey × BlockRow) :=
  blocks.map fun block => (BepState.blockKey key block, ⟨block.weakHash, .notStored⟩)

/-- What its rows of blocks are where none was there. -/
theorem insertNewBlocks_eq_ok {key : FileKey} {blocks : List BlockInfo}
    (h : BepState.insertNewBlocks key blocks tx = .ok tx') :
    tx'.bepFileInfo = tx.bepFileInfo ∧ tx'.bepFileVersion = tx.bepFileVersion ∧
      ∀ file, tx'.blockRowsOf file =
        tx.blockRowsOf file ++ if file = key then newBlockRows key blocks else [] := by
  induction blocks generalizing tx with
  | nil =>
      obtain rfl := Except.ok.inj h
      refine ⟨rfl, rfl, ?_⟩
      intro file
      split_ifs <;> simp [newBlockRows]
  | cons block blocks ih =>
      rw [BepState.insertNewBlocks, Rust.bind_eq_ok] at h
      obtain ⟨tx₁, hinsert, h⟩ := h
      obtain ⟨hfiles, hversions, hblocks⟩ := ih h
      rw [Database.insertNewBlock] at hinsert
      split_ifs at hinsert with hcontains
      have htables := insertBlock_tables hinsert
      refine ⟨hfiles.trans htables.1, hversions.trans htables.2, ?_⟩
      intro file
      rw [hblocks, blockRowsOf_insertBlock hinsert, List.append_assoc]
      by_cases hfile : file = key
      · subst hfile
        rw [if_pos ⟨by simpa using hcontains, rfl⟩, if_pos rfl, if_pos rfl]
        rfl
      · rw [if_neg fun hnew => hfile hnew.2.symm, if_neg hfile, if_neg hfile, List.nil_append]

/-- The blocks of a file are those of its rows. -/
theorem blocksOf_eq_map (key : FileKey) :
    tx.blocksOf key = (tx.blockRowsOf key).map fun e => Database.blockInfo e.1 e.2 := rfl

/-- The rows of new blocks stand for these blocks. -/
theorem map_newBlockRows (key : FileKey) (blocks : List BlockInfo) :
    (newBlockRows key blocks).map (fun e => Database.blockInfo e.1 e.2) = blocks := by
  simp [newBlockRows, Function.comp_def, Database.blockInfo, BepState.blockKey]

/-- The columns of a file with its counters and blocks are the file. -/
theorem toFileInfo_ofFileInfo (file : FileInfo) (counters : List Counter)
    (blocks : List BlockInfo) :
    (FileRow.ofFileInfo file).toFileInfo file.name counters blocks =
      withParts file counters blocks := rfl

variable {folder : String} {deviceId : DeviceId} {file : FileInfo}

/-- A file whose version was found has one, and its counters are those of the file. -/
theorem version_of_expect {message : String} {version : VersionVector}
    (h : Rust.expect message file.version = .ok version) :
    file.version.isSome = true ∧ Interface.countersOf file = version.counters := by
  cases hv : file.version with
  | none =>
      rw [hv] at h
      cases h
  | some v =>
      rw [hv, Rust.expect_some] at h
      obtain rfl := Except.ok.inj h
      exact ⟨rfl, by simp [Interface.countersOf, hv]⟩

/-- An upsert of one file. -/
theorem stored_upsertFile (h : BepState.upsertFile folder deviceId file tx = .ok tx') :
    stored tx' = setFile (stored tx) ⟨folder, deviceId, file.name⟩
      (upserted (stored tx ⟨folder, deviceId, file.name⟩) file) := by
  simp only [BepState.upsertFile, Rust.bind_eq_ok] at h
  obtain ⟨tx₁, hfile, version, hversion, tx₂, hcounters, hblocks⟩ := h
  obtain ⟨hrow₁, hblocks₁, hversions₁⟩ := insertFileInfo_eq_ok hfile
  obtain ⟨hrow₂, hblocks₂, hcounters₂⟩ := insertVersions_eq_ok hcounters
  obtain ⟨hrow₃, hversions₃, hblocks₃⟩ := insertBlocks_eq_ok hblocks
  have hfileCounters := (version_of_expect hversion).2
  have hcountersOf : ∀ k, tx'.countersOf k = if k = ⟨folder, deviceId, file.name⟩
      then addCounters (tx.countersOf k) version.counters else tx.countersOf k := by
    intro k
    rw [Database.countersOf, hversions₃, ← Database.countersOf, hcounters₂, Database.countersOf,
      hversions₁, ← Database.countersOf]
  have hblocksOf : ∀ k, tx'.blocksOf k = if k = ⟨folder, deviceId, file.name⟩
      then addBlocks (tx.blocksOf k) file.blocks else tx.blocksOf k := by
    intro k
    rw [hblocks₃, Database.blocksOf, Database.blockRowsOf, hblocks₂, hblocks₁,
      ← Database.blockRowsOf, ← Database.blocksOf]
  funext k
  rw [setFile, Function.update_apply]
  split_ifs with hk
  · subst hk
    rw [stored, hrow₃, hrow₂, hrow₁, AssocMap.get_insert_self, Option.map_some, hcountersOf,
      hblocksOf, if_pos rfl, if_pos rfl, toFileInfo_ofFileInfo, upserted, countersOf_stored,
      blocks_stored, hfileCounters]
  · apply stored_congr
    · rw [hrow₃, hrow₂, hrow₁, AssocMap.get_insert_of_ne _ _ hk]
    · rw [hcountersOf, if_neg hk]
    · rw [hblocksOf, if_neg hk]

/-- The rows of one file that was replaced. -/
theorem replaceFile_eq_ok (h : BepState.replaceFile folder deviceId file tx = .ok tx') :
    (∀ k, tx'.bepFileInfo.get k = if k = ⟨folder, deviceId, file.name⟩
      then some (.ofFileInfo file) else tx.bepFileInfo.get k) ∧
    (∀ k, tx'.countersOf k = if k = ⟨folder, deviceId, file.name⟩
      then addCounters [] (Interface.countersOf file) else tx.countersOf k) ∧
    (∀ k, tx'.blockRowsOf k = if k = ⟨folder, deviceId, file.name⟩
      then newBlockRows ⟨folder, deviceId, file.name⟩ file.blocks else tx.blockRowsOf k) ∧
    8 * file.blocks.length ≤ BepState.maxVariables := by
  simp only [BepState.replaceFile, Rust.bind_eq_ok] at h
  obtain ⟨tx₁, hfile, version, hversion, tx₂, hcounters, hblocks⟩ := h
  split_ifs at hblocks with hmany
  obtain ⟨hrow₁, hblocks₁, hversions₁⟩ := insertFileInfo_eq_ok hfile
  obtain ⟨hrow₂, hblocks₂, hcounters₂⟩ := insertVersions_eq_ok hcounters
  obtain ⟨hrow₃, hversions₃, hblocks₃⟩ := insertNewBlocks_eq_ok hblocks
  have hfileCounters := (version_of_expect hversion).2
  -- the file is gone before it is written again
  have hdeleted : (tx.deleteFileInfo fun k => k = ⟨folder, deviceId, file.name⟩).bepFileInfo.get
      ⟨folder, deviceId, file.name⟩ = none := by
    simp [Database.deleteFileInfo, AssocMap.get_retain]
  have hothers : ∀ k, k ≠ ⟨folder, deviceId, file.name⟩ →
      (tx.deleteFileInfo fun k => k = ⟨folder, deviceId, file.name⟩).bepFileInfo.get k =
        tx.bepFileInfo.get k ∧
      (tx.deleteFileInfo fun k => k = ⟨folder, deviceId, file.name⟩).countersOf k =
        tx.countersOf k ∧
      (tx.deleteFileInfo fun k => k = ⟨folder, deviceId, file.name⟩).blockRowsOf k =
        tx.blockRowsOf k := by
    intro k hk
    refine ⟨?_, ?_, ?_⟩
    · rw [Database.deleteFileInfo, AssocMap.get_retain]
      cases tx.bepFileInfo.get k <;> simp [hk]
    · simp only [Database.countersOf, Database.deleteFileInfo]
      rw [AssocMap.filter_retain _ _ (fun e : VersionKey => decide (e.file = k))]
      intro e _ he
      obtain rfl := of_decide_eq_true he
      simpa using hk
    · simp only [Database.blockRowsOf, Database.deleteFileInfo]
      rw [AssocMap.filter_retain _ _ (fun e : BlockKey => decide (e.file = k))]
      intro e _ he
      obtain rfl := of_decide_eq_true he
      simpa using hk
  refine ⟨?_, ?_, ?_, Nat.not_lt.mp hmany⟩
  · intro k
    rw [hrow₃, hrow₂, hrow₁, AssocMap.get_insert]
    split_ifs with hk
    · rfl
    · exact (hothers k hk).1
  · intro k
    rw [Database.countersOf, hversions₃, ← Database.countersOf, hcounters₂, Database.countersOf,
      hversions₁, ← Database.countersOf, hfileCounters]
    split_ifs with hk
    · rw [hk, countersOf_of_absent hdeleted]
    · exact (hothers k hk).2.1
  · intro k
    rw [hblocks₃, Database.blockRowsOf, hblocks₂, hblocks₁, ← Database.blockRowsOf]
    split_ifs with hk
    · rw [hk, blockRowsOf_of_absent hdeleted, List.nil_append]
    · rw [(hothers k hk).2.2, List.append_nil]

/-- A replacement of one file. -/
theorem stored_replaceFile (h : BepState.replaceFile folder deviceId file tx = .ok tx') :
    stored tx' = setFile (stored tx) ⟨folder, deviceId, file.name⟩ (replaced file) := by
  obtain ⟨hrow, hcounters, hblocks, -⟩ := replaceFile_eq_ok h
  funext k
  rw [setFile, Function.update_apply]
  split_ifs with hk
  · subst hk
    rw [stored, hrow, if_pos rfl, Option.map_some, hcounters, if_pos rfl, blocksOf_eq_map, hblocks,
      if_pos rfl, map_newBlockRows, toFileInfo_ofFileInfo, replaced]
  · apply stored_congr
    · rw [hrow, if_neg hk]
    · rw [hcounters, if_neg hk]
    · rw [blocksOf_eq_map, blocksOf_eq_map, hblocks, if_neg hk]

/-- `replace_index` and `insert_file_info` write their files one over the other. -/
theorem stored_upsertFiles {files : List FileInfo}
    (h : BepState.writeFiles (BepState.upsertFile folder deviceId) files tx = .ok tx') :
    stored tx' = upsertAll folder deviceId (stored tx) files := by
  induction files generalizing tx with
  | nil =>
      obtain rfl := Except.ok.inj h
      rfl
  | cons file files ih =>
      rw [BepState.writeFiles, Rust.bind_eq_ok] at h
      obtain ⟨tx₁, hfile, h⟩ := h
      rw [ih h, stored_upsertFile hfile]
      rfl

/-- `replace_file_info` puts its files in place of those of the same name. -/
theorem stored_replaceFiles {files : List FileInfo}
    (h : BepState.writeFiles (BepState.replaceFile folder deviceId) files tx = .ok tx') :
    stored tx' = replaceAll folder deviceId (stored tx) files := by
  induction files generalizing tx with
  | nil =>
      obtain rfl := Except.ok.inj h
      rfl
  | cons file files ih =>
      rw [BepState.writeFiles, Rust.bind_eq_ok] at h
      obtain ⟨tx₁, hfile, h⟩ := h
      rw [ih h, stored_replaceFile hfile]
      rfl

/-- Locations are in a table of their own. -/
theorem insertLocations_part {γ : Type} (part : Database → γ)
    (hpart : ∀ tx rows h, part { tx with bepFileLocation := rows, locationOfFile := h } = part tx)
    {key : FileKey} {locations : List (String × String)}
    (h : BepState.insertLocations key locations tx = .ok tx') : part tx' = part tx := by
  induction locations generalizing tx with
  | nil =>
      obtain rfl := Except.ok.inj h
      rfl
  | cons location locations ih =>
      rw [BepState.insertLocations, Rust.bind_eq_ok] at h
      obtain ⟨tx₁, hinsert, h⟩ := h
      unfold Database.insertLocation at hinsert
      split_ifs at hinsert
      obtain rfl := Except.ok.inj hinsert
      rw [ih h, hpart]

/-- They are no part of the stored files. -/
theorem stored_insertLocations {key : FileKey} {locations : List (String × String)}
    (h : BepState.insertLocations key locations tx = .ok tx') : stored tx' = stored tx :=
  insertLocations_part stored (fun _ _ _ => rfl) h

/-- Nor are they in the read cache. -/
theorem insertLocations_localCache {key : FileKey} {locations : List (String × String)}
    (h : BepState.insertLocations key locations tx = .ok tx') :
    tx'.bepLocalCache = tx.bepLocalCache :=
  insertLocations_part Database.bepLocalCache (fun _ _ _ => rfl) h

/-- A renaming of a file that is not there changes nothing, and one that is there no file but
the two it names. -/
theorem stored_renameFileInfo_of_ne {key : FileKey} {name : String} {sequence : Int64}
    (h : tx.renameFileInfo key name sequence = .ok tx') :
    (tx.bepFileInfo.get key = none → tx' = tx) ∧
      ∀ k, k ≠ key → k ≠ { key with name := name } → stored tx' k = stored tx k := by
  unfold Database.renameFileInfo at h
  dsimp only at h
  split at h
  · rename_i hrow
    obtain rfl := Except.ok.inj h
    exact ⟨fun _ => rfl, fun _ _ _ => rfl⟩
  · rename_i row hrow
    refine ⟨fun hnone => absurd (hrow.symm.trans hnone) (Option.some_ne_none row), ?_⟩
    split_ifs at h with hfree
    split at h
    · rename_i locations cache blocks versions _ _ hblocks hversions
      obtain rfl := Except.ok.inj h
      intro k hkey hdest
      have hmoved : ∀ file : FileKey, Database.moveFile key { key with name := name } file = file ∨
          file ≠ k ∧ Database.moveFile key { key with name := name } file ≠ k := by
        intro file
        unfold Database.moveFile
        split_ifs with hfile
        · rw [hfile]
          exact Or.inr ⟨Ne.symm hkey, Ne.symm hdest⟩
        · exact Or.inl rfl
      apply stored_congr
      · rw [AssocMap.get_insert_of_ne _ _ hdest, AssocMap.get_erase_of_ne _ hkey]
      · have hrows := AssocMap.filter_rekey hversions (fun e : VersionKey => decide (e.file = k))
          fun e _ => by
            rcases hmoved e.file with hsame | ⟨hne, hne'⟩
            · exact Or.inl (by rw [hsame])
            · exact Or.inr ⟨by simpa using hne, by simpa using hne'⟩
        simp only [Database.countersOf, hrows]
      · have hrows := AssocMap.filter_rekey hblocks (fun e : BlockKey => decide (e.file = k))
          fun e _ => by
            rcases hmoved e.file with hsame | ⟨hne, hne'⟩
            · exact Or.inl (by rw [hsame])
            · exact Or.inr ⟨by simpa using hne, by simpa using hne'⟩
        simp only [Database.blocksOf, Database.blockRowsOf, hrows]
    · cases h

/-- Both files are of one folder and device. -/
theorem stored_renameFileInfo {key : FileKey} {name : String} {sequence : Int64}
    (h : tx.renameFileInfo key name sequence = .ok tx') :
    (tx.bepFileInfo.get key = none → tx' = tx) ∧
      ∀ k, ¬ (k.folder = key.folder ∧ k.device = key.device) → stored tx' k = stored tx k := by
  obtain ⟨habsent, hstored⟩ := stored_renameFileInfo_of_ne h
  refine ⟨habsent, ?_⟩
  intro k hk
  apply hstored
  · rintro rfl
    exact hk ⟨rfl, rfl⟩
  · rintro rfl
    exact hk ⟨rfl, rfl⟩

/-- The storage status is no part of the stored files. -/
theorem stored_setStorageStatus (p : BlockKey → Bool) (status : StorageStatus) :
    stored (tx.setStorageStatus p status) = stored tx := by
  funext k
  apply stored_congr
  · rfl
  · rfl
  · have hlist : ∀ rows : List (BlockKey × BlockRow),
        (((rows.map fun e => (e.1, if p e.1 then { e.2 with storageStatus := status } else e.2)).filter
            fun e => e.1.file = k).map fun e => Database.blockInfo e.1 e.2) =
          (rows.filter fun e => e.1.file = k).map fun e => Database.blockInfo e.1 e.2 := by
      intro rows
      induction rows with
      | nil => rfl
      | cons e rows ih =>
          rw [List.map_cons, List.filter_cons, List.filter_cons]
          simp only [decide_eq_true_eq] at ih ⊢
          split_ifs with hfile hp
          · rw [List.map_cons, List.map_cons, ih]
            rfl
          · rw [List.map_cons, List.map_cons, ih]
          · exact ih
    exact hlist tx.bepBlockInfo.entries

end Files

end Grizol.Analysis

import Grizol.Analysis.HandlerTurns
import Grizol.Interface.ReadCache

/-!
# When the read cache has no stale entry

A file that is replaced loses its row, for the rows of the cache refer to those of the
files; an upsert leaves the row where it is. So the entries stay fresh as long as
nothing new is upserted over a cached file, and the copy that stands behind a new row
was made.
-/

set_option autoImplicit false

namespace Grizol.Analysis

open Grizol.Library
open Grizol.Model Grizol.Model.Syncthing Grizol.Interface

/-- The rows of the cache that are there were there before, and what is recorded of their files
is the same. -/
def CacheKept (db db' : Database) : Prop :=
  ∀ key timestampAdded, db'.bepLocalCache.get key = some timestampAdded →
    db.bepLocalCache.get key = some timestampAdded ∧ recorded db' key = recorded db key

/-- The rows of the cache that are there were there before, and their files are the same. -/
def CachedSame (db db' : Database) : Prop :=
  ∀ key timestampAdded, db'.bepLocalCache.get key = some timestampAdded →
    db.bepLocalCache.get key = some timestampAdded ∧ stored db' key = stored db key

variable {db db' db'' : Database}

/-- Rows of the cache that are kept twice are kept. -/
theorem CacheKept.trans (h : CacheKept db db') (h' : CacheKept db' db'') : CacheKept db db'' := by
  intro key t ht
  obtain ⟨ht, hsame'⟩ := h' key t ht
  obtain ⟨ht, hsame⟩ := h key t ht
  exact ⟨ht, hsame'.trans hsame⟩

namespace CachedSame

/-- Without a change a cached file is the same. -/
theorem refl (db : Database) : CachedSame db db := fun _ _ h => ⟨h, rfl⟩

/-- A cached file that is the same twice is the same. -/
theorem trans (h : CachedSame db db') (h' : CachedSame db' db'') : CachedSame db db'' := by
  intro key t ht
  obtain ⟨ht, hsame'⟩ := h' key t ht
  obtain ⟨ht, hsame⟩ := h key t ht
  exact ⟨ht, hsame'.trans hsame⟩

/-- Where cached files are the same, the rows of the cache are kept. -/
theorem cacheKept (h : CachedSame db db') : CacheKept db db' := by
  intro key t ht
  obtain ⟨ht, hsame⟩ := h key t ht
  rw [recorded, hsame, recorded]
  exact ⟨ht, rfl⟩

/-- A statement that touches neither the stored files nor the cache. -/
theorem of_stored (hcache : db'.bepLocalCache = db.bepLocalCache)
    (hstored : stored db' = stored db) : CachedSame db db' := by
  intro key t ht
  rw [hcache] at ht
  rw [hstored]
  exact ⟨ht, rfl⟩

/-- A statement that takes rows from the cache, and leaves the files of those that stay. -/
theorem of_retain {p : FileKey → Bool}
    (hcache : db'.bepLocalCache = db.bepLocalCache.retain fun key _ => p key)
    (hstored : ∀ key, p key = true → stored db' key = stored db key) : CachedSame db db' := by
  intro key t ht
  rw [hcache, AssocMap.get_retain, Option.filter_eq_some_iff] at ht
  exact ⟨ht.1, hstored key ht.2⟩

end CachedSame

/-- Without a change the rows of the cache are kept. -/
theorem CacheKept.refl (db : Database) : CacheKept db db := (CachedSame.refl db).cacheKept

/-! ## Writing files -/

section Files

variable {tx tx' : Database} {folder : String} {deviceId : DeviceId} {file : FileInfo}

/-- `ON DELETE CASCADE`: a file that is deleted has no row. -/
theorem cachedSame_deleteFileInfo (p : FileKey → Bool) : CachedSame tx (tx.deleteFileInfo p) := by
  apply CachedSame.of_retain (p := fun key => !p key)
  · rfl
  · intro key hkey
    rw [stored_deleteFileInfo, if_neg (by simpa using hkey)]

/-- An upsert leaves the cache as it is. -/
theorem upsertFiles_localCache {files : List FileInfo}
    (h : BepState.writeFiles (BepState.upsertFile folder deviceId) files tx = .ok tx') :
    tx'.bepLocalCache = tx.bepLocalCache :=
  (writeFiles_rel SideTables SideTables.refl SideTables.trans
    (fun _ _ _ _ h => upsertFile_sideTables h) h).localCache

/-- A replacement takes the file from the cache. -/
theorem replaceFile_localCache (h : BepState.replaceFile folder deviceId file tx = .ok tx') :
    tx'.bepLocalCache =
      tx.bepLocalCache.retain fun key _ => !decide (key = ⟨folder, deviceId, file.name⟩) :=
  (replaceFile_sideTables h).localCache

/-- A file that is put in place of another is not cached any more. -/
theorem cachedSame_replaceFile (h : BepState.replaceFile folder deviceId file tx = .ok tx') :
    CachedSame tx tx' := by
  apply CachedSame.of_retain (replaceFile_localCache h)
  intro key hkey
  rw [stored_replaceFile h, setFile, Function.update_of_ne (by simpa using hkey)]

/-- Nor are several. -/
theorem cachedSame_replaceFiles {files : List FileInfo}
    (h : BepState.writeFiles (BepState.replaceFile folder deviceId) files tx = .ok tx') :
    CachedSame tx tx' :=
  writeFiles_rel CachedSame CachedSame.refl CachedSame.trans
    (fun _ _ _ _ h => cachedSame_replaceFile h) h

/-- Counters that are there already are not added. -/
theorem addCounters_of_subset {counters added : List Counter}
    (h : ∀ counter ∈ added, counter ∈ counters) : addCounters counters added = counters := by
  induction added with
  | nil => rfl
  | cons counter added ih =>
      have hmem := h counter List.mem_cons_self
      have hrest : ∀ c ∈ added, c ∈ counters := fun c hc => h c (List.mem_cons_of_mem _ hc)
      rw [addCounters, List.foldl_cons, addCounter, if_pos hmem]
      exact ih hrest

/-- Blocks that are there already are not added. -/
theorem addBlocks_of_any {blocks added : List BlockInfo}
    (h : ∀ block ∈ added, blocks.any (sameBlock block) = true) : addBlocks blocks added = blocks := by
  induction added with
  | nil => rfl
  | cons block added ih =>
      have hany := h block List.mem_cons_self
      have hrest : ∀ b ∈ added, blocks.any (sameBlock b) = true :=
        fun b hb => h b (List.mem_cons_of_mem _ hb)
      rw [addBlocks, List.foldl_cons, addBlock, if_pos hany]
      exact ih hrest

/-- A stored file has a version. -/
theorem version_of_stored {key : FileKey} {old : FileInfo} (h : stored tx key = some old) :
    old.version = some ⟨countersOf old⟩ := by
  rw [stored, Option.map_eq_some_iff] at h
  obtain ⟨row, -, rfl⟩ := h
  rfl

/-- Upserts that add nothing change nothing of what is recorded. -/
theorem recorded_upsertAll {files : List FileInfo} {name : String}
    (hstored : stored tx' ⟨folder, deviceId, name⟩ =
      upsertAll folder deviceId (stored tx) files ⟨folder, deviceId, name⟩)
    (hadds : ∀ old, stored tx ⟨folder, deviceId, name⟩ = some old →
      ∀ file ∈ files, file.name = name → AddsNothing old file)
    (hfile : tx.bepFileInfo.contains ⟨folder, deviceId, name⟩ = true) :
    recorded tx' ⟨folder, deviceId, name⟩ = recorded tx ⟨folder, deviceId, name⟩ := by
  obtain ⟨row, hrow⟩ := AssocMap.contains_iff.mp hfile
  obtain ⟨old, hold⟩ : ∃ old, stored tx ⟨folder, deviceId, name⟩ = some old :=
    ⟨_, congrArg (Option.map _) hrow⟩
  have hnothing := hadds old hold
  rw [upsertAll_apply] at hstored
  rw [recorded, recorded, hstored]
  cases hlast : lastNamed files name with
  | none => rfl
  | some file =>
      obtain ⟨hmem, hname⟩ := lastNamed_eq_some hlast
      have hcounters : keptCounters (some old) files name = countersOf old := by
        refine addCounters_of_subset fun counter hcounter => ?_
        obtain ⟨f, hf, hcounter⟩ := List.mem_flatMap.mp hcounter
        obtain ⟨hf, hfname⟩ := List.mem_filter.mp hf
        exact (hnothing f hf (by simpa using hfname)).counters counter hcounter
      have hblocks : keptBlocks (some old) files name = old.blocks := by
        refine addBlocks_of_any fun block hblock => ?_
        obtain ⟨f, hf, hblock⟩ := List.mem_flatMap.mp hblock
        obtain ⟨hf, hfname⟩ := List.mem_filter.mp hf
        exact (hnothing f hf (by simpa using hfname)).blocks block hblock
      rw [hold, hcounters, hblocks]
      dsimp only [Option.map_some, withParts]
      rw [(hnothing file hmem hname).size, version_of_stored hold]

end Files

/-! ## Sections of handlers -/

section Sections

variable {s s' : BepState} {folder : String} {deviceId localDeviceId clientDeviceId : DeviceId}
  {receivedIndex : Index}

/-- Without a write to the tables a cached file is the same. -/
theorem onlyCounter_cachedSame (h : OnlyCounter s s') : CachedSame s.db s'.db := by
  obtain ⟨n, rfl⟩ := h
  exact CachedSame.refl s.db

/-- Files that are replaced drop out of the cache. -/
theorem rmReplaceFileInfo_cachedSame (fileInfo : List FileInfo) : CachedSame s.db
    (RustM.endState ((BepState.rmReplaceFileInfo folder deviceId fileInfo).run s)).db := by
  rcases rmReplaceFileInfo_run folder deviceId s fileInfo with ⟨e, s₁, hresult, hcounter⟩ |
    ⟨files, tx, n, -, hwrite, hresult⟩
  · rw [hresult]
    exact onlyCounter_cachedSame hcounter
  · rw [hresult]
    exact cachedSame_replaceFiles hwrite

/-- So does a file that is removed. -/
theorem rmFileInfo_cachedSame (fileName : String) : CachedSame s.db
    (RustM.endState ((BepState.rmFileInfo folder deviceId fileName).run s)).db := by
  rw [rmFileInfo_run]
  exact cachedSame_deleteFileInfo _

/-- Reading an index leaves the tables. -/
theorem index_cachedSame :
    CachedSame s.db (RustM.endState ((BepState.index folder deviceId).run s)).db := by
  rw [index_db]
  exact CachedSame.refl s.db

/-- The files of a peer are deleted, with their rows, before its new ones are upserted. -/
theorem replaceIndex_cachedSame : CachedSame s.db
    (RustM.endState ((BepState.replaceIndex receivedIndex deviceId).run s)).db := by
  rcases replaceIndex_run deviceId s receivedIndex with ⟨e, s₁, hresult, hcounter⟩ |
    ⟨files, tx, n, -, hwrite, hresult⟩
  · rw [hresult]
    exact onlyCounter_cachedSame hcounter
  · rw [hresult]
    refine CachedSame.of_retain (p := fun key =>
      !(decide (key.folder = receivedIndex.folder) && decide (key.device = deviceId)))
      (upsertFiles_localCache hwrite) ?_
    intro key hkey
    have hother : ¬ (key.folder = receivedIndex.folder ∧ key.device = deviceId) := by
      rw [not_and_or]
      simpa using hkey
    dsimp only [RustM.endState_ok]
    rw [stored_upsertFiles hwrite, upsertAll_of_other hother, stored_deleteFileInfo,
      if_neg (by simpa using hother)]

/-- Afterwards it has no row. -/
theorem replaceIndex_uncached
    (h : (BepState.replaceIndex receivedIndex deviceId).run s = .ok () s') (name : String) :
    s'.db.bepLocalCache.contains ⟨receivedIndex.folder, deviceId, name⟩ = false := by
  rcases replaceIndex_run deviceId s receivedIndex with ⟨e, s₁, hresult, -⟩ |
    ⟨files, tx, n, -, hwrite, hresult⟩
  · rw [hresult] at h
    cases h
  · rw [hresult] at h
    obtain ⟨-, rfl⟩ := EStateM.Result.ok.inj h
    dsimp only
    rw [upsertFiles_localCache hwrite, Database.deleteFileInfo, AssocMap.contains_eq_false_iff,
      AssocMap.get_retain, Option.filter_eq_none_iff]
    intro t _
    simp

/-- `insert_file_info` leaves the cache as it is, and upserts all of its files or none. -/
theorem insertFileInfo_cached (fileInfo : List FileInfo) {s' : BepState}
    (hend : RustM.endState ((BepState.insertFileInfo folder deviceId fileInfo).run s) = s') :
    s'.db.bepLocalCache = s.db.bepLocalCache ∧
      (stored s'.db = stored s.db ∨
        (∀ file ∈ fileInfo, Accepted s.db folder deviceId file) ∧
          ∃ files, List.Forall₂ Numbered fileInfo files ∧
            stored s'.db = upsertAll folder deviceId (stored s.db) files) := by
  rcases insertFileInfo_run folder deviceId s fileInfo with ⟨e, s₁, hresult, hcounter⟩ |
    ⟨files, tx, n, hnumbered, hwrite, hresult⟩
  · rw [hresult] at hend
    obtain ⟨n, rfl⟩ := hcounter
    obtain rfl := hend
    exact ⟨rfl, Or.inl rfl⟩
  rw [hresult] at hend
  obtain rfl := hend
  have haccepted := writeFiles_accepted (fun tx => Accepted tx folder deviceId)
    (fun _ _ _ => upsertFile_accepted) (fun _ _ _ hindex hf => ⟨hindex ▸ hf.1, hf.2⟩) hwrite
  exact ⟨upsertFiles_localCache hwrite, Or.inr
    ⟨Numbered.forall_mem hnumbered (fun _ _ hf => hf) haccepted, files, hnumbered,
      stored_upsertFiles hwrite⟩⟩

/-- Files that spare the cached ones still do when they are numbered. -/
theorem recorded_of_spares {db db' : Database} {fileInfo files : List FileInfo} {name : String}
    (hspares : SparesCached db folder deviceId fileInfo)
    (hnumbered : List.Forall₂ Numbered fileInfo files)
    (hcached : db.bepLocalCache.contains ⟨folder, deviceId, name⟩ = true)
    (hstored : stored db' ⟨folder, deviceId, name⟩ =
      upsertAll folder deviceId (stored db) files ⟨folder, deviceId, name⟩) :
    recorded db' ⟨folder, deviceId, name⟩ = recorded db ⟨folder, deviceId, name⟩ := by
  obtain ⟨t, ht⟩ := AssocMap.contains_iff.mp hcached
  refine recorded_upsertAll hstored ?_ (db.cacheOfFile _ t ht)
  intro old hold file' hfile' hname
  obtain ⟨file, hfile, m, rfl⟩ := Numbered.mem hnumbered hfile'
  subst hname
  have hadds : AddsNothing old file := hspares file hfile hcached old hold
  exact ⟨hadds.size, hadds.counters, hadds.blocks⟩

/-- `insert_file_info` keeps the cache when its files spare it. -/
theorem insertFileInfo_cacheKept {fileInfo : List FileInfo}
    (hspares : (∀ file ∈ fileInfo, Accepted s.db folder deviceId file) →
      SparesCached s.db folder deviceId fileInfo) : CacheKept s.db
    (RustM.endState ((BepState.insertFileInfo folder deviceId fileInfo).run s)).db := by
  have hend : RustM.endState ((BepState.insertFileInfo folder deviceId fileInfo).run s) = _ := rfl
  obtain ⟨hcache, hstored | ⟨haccepted, files, hnumbered, hstored⟩⟩ :=
    insertFileInfo_cached fileInfo hend
  · exact (CachedSame.of_stored hcache hstored).cacheKept
  intro key t ht
  rw [hcache] at ht
  refine ⟨ht, ?_⟩
  by_cases hkey : key.folder = folder ∧ key.device = deviceId
  · obtain ⟨keyFolder, device, name⟩ := key
    obtain ⟨rfl, rfl⟩ := hkey
    exact recorded_of_spares (hspares haccepted) hnumbered (AssocMap.contains_iff.mpr ⟨t, ht⟩)
      (congrFun hstored _)
  · rw [recorded, hstored, upsertAll_of_other hkey, recorded]

/-- A renaming takes the rows of its file along. -/
theorem renameFileInfo_localCache {db tx : Database} {key : FileKey} {name : String}
    {sequence : Int64} (h : db.renameFileInfo key name sequence = .ok tx) :
    tx = db ∨ db.bepLocalCache.rekey (Database.moveFile key { key with name := name }) =
      some tx.bepLocalCache := by
  unfold Database.renameFileInfo at h
  dsimp only at h
  split at h
  · obtain rfl := Except.ok.inj h
    exact Or.inl rfl
  · split_ifs at h
    split at h
    · rename_i locations cache blocks versions _ hcache _ _
      obtain rfl := Except.ok.inj h
      exact Or.inr hcache
    · cases h

/-- A renaming takes the row of its file from the cache. -/
theorem mvFileInfo_cachedSame (origFileInfo : FileInfo) (destFileName : String)
    (destFileLocations : List FileLocation) : CachedSame s.db
    (RustM.endState ((BepState.mvFileInfo folder deviceId origFileInfo destFileName
      destFileLocations).run s)).db := by
  rcases mvFileInfo_run folder deviceId s origFileInfo destFileName destFileLocations with
    ⟨e, s₁, hresult, hcounter⟩ | ⟨sequence, tx, tx', n, hrename, hstored, hcache, hresult⟩
  · rw [hresult]
    exact onlyCounter_cachedSame hcounter
  rw [hresult]
  intro key t ht
  dsimp only [RustM.endState_ok] at ht ⊢
  rw [hcache, Database.deleteLocalCache, AssocMap.get_retain, Option.filter_eq_some_iff] at ht
  obtain ⟨ht, hdest⟩ := ht
  have hdest : key ≠ ⟨folder, deviceId, destFileName⟩ := by simpa using hdest
  rw [hstored]
  rcases renameFileInfo_localCache hrename with rfl | hrekey
  · exact ⟨ht, rfl⟩
  obtain ⟨key₀, hbefore, rfl⟩ := (AssocMap.get_rekey hrekey).mp ht
  have hkey : key₀ ≠ ⟨folder, deviceId, origFileInfo.name⟩ := by
    rintro rfl
    rw [Database.moveFile, if_pos rfl] at hdest
    exact hdest rfl
  rw [Database.moveFile, if_neg hkey] at hdest ⊢
  exact ⟨hbefore, (stored_renameFileInfo_of_ne hrename).2 key₀ hkey hdest⟩

/-- What an `Index` does to a file of this device: it is upserted with what the `Index` has
newer. -/
def IndexUpserts (s : BepState) (localDeviceId : DeviceId) (received : Index) (peer : DeviceId)
    (db' : Database) (name : String) : Prop :=
  peer ≠ localDeviceId ∧ (∀ file ∈ received.files, Accepted s.db received.folder peer file) ∧
    ∃ diff files, diffIndices received.folder received (known s received.folder localDeviceId) =
        .ok (.ok diff) ∧
      (∀ file ∈ diff.newlyAddedFiles, Accepted s.db received.folder localDeviceId file) ∧
      List.Forall₂ Numbered diff.newlyAddedFiles files ∧
      stored db' ⟨received.folder, localDeviceId, name⟩ =
        upsertAll received.folder localDeviceId (stored s.db) files
          ⟨received.folder, localDeviceId, name⟩

/-- What the handler of an `Index` writes changes no cached file but those it upserts. -/
theorem replaceIndices_cached {s' : BepState} (hend : RustM.endState
      ((BepProcessor.replaceIndices localDeviceId receivedIndex clientDeviceId).run s) = s')
    {key : FileKey} {t : Int64} (ht : s'.db.bepLocalCache.get key = some t) :
    s.db.bepLocalCache.get key = some t ∧
      (stored s'.db key = stored s.db key ∨
        key = ⟨receivedIndex.folder, localDeviceId, key.name⟩ ∧
          IndexUpserts s localDeviceId receivedIndex clientDeviceId s'.db key.name) := by
  have hreplace : CachedSame s.db
      (RustM.endState ((BepState.replaceIndex receivedIndex clientDeviceId).run s)).db :=
    replaceIndex_cachedSame
  have hsame : ∀ {db' : Database}, s'.db = db' → CachedSame s.db db' →
      s.db.bepLocalCache.get key = some t ∧
        (stored s'.db key = stored s.db key ∨
          key = ⟨receivedIndex.folder, localDeviceId, key.name⟩ ∧
            IndexUpserts s localDeviceId receivedIndex clientDeviceId s'.db key.name) := by
    rintro _ rfl h
    obtain ⟨hbefore, hstored⟩ := h key t ht
    exact ⟨hbefore, Or.inl hstored⟩
  unfold BepProcessor.replaceIndices at hend
  dsimp only at hend
  rw [EStateM.run_bind] at hend
  cases hrun : (BepState.replaceIndex receivedIndex clientDeviceId).run s with
  | error e s₁ =>
      rw [hrun] at hreplace hend
      exact hsame (congrArg BepState.db hend.symm) hreplace
  | ok u s₁ =>
  rw [hrun, RustM.endState_ok] at hreplace
  rw [hrun] at hend
  dsimp only at hend
  obtain ⟨s₂, hindex₂⟩ : ∃ s₂, (BepState.index receivedIndex.folder localDeviceId).run s₁ =
      .ok (some (known s₁ receivedIndex.folder localDeviceId)) s₂ := ⟨_, index_run _ _ _⟩
  obtain ⟨-, hdb₂, -⟩ := entry_of_index hindex₂
  rw [EStateM.run_bind, hindex₂] at hend
  dsimp only at hend
  rw [Rust.expect_some, EStateM.run_bind, RustM.run_lift_ok] at hend
  dsimp only at hend
  have hkept₂ : CachedSame s.db s₂.db := by
    rw [hdb₂]
    exact hreplace
  rw [EStateM.run_bind] at hend
  cases hdiff : diffOrPanic receivedIndex.folder receivedIndex
      (known s₁ receivedIndex.folder localDeviceId) with
  | error e =>
      rw [hdiff] at hend
      exact hsame (congrArg BepState.db hend.symm) hkept₂
  | ok diff =>
  rw [hdiff, RustM.run_lift_ok] at hend
  dsimp only at hend
  -- what comes after the upserts leaves the state
  have hend₃ : RustM.endState ((BepState.insertFileInfo receivedIndex.folder localDeviceId
      diff.newlyAddedFiles).run s₂) = s' := by
    rcases RustM.endState_bind hend with herror | ⟨_, s₃, hinsert, hlast⟩
    · exact herror
    · rw [hinsert]
      exact hlast
  obtain ⟨hcache, hstored | ⟨haccepted₂, files, hnumbered, hstored⟩⟩ :=
    insertFileInfo_cached diff.newlyAddedFiles hend₃
  · exact hsame rfl (hkept₂.trans (CachedSame.of_stored hcache hstored))
  rw [hcache] at ht
  obtain ⟨hbefore, hstored₂⟩ := hkept₂ key t ht
  refine ⟨hbefore, ?_⟩
  by_cases hkey : key.folder = receivedIndex.folder ∧ key.device = localDeviceId
  · obtain ⟨keyFolder, device, name⟩ := key
    obtain ⟨rfl, rfl⟩ := hkey
    refine Or.inr ⟨rfl, ?_⟩
    have hpeer : clientDeviceId ≠ device := by
      -- the files of this device would have been deleted with their rows
      rintro rfl
      have huncached := replaceIndex_uncached hrun name
      rw [hdb₂] at ht
      rw [AssocMap.contains_eq_false_iff, ht] at huncached
      cases huncached
    obtain ⟨haccepted, hindex, hentry⟩ := replaceIndex_eq_ok hpeer hrun
    have hlocal : ∀ k : FileKey, k.device = device → stored s₁.db k = stored s.db k := by
      have hend₁ := congrArg RustM.endState hrun
      exact fun k hk => replaceIndex_other hpeer hend₁ hk
    have hdiff := diffOrPanic_eq_ok hdiff
    rw [diffIndices_congr rfl (lastNamed_known hentry hlocal)] at hdiff
    refine ⟨hpeer, haccepted, diff, files, hdiff, ?_, hnumbered, ?_⟩
    · intro f hf
      have hmem := (haccepted₂ f hf).1
      exact ⟨by rwa [hdb₂, hindex] at hmem, (haccepted₂ f hf).2⟩
    · rw [hstored, upsertAll_apply, upsertAll_apply, hdb₂, hlocal _ rfl]
  · rw [hstored, upsertAll_of_other hkey]
    exact Or.inl hstored₂

/-- What the handler of an `IndexUpdate` writes replaces files. -/
theorem updateIndices_cachedSame : CachedSame s.db (RustM.endState
    ((BepProcessor.updateIndices localDeviceId receivedIndex clientDeviceId).run s)).db := by
  let R : BepState → BepState → Prop := fun s s' => CachedSame s.db s'.db
  have htrans : ∀ {s s' s''}, R s s' → R s' s'' → R s s'' := fun h h' => CachedSame.trans h h'
  have hlift : ∀ {α : Type} (x : Rust α) (s : BepState),
      R s (RustM.endState (EStateM.run (liftM x : EStateM Fault BepState α) s)) := by
    intro α x s
    rw [RustM.endState_lift]
    exact CachedSame.refl s.db
  unfold BepProcessor.updateIndices
  dsimp only
  refine RustM.endState_bind_rel R htrans index_cachedSame fun _ s₁ _ => ?_
  refine RustM.endState_bind_rel R htrans (hlift _ s₁) fun _ s₂ _ => ?_
  refine RustM.endState_bind_rel R htrans (hlift _ s₂) fun _ s₃ _ => ?_
  refine RustM.endState_bind_rel R htrans (rmReplaceFileInfo_cachedSame _) fun _ s₄ _ => ?_
  refine RustM.endState_bind_rel R htrans index_cachedSame fun _ s₅ _ => ?_
  refine RustM.endState_bind_rel R htrans (hlift _ s₅) fun _ s₆ _ => ?_
  refine RustM.endState_bind_rel R htrans index_cachedSame fun _ s₇ _ => ?_
  refine RustM.endState_bind_rel R htrans (hlift _ s₇) fun _ s₈ _ => ?_
  refine RustM.endState_bind_rel R htrans (hlift _ s₈) fun _ s₉ _ => ?_
  refine RustM.endState_bind_rel R htrans (rmReplaceFileInfo_cachedSame _) fun _ s₁₀ _ => ?_
  exact CachedSame.refl _

end Sections

/-! ## Turns -/

section Turns

variable {hash : String → ℕ → ℕ → UInt64} {sha256 : Bytes → Bytes}
  {debugRequest : Request → String}

/-- Marking a block leaves the cached files. -/
theorem updateBlockStorageState_cachedSame (requestId : Int32) (deviceId : DeviceId)
    (s : BepState) : CachedSame s.db
    (RustM.endState ((BepState.updateBlockStorageState requestId deviceId).run s)).db := by
  rcases updateBlockStorageState_run requestId deviceId s with ⟨e, hrun⟩ | ⟨r, status, -, hrun⟩
  · rw [hrun]
    exact CachedSame.refl s.db
  · rw [hrun]
    exact CachedSame.of_stored rfl (stored_setStorageStatus _ _)

/-- So does recording locations. -/
theorem updateFileLocations_cachedSame (folder : String) (deviceId : DeviceId) (fileName : String)
    (locations : List (String × String)) (s : BepState) : CachedSame s.db
    (RustM.endState ((BepState.updateFileLocations folder deviceId fileName locations).run s)).db := by
  rw [BepState.updateFileLocations, EStateM.run_bind, RustM.run_getThe]
  dsimp only
  rw [EStateM.run_bind]
  cases hwrite : BepState.insertLocations ⟨folder, deviceId, fileName⟩ locations s.db with
  | error e => exact CachedSame.refl s.db
  | ok tx =>
      exact CachedSame.of_stored (insertLocations_localCache hwrite) (stored_insertLocations hwrite)

/-- A turn of the handler of a response keeps the cache and its files. -/
theorem stateAfter_cachedSame (h : ResponseHandler) (p : BepProcessor) :
    CachedSame p.state.db (stateAfter h p).db := by
  unfold stateAfter
  split
  · exact updateBlockStorageState_cachedSame _ _ p.state
  · exact updateFileLocations_cachedSame _ _ _ _ p.state
  · exact CachedSame.of_stored rfl rfl
  · rw [BepState.removeRequest, onQueue_db]
    exact CachedSame.refl p.state.db
  · exact CachedSame.refl p.state.db

/-- The task is to write an `Index` that upserts the file. -/
def UpsertedBy (task : ServerTask) (p : BepProcessor) (db' : Database) (key : FileKey) : Prop :=
  ∃ h received, task = .index h ∧ h.pc = .writeIndices ∧ h.message = .index received ∧
    key = ⟨received.folder, p.config.localDeviceId, key.name⟩ ∧
    IndexUpserts p.state p.config.localDeviceId received h.clientDeviceId db' key.name

/-- A turn of a task changes no cached file but those an `Index` upserts. -/
theorem act_cached (task : ServerTask) (p : BepProcessor) (outcome : TurnOutcome) {key : FileKey}
    {t : Int64} (ht : (task.act hash sha256 debugRequest outcome p).2.state.db.bepLocalCache.get key =
      some t) :
    p.state.db.bepLocalCache.get key = some t ∧
      (stored (task.act hash sha256 debugRequest outcome p).2.state.db key =
          stored p.state.db key ∨
        UpsertedBy task p (task.act hash sha256 debugRequest outcome p).2.state.db key) := by
  have hkept : ∀ {db' : Database}, (task.act hash sha256 debugRequest outcome p).2.state.db = db' →
      CachedSame p.state.db db' → p.state.db.bepLocalCache.get key = some t ∧
        (stored (task.act hash sha256 debugRequest outcome p).2.state.db key =
            stored p.state.db key ∨
          UpsertedBy task p (task.act hash sha256 debugRequest outcome p).2.state.db key) := by
    rintro _ rfl h
    obtain ⟨hbefore, hstored⟩ := h key t ht
    exact ⟨hbefore, Or.inl hstored⟩
  cases task with
  | index h =>
      cases hpc : h.pc with
      | writeIndices =>
          have hact : (ServerTask.act hash sha256 debugRequest outcome (.index h) p).2.state =
              RustM.endState ((h.writeIndices p.config.localDeviceId).run p.state) :=
            congrArg BepProcessor.state (act_writeIndices p hpc).1
          cases hmessage : h.message with
          | index received =>
              rw [IndexHandler.writeIndices, hmessage] at hact
              rw [hact] at ht ⊢
              obtain ⟨hbefore, hstored | ⟨hkey, hupserts⟩⟩ := replaceIndices_cached rfl ht
              · exact ⟨hbefore, Or.inl hstored⟩
              · exact ⟨hbefore, Or.inr ⟨h, received, rfl, hpc, hmessage, hkey, hupserts⟩⟩
          | indexUpdate received =>
              rw [IndexHandler.writeIndices, hmessage] at hact
              exact hkept (congrArg BepState.db hact) updateIndices_cachedSame
      | enqueue blocks =>
          have hact : (ServerTask.act hash sha256 debugRequest outcome (.index h) p).2 =
              _ := (act_enqueue p hpc).1
          refine hkept (congrArg (fun p : BepProcessor => p.state.db) hact) ?_
          dsimp only
          rw [storeOutgoingRequests_db]
          exact CachedSame.refl p.state.db
      | returned =>
          have hact : (ServerTask.act hash sha256 debugRequest outcome (.index h) p).2 = p := by
            show (h.act p).2 = p
            rw [IndexHandler.act, hpc]
          exact hkept (congrArg (fun p : BepProcessor => p.state.db) hact) (CachedSame.refl _)
      | panicked fault =>
          have hact : (ServerTask.act hash sha256 debugRequest outcome (.index h) p).2 = p := by
            show (h.act p).2 = p
            rw [IndexHandler.act, hpc]
          exact hkept (congrArg (fun p : BepProcessor => p.state.db) hact) (CachedSame.refl _)
  | response h =>
      have hstate : (ServerTask.act hash sha256 debugRequest outcome (.response h) p).2.state =
          stateAfter h p := (act_state h p outcome).1
      exact hkept (congrArg BepState.db hstate) (stateAfter_cachedSame h p)
  | connection maxPendingRequests maxTotalPendingRequestsSize =>
      have hact : (ServerTask.act hash sha256 debugRequest outcome
          (.connection maxPendingRequests maxTotalPendingRequestsSize) p).2 =
          RustM.endState ((BepProcessor.throttledRequests maxPendingRequests
            maxTotalPendingRequestsSize).run p) := rfl
      refine hkept (congrArg (fun p : BepProcessor => p.state.db) hact) ?_
      rw [BepProcessor.throttledRequests, BepProcessor.onState_run]
      dsimp only
      rw [BepState.updatePendingRequests, onQueue_db]
      exact CachedSame.refl p.state.db

/-- It keeps the cache, when the files it brings to this device spare it. -/
theorem act_cacheKept (task : ServerTask) (p : BepProcessor) (outcome : TurnOutcome)
    (hspares : ∀ h received, task = .index h → h.pc = .writeIndices →
      h.message = .index received →
      IndexSparesCached p.state p.config.localDeviceId received h.clientDeviceId) :
    CacheKept p.state.db (task.act hash sha256 debugRequest outcome p).2.state.db := by
  intro key t ht
  obtain ⟨hbefore, hstored | ⟨h, received, htask, hpc, hmessage, hkey, hupserts⟩⟩ :=
    act_cached task p outcome ht
  · rw [recorded, hstored, recorded]
    exact ⟨hbefore, rfl⟩
  · obtain ⟨hpeer, haccepted, diff, files, hdiff, haccepted', hnumbered, hstored⟩ := hupserts
    have hspares := hspares h received htask hpc hmessage hpeer haccepted diff hdiff haccepted'
    have hcached := AssocMap.contains_iff.mpr ⟨t, hbefore⟩
    rw [hkey] at hcached ⊢
    exact ⟨hkey ▸ hbefore, recorded_of_spares hspares hnumbered hcached hstored⟩

end Turns

/-! ## Calls of the file system -/

section Calls

variable {fs : GrizolFS Database} {debugFiles : List (String × String) → String}

/-- A call on the state changes the state only. -/
theorem fs_onState_run {ν α : Type} (x : RustM BepState α) (fs : GrizolFS ν) :
    (GrizolFS.onState x).run fs = match x.run fs.state with
      | .ok a s => .ok a { fs with state := s }
      | .error e s => .error e { fs with state := s } := rfl

/-- A section of a call changes the state and nothing else. -/
theorem fs_onState_endState {ν α : Type} (x : RustM BepState α) (fs : GrizolFS ν) :
    RustM.endState ((GrizolFS.onState x).run fs) =
      { fs with state := RustM.endState (x.run fs.state) } := by
  rw [fs_onState_run]
  cases x.run fs.state <;> rfl

/-- What a rename may do: it keeps the cache, and copies nothing to it. -/
def KeepsCache (fs fs' : GrizolFS Database) : Prop :=
  CacheKept fs.state.db fs'.state.db ∧ fs'.copied = fs.copied

/-- A cache that is kept twice is kept. -/
theorem KeepsCache.trans {fs fs' fs'' : GrizolFS Database} (h : KeepsCache fs fs')
    (h' : KeepsCache fs' fs'') : KeepsCache fs fs'' :=
  ⟨h.1.trans h'.1, h'.2.trans h.2⟩

/-- Without a change the cache is kept. -/
theorem KeepsCache.refl (fs : GrizolFS Database) : KeepsCache fs fs := ⟨CacheKept.refl _, rfl⟩

/-- A call on the state that keeps the rows keeps the cache. -/
theorem keepsCache_onState {α : Type} {x : RustM BepState α}
    (h : CacheKept fs.state.db (RustM.endState (x.run fs.state)).db) :
    KeepsCache fs (RustM.endState ((GrizolFS.onState x).run fs)) := by
  rw [fs_onState_endState]
  exact ⟨h, rfl⟩

/-- A pure computation keeps the cache. -/
theorem keepsCache_lift {α : Type} (x : Rust α) : KeepsCache fs
    (RustM.endState (EStateM.run (liftM x : EStateM Fault (GrizolFS Database) α) fs)) := by
  rw [RustM.endState_lift]
  exact KeepsCache.refl fs

/-- So does a command that is logged. -/
theorem keepsCache_logCommands (commands : List Ran) :
    KeepsCache fs (RustM.endState ((GrizolFS.logCommands commands).run fs)) :=
  ⟨CacheKept.refl _, rfl⟩

/-- A rename in memory keeps the cache. -/
theorem renameMem_keepsCache (file : GrizolFileInfo) (destFileName : String)
    (outcomes : RenameOutcomes) : KeepsCache fs
      (RustM.endState ((GrizolFS.renameMem file destFileName outcomes).run fs)) := by
  rw [GrizolFS.renameMem, EStateM.run_bind, RustM.run_getThe]
  dsimp only
  refine RustM.endState_bind_rel KeepsCache KeepsCache.trans (keepsCache_logCommands _)
    fun _ fs₁ _ => ?_
  split
  · exact KeepsCache.refl fs₁
  · refine RustM.endState_bind_rel KeepsCache KeepsCache.trans
      (keepsCache_onState (mvFileInfo_cachedSame _ _ _).cacheKept) fun _ fs₂ _ => ?_
    refine RustM.endState_bind_rel KeepsCache KeepsCache.trans (keepsCache_logCommands _)
      fun _ fs₃ _ => ?_
    refine RustM.endState_bind_rel KeepsCache KeepsCache.trans (keepsCache_lift _) fun _ fs₄ _ => ?_
    exact KeepsCache.refl fs₄

/-- What the statements of a rename in the database do to the tables, it does. -/
theorem renameDb_rel {R : Database → Database → Prop} (hrefl : ∀ db, R db db)
    (htrans : ∀ {db db' db''}, R db db' → R db' db'' → R db db'')
    {origFolder origName destFolder destName : String} {outcomes : RenameOutcomes}
    (hinsert : ∀ file res,
      fs.state.fileInfo origFolder fs.config.localDeviceId origName = some file →
      GrizolFS.backendLoop fs.config.remoteBaseDir destFolder destName outcomes.copy 0
        fs.storageBackends = .ok res →
      R fs.state.db (RustM.endState ((BepState.insertFileInfo destFolder fs.config.localDeviceId
        [{ file with name := destName }]).run fs.state)).db)
    (hlocations : ∀ folder deviceId name locations (s : BepState), R s.db (RustM.endState
      ((BepState.updateFileLocations folder deviceId name locations).run s)).db)
    (hremove : ∀ folder deviceId name (s : BepState), R s.db (RustM.endState
      ((BepState.rmFileInfo folder deviceId name).run s)).db) {fs' : GrizolFS Database}
    (hend : RustM.endState ((GrizolFS.renameDb origFolder origName destFolder destName
      outcomes).run fs) = fs') :
    R fs.state.db fs'.state.db ∧ fs'.copied = fs.copied := by
  let S : GrizolFS Database → GrizolFS Database → Prop := fun fs fs' =>
    R fs.state.db fs'.state.db ∧ fs'.copied = fs.copied
  have hSrefl : ∀ fs, S fs fs := fun fs => ⟨hrefl _, rfl⟩
  have hStrans : ∀ {fs fs' fs''}, S fs fs' → S fs' fs'' → S fs fs'' :=
    fun h h' => ⟨htrans h.1 h'.1, h'.2.trans h.2⟩
  have hlog : ∀ commands fs, S fs (RustM.endState ((GrizolFS.logCommands commands).run fs)) :=
    fun _ fs => ⟨hrefl _, rfl⟩
  have hsection : ∀ {α : Type} {x : RustM BepState α} {fs : GrizolFS Database},
      R fs.state.db (RustM.endState (x.run fs.state)).db →
      S fs (RustM.endState ((GrizolFS.onState x).run fs)) := by
    intro α x fs h
    rw [fs_onState_endState]
    exact ⟨h, rfl⟩
  show S fs fs'
  rw [← hend, GrizolFS.renameDb, EStateM.run_bind, RustM.run_getThe]
  dsimp only
  rw [EStateM.run_bind]
  cases hfile : fs.state.fileInfo origFolder fs.config.localDeviceId origName with
  | none => exact hSrefl fs
  | some file =>
  rw [Rust.unwrap_some, RustM.run_lift_ok]
  dsimp only
  refine RustM.endState_bind_rel S hStrans (hlog _ _) fun _ fs₁ hlogged => ?_
  obtain ⟨-, rfl⟩ := EStateM.Result.ok.inj hlogged
  rw [EStateM.run_bind]
  cases hres : GrizolFS.backendLoop fs.config.remoteBaseDir destFolder destName outcomes.copy 0
      fs.storageBackends with
  | error e => exact hSrefl _
  | ok res =>
  rw [RustM.run_lift_ok]
  dsimp only
  refine RustM.endState_bind_rel S hStrans (hsection (hinsert file res hfile hres))
    fun _ fs₁ _ => ?_
  refine RustM.endState_bind_rel S hStrans (hsection (hlocations _ _ _ _ _)) fun _ fs₂ _ => ?_
  refine RustM.endState_bind_rel S hStrans (hsection (hremove _ _ _ _)) fun _ fs₃ _ => ?_
  refine RustM.endState_bind_rel S hStrans (hlog _ _) fun _ fs₄ _ => ?_
  refine RustM.endState_bind_rel S hStrans ?_ fun _ fs₅ _ => hSrefl fs₅
  rw [RustM.endState_lift]
  exact hSrefl fs₄

/-- A rename in the database keeps it when the file it writes spares it. -/
theorem renameDb_keepsCache {origFolder origName destFolder destName : String}
    {outcomes : RenameOutcomes}
    (hspares : ∀ file res,
      fs.state.fileInfo origFolder fs.config.localDeviceId origName = some file →
      GrizolFS.backendLoop fs.config.remoteBaseDir destFolder destName outcomes.copy 0
        fs.storageBackends = .ok res →
      SparesCached fs.state.db destFolder fs.config.localDeviceId
        [{ file with name := destName }]) : KeepsCache fs
      (RustM.endState ((GrizolFS.renameDb origFolder origName destFolder destName
        outcomes).run fs)) :=
  renameDb_rel CacheKept.refl CacheKept.trans
    (fun file res hfile hres => insertFileInfo_cacheKept fun _ => hspares file res hfile hres)
    (fun _ _ _ _ _ => (updateFileLocations_cachedSame _ _ _ _ _).cacheKept)
    (fun _ _ _ _ => (rmFileInfo_cachedSame _).cacheKept) rfl

/-- The path of a file in the read cache. -/
abbrev pathOf (fs : GrizolFS Database) (file : GrizolFileInfo) : String :=
  GrizolFS.cachePath fs.readCache file.folder file.fileInfo.name

/-- What a read does before it writes its row: it takes rows from the cache, and may copy to
one path of its directory. -/
structure Fills (path : String) (content : Database) (fs fs' : GrizolFS Database) : Prop where
  stored : stored fs'.state.db = stored fs.state.db
  rows : ∀ key timestampAdded, fs'.state.db.bepLocalCache.get key = some timestampAdded →
    fs.state.db.bepLocalCache.get key = some timestampAdded
  copied : fs'.copied = fs.copied ∨ fs'.copied = fs.copied.insert path content

/-- It may do nothing. -/
theorem Fills.refl (path : String) (content : Database) (fs : GrizolFS Database) :
    Fills path content fs fs := ⟨rfl, fun _ _ h => h, Or.inl rfl⟩

/-- `free_read_cache` deletes rows of the cache, or panics before. -/
theorem freeReadCache_run (cacheSize neededBytes : ℕ) (s : BepState) :
    (∃ e, (BepState.freeReadCache cacheSize neededBytes).run s = .error e s) ∨
      ∃ removedFiles p, (BepState.freeReadCache cacheSize neededBytes).run s =
        .ok (.ok removedFiles) { s with db := s.db.deleteLocalCache p } := by
  rw [BepState.freeReadCache, EStateM.run_bind, RustM.run_getThe]
  dsimp only
  rw [EStateM.run_bind]
  cases BepState.usedBytes 0 (BepState.cachedFiles s.db) with
  | error e => exact Or.inl ⟨e, rfl⟩
  | ok used =>
  rw [RustM.run_lift_ok]
  dsimp only
  rw [EStateM.run_bind]
  cases Rust.sub cacheSize used with
  | error e => exact Or.inl ⟨e, rfl⟩
  | ok available =>
  rw [RustM.run_lift_ok]
  dsimp only
  rw [EStateM.run_bind]
  cases BepState.filesToRemove neededBytes available (BepState.cachedFiles s.db) with
  | error e => exact Or.inl ⟨e, rfl⟩
  | ok removed => exact Or.inr ⟨_, _, rfl⟩

/-- The copy to the read cache: an error, or what its last command does. -/
theorem cpRemoteToReadCache_run (file : GrizolFileInfo) (fileLocations : List FileLocation)
    (rclone : List String → Except String Output) (content : Database)
    (fs : GrizolFS Database) :
    (∃ e, (GrizolFS.cpRemoteToReadCache file fileLocations rclone content).run fs =
        .ok (.error e) fs) ∨
      ∃ fileLocation listed output, GrizolFS.preferredLocation fileLocations = some fileLocation ∧
        rclone (GrizolFS.rcloneCommand fs.config ["ls", fileLocation.location]) = .ok listed ∧
        listed.stdout ≠ [] ∧
        rclone (GrizolFS.rcloneCommand fs.config ["copyto", fileLocation.location,
          pathOf fs file]) = .ok output ∧
        (GrizolFS.cpRemoteToReadCache file fileLocations rclone content).run fs =
          .ok (.ok (pathOf fs file)) (if output.success = true then
            { fs with copied := fs.copied.insert (pathOf fs file) content } else fs) := by
  rw [GrizolFS.cpRemoteToReadCache, EStateM.run_bind, RustM.run_getThe]
  dsimp only
  cases hlocation : GrizolFS.preferredLocation fileLocations with
  | none => exact Or.inl ⟨_, rfl⟩
  | some fileLocation =>
  dsimp only
  cases hlisted : rclone (GrizolFS.rcloneCommand fs.config ["ls", fileLocation.location]) with
  | error e => exact Or.inl ⟨_, rfl⟩
  | ok listed =>
  dsimp only
  split_ifs with hstdout
  · exact Or.inl ⟨_, rfl⟩
  cases hcopied : rclone (GrizolFS.rcloneCommand fs.config ["copyto", fileLocation.location,
      pathOf fs file]) with
  | error e => exact Or.inl ⟨_, rfl⟩
  | ok output =>
  refine Or.inr ⟨fileLocation, listed, output, rfl, hlisted, hstdout, hcopied, ?_⟩
  dsimp only
  split_ifs <;> rfl

/-- The copy to the read cache leaves the state. -/
theorem cpRemoteToReadCache_state (file : GrizolFileInfo) (fileLocations : List FileLocation)
    (rclone : List String → Except String Output) (content : Database) (fs : GrizolFS Database) :
    ∃ result copied, (GrizolFS.cpRemoteToReadCache file fileLocations rclone content).run fs =
      .ok result { fs with copied := copied } := by
  rcases cpRemoteToReadCache_run file fileLocations rclone content fs with
    ⟨e, hrun⟩ | ⟨_, _, output, -, -, -, -, hrun⟩
  · exact ⟨.error e, fs.copied, hrun⟩
  · split_ifs at hrun
    · exact ⟨_, _, hrun⟩
    · exact ⟨_, fs.copied, hrun⟩

/-- A read of a file that is not in the cache fills it. A file that is recorded was copied, if
the read goes on. -/
theorem fillReadCache_run (file : GrizolFileInfo) (outcomes : ReadOutcomes) (content : Database) :
    Fills (pathOf fs file) content fs
        (RustM.endState ((GrizolFS.fillReadCache debugFiles file outcomes content).run fs)) ∧
      (CopySucceeds fs file outcomes →
        fs.state.isFileInReadCache fs.config.localDeviceId file.folder file.fileInfo.name = false →
        ∀ fs', (GrizolFS.fillReadCache debugFiles file outcomes content).run fs =
            .ok (.ok ()) fs' →
          fs.state.db.bepFileInfo.contains
            ⟨file.folder, fs.config.localDeviceId, file.fileInfo.name⟩ = true →
          fs'.copied = fs.copied.insert (pathOf fs file) content) := by
  rw [GrizolFS.fillReadCache, EStateM.run_bind, RustM.run_getThe]
  dsimp only
  rw [EStateM.run_bind]
  cases hneeded : BepState.u64 file.fileInfo.size with
  | error e => exact ⟨Fills.refl _ _ fs, fun _ _ fs' h => by cases h⟩
  | ok neededBytes =>
  rw [RustM.run_lift_ok]
  dsimp only
  rw [EStateM.run_bind, fs_onState_run]
  rcases freeReadCache_run fs.readCache.readCacheSize neededBytes fs.state with
    ⟨e, hfree⟩ | ⟨removedFiles, p, hfree⟩
  · rw [hfree]
    exact ⟨Fills.refl _ _ fs, fun _ _ fs' h => by cases h⟩
  rw [hfree]
  dsimp only
  have hfreed : ∀ copied, copied = fs.copied ∨ copied = fs.copied.insert (pathOf fs file) content →
      Fills (pathOf fs file) content fs
        { fs with state := { fs.state with db := fs.state.db.deleteLocalCache p }
                  copied := copied } := by
    intro copied hcopied
    refine ⟨rfl, ?_, hcopied⟩
    intro key t ht
    rw [Database.deleteLocalCache, AssocMap.get_retain, Option.filter_eq_some_iff] at ht
    exact ht.1
  cases hremove : outcomes.remove with
  | error e => exact ⟨hfreed _ (Or.inl rfl), fun _ _ fs' h => by cases h⟩
  | ok u =>
  dsimp only
  rw [EStateM.run_bind]
  rcases cpRemoteToReadCache_run file file.fileLocations outcomes.rclone content
      { fs with state := { fs.state with db := fs.state.db.deleteLocalCache p } } with
    ⟨e, hcopy⟩ | ⟨fileLocation, listed, output, hlocation, hlisted, hstdout, houtput, hcopy⟩
  · rw [hcopy]
    exact ⟨hfreed _ (Or.inl rfl), fun _ _ fs' h => by cases h⟩
  rw [hcopy]
  dsimp only
  split_ifs with hsuccess
  · refine ⟨hfreed _ (Or.inr rfl), ?_⟩
    intro _ _ fs' h _
    obtain ⟨-, rfl⟩ := EStateM.Result.ok.inj h
    rfl
  · refine ⟨hfreed _ (Or.inl rfl), ?_⟩
    intro hsucceeds huncached fs' _ hfile
    exact absurd (hsucceeds huncached hfile neededBytes _ _ hneeded hfree hremove fileLocation
      listed hlocation hlisted hstdout output houtput) hsuccess

/-- Rows with the same content are there or not, as before. -/
theorem contains_of_stored {db db' : Database} (h : stored db' = stored db) (key : FileKey) :
    db'.bepFileInfo.contains key = db.bepFileInfo.contains key := by
  have hsome : ∀ db : Database, db.bepFileInfo.contains key = (stored db key).isSome := by
    intro db
    rw [stored, Option.isSome_map, AssocMap.contains]
  rw [hsome, hsome, h]

/-- The row of a read: the file must be recorded. -/
theorem updateReadCache_run (deviceId : DeviceId) (folder file : String) (now : Int64)
    (s : BepState) :
    (∃ e, (BepState.updateReadCache deviceId folder file now).run s = .error e s) ∨
      s.db.bepFileInfo.contains ⟨folder, deviceId, file⟩ = true ∧
        ∃ tx, (BepState.updateReadCache deviceId folder file now).run s =
            .ok () { s with db := tx } ∧ stored tx = stored s.db ∧
          tx.bepLocalCache = (s.db.bepLocalCache.entryOrInsert ⟨folder, deviceId, file⟩ now).1 := by
  rw [BepState.updateReadCache, EStateM.run_bind, RustM.run_getThe]
  dsimp only
  rw [EStateM.run_bind]
  unfold Database.insertLocalCache
  split_ifs with hfile
  · exact Or.inr ⟨hfile, _, rfl, rfl, rfl⟩
  · exact Or.inl ⟨_, rfl⟩

/-- What a whole read does: a row that is new stands for a copy. -/
structure Reads (key : FileKey) (path : String) (content : Database)
    (fs fs' : GrizolFS Database) : Prop where
  stored : stored fs'.state.db = stored fs.state.db
  rows : ∀ k timestampAdded, fs'.state.db.bepLocalCache.get k = some timestampAdded →
    (∃ t, fs.state.db.bepLocalCache.get k = some t) ∨
      k = key ∧ fs'.copied = fs.copied.insert path content
  copied : fs'.copied = fs.copied ∨ fs'.copied = fs.copied.insert path content

/-- A read that ends there adds no row. -/
theorem Fills.reads {key : FileKey} {path : String} {content : Database}
    {fs' : GrizolFS Database} (h : Fills path content fs fs') : Reads key path content fs fs' :=
  ⟨h.stored, fun k t ht => Or.inl ⟨t, h.rows k t ht⟩, h.copied⟩

/-- The row that is written last. -/
theorem reads_updateReadCache {key : FileKey} {path : String} {content : Database}
    {fs₁ : GrizolFS Database} {now : Int64} (h : Fills path content fs fs₁)
    (hcopied : fs.state.db.bepLocalCache.contains key = true ∨
      (fs₁.state.db.bepFileInfo.contains key = true → fs₁.copied = fs.copied.insert path content)) :
    Reads key path content fs (RustM.endState
      ((GrizolFS.onState (BepState.updateReadCache key.device key.folder key.name now)).run fs₁)) := by
  rw [fs_onState_endState]
  rcases updateReadCache_run key.device key.folder key.name now fs₁.state with
    ⟨e, hrun⟩ | ⟨hfile, tx, hrun, hstored, hcache⟩
  · rw [hrun]
    exact h.reads
  rw [hrun]
  refine ⟨hstored.trans h.stored, ?_, h.copied⟩
  intro k t ht
  dsimp only [RustM.endState_ok] at ht ⊢
  rw [hcache, AssocMap.get_entryOrInsert] at ht
  split_ifs at ht with hk
  · subst hk
    rcases hcopied with hcached | hcopied
    · exact Or.inl (AssocMap.contains_iff.mp hcached)
    · exact Or.inr ⟨rfl, hcopied hfile⟩
  · exact Or.inl ⟨t, h.rows k t ht⟩

/-- A read writes the row of a file that is cached or has just been copied, and goes no further
than the copy where that failed. -/
theorem readFromLocalCache_cases (file : GrizolFileInfo) (outcomes : ReadOutcomes)
    (content : Database) {fs' : GrizolFS Database}
    (hend : RustM.endState
      ((GrizolFS.readFromLocalCache debugFiles file outcomes content).run fs) = fs') :
    let written (fs₁ : GrizolFS Database) := RustM.endState
      ((GrizolFS.onState (BepState.updateReadCache fs.config.localDeviceId file.folder
        file.fileInfo.name outcomes.now)).run fs₁)
    fs.state.isFileInReadCache fs.config.localDeviceId file.folder file.fileInfo.name = true ∧
        written fs = fs' ∨
      fs.state.isFileInReadCache fs.config.localDeviceId file.folder file.fileInfo.name = false ∧
        (RustM.endState ((GrizolFS.fillReadCache debugFiles file outcomes content).run fs) = fs' ∨
          ∃ fs₁, (GrizolFS.fillReadCache debugFiles file outcomes content).run fs =
            .ok (.ok ()) fs₁ ∧ written fs₁ = fs') := by
  intro written
  rw [GrizolFS.readFromLocalCache, EStateM.run_bind, RustM.run_getThe] at hend
  dsimp only at hend
  rw [EStateM.run_bind] at hend
  cases hcached : fs.state.isFileInReadCache fs.config.localDeviceId file.folder
      file.fileInfo.name with
  | true =>
      rw [hcached, if_pos rfl, EStateM.run_pure] at hend
      dsimp only at hend
      rw [RustM.endState_bind_pure] at hend
      exact Or.inl ⟨rfl, hend⟩
  | false =>
      rw [hcached, if_neg (by simp)] at hend
      refine Or.inr ⟨rfl, ?_⟩
      cases hrun : (GrizolFS.fillReadCache debugFiles file outcomes content).run fs with
      | error e fs₁ =>
          rw [hrun] at hend
          exact Or.inl hend
      | ok result fs₁ =>
          rw [hrun] at hend
          cases result with
          | error e => exact Or.inl hend
          | ok u =>
              dsimp only at hend
              rw [RustM.endState_bind_pure] at hend
              exact Or.inr ⟨fs₁, rfl, hend⟩

/-- A read whose copy succeeds leaves a row only with a copy behind it. -/
theorem readFromLocalCache_reads {file : GrizolFileInfo} {outcomes : ReadOutcomes}
    (hsucceeds : CopySucceeds fs file outcomes) (content : Database) :
    Reads ⟨file.folder, fs.config.localDeviceId, file.fileInfo.name⟩ (pathOf fs file) content fs
      (RustM.endState
        ((GrizolFS.readFromLocalCache debugFiles file outcomes content).run fs)) := by
  obtain ⟨hfills, hcopied⟩ : Fills (pathOf fs file) content fs (RustM.endState
      ((GrizolFS.fillReadCache debugFiles file outcomes content).run fs)) ∧ _ :=
    fillReadCache_run file outcomes content
  rcases readFromLocalCache_cases file outcomes content (Eq.refl (RustM.endState
      ((GrizolFS.readFromLocalCache debugFiles file outcomes content).run fs))) with
    ⟨hcached, hend⟩ | ⟨hcached, hend | ⟨fs₁, hrun, hend⟩⟩
  · rw [← hend]
    exact reads_updateReadCache (Fills.refl _ _ fs) (Or.inl hcached)
  · rw [← hend]
    exact hfills.reads
  · rw [hrun, RustM.endState_ok] at hfills
    rw [← hend]
    refine reads_updateReadCache hfills (Or.inr fun hfile => ?_)
    rw [contains_of_stored hfills.stored] at hfile
    exact hcopied hsucceeds hcached fs₁ hrun hfile

end Calls

/-! ## Runs -/

section Runs

open CacheNode

variable {ι : Type} [DecidableEq ι] {hash : String → ℕ → ℕ → UInt64} {sha256 : Bytes → Bytes}
  {debugRequest : Request → String} {debugFiles : List (String × String) → String}
  {readCache : ReadCacheConfig} {storageBackends : List String} {n n' : CacheNode ι}

omit [DecidableEq ι] in
/-- Where the cache is kept and nothing is copied, no entry goes stale, and what is replaced has
no row. -/
theorem noStaleEntry_of_cacheKept (hkept : CacheKept n.state.db n'.state.db)
    (hcopied : n'.copied = n.copied) (e : CacheEvent ι) :
    (NoStaleEntry readCache n → NoStaleEntry readCache n') ∧ DropsReplaced n e n' := by
  constructor
  · intro h key t ht
    obtain ⟨ht, hsame⟩ := hkept key t ht
    obtain ⟨db, hdb, hrecorded⟩ := h key t ht
    exact ⟨db, by rw [hcopied, hdb], hrecorded.trans hsame.symm⟩
  · intro key hne
    rw [← AssocMap.contains_eq_false_iff, Bool.eq_false_iff]
    intro hcontains
    obtain ⟨t, ht⟩ := AssocMap.contains_iff.mp hcontains
    exact hne (hkept key t ht).2

omit [DecidableEq ι] in
/-- Nor where a read leaves a row only with a copy behind it. -/
theorem noStaleEntry_of_reads {fs fs' : GrizolFS Database} {name folder : String}
    {deviceId : DeviceId} (hreads : Reads ⟨folder, deviceId, name⟩
      (GrizolFS.cachePath readCache folder name) n.state.db fs fs')
    (hstate : fs.state = n.state) (hcopied : fs.copied = n.copied)
    (hstate' : n'.state = fs'.state) (hcopied' : n'.copied = fs'.copied) (e : CacheEvent ι) :
    (NoStaleEntry readCache n → NoStaleEntry readCache n') ∧ DropsReplaced n e n' := by
  have hrecorded : recorded n'.state.db = recorded n.state.db := by
    funext key
    rw [recorded, hstate', hreads.stored, hstate, recorded]
  constructor
  · intro h key t ht
    rw [hrecorded]
    -- a path that was copied to holds the tables of now
    have hnew : n'.copied =
        n.copied.insert (GrizolFS.cachePath readCache folder name) n.state.db →
        GrizolFS.cachePath readCache key.folder key.name =
          GrizolFS.cachePath readCache folder name →
        ∃ db, n'.copied.get (GrizolFS.cachePath readCache key.folder key.name) = some db ∧
          recorded db key = recorded n.state.db key := by
      intro hinsert hpath
      refine ⟨n.state.db, ?_, rfl⟩
      rw [hinsert, hpath, AssocMap.get_insert_self]
    rw [hstate'] at ht
    rcases hreads.rows key t ht with ⟨t₀, hbefore⟩ | ⟨rfl, hinsert⟩
    · rw [hstate] at hbefore
      obtain ⟨db, hdb, hsame⟩ := h key t₀ hbefore
      rcases hreads.copied with hunchanged | hinsert
      · exact ⟨db, by rw [hcopied', hunchanged, hcopied, hdb], hsame⟩
      · rw [← hcopied', hcopied] at hinsert
        by_cases hpath : GrizolFS.cachePath readCache key.folder key.name =
            GrizolFS.cachePath readCache folder name
        · exact hnew hinsert hpath
        · exact ⟨db, by rw [hinsert, AssocMap.get_insert_of_ne _ _ hpath, hdb], hsame⟩
    · rw [← hcopied', hcopied] at hinsert
      exact hnew hinsert rfl
  · intro key hne
    exact absurd (congrFun hrecorded key) hne

/-- One step: no entry goes stale, and what is replaced has no row. -/
theorem noStaleEntry_step {e : CacheEvent ι} (hfresh : KeepsFresh readCache storageBackends n e)
    (h : step readCache storageBackends hash sha256 debugRequest debugFiles n e = some n') :
    (NoStaleEntry readCache n → NoStaleEntry readCache n') ∧ DropsReplaced n e n' := by
  cases e with
  | turn t =>
      rw [CacheNode.step, Option.map_eq_some_iff] at h
      obtain ⟨server, hstep, hserver⟩ := h
      have hshared := congrArg Processes.shared (Processes.step_eq_some.mp hstep)
      have hkept : CacheKept n.state.db n'.state.db := by
        rw [← hserver, CacheNode.state, CacheNode.state, hshared]
        exact act_cacheKept (n.server.process t.process) n.server.shared t.outcome hfresh
      have hcopied : n'.copied = n.copied := by rw [← hserver]
      exact noStaleEntry_of_cacheKept hkept hcopied _
  | read file outcomes =>
      obtain rfl := Option.some.inj h
      exact noStaleEntry_of_reads (readFromLocalCache_reads hfresh n.state.db) rfl rfl rfl rfl _
  | renameMem file destFileName outcomes =>
      obtain rfl := Option.some.inj h
      obtain ⟨hkept, hcopied⟩ : KeepsCache (n.fileSystem readCache storageBackends) _ :=
        renameMem_keepsCache file destFileName outcomes
      have hkept : CacheKept n.state.db (n.call readCache storageBackends
          (GrizolFS.renameMem file destFileName outcomes)).state.db := hkept
      exact noStaleEntry_of_cacheKept hkept hcopied _
  | renameDb origFolder origName destFolder destName outcomes =>
      obtain rfl := Option.some.inj h
      obtain ⟨hkept, hcopied⟩ : KeepsCache (n.fileSystem readCache storageBackends) _ :=
        renameDb_keepsCache hfresh
      have hkept : CacheKept n.state.db (n.call readCache storageBackends
          (GrizolFS.renameDb origFolder origName destFolder destName outcomes)).state.db := hkept
      exact noStaleEntry_of_cacheKept hkept hcopied _

/-- **No stale entry in the read cache, as long as nothing new is upserted over a cached file
and no copy fails unnoticed.** From a server with an empty cache, in every run of handlers,
reads and renames in any order whose events meet the condition, every file with a row in the
cache was copied when what is recorded of it now was recorded, and every step that replaces
what is recorded of a file leaves it no row. -/
theorem noStaleEntry_of_run {n₀ : CacheNode ι} {events : List (CacheEvent ι)}
    (hempty : n₀.state.db.bepLocalCache = .empty)
    (hfresh : Transition.Meets
      (step readCache storageBackends hash sha256 debugRequest debugFiles)
      (KeepsFresh readCache storageBackends) n₀ events)
    (hrun : Transition.run (step readCache storageBackends hash sha256 debugRequest debugFiles)
      n₀ events = some n) :
    NoStaleEntry readCache n ∧
      Transition.Along (step readCache storageBackends hash sha256 debugRequest debugFiles)
        DropsReplaced n₀ events := by
  have h₀ : NoStaleEntry readCache n₀ := by
    intro key t ht
    rw [hempty] at ht
    cases ht
  constructor
  · exact Transition.invariant_run_of_meets (NoStaleEntry readCache) h₀
      (fun _ _ _ hinv hcond hstep => (noStaleEntry_step hcond hstep).1 hinv) hfresh hrun
  · exact Transition.along_of_meets (fun _ _ _ hcond hstep => (noStaleEntry_step hcond hstep).2)
      hfresh

end Runs

/-! ## A cached file that a peer changes -/

section Example

open CacheNode

/-- A cache of ten bytes. -/
def smallCache : ReadCacheConfig := ⟨"cache", 10⟩

/-- A device with an empty cache, to which a peer sends a file twice. -/
def cachingNode : CacheNode Bool where
  server :=
    { shared := sharingNode
      process := fun b => .index (.new (.index ⟨"default", [sharedFile (if b then 1 else 2) false]⟩)
        peerDevice fun _ => 0) }
  copied := .empty

/-- The peer's message is handled. -/
def messageTurn (b : Bool) : CacheEvent Bool := .turn ⟨b, ⟨.ok, .exits true⟩⟩

/-- The file as the file system lists it. -/
def listedFile : GrizolFileInfo :=
  ⟨sharedFile 1 false, [⟨"gcs:bucket/default/a", .remote "gcs"⟩], "default", 1⟩

/-- The file is read, and everything that is asked for succeeds. -/
def readTurn : CacheEvent Bool := .read listedFile ⟨.ok (), fun _ => .ok ⟨true, [1]⟩, 0, .ok []⟩

/-- One event on a node with a small cache and one backend. -/
def cacheStep : CacheNode Bool → CacheEvent Bool → Option (CacheNode Bool) :=
  step smallCache ["gcs"] (fun _ _ _ => 0) id (fun _ => "") (fun _ => "")

/-- A file that is read and then renamed leaves no stale entry. -/
theorem noStaleEntry_of_run_renamed :
    ∃ n, Transition.run cacheStep cachingNode [messageTurn true, readTurn,
        .renameMem listedFile "b" ⟨fun _ => .ok ⟨true, []⟩, fun _ => .exits true,
          fun _ => .exits true⟩] = some n ∧ NoStaleEntry smallCache n := by
  obtain ⟨n, hrun⟩ : ∃ n, Transition.run cacheStep cachingNode [messageTurn true, readTurn,
      .renameMem listedFile "b" ⟨fun _ => .ok ⟨true, []⟩, fun _ => .exits true,
        fun _ => .exits true⟩] = some n := ⟨_, rfl⟩
  have hfresh : Transition.Meets cacheStep (KeepsFresh smallCache ["gcs"]) cachingNode
      [messageTurn true, readTurn, .renameMem listedFile "b" ⟨fun _ => .ok ⟨true, []⟩,
        fun _ => .exits true, fun _ => .exits true⟩] := by
    refine ⟨?_, fun n₁ _ => ⟨?_, fun _ _ => ⟨trivial, fun _ _ => trivial⟩⟩⟩
    · -- nothing is cached yet
      intro h received _ _ _ _ _ diff _ _ file _ hcached
      cases hcached
    · intro _ _ _ _ _ _ _ _ fileLocation listed _ _ _ output houtput
      obtain rfl := Except.ok.inj houtput
      rfl
  exact ⟨n, hrun, (noStaleEntry_of_run rfl hfresh hrun).1⟩

/-- A file that is read, and then replaced by an `Index`, leaves a stale entry: the row is there,
the copy is of version 1. -/
theorem index_leaves_staleEntry :
    ∃ n, Transition.run cacheStep cachingNode [messageTurn true, readTurn, messageTurn false] =
      some n ∧ ¬ NoStaleEntry smallCache n := by
  obtain ⟨n, hrun⟩ : ∃ n, Transition.run cacheStep cachingNode
      [messageTurn true, readTurn, messageTurn false] = some n := ⟨_, rfl⟩
  refine ⟨n, hrun, ?_⟩
  let key : FileKey := ⟨"default", thisDevice, "a"⟩
  let version := fun db : Database => (recorded db key).map Prod.fst
  have hend : (Transition.run cacheStep cachingNode
      [messageTurn true, readTurn, messageTurn false]).map
        (fun n => (n.state.db.bepLocalCache.get key,
          (n.copied.get "cache/default/a").map version, version n.state.db)) =
      some (some 0, some (some (some ⟨[⟨1, 1⟩]⟩)), some (some ⟨[⟨1, 1⟩, ⟨1, 2⟩]⟩)) := by
    decide +kernel
  rw [hrun, Option.map_some, Option.some.injEq, Prod.mk.injEq, Prod.mk.injEq] at hend
  obtain ⟨hrow, hcopied, hnow⟩ := hend
  intro h
  obtain ⟨db, hdb, hsame⟩ := h key 0 hrow
  rw [show GrizolFS.cachePath smallCache key.folder key.name = "cache/default/a" from rfl] at hdb
  rw [hdb, Option.map_some, Option.some.injEq] at hcopied
  have hversions : version db = version n.state.db := congrArg (Option.map Prod.fst) hsame
  rw [hcopied, hnow] at hversions
  exact absurd hversions (by decide)

end Example

end Grizol.Analysis

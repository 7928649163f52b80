import Grizol.Analysis.CacheBound
import Grizol.Interface.CacheEviction

/-!
# The read cache is emptied in the order it was filled

A row of the cache keeps the time it was written with, whatever is done to the tables, and a
row is written by the read that does not find one (`account_firstInserted`). Sorted by these
times the files of the cache fall into those that are removed and those that are kept.
-/

set_option autoImplicit false

namespace Grizol.Analysis

open Grizol.Library
open Grizol.Model Grizol.Model.Syncthing Grizol.Interface

/-! ## The time of a row -/

/-- The rows of the cache that are there were there before. -/
def RowsKept (db db' : Database) : Prop :=
  ∀ key timestampAdded, db'.bepLocalCache.get key = some timestampAdded →
    db.bepLocalCache.get key = some timestampAdded

section Rows

variable {db db' db'' : Database}

/-- Without a call the rows are kept. -/
theorem RowsKept.refl (db : Database) : RowsKept db db := fun _ _ h => h

/-- What is kept twice is kept. -/
theorem RowsKept.trans (h : RowsKept db db') (h' : RowsKept db' db'') : RowsKept db db'' :=
  fun key t ht => h key t (h' key t ht)

/-- Where cached files are the same, no row is new. -/
theorem CachedSame.rowsKept (h : CachedSame db db') : RowsKept db db' :=
  fun key t ht => (h key t ht).1

end Rows

section Calls

variable {fs : GrizolFS Database} {debugFiles : List (String × String) → String}

/-- A read brings no file into the cache but its own, when it is not there. -/
theorem readFromLocalCache_rows (file : GrizolFileInfo) (outcomes : ReadOutcomes)
    (content : Database) {fs' : GrizolFS Database}
    (hend : RustM.endState
      ((GrizolFS.readFromLocalCache debugFiles file outcomes content).run fs) = fs')
    {key : FileKey} {t : Int64} (ht : fs'.state.db.bepLocalCache.get key = some t) :
    fs.state.db.bepLocalCache.get key = some t ∨
      fs.state.db.bepLocalCache.get key = none ∧ t = outcomes.now := by
  have hwritten : ∀ fs₁ : GrizolFS Database, RowsKept fs.state.db fs₁.state.db →
      (fs.state.db.bepLocalCache.contains
          ⟨file.folder, fs.config.localDeviceId, file.fileInfo.name⟩ = true → fs₁ = fs) →
      RustM.endState ((GrizolFS.onState (BepState.updateReadCache fs.config.localDeviceId
        file.folder file.fileInfo.name outcomes.now)).run fs₁) = fs' →
      fs.state.db.bepLocalCache.get key = some t ∨
        fs.state.db.bepLocalCache.get key = none ∧ t = outcomes.now := by
    intro fs₁ hkept hcached hend
    rw [fs_onState_endState] at hend
    obtain rfl := hend
    rcases updateReadCache_run fs.config.localDeviceId file.folder file.fileInfo.name outcomes.now
      fs₁.state with ⟨e, hrun⟩ | ⟨-, tx, hrun, -, hcache⟩
    · rw [hrun] at ht
      exact Or.inl (hkept key t ht)
    · rw [hrun] at ht
      dsimp only [RustM.endState_ok] at ht
      rw [hcache, AssocMap.get_entryOrInsert] at ht
      split_ifs at ht with hkey
      · subst hkey
        cases hrow : fs.state.db.bepLocalCache.get
            ⟨file.folder, fs.config.localDeviceId, file.fileInfo.name⟩ with
        | some t₀ =>
            obtain rfl := hcached (AssocMap.contains_iff.mpr ⟨t₀, hrow⟩)
            rw [hrow] at ht
            exact Or.inl ht
        | none =>
            have hnone : fs₁.state.db.bepLocalCache.get
                ⟨file.folder, fs.config.localDeviceId, file.fileInfo.name⟩ = none := by
              rw [Option.eq_none_iff_forall_ne_some]
              intro t₁ ht₁
              rw [hkept _ t₁ ht₁] at hrow
              cases hrow
            rw [hnone] at ht
            exact Or.inr ⟨rfl, (Option.some.inj ht).symm⟩
      · exact Or.inl (hkept key t ht)
  obtain ⟨hfills, -⟩ : Fills (pathOf fs file) content fs (RustM.endState
      ((GrizolFS.fillReadCache debugFiles file outcomes content).run fs)) ∧ _ :=
    fillReadCache_run file outcomes content
  rcases readFromLocalCache_cases file outcomes content hend with
    ⟨hcached, hwrote⟩ | ⟨hcached, hfilled | ⟨fs₁, hrun, hwrote⟩⟩
  · exact hwritten fs (RowsKept.refl _) (fun _ => rfl) hwrote
  · rw [hfilled] at hfills
    exact Or.inl (hfills.rows key t ht)
  · rw [hrun, RustM.endState_ok] at hfills
    refine hwritten fs₁ hfills.rows (fun hcontains => ?_) hwrote
    exact absurd (hcontains.symm.trans hcached) (by decide)

end Calls

section Runs

variable {ι : Type} [DecidableEq ι] {hash : String → ℕ → ℕ → UInt64} {sha256 : Bytes → Bytes}
  {debugRequest : Request → String} {debugFiles : List (String × String) → String}
  {readCache : ReadCacheConfig} {storageBackends : List String} {n n' : CacheNode ι}

/-- A row that is there after an event was there before, or is new and has its time. -/
theorem rows_of_step {e : CacheEvent ι}
    (h : CacheNode.step readCache storageBackends hash sha256 debugRequest debugFiles n e = some n')
    {key : FileKey} {t : Int64} (ht : n'.state.db.bepLocalCache.get key = some t) :
    n.state.db.bepLocalCache.get key = some t ∨
      n.state.db.bepLocalCache.get key = none ∧ e.now = some t := by
  cases e with
  | turn t' =>
      rw [CacheNode.step, Option.map_eq_some_iff] at h
      obtain ⟨server, hstep, hserver⟩ := h
      have hshared := congrArg Processes.shared (Processes.step_eq_some.mp hstep)
      rw [← hserver, CacheNode.state, hshared] at ht
      exact Or.inl (act_cached _ _ _ ht).1
  | read file outcomes =>
      obtain rfl := Option.some.inj h
      rcases readFromLocalCache_rows file outcomes n.state.db rfl ht with hbefore | ⟨hnone, rfl⟩
      · exact Or.inl hbefore
      · exact Or.inr ⟨hnone, rfl⟩
  | renameMem file destFileName outcomes =>
      obtain rfl := Option.some.inj h
      have hkept : KeepsCache (n.fileSystem readCache storageBackends) _ :=
        renameMem_keepsCache file destFileName outcomes
      exact Or.inl (hkept.1 key t ht).1
  | renameDb origFolder origName destFolder destName outcomes =>
      obtain rfl := Option.some.inj h
      have hkept : RowsKept n.state.db (n.call readCache storageBackends
          (GrizolFS.renameDb origFolder origName destFolder destName outcomes)).state.db := by
        refine (@renameDb_rel (n.fileSystem readCache storageBackends) RowsKept RowsKept.refl
          RowsKept.trans origFolder origName destFolder destName outcomes ?_
          (fun _ _ _ _ _ => (updateFileLocations_cachedSame _ _ _ _ _).rowsKept)
          (fun _ _ _ _ => (rmFileInfo_cachedSame _).rowsKept) _ rfl).1
        intro file res _ _ k t hk
        rwa [(insertFileInfo_cached [{ file with name := destName }] rfl).1] at hk
      exact Or.inl (hkept key t ht)

/-- **The time of a row is that of its first insertion**, at the end of every run. -/
theorem account_firstInserted {n₀ : CacheNode ι} {events : List (CacheEvent ι)}
    (hrun : Transition.run
      (CacheNode.step readCache storageBackends hash sha256 debugRequest debugFiles) n₀ events =
        some n) :
    Transition.account
      (CacheNode.step readCache storageBackends hash sha256 debugRequest debugFiles)
      firstInserted n₀.state.db.bepLocalCache.get n₀ events = n.state.db.bepLocalCache.get := by
  refine @Transition.account_of_run _ _ _ _ _ (fun n => n.state.db.bepLocalCache.get) ?_ _ _ _ hrun
  intro n e n' hstep
  funext key
  rw [firstInserted, AssocMap.contains]
  cases hrow : n'.state.db.bepLocalCache.get key with
  | none => rfl
  | some t =>
      rw [if_pos Option.isSome_some]
      rcases rows_of_step hstep hrow with hbefore | ⟨hnone, hnow⟩
      · rw [hbefore, Option.some_or]
      · rw [hnone, hnow, Option.none_or]

end Runs

/-! ## The order of the files -/

section Order

variable {db : Database}

/-- A file of the query is a regular file with a row in the cache. -/
theorem row_of_cachedFile {file : BepState.CachedFile} (h : file ∈ BepState.cachedFiles db) :
    db.bepLocalCache.get file.key = some file.timestampAdded ∧
      ∃ row, db.bepFileInfo.get file.key = some row ∧ row.type = 0 ∧ row.size = file.size := by
  rw [BepState.cachedFiles, List.mem_insertionSort, List.mem_filterMap] at h
  obtain ⟨⟨key, t⟩, hentry, h⟩ := h
  obtain ⟨row, hrow, rfl⟩ := Option.map_eq_some_iff.mp h
  obtain ⟨hrow, htype⟩ := Option.filter_eq_some_iff.mp hrow
  exact ⟨AssocMap.mem_entries_iff.mp hentry, row, hrow, of_decide_eq_true htype, rfl⟩

/-- The cached files are those with a row and a file. -/
theorem mem_cachedFiles_iff {key : FileKey} :
    key ∈ (BepState.cachedFiles db).map BepState.CachedFile.key ↔ InCache db key := by
  rw [List.mem_map]
  constructor
  · rintro ⟨file, hfile, rfl⟩
    obtain ⟨hcached, row, hrow, htype, -⟩ := row_of_cachedFile hfile
    exact ⟨AssocMap.contains_iff.mpr ⟨_, hcached⟩, row, hrow, htype⟩
  · rintro ⟨hcached, row, hrow, htype⟩
    obtain ⟨t, ht⟩ := AssocMap.contains_iff.mp hcached
    refine ⟨⟨key, t, row.size⟩, ?_, rfl⟩
    rw [BepState.cachedFiles, List.mem_insertionSort, List.mem_filterMap]
    refine ⟨(key, t), AssocMap.mem_entries_iff.mpr ht, ?_⟩
    rw [hrow, Option.filter_some, if_pos (decide_eq_true htype), Option.map_some]

/-- The sizes that are added up are those that are recorded. -/
theorem recordedTotal_of_cachedFiles {files : List BepState.CachedFile}
    (h : ∀ file ∈ files, file ∈ BepState.cachedFiles db) :
    recordedTotal db (files.map BepState.CachedFile.key) =
      (files.map fun f => f.size.toInt).sum := by
  rw [recordedTotal, List.map_map]
  refine congrArg List.sum (List.map_congr_left fun file hfile => ?_)
  obtain ⟨-, row, hrow, -, hsize⟩ := row_of_cachedFile (h file hfile)
  rw [Function.comp_apply, recordedSize, hrow, Option.map_some, Option.getD_some, hsize]

/-- They come oldest first. -/
theorem pairwise_cachedFiles (db : Database) :
    (BepState.cachedFiles db).Pairwise fun a b => a.timestampAdded ≤ b.timestampAdded := by
  have htotal : Std.Total fun a b : BepState.CachedFile => a.timestampAdded ≤ b.timestampAdded :=
    ⟨fun a b => Int64.le_total a.timestampAdded b.timestampAdded⟩
  have htrans : IsTrans BepState.CachedFile fun a b => a.timestampAdded ≤ b.timestampAdded :=
    ⟨fun _ _ _ h h' => Int64.le_trans h h'⟩
  exact List.pairwise_insertionSort _ _

/-- **What is removed are the files that came first**, and no more of them than there have to
be. -/
theorem evictsOldest_of_bound {cacheSize neededBytes : ℕ} {s : BepState}
    (hcap : cacheSize < 2 ^ 64)
    (hnonneg : ∀ key, InCache s.db key → 0 ≤ recordedSize s.db key)
    (htotal : cachedTotal s.db ≤ cacheSize) (hneeded : neededBytes ≤ cacheSize) :
    ∃ removed kept,
      EvictsOldest cacheSize neededBytes s.db.bepLocalCache.get s.db removed kept ∧
      (BepState.freeReadCache cacheSize neededBytes).run s =
        .ok (.ok (removed.map fun key => (key.folder, key.name)))
          { s with db := s.db.deleteLocalCache fun key => decide (key ∈ removed) } := by
  have hsizes : ∀ f ∈ BepState.cachedFiles s.db, 0 ≤ f.size.toInt := by
    intro f hf
    have hsize := hnonneg f.key (mem_cachedFiles_iff.mp (List.mem_map_of_mem hf))
    obtain ⟨-, row, hrow, -, heq⟩ := row_of_cachedFile hf
    rwa [recordedSize, hrow, Option.map_some, Option.getD_some, heq] at hsize
  obtain ⟨removed, kept, hfiles, hfree, hroom, hleast⟩ :=
    freeReadCache_eq_ok hcap hsizes htotal neededBytes
  have htotals : ∀ files : List BepState.CachedFile, (∀ f ∈ files, f ∈ removed ++ kept) →
      recordedTotal s.db (files.map BepState.CachedFile.key) =
        (files.map fun f => f.size.toInt).sum := by
    intro files h
    exact recordedTotal_of_cachedFiles fun f hf => hfiles ▸ h f hf
  have hkeys : removed.map BepState.CachedFile.key ++ kept.map BepState.CachedFile.key =
      (BepState.cachedFiles s.db).map BepState.CachedFile.key := by
    rw [hfiles, List.map_append]
  refine ⟨removed.map BepState.CachedFile.key, kept.map BepState.CachedFile.key,
    ⟨?_, ?_, ?_, ?_, ?_⟩, ?_⟩
  · rw [hkeys]
    exact nodup_cachedFiles s.db
  · intro key
    rw [hkeys]
    exact mem_cachedFiles_iff
  · rw [hkeys, List.pairwise_map]
    refine (pairwise_cachedFiles s.db).imp_of_mem fun ha hb hle => ?_
    exact ⟨_, _, (row_of_cachedFile ha).1, (row_of_cachedFile hb).1, hle⟩
  · rw [htotals kept fun f hf => List.mem_append_right removed hf]
    rcases hroom with hroom | rfl
    · exact hroom
    · rw [List.map_nil, List.sum_nil]
      omega
  · intro first rest heq hfits
    by_contra hlt
    have hbefore := hleast first.length (by
      rw [List.length_map] at hlt
      exact Nat.lt_of_not_le hlt)
    have hrest : rest = ((removed ++ kept).drop first.length).map BepState.CachedFile.key := by
      rw [List.map_drop, List.map_append, heq, List.drop_left]
    rw [hrest, htotals _ fun f hf => List.mem_of_mem_drop hf] at hfits
    omega
  · rw [hfree, List.map_map]
    congr 2
    refine congrArg (Database.deleteLocalCache s.db) ?_
    funext key
    rw [Bool.eq_iff_iff, decide_eq_true_iff, List.any_eq_true, List.mem_map]
    simp only [decide_eq_true_iff]

end Order

/-! ## Runs -/

section Runs

variable {ι : Type} [DecidableEq ι] {hash : String → ℕ → ℕ → UInt64} {sha256 : Bytes → Bytes}
  {debugRequest : Request → String} {debugFiles : List (String × String) → String}
  {readCache : ReadCacheConfig} {storageBackends : List String} {n₀ n : CacheNode ι}

/-- **The read cache is emptied first in, first out.** From any content of it, at the end of every
run of handlers, reads and renames in any order, `free_read_cache` returns and deletes the rows of
exactly the shortest prefix of the cached files, in the order in which they first came, that
makes the room that is needed, when the files are within the bound. -/
theorem evictsOldest_of_run {events : List (CacheEvent ι)}
    (hrun : Transition.run
      (CacheNode.step readCache storageBackends hash sha256 debugRequest debugFiles) n₀ events =
        some n) {cacheSize neededBytes : ℕ} (hcap : cacheSize < 2 ^ 64)
    (hnonneg : ∀ key, InCache n.state.db key → 0 ≤ recordedSize n.state.db key)
    (htotal : cachedTotal n.state.db ≤ cacheSize) (hneeded : neededBytes ≤ cacheSize) :
    ∃ removed kept,
      EvictsOldest cacheSize neededBytes
        (Transition.account
          (CacheNode.step readCache storageBackends hash sha256 debugRequest debugFiles)
          firstInserted n₀.state.db.bepLocalCache.get n₀ events) n.state.db removed kept ∧
      (BepState.freeReadCache cacheSize neededBytes).run n.state =
        .ok (.ok (removed.map fun key => (key.folder, key.name)))
          { n.state with
            db := n.state.db.deleteLocalCache fun key => decide (key ∈ removed) } := by
  rw [account_firstInserted hrun]
  exact evictsOldest_of_bound hcap hnonneg htotal hneeded

/-- Witness: a file of 4 bytes was read, and 7 of 10 are needed. -/
theorem evictsOldest_of_run_read :
    ∃ n removed kept, Transition.run cacheStep growingNode [messageTurn true, readSized] = some n ∧
      EvictsOldest 10 7 (Transition.account cacheStep firstInserted
        growingNode.state.db.bepLocalCache.get growingNode [messageTurn true, readSized])
        n.state.db removed kept ∧
      (BepState.freeReadCache 10 7).run n.state =
        .ok (.ok (removed.map fun key => (key.folder, key.name)))
          { n.state with
            db := n.state.db.deleteLocalCache fun key => decide (key ∈ removed) } := by
  have hend : (Transition.run cacheStep growingNode [messageTurn true, readSized]).map (fun n =>
      (n.state.db.bepFileInfo.entries.all fun e => 0 ≤ e.2.size.toInt, cachedTotal n.state.db)) =
      some (true, 4) := by decide +kernel
  obtain ⟨n, hrun, hafter⟩ := Option.map_eq_some_iff.mp hend
  obtain ⟨hsizes, htotal⟩ := Prod.mk.inj hafter
  have hnonneg : ∀ key, InCache n.state.db key → 0 ≤ recordedSize n.state.db key := by
    rintro key ⟨-, row, hrow, -⟩
    rw [recordedSize, hrow, Option.map_some, Option.getD_some]
    exact of_decide_eq_true
      (List.all_eq_true.mp hsizes (key, row) (AssocMap.mem_entries_iff.mpr hrow))
  obtain ⟨removed, kept, hevicts, hfree⟩ := evictsOldest_of_run hrun (by decide : 10 < 2 ^ 64)
    hnonneg (by rw [htotal]; decide) (by decide : 7 ≤ 10)
  exact ⟨n, removed, kept, hrun, hevicts, hfree⟩

end Runs

end Grizol.Analysis

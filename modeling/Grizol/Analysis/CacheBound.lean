import Mathlib.Algebra.BigOperators.Group.List.Lemmas
import Mathlib.Algebra.Order.BigOperators.Group.Finset
import Grizol.Analysis.ReadCache
import Grizol.Interface.CacheBound

/-!
# When the read cache stays within its bound

What the cache counts for is a sum over its keys (`cachedTotal_eq_sum`), so it does not
grow where rows only go and no file comes to count for more (`cachedTotal_le`). As long
as it is within the bound `free_read_cache` returns, and the rows it deletes make the
room asked for (`freeReadCache_makesRoom`); the one row a read adds fits into it.
-/

set_option autoImplicit false

namespace Grizol.Analysis

open Grizol.Library
open Grizol.Model Grizol.Model.Syncthing Grizol.Interface

/-! ## What the cache counts for -/

/-- What a key of the cache counts for. -/
def sizeOf (db : Database) (key : FileKey) : ℤ := (stored db key).elim 0 regularSize

/-- The keys of the cache. -/
def cachedKeys (db : Database) : Finset FileKey := db.bepLocalCache.keys.toFinset

section Sums

variable {db db' : Database}

/-- The cached keys are those with a row. -/
theorem mem_cachedKeys {key : FileKey} :
    key ∈ cachedKeys db ↔ ∃ t, db.bepLocalCache.get key = some t := by
  rw [cachedKeys, List.mem_toFinset, AssocMap.mem_keys_iff]

/-- A listed file counts for its size. -/
theorem mem_cachedFiles {file : BepState.CachedFile} (h : file ∈ BepState.cachedFiles db) :
    file.key ∈ cachedKeys db ∧ sizeOf db file.key = file.size.toInt := by
  rw [BepState.cachedFiles, List.mem_insertionSort, List.mem_filterMap] at h
  obtain ⟨⟨key, t⟩, hentry, h⟩ := h
  obtain ⟨row, hrow, rfl⟩ := Option.map_eq_some_iff.mp h
  obtain ⟨hrow, htype⟩ := Option.filter_eq_some_iff.mp hrow
  refine ⟨mem_cachedKeys.mpr ⟨t, AssocMap.mem_entries_iff.mp hentry⟩, ?_⟩
  have htype : row.type = 0 := by simpa using htype
  rw [sizeOf, stored, hrow]
  exact if_pos htype

/-- The files are listed once. -/
theorem nodup_cachedFiles (db : Database) :
    ((BepState.cachedFiles db).map BepState.CachedFile.key).Nodup := by
  have hperm := (List.perm_insertionSort (fun a b : BepState.CachedFile =>
    a.timestampAdded ≤ b.timestampAdded) (db.bepLocalCache.entries.filterMap fun e =>
      ((db.bepFileInfo.get e.1).filter fun row => row.type = 0).map fun row =>
        ({ key := e.1, timestampAdded := e.2, size := row.size } : BepState.CachedFile))).map
    BepState.CachedFile.key
  rw [BepState.cachedFiles, hperm.nodup_iff, List.map_filterMap]
  refine List.Nodup.sublist ?_ db.bepLocalCache.nodup
  generalize db.bepLocalCache.entries = entries
  induction entries with
  | nil => exact List.nil_sublist _
  | cons e entries ih =>
      rw [List.filterMap_cons]
      cases hrow : (db.bepFileInfo.get e.1).filter fun row => row.type = 0 with
      | none => simpa using ih.cons e.1
      | some row => simpa using ih

/-- The cache counts for what its keys count for together. -/
theorem cachedTotal_eq_sum (db : Database) :
    cachedTotal db = ∑ key ∈ cachedKeys db, sizeOf db key := by
  have hlist : ∀ entries : List (FileKey × Int64),
      ((entries.filterMap fun e =>
        ((db.bepFileInfo.get e.1).filter fun row => row.type = 0).map fun row =>
          ({ key := e.1, timestampAdded := e.2, size := row.size } : BepState.CachedFile)).map
        fun f => f.size.toInt).sum = ((entries.map Prod.fst).map (sizeOf db)).sum := by
    intro entries
    induction entries with
    | nil => rfl
    | cons e entries ih =>
        rw [List.filterMap_cons, List.map_cons, List.map_cons, List.sum_cons, ← ih, sizeOf, stored]
        cases hrow : db.bepFileInfo.get e.1 with
        | none => simp
        | some row =>
            by_cases htype : row.type = 0
            · simp [Option.filter, htype, regularSize, FileRow.toFileInfo]
            · simp [Option.filter, htype, regularSize, FileRow.toFileInfo]
  have hperm := (List.perm_insertionSort (fun a b : BepState.CachedFile =>
    a.timestampAdded ≤ b.timestampAdded) (db.bepLocalCache.entries.filterMap fun e =>
      ((db.bepFileInfo.get e.1).filter fun row => row.type = 0).map fun row =>
        ({ key := e.1, timestampAdded := e.2, size := row.size } : BepState.CachedFile))).map
    fun f => f.size.toInt
  rw [cachedTotal, BepState.cachedFiles, hperm.sum_eq, hlist]
  exact (List.sum_toFinset _ db.bepLocalCache.nodup).symm

/-- Where rows only go and none comes to count for more, the cache does not grow. -/
theorem cachedTotal_le (hnonneg : ∀ key ∈ cachedKeys db, 0 ≤ sizeOf db key)
    (hkeys : cachedKeys db' ⊆ cachedKeys db)
    (hsizes : ∀ key ∈ cachedKeys db', sizeOf db' key ≤ sizeOf db key) :
    cachedTotal db' ≤ cachedTotal db := by
  rw [cachedTotal_eq_sum, cachedTotal_eq_sum]
  calc ∑ key ∈ cachedKeys db', sizeOf db' key
      ≤ ∑ key ∈ cachedKeys db', sizeOf db key := Finset.sum_le_sum hsizes
    _ ≤ ∑ key ∈ cachedKeys db, sizeOf db key :=
        Finset.sum_le_sum_of_subset_of_nonneg hkeys fun key hkey _ => hnonneg key hkey

/-- The cache without the rows of listed files. -/
theorem cachedTotal_delete {removed : List BepState.CachedFile}
    (hsub : removed.Sublist (BepState.cachedFiles db)) :
    cachedTotal (db.deleteLocalCache fun k => removed.any fun file => file.key = k) +
      (removed.map fun f => f.size.toInt).sum = cachedTotal db := by
  let db₁ := db.deleteLocalCache fun k => removed.any fun file => file.key = k
  let keys := (removed.map BepState.CachedFile.key).toFinset
  have hnodup : (removed.map BepState.CachedFile.key).Nodup :=
    (nodup_cachedFiles db).sublist (hsub.map _)
  have hkeys : keys ⊆ cachedKeys db := by
    intro key hkey
    obtain ⟨file, hfile, rfl⟩ := List.mem_map.mp (List.mem_toFinset.mp hkey)
    exact (mem_cachedFiles (hsub.subset hfile)).1
  have hrest : cachedKeys db₁ = cachedKeys db \ keys := by
    ext key
    have hget : db₁.bepLocalCache.get key = (db.bepLocalCache.get key).filter
        fun _ => !(removed.any fun file => file.key = key) := AssocMap.get_retain _ _ _
    rw [Finset.mem_sdiff, mem_cachedKeys, mem_cachedKeys, List.mem_toFinset, hget]
    simp only [Option.filter_eq_some_iff, List.mem_map, Bool.not_eq_true', List.any_eq_false,
      decide_eq_true_eq, not_exists, not_and]
    exact exists_and_right
  have hremoved : (removed.map fun f => f.size.toInt).sum = ∑ key ∈ keys, sizeOf db key := by
    rw [List.sum_toFinset _ hnodup, List.map_map]
    refine congrArg List.sum (List.map_congr_left fun file hfile => ?_)
    exact (mem_cachedFiles (hsub.subset hfile)).2.symm
  have hsame : sizeOf db₁ = sizeOf db := rfl
  rw [cachedTotal_eq_sum, cachedTotal_eq_sum]
  show ∑ key ∈ cachedKeys db₁, sizeOf db₁ key + _ = _
  rw [hrest, hremoved, hsame]
  exact Finset.sum_sdiff hkeys

end Sums

/-! ## Making room -/

/-- The cache is within a bound, and nothing in it counts for less than nothing. -/
structure FitsCache (cacheSize : ℕ) (db : Database) : Prop where
  total : cachedTotal db ≤ cacheSize
  nonneg : ∀ key ∈ cachedKeys db, 0 ≤ sizeOf db key

/-- The cast of a number that is not negative keeps it. -/
theorem u64_of_nonneg {x : Int64} (h : 0 ≤ x.toInt) : BepState.u64 x = .ok x.toInt.toNat := if_pos h

/-- The sizes are added up without overflow. -/
theorem usedBytes_eq_ok (files : List BepState.CachedFile) :
    ∀ sum : ℕ, (∀ f ∈ files, 0 ≤ f.size.toInt) →
      sum + (files.map fun f => f.size.toInt).sum < 2 ^ 64 →
      ∃ used, BepState.usedBytes sum files = .ok used ∧
        (used : ℤ) = sum + (files.map fun f => f.size.toInt).sum := by
  induction files with
  | nil =>
      intro sum _ _
      exact ⟨sum, rfl, by simp⟩
  | cons file files ih =>
      intro sum hnonneg hlt
      obtain ⟨hfile, hfiles⟩ := List.forall_mem_cons.mp hnonneg
      have hrest : 0 ≤ (files.map fun f => f.size.toInt).sum :=
        List.sum_nonneg fun x hx => by
          obtain ⟨f, hf, rfl⟩ := List.mem_map.mp hx
          exact hfiles f hf
      rw [List.map_cons, List.sum_cons] at hlt ⊢
      have hadd : Rust.add 64 sum file.size.toInt.toNat = .ok (sum + file.size.toInt.toNat) :=
        Rust.add_of_lt (by omega)
      obtain ⟨used, hused, heq⟩ := ih (sum + file.size.toInt.toNat) hfiles (by omega)
      refine ⟨used, ?_, by omega⟩
      simp only [BepState.usedBytes, u64_of_nonneg hfile, hadd, Rust.ok_bind, hused]

/-- The first files are removed, until there is the room that is needed or none is left, and
not one more. -/
theorem filesToRemove_eq_ok (needed : ℕ) (files : List BepState.CachedFile) :
    ∀ available : ℕ, (∀ f ∈ files, 0 ≤ f.size.toInt) →
      available + (files.map fun f => f.size.toInt).sum < 2 ^ 64 →
      ∃ removed kept, BepState.filesToRemove needed available files = .ok removed ∧
        files = removed ++ kept ∧
        (needed ≤ available + (removed.map fun f => f.size.toInt).sum ∨ kept = []) ∧
        ∀ n < removed.length,
          available + ((removed.take n).map fun f => f.size.toInt).sum < needed := by
  induction files with
  | nil =>
      intro available _ _
      exact ⟨[], [], rfl, rfl, Or.inr rfl, fun n hn => absurd hn (Nat.not_lt_zero n)⟩
  | cons file files ih =>
      intro available hnonneg hlt
      obtain ⟨hfile, hfiles⟩ := List.forall_mem_cons.mp hnonneg
      rw [List.map_cons, List.sum_cons] at hlt
      by_cases henough : needed ≤ available
      · exact ⟨[], file :: files, by rw [BepState.filesToRemove, if_pos henough]; rfl, rfl,
          Or.inl (by simpa using henough), fun n hn => absurd hn (Nat.not_lt_zero n)⟩
      · have hrest : 0 ≤ (files.map fun f => f.size.toInt).sum :=
          List.sum_nonneg fun x hx => by
            obtain ⟨f, hf, rfl⟩ := List.mem_map.mp hx
            exact hfiles f hf
        have hadd : Rust.add 64 available file.size.toInt.toNat =
            .ok (available + file.size.toInt.toNat) := Rust.add_of_lt (by omega)
        obtain ⟨removed, kept, hremoved, rfl, hroom, hleast⟩ :=
          ih (available + file.size.toInt.toNat) hfiles (by omega)
        refine ⟨file :: removed, kept, ?_, rfl, hroom.imp_left ?_, ?_⟩
        · rw [BepState.filesToRemove, if_neg henough]
          simp only [u64_of_nonneg hfile, hadd, Rust.ok_bind, hremoved, Rust.pure_eq_ok]
        · intro hroom
          rw [List.map_cons, List.sum_cons]
          omega
        · intro n hn
          cases n with
          | zero => simpa using henough
          | succ n =>
              have hbefore := hleast n (Nat.lt_of_succ_lt_succ hn)
              rw [List.take_succ_cons, List.map_cons, List.sum_cons]
              omega

/-- **Within the bound `free_read_cache` returns.** It removes the first files, up to the room
that is needed and not one more. -/
theorem freeReadCache_eq_ok {cacheSize : ℕ} {s : BepState} (hcap : cacheSize < 2 ^ 64)
    (hnonneg : ∀ f ∈ BepState.cachedFiles s.db, 0 ≤ f.size.toInt)
    (htotal : cachedTotal s.db ≤ cacheSize) (needed : ℕ) :
    ∃ removed kept, BepState.cachedFiles s.db = removed ++ kept ∧
      (BepState.freeReadCache cacheSize needed).run s =
        .ok (.ok (removed.map fun file => (file.key.folder, file.key.name)))
          { s with db := s.db.deleteLocalCache fun k => removed.any fun file => file.key = k } ∧
      ((kept.map fun f => f.size.toInt).sum + needed ≤ cacheSize ∨ kept = []) ∧
      ∀ n < removed.length, cacheSize <
        (((removed ++ kept).drop n).map fun f => f.size.toInt).sum + needed := by
  obtain ⟨used, hused, hsum⟩ := usedBytes_eq_ok (BepState.cachedFiles s.db) 0 hnonneg (by
    change (0 : ℤ) + cachedTotal s.db < _
    omega)
  have hsum : (used : ℤ) = cachedTotal s.db := hsum.trans (by rw [Nat.cast_zero, zero_add]; rfl)
  have hsub : Rust.sub cacheSize used = .ok (cacheSize - used) := Rust.sub_of_le (by omega)
  obtain ⟨removed, kept, hremoved, hfiles, hroom, hleast⟩ :=
    filesToRemove_eq_ok needed (BepState.cachedFiles s.db) (cacheSize - used)
      hnonneg (by
        change ((cacheSize - used : ℕ) : ℤ) + cachedTotal s.db < _
        omega)
  -- what is counted for is counted for by a prefix and by the rest
  have hsplit : ∀ first rest, removed ++ kept = first ++ rest →
      (first.map fun f => f.size.toInt).sum + (rest.map fun f => f.size.toInt).sum = used := by
    intro first rest heq
    rw [hsum, cachedTotal, hfiles, heq, List.map_append, List.sum_append]
  refine ⟨removed, kept, hfiles, ?_, hroom.imp_left fun hroom => ?_, fun n hn => ?_⟩
  · rw [BepState.freeReadCache, EStateM.run_bind, RustM.run_getThe]
    dsimp only
    rw [EStateM.run_bind, hused, RustM.run_lift_ok]
    dsimp only
    rw [EStateM.run_bind, hsub, RustM.run_lift_ok]
    dsimp only
    rw [EStateM.run_bind, hremoved, RustM.run_lift_ok]
    rfl
  · have hwhole := hsplit removed kept rfl
    omega
  · have hbefore := hleast n hn
    have hparts := hsplit _ _ (List.take_append_drop n (removed ++ kept)).symm
    rw [List.take_append_of_le_length hn.le] at hparts
    omega

/-- **Within the bound there is room to be made.** `free_read_cache` returns, and what is left
in the cache leaves the bytes asked for. -/
theorem freeReadCache_makesRoom {cacheSize : ℕ} {s : BepState}
    (hfits : FitsCache cacheSize s.db) (hcap : cacheSize < 2 ^ 64) {needed : ℕ}
    (hneeded : needed ≤ cacheSize) :
    ∃ removedFiles p, (BepState.freeReadCache cacheSize needed).run s =
        .ok (.ok removedFiles) { s with db := s.db.deleteLocalCache p } ∧
      cachedTotal (s.db.deleteLocalCache p) + needed ≤ cacheSize := by
  have hnonneg : ∀ f ∈ BepState.cachedFiles s.db, 0 ≤ f.size.toInt := by
    intro f hf
    obtain ⟨hkey, hsize⟩ := mem_cachedFiles hf
    rw [← hsize]
    exact hfits.nonneg f.key hkey
  obtain ⟨removed, kept, hfiles, hfree, hroom, -⟩ :=
    freeReadCache_eq_ok hcap hnonneg hfits.total needed
  refine ⟨_, _, hfree, ?_⟩
  have hsublist : removed.Sublist (BepState.cachedFiles s.db) := by
    rw [hfiles]
    exact List.sublist_append_left removed kept
  have hdelete := cachedTotal_delete hsublist
  have hall : (removed.map fun f => f.size.toInt).sum + (kept.map fun f => f.size.toInt).sum =
      cachedTotal s.db := by
    rw [cachedTotal, hfiles, List.map_append, List.sum_append]
  rcases hroom with hroom | rfl
  · omega
  · rw [List.map_nil, List.sum_nil] at hall
    omega

/-! ## Reads -/

section Reads

variable {fs : GrizolFS Database} {debugFiles : List (String × String) → String}

/-- Where rows only go and no file comes to count for more, the bound is kept. -/
theorem FitsCache.of_le {cacheSize : ℕ} {db db' : Database} (h : FitsCache cacheSize db)
    (hkeys : cachedKeys db' ⊆ cachedKeys db)
    (hsizes : ∀ key ∈ cachedKeys db', 0 ≤ sizeOf db' key ∧ sizeOf db' key ≤ sizeOf db key) :
    FitsCache cacheSize db' where
  total := (cachedTotal_le h.nonneg hkeys fun key hkey => (hsizes key hkey).2).trans h.total
  nonneg key hkey := (hsizes key hkey).1

/-- With fewer rows the cache still fits. -/
theorem FitsCache.delete {cacheSize : ℕ} {db : Database} (h : FitsCache cacheSize db)
    (p : FileKey → Bool) : FitsCache cacheSize (db.deleteLocalCache p) := by
  have hkeys : cachedKeys (db.deleteLocalCache p) ⊆ cachedKeys db := by
    intro key hkey
    obtain ⟨t, ht⟩ := mem_cachedKeys.mp hkey
    rw [Database.deleteLocalCache, AssocMap.get_retain, Option.filter_eq_some_iff] at ht
    exact mem_cachedKeys.mpr ⟨t, ht.1⟩
  exact h.of_le hkeys fun key hkey => ⟨h.nonneg key (hkeys hkey), le_rfl⟩

/-- Before its row is written a read has made room for its file. -/
theorem fillReadCache_fits {file : GrizolFileInfo} {outcomes : ReadOutcomes}
    (hfits : FitsCache fs.readCache.readCacheSize fs.state.db)
    (hcap : fs.readCache.readCacheSize < 2 ^ 64)
    (hsize : file.fileInfo.size.toInt ≤ fs.readCache.readCacheSize) (content : Database)
    {fs' : GrizolFS Database} (hend : RustM.endState
      ((GrizolFS.fillReadCache debugFiles file outcomes content).run fs) = fs') :
    FitsCache fs.readCache.readCacheSize fs'.state.db ∧
      stored fs'.state.db = stored fs.state.db ∧
      ((GrizolFS.fillReadCache debugFiles file outcomes content).run fs = .ok (.ok ()) fs' →
        cachedTotal fs'.state.db + file.fileInfo.size.toInt ≤ fs.readCache.readCacheSize) := by
  rw [GrizolFS.fillReadCache, EStateM.run_bind, RustM.run_getThe] at hend ⊢
  dsimp only at hend ⊢
  rw [EStateM.run_bind] at hend ⊢
  by_cases hnonneg : 0 ≤ file.fileInfo.size.toInt
  · have hneeded : file.fileInfo.size.toInt.toNat ≤ fs.readCache.readCacheSize := by omega
    obtain ⟨removedFiles, p, hfree, hroom⟩ := freeReadCache_makesRoom hfits hcap hneeded
    have hroom : cachedTotal (fs.state.db.deleteLocalCache p) + file.fileInfo.size.toInt ≤
        fs.readCache.readCacheSize := by omega
    have hdelete := hfits.delete p
    rw [u64_of_nonneg hnonneg, RustM.run_lift_ok] at hend ⊢
    dsimp only at hend ⊢
    rw [EStateM.run_bind, fs_onState_run, hfree] at hend ⊢
    dsimp only at hend ⊢
    cases hremove : outcomes.remove with
    | error e =>
        rw [hremove] at hend
        obtain rfl := hend
        exact ⟨hdelete, rfl, fun h => by cases h⟩
    | ok u =>
        rw [hremove] at hend
        obtain ⟨result, copied, hcopy⟩ := cpRemoteToReadCache_state file file.fileLocations
          outcomes.rclone content
          { fs with state := { fs.state with db := fs.state.db.deleteLocalCache p } }
        dsimp only at hend ⊢
        rw [EStateM.run_bind, hcopy] at hend ⊢
        cases result <;> obtain rfl := hend <;> exact ⟨hdelete, rfl, fun _ => hroom⟩
  · have hpanics : BepState.u64 file.fileInfo.size = .error .unwrap := if_neg hnonneg
    rw [hpanics, RustM.run_lift_error] at hend ⊢
    obtain rfl := hend
    exact ⟨hfits, rfl, fun h => by cases h⟩

/-- The row a read writes fits into the room that was made, or was there before. -/
theorem updateReadCache_fits (key : FileKey) {cacheSize : ℕ} {s s' : BepState} {now : Int64}
    (hfits : FitsCache cacheSize s.db)
    (hroom : key ∈ cachedKeys s.db ∨ 0 ≤ sizeOf s.db key ∧
      cachedTotal s.db + sizeOf s.db key ≤ cacheSize)
    (hend : RustM.endState ((BepState.updateReadCache key.device key.folder key.name now).run s) =
      s') : FitsCache cacheSize s'.db := by
  rcases updateReadCache_run key.device key.folder key.name now s with
    ⟨e, hrun⟩ | ⟨-, tx, hrun, hstored, hcache⟩
  · rw [hrun] at hend
    rw [← hend]
    exact hfits
  rw [hrun] at hend
  rw [← hend]
  have hsizes : sizeOf tx = sizeOf s.db := by
    funext k
    rw [sizeOf, hstored, sizeOf]
  have hkeys : cachedKeys tx = insert key (cachedKeys s.db) := by
    ext k
    rw [Finset.mem_insert, mem_cachedKeys, mem_cachedKeys, hcache, AssocMap.get_entryOrInsert]
    split_ifs with hk
    · exact iff_of_true ⟨_, rfl⟩ (Or.inl hk)
    · exact (or_iff_right hk).symm
  by_cases hmem : key ∈ cachedKeys s.db
  · rw [Finset.insert_eq_of_mem hmem] at hkeys
    refine hfits.of_le hkeys.subset fun k hk => ?_
    dsimp only [RustM.endState_ok] at hk ⊢
    rw [hkeys] at hk
    rw [hsizes]
    exact ⟨hfits.nonneg k hk, le_rfl⟩
  · obtain ⟨hnonneg, hle⟩ := hroom.resolve_left hmem
    constructor
    · show cachedTotal tx ≤ cacheSize
      rw [cachedTotal_eq_sum, hkeys, hsizes, Finset.sum_insert hmem, ← cachedTotal_eq_sum]
      omega
    · intro k hk
      dsimp only [RustM.endState_ok] at hk ⊢
      rw [hkeys] at hk
      rw [hsizes]
      rcases Finset.mem_insert.mp hk with rfl | hk
      · exact hnonneg
      · exact hfits.nonneg k hk

/-- A read of a file that fits the cache, with a size not below the recorded one, keeps the
bound. -/
theorem readFromLocalCache_fits {file : GrizolFileInfo} {outcomes : ReadOutcomes}
    (hfits : FitsCache fs.readCache.readCacheSize fs.state.db)
    (hcap : fs.readCache.readCacheSize < 2 ^ 64)
    (hsize : file.fileInfo.size.toInt ≤ fs.readCache.readCacheSize)
    (hlisted : fs.state.isFileInReadCache fs.config.localDeviceId file.folder
        file.fileInfo.name = false →
      ∀ old, stored fs.state.db ⟨file.folder, fs.config.localDeviceId, file.fileInfo.name⟩ =
          some old →
        0 ≤ regularSize old ∧ regularSize old ≤ file.fileInfo.size.toInt)
    (content : Database) :
    FitsCache fs.readCache.readCacheSize (RustM.endState
      ((GrizolFS.readFromLocalCache debugFiles file outcomes content).run fs)).state.db := by
  let key : FileKey := ⟨file.folder, fs.config.localDeviceId, file.fileInfo.name⟩
  have hend : RustM.endState ((GrizolFS.fillReadCache debugFiles file outcomes content).run fs) =
    _ := rfl
  obtain ⟨hfilled, hstored, hroom⟩ := fillReadCache_fits hfits hcap hsize content hend
  rcases readFromLocalCache_cases file outcomes content (Eq.refl (RustM.endState
      ((GrizolFS.readFromLocalCache debugFiles file outcomes content).run fs))) with
    ⟨hcached, hend⟩ | ⟨hcached, hend | ⟨fs₁, hrun, hend⟩⟩
  · rw [← hend]
    dsimp only
    rw [fs_onState_endState]
    exact updateReadCache_fits key hfits
      (Or.inl (mem_cachedKeys.mpr (AssocMap.contains_iff.mp hcached))) rfl
  · rw [← hend]
    exact hfilled
  · rw [hrun, RustM.endState_ok] at hfilled hstored hroom
    have hroom := hroom rfl
    rw [← hend]
    dsimp only
    rw [fs_onState_endState]
    cases hold : stored fs.state.db key with
    | some old =>
        obtain ⟨hnonneg, hle⟩ := hlisted hcached old hold
        refine updateReadCache_fits key hfilled (Or.inr ?_) rfl
        have hkey : sizeOf fs₁.state.db key = regularSize old := by
          rw [sizeOf, hstored, hold, Option.elim_some]
        rw [hkey]
        exact ⟨hnonneg, by omega⟩
    | none =>
        -- a file that is not recorded gets no row
        rcases updateReadCache_run fs.config.localDeviceId file.folder
          file.fileInfo.name outcomes.now fs₁.state with ⟨e, hrow⟩ | ⟨hfile, -⟩
        · rw [hrow]
          exact hfilled
        · rw [contains_of_stored hstored, AssocMap.contains] at hfile
          rw [stored, Option.map_eq_none_iff] at hold
          rw [show (⟨file.folder, fs.config.localDeviceId, file.fileInfo.name⟩ : FileKey) =
            key from rfl, hold] at hfile
          cases hfile

end Reads

/-! ## Runs -/

section Runs

open CacheNode

variable {ι : Type} [DecidableEq ι] {hash : String → ℕ → ℕ → UInt64} {sha256 : Bytes → Bytes}
  {debugRequest : Request → String} {debugFiles : List (String × String) → String}
  {readCache : ReadCacheConfig} {storageBackends : List String} {n n' : CacheNode ι}

/-- A cached file counts, after a turn, for no more than before. -/
theorem sizeOf_of_turn {task : ServerTask} {p : BepProcessor} {outcome : TurnOutcome}
    (hkeeps : ∀ h received, task = .index h → h.pc = .writeIndices → h.message = .index received →
      IndexKeepsSizes p.state p.config.localDeviceId received h.clientDeviceId)
    {key : FileKey} {t : Int64}
    (ht : (task.act hash sha256 debugRequest outcome p).2.state.db.bepLocalCache.get key = some t)
    (hnonneg : 0 ≤ sizeOf p.state.db key) :
    0 ≤ sizeOf (task.act hash sha256 debugRequest outcome p).2.state.db key ∧
      sizeOf (task.act hash sha256 debugRequest outcome p).2.state.db key ≤
        sizeOf p.state.db key := by
  obtain ⟨hbefore, hstored | ⟨h, received, htask, hpc, hmessage, hkey, hupserts⟩⟩ :=
    act_cached task p outcome ht
  · rw [sizeOf, hstored, ← sizeOf]
    exact ⟨hnonneg, le_rfl⟩
  obtain ⟨hpeer, haccepted, diff, files, hdiff, haccepted', hnumbered, hstored⟩ := hupserts
  have hkeeps := hkeeps h received htask hpc hmessage hpeer haccepted diff hdiff haccepted'
  rw [← hkey, hkey, upsertAll_apply] at hstored
  cases hlast : lastNamed files key.name with
  | none =>
      rw [hlast, ← hkey] at hstored
      rw [sizeOf, hstored, ← sizeOf]
      exact ⟨hnonneg, le_rfl⟩
  | some file' =>
      obtain ⟨file, hfile, m, rfl⟩ := Numbered.lastNamed hnumbered hlast
      obtain ⟨row, hrow⟩ := AssocMap.contains_iff.mp (p.state.db.cacheOfFile _ t hbefore)
      obtain ⟨old, hold⟩ : ∃ old, stored p.state.db key = some old :=
        ⟨_, congrArg (Option.map _) hrow⟩
      have hsizes := hkeeps key.name file old hfile
        (by rw [← hkey]; exact AssocMap.contains_iff.mpr ⟨t, hbefore⟩) (by rw [← hkey]; exact hold)
      rw [hlast, ← hkey] at hstored
      rw [sizeOf, hstored, sizeOf, hold]
      exact hsizes

/-- One step keeps the bound. -/
theorem fitsCache_step {e : CacheEvent ι} (hcap : readCache.readCacheSize < 2 ^ 64)
    (hread : ReadOrMessage readCache e) (hkeeps : KeepsSizes n e)
    (hfits : FitsCache readCache.readCacheSize n.state.db)
    (h : step readCache storageBackends hash sha256 debugRequest debugFiles n e = some n') :
    FitsCache readCache.readCacheSize n'.state.db := by
  cases e with
  | turn t =>
      rw [CacheNode.step, Option.map_eq_some_iff] at h
      obtain ⟨server, hstep, hserver⟩ := h
      have hshared := congrArg Processes.shared (Processes.step_eq_some.mp hstep)
      rw [← hserver, CacheNode.state, hshared]
      refine hfits.of_le ?_ ?_
      · intro key hkey
        obtain ⟨t', ht'⟩ := mem_cachedKeys.mp hkey
        exact mem_cachedKeys.mpr ⟨t', (act_cached _ _ _ ht').1⟩
      · intro key hkey
        obtain ⟨t', ht'⟩ := mem_cachedKeys.mp hkey
        exact sizeOf_of_turn hkeeps ht'
          (hfits.nonneg key (mem_cachedKeys.mpr ⟨t', (act_cached _ _ _ ht').1⟩))
  | read file outcomes =>
      obtain rfl := Option.some.inj h
      have hfs : FitsCache (n.fileSystem readCache storageBackends).readCache.readCacheSize
        (n.fileSystem readCache storageBackends).state.db := hfits
      exact readFromLocalCache_fits hfs hcap hread hkeeps n.state.db
  | renameMem file destFileName outcomes => exact absurd hread id
  | renameDb origFolder origName destFolder destName outcomes => exact absurd hread id

/-- **The read cache stays within its bound, as long as no `Index` lets a cached file count for
more and no file is read with a size below the recorded one.** From a server with an empty
cache, in every run of reads and messages in any order whose events meet the condition, the
regular files in the cache do not exceed its size together, and room for every file that fits
can be made. -/
theorem withinBound_of_run {n₀ : CacheNode ι} {events : List (CacheEvent ι)}
    (hempty : n₀.state.db.bepLocalCache = .empty) (hcap : readCache.readCacheSize < 2 ^ 64)
    (hreads : ∀ e ∈ events, ReadOrMessage readCache e)
    (hkeeps : Transition.Meets
      (step readCache storageBackends hash sha256 debugRequest debugFiles) KeepsSizes n₀ events)
    (hrun : Transition.run (step readCache storageBackends hash sha256 debugRequest debugFiles)
      n₀ events = some n) :
    WithinBound readCache n ∧ MakesRoom readCache n := by
  have hkeys : cachedKeys n₀.state.db = ∅ := by
    rw [cachedKeys, hempty]
    rfl
  have h₀ : FitsCache readCache.readCacheSize n₀.state.db := by
    constructor
    · rw [cachedTotal_eq_sum, hkeys, Finset.sum_empty]
      omega
    · intro key hkey
      rw [hkeys] at hkey
      exact absurd hkey (Finset.notMem_empty key)
  have hfits := Transition.invariant_run_of_meets
    (fun n => FitsCache readCache.readCacheSize n.state.db) h₀
    (fun _ _ _ hinv hcond hstep => fitsCache_step hcap hcond.1 hcond.2 hinv hstep)
    (Transition.meets_and (Transition.meets_of_forall_mem hreads n₀) hkeeps) hrun
  refine ⟨hfits.total, ?_⟩
  intro neededBytes hneeded
  obtain ⟨removedFiles, p, hfree, hroom⟩ := freeReadCache_makesRoom hfits hcap hneeded
  exact ⟨removedFiles, _, hfree, hroom⟩

end Runs

/-! ## A cached file that grows -/

section Example

open CacheNode

/-- A version of a file, of some size. -/
def sizedFile (version : UInt64) (size : Int64) : FileInfo :=
  { sharedFile version false with size := size }

/-- A device with an empty cache, to which a peer sends a file of 4 bytes, and then one of 20 in
its place. -/
def growingNode : CacheNode Bool where
  server :=
    { shared := sharingNode
      process := fun b => .index (.new
        (.index ⟨"default", [if b then sizedFile 1 4 else sizedFile 2 20]⟩) peerDevice fun _ => 0) }
  copied := .empty

/-- The first file is read, as the file system lists it. -/
def readSized : CacheEvent Bool :=
  .read ⟨sizedFile 1 4, [⟨"gcs:bucket/default/a", .remote "gcs"⟩], "default", 1⟩
    ⟨.ok (), fun _ => .ok ⟨true, [1]⟩, 0, .ok []⟩

/-- The file is not larger than the cache. -/
theorem readSized_readOrMessage :
    ∀ e ∈ [messageTurn true, readSized, messageTurn false], ReadOrMessage smallCache e := by
  intro e he
  simp only [List.mem_cons, List.not_mem_nil, or_false] at he
  rcases he with rfl | rfl | rfl
  · trivial
  · show (4 : Int64).toInt ≤ (10 : ℕ)
    decide
  · trivial

/-- A file that is sent and read stays within the bound. -/
theorem withinBound_of_run_read :
    ∃ n, Transition.run cacheStep growingNode [messageTurn true, readSized] = some n ∧
      WithinBound smallCache n ∧ MakesRoom smallCache n := by
  obtain ⟨n, hrun⟩ : ∃ n, Transition.run cacheStep growingNode [messageTurn true, readSized] =
      some n := Option.isSome_iff_exists.mp (by decide +kernel)
  have hkeeps : Transition.Meets cacheStep KeepsSizes growingNode [messageTurn true, readSized] := by
    refine ⟨?_, fun n₁ hn₁ => ⟨?_, fun _ _ => trivial⟩⟩
    · -- nothing is cached yet
      intro h received _ _ _ _ _ diff _ _ name file old _ hcached
      cases hcached
    · intro _ old hold
      have hstored : ∀ n', cacheStep growingNode (messageTurn true) = some n' →
          (stored n'.state.db ⟨"default", n'.config.localDeviceId, "a"⟩).map regularSize =
            some 4 := by
        have hsome : (cacheStep growingNode (messageTurn true)).map (fun n' =>
            (stored n'.state.db ⟨"default", n'.config.localDeviceId, "a"⟩).map regularSize) =
            some (some 4) := by decide +kernel
        intro n' hn'
        rw [hn', Option.map_some, Option.some.injEq] at hsome
        exact hsome
      have hsize := hstored n₁ hn₁
      have hold : stored n₁.state.db ⟨"default", n₁.config.localDeviceId, "a"⟩ = some old := hold
      rw [hold, Option.map_some, Option.some.injEq] at hsize
      rw [hsize]
      decide
  have hreads : ∀ e ∈ [messageTurn true, readSized], ReadOrMessage smallCache e := by
    intro e he
    exact readSized_readOrMessage e (List.mem_append_left [messageTurn false] he)
  exact ⟨n, hrun, withinBound_of_run rfl (by decide) hreads hkeeps hrun⟩

/-- A file that grows while it is cached breaks the bound, and room can no longer be made: the
cache holds 10 bytes, and the file counts for 20. -/
theorem growing_file_exceeds_bound :
    (∀ e ∈ [messageTurn true, readSized, messageTurn false], ReadOrMessage smallCache e) ∧
      ∃ n, Transition.run cacheStep growingNode
          [messageTurn true, readSized, messageTurn false] = some n ∧
        ¬ WithinBound smallCache n ∧
        Rust.sub smallCache.readCacheSize (cachedTotal n.state.db).toNat = .error .overflow ∧
        ¬ MakesRoom smallCache n := by
  refine ⟨readSized_readOrMessage, ?_⟩
  obtain ⟨n, hrun⟩ : ∃ n, Transition.run cacheStep growingNode
      [messageTurn true, readSized, messageTurn false] = some n :=
    Option.isSome_iff_exists.mp (by decide +kernel)
  have hend : (Transition.run cacheStep growingNode
      [messageTurn true, readSized, messageTurn false]).map (fun n =>
        (cachedTotal n.state.db, (RustM.returned
          ((BepState.freeReadCache smallCache.readCacheSize 0).run n.state)).isSome)) =
      some (20, false) := by decide +kernel
  rw [hrun, Option.map_some, Option.some.injEq, Prod.mk.injEq] at hend
  obtain ⟨htotal, hpanics⟩ := hend
  refine ⟨n, hrun, ?_, ?_, ?_⟩
  · rw [WithinBound, htotal]
    decide
  · rw [htotal]
    rfl
  · intro hroom
    obtain ⟨removedFiles, s', hfree, -⟩ := hroom 0 (Nat.zero_le _)
    rw [hfree] at hpanics
    cases hpanics

end Example

end Grizol.Analysis

import Grizol.Analysis.BackupDeletion
import Grizol.Interface.NewerFiles

/-!
# Messages bring newer files only, and once

A difference compares by the greatest counter value, and so do the tables and the entry
in memory agree: an upsert adds the counters of a newer file to those of an older one,
which leaves the greatest of the newer. What was written once is in the entry, so the
same message finds nothing newer than that, but files flagged deleted, which are not
written.
-/

set_option autoImplicit false

namespace Grizol.Analysis

open Grizol.Library
open Grizol.Model Grizol.Model.Syncthing Grizol.Interface

/-! ## The greatest counter -/

section Counters

variable {file old new : FileInfo}

/-- The loop of `max_by_key`. -/
theorem foldl_maxCounter (counters : List Counter) (counter : Counter) {m : Counter}
    (h : counters.foldl (fun m c => if c.value < m.value then m else c) counter = m) :
    (m = counter ∨ m ∈ counters) ∧ counter.value ≤ m.value ∧ ∀ c ∈ counters, c.value ≤ m.value := by
  induction counters generalizing counter with
  | nil =>
      obtain rfl := h
      exact ⟨Or.inl rfl, UInt64.le_refl _, by simp⟩
  | cons c counters ih =>
      rw [List.foldl_cons] at h
      obtain ⟨hmem, hle, hall⟩ := ih _ h
      split_ifs at hmem hle with hc
      · refine ⟨hmem.imp_right (List.mem_cons_of_mem c), hle, ?_⟩
        intro c' hc'
        rcases List.mem_cons.mp hc' with rfl | hc'
        · exact UInt64.le_trans (UInt64.le_of_lt hc) hle
        · exact hall c' hc'
      · refine ⟨Or.inr (List.mem_cons.mpr hmem), ?_, ?_⟩
        · exact UInt64.le_trans (UInt64.not_lt.mp hc) hle
        · intro c' hc'
          rcases List.mem_cons.mp hc' with rfl | hc'
          · exact hle
          · exact hall c' hc'

/-- The deciding counter is one of the list, and none has a greater value. -/
theorem maxCounter_spec {counters : List Counter} {m : Counter} (h : maxCounter counters = some m) :
    m ∈ counters ∧ ∀ c ∈ counters, c.value ≤ m.value := by
  cases counters with
  | nil => cases h
  | cons counter counters =>
      obtain ⟨hmem, hle, hall⟩ := foldl_maxCounter counters counter (Option.some.inj h)
      refine ⟨List.mem_cons.mpr hmem, ?_⟩
      intro c hc
      rcases List.mem_cons.mp hc with rfl | hc
      · exact hle
      · exact hall c hc

/-- The greatest value is that of a counter, and of none a greater one. -/
theorem topValue_eq_some_iff {v : UInt64} :
    topValue file = some v ↔
      (∃ c ∈ countersOf file, c.value = v) ∧ ∀ c ∈ countersOf file, c.value ≤ v := by
  rw [topValue, Option.map_eq_some_iff]
  constructor
  · rintro ⟨m, hm, rfl⟩
    obtain ⟨hmem, hall⟩ := maxCounter_spec hm
    exact ⟨⟨m, hmem, rfl⟩, hall⟩
  · rintro ⟨⟨c, hc, rfl⟩, hall⟩
    cases hm : maxCounter (countersOf file) with
    | none =>
        cases hlist : countersOf file with
        | nil =>
            rw [hlist] at hc
            cases hc
        | cons c' cs =>
            rw [hlist] at hm
            cases hm
    | some m =>
        obtain ⟨hmem, hle⟩ := maxCounter_spec hm
        exact ⟨m, rfl, UInt64.le_antisymm (hall m hmem) (hle c hc)⟩

/-- A file without a greatest value has no counters. -/
theorem topValue_eq_none_iff : topValue file = none ↔ countersOf file = [] := by
  rw [topValue, Option.map_eq_none_iff]
  cases countersOf file with
  | nil => simp [maxCounter]
  | cons c cs => simp [maxCounter]

/-- The greatest value depends on the set of counters. -/
theorem topValue_congr (h : ∀ c, c ∈ countersOf new ↔ c ∈ countersOf old) :
    topValue new = topValue old := by
  cases hold : topValue old with
  | none =>
      rw [topValue_eq_none_iff] at hold ⊢
      rw [List.eq_nil_iff_forall_not_mem]
      intro c hc
      rw [h, hold] at hc
      cases hc
  | some v =>
      rw [topValue_eq_some_iff] at hold ⊢
      obtain ⟨⟨c, hc, hv⟩, hall⟩ := hold
      exact ⟨⟨c, (h c).mpr hc, hv⟩, fun c' hc' => hall c' ((h c').mp hc')⟩

/-- A file without counters has no deciding counter, which is a panic. -/
theorem decidingCounter_eq (file : FileInfo) :
    decidingCounter file = Rust.unwrap (maxCounter (countersOf file)) := by
  unfold decidingCounter countersOf
  cases file.version <;> rfl

/-- A file is newer when its greatest value is greater. -/
theorem newer_iff : Newer old new ↔
    ∃ v w, topValue old = some v ∧ topValue new = some w ∧ v < w := by
  unfold Newer partialCmpFileVersion topValue
  rw [decidingCounter_eq, decidingCounter_eq]
  cases maxCounter (countersOf old) with
  | none =>
      constructor
      · intro h
        cases h
      · rintro ⟨v, w, hv, -⟩
        cases hv
  | some a =>
      cases maxCounter (countersOf new) with
      | none =>
          constructor
          · intro h
            cases h
          · rintro ⟨v, w, -, hw, -⟩
            cases hw
      | some b =>
          simp only [Rust.unwrap_some, Rust.ok_bind, Rust.pure_eq_ok, Except.ok.injEq,
            Option.map_some, Option.some.injEq]
          constructor
          · intro h
            by_cases hlt : a.value < b.value
            · exact ⟨a.value, b.value, rfl, rfl, hlt⟩
            · rw [if_neg hlt] at h
              split_ifs at h <;> cases h
          · rintro ⟨v, w, rfl, rfl, hlt⟩
            rw [if_pos hlt]

/-- Files with the same greatest value, one of which is newer than a third. -/
theorem newer_congr_right {new' : FileInfo} (h : Newer old new)
    (htop : topValue new' = topValue new) : Newer old new' := by
  rw [newer_iff, htop, ← newer_iff]
  exact h

/-- Whether a file is newer depends on the greatest value of the old one. -/
theorem newer_congr_left {old' : FileInfo} (htop : topValue old' = topValue old) :
    Newer old' new ↔ Newer old new := by
  rw [newer_iff, htop, ← newer_iff]

/-- A file with the same greatest value is not newer. -/
theorem not_newer_of_topValue (h : topValue new = topValue old) : ¬ Newer old new := by
  rw [newer_iff, h]
  rintro ⟨v, w, hv, hw, hlt⟩
  rw [hv] at hw
  obtain rfl := Option.some.inj hw
  exact UInt64.lt_irrefl v hlt

/-- What is newer than a newer file is newer. -/
theorem newer_trans {file : FileInfo} (h : Newer old new) (h' : Newer new file) :
    Newer old file := by
  rw [newer_iff] at h h' ⊢
  obtain ⟨v, w, hv, hw, hlt⟩ := h
  obtain ⟨w', u, hw', hu, hlt'⟩ := h'
  rw [hw] at hw'
  obtain rfl := Option.some.inj hw'
  exact ⟨v, u, hv, hu, UInt64.lt_trans hlt hlt'⟩

/-- The counters of a newer file added to those of an older one have its greatest value. -/
theorem topValue_addCounters (h : Newer old new) {blocks : List BlockInfo} :
    topValue (withParts new (addCounters (countersOf old) (countersOf new)) blocks) =
      topValue new := by
  obtain ⟨v, w, hv, hw, hlt⟩ := newer_iff.mp h
  rw [hw]
  rw [topValue_eq_some_iff] at hv hw ⊢
  have hparts : countersOf (withParts new (addCounters (countersOf old) (countersOf new)) blocks) =
      addCounters (countersOf old) (countersOf new) := rfl
  rw [hparts]
  obtain ⟨⟨c, hc, hcw⟩, hall⟩ := hw
  refine ⟨⟨c, mem_addCounters.mpr (Or.inr hc), hcw⟩, ?_⟩
  intro c' hc'
  rcases mem_addCounters.mp hc' with hc' | hc'
  · exact UInt64.le_trans (hv.2 c' hc') (UInt64.le_of_lt hlt)
  · exact hall c' hc'

/-- So do its own, each once. -/
theorem topValue_dedup {blocks : List BlockInfo} :
    topValue (withParts file (addCounters [] (countersOf file)) blocks) = topValue file := by
  apply topValue_congr
  intro c
  have hparts : countersOf (withParts file (addCounters [] (countersOf file)) blocks) =
      addCounters [] (countersOf file) := rfl
  rw [hparts, mem_addCounters]
  simp

/-- A sequence number leaves the greatest value. -/
theorem topValue_numbered {file' : FileInfo} (h : Numbered file file') :
    topValue file' = topValue file := by
  obtain ⟨n, rfl⟩ := h
  rfl

end Counters

/-! ## Differences -/

section Differences

variable {existing : AssocMap String FileInfo} {added files : List FileInfo} {diff : IndexDiff}
  {file : FileInfo}

/-- A file is new to a map that has none of its name but older ones. -/
def Fresh (existing : AssocMap String FileInfo) (file : FileInfo) : Prop :=
  ∀ old, existing.get file.name = some old → Newer old file

/-- A file is classified as new exactly if it is fresh. -/
theorem diffFile_newlyAdded {place : DiffPlace}
    (h : diffFile (existing.get file.name) file = .ok place) :
    place = .newlyAdded ↔ Fresh existing file := by
  unfold Fresh
  cases hget : existing.get file.name with
  | none =>
      rw [hget] at h
      obtain rfl := Except.ok.inj h
      simp
  | some old =>
      have hold : (∀ old', some old = some old' → Newer old' file) ↔ Newer old file := by simp
      rw [hold]
      rw [hget, diffFile, Rust.bind_eq_ok] at h
      obtain ⟨order, horder, h⟩ := h
      unfold Newer
      rw [horder, Except.ok.injEq]
      -- without an order the timestamps decide which of two conflicting lists it is
      rcases order with - | ⟨- | - | -⟩
      · rw [Rust.bind_eq_ok] at h
        obtain ⟨timestamps, -, h⟩ := h
        cases timestamps with
        | lt =>
            obtain rfl := Except.ok.inj h
            simp
        | eq => cases h
        | gt =>
            obtain rfl := Except.ok.inj h
            simp
      · obtain rfl := Except.ok.inj h
        simp
      · obtain rfl := Except.ok.inj h
        simp
      · obtain rfl := Except.ok.inj h
        simp

/-- The files that are new are those a difference finds, in their order. -/
theorem diffFiles_spec (h : diffFiles existing added = .ok diff) :
    diff.newlyAddedFiles.Sublist added ∧
      ∀ file, file ∈ diff.newlyAddedFiles ↔ file ∈ added ∧ Fresh existing file := by
  induction added generalizing diff with
  | nil =>
      obtain rfl := Except.ok.inj h
      exact ⟨List.Sublist.refl _, by simp⟩
  | cons f added ih =>
      simp only [diffFiles, Rust.bind_eq_ok] at h
      obtain ⟨place, hplace, rest, hrest, hdiff⟩ := h
      obtain ⟨hsub, hmem⟩ := ih hrest
      have hfresh := diffFile_newlyAdded hplace
      have hold : place ≠ .newlyAdded → diff.newlyAddedFiles = rest.newlyAddedFiles := by
        intro hne
        obtain rfl := Except.ok.inj hdiff
        cases place with
        | newlyAdded => exact absurd rfl hne
        | newlyAddedConflicting | existingConflicting | nowhere => rfl
      by_cases hnewly : place = .newlyAdded
      · have hadds : diff.newlyAddedFiles = f :: rest.newlyAddedFiles := by
          obtain rfl := Except.ok.inj hdiff
          rw [hnewly]
        rw [hadds]
        refine ⟨hsub.cons_cons f, ?_⟩
        intro file
        rw [List.mem_cons, List.mem_cons, hmem]
        constructor
        · rintro (rfl | ⟨hfile, hnew⟩)
          · exact ⟨Or.inl rfl, hfresh.mp hnewly⟩
          · exact ⟨Or.inr hfile, hnew⟩
        · rintro ⟨rfl | hfile, hnew⟩
          · exact Or.inl rfl
          · exact Or.inr ⟨hfile, hnew⟩
      · rw [hold hnewly]
        refine ⟨hsub.cons f, ?_⟩
        intro file
        rw [List.mem_cons, hmem]
        constructor
        · rintro ⟨hfile, hnew⟩
          exact ⟨Or.inr hfile, hnew⟩
        · rintro ⟨rfl | hfile, hnew⟩
          · exact absurd (hfresh.mpr hnew) hnewly
          · exact ⟨hfile, hnew⟩

/-- **What was written is not new again.** After the files a difference finds are put into the
map, numbered, all but those that are left out, only such are new to it. -/
theorem not_fresh_of_inserted {keep : FileInfo → Bool}
    (hkeep : ∀ f n, keep { f with sequence := n } = keep f)
    (hnodup : (added.map FileInfo.name).Nodup) {newly : List FileInfo}
    (hnewly : ∀ f, f ∈ newly ↔ f ∈ added ∧ Fresh existing f)
    (hnumbered : List.Forall₂ Numbered newly files) (hfile : file ∈ added)
    (hfresh : Fresh (GrizolIndex.insertAll existing (files.filter keep)) file) :
    keep file = false := by
  rw [Bool.eq_false_iff]
  intro hkept
  have hget := get_insertAll existing (files.filter keep) file.name
  -- a file with its name that was put into the map is the file, for the names are different
  have hlast : ∀ f', lastNamed (files.filter keep) file.name = some f' →
      file ∈ newly ∧ Numbered file f' := by
    intro f' hf'
    obtain ⟨hmem, hname⟩ := lastNamed_eq_some hf'
    obtain ⟨f, hf, hnumber⟩ := Numbered.mem hnumbered (List.mem_of_mem_filter hmem)
    have hsame : f.name = f'.name := by
      obtain ⟨n, rfl⟩ := hnumber
      rfl
    obtain rfl := eq_of_name hnodup ((hnewly f).mp hf).1 hfile (hsame.trans hname)
    exact ⟨hf, hnumber⟩
  cases hinserted : lastNamed (files.filter keep) file.name with
  | some f' =>
      obtain ⟨-, hnumber⟩ := hlast f' hinserted
      rw [hinserted, Option.some_or] at hget
      exact not_newer_of_topValue (topValue_numbered hnumber).symm (hfresh f' hget)
  | none =>
      rw [hinserted, Option.none_or] at hget
      have hnew : Fresh existing file := fun old hold => hfresh old (hget.trans hold)
      have hmem : file ∈ newly := (hnewly file).mpr ⟨hfile, hnew⟩
      have hname : file.name ∈ (files.filter keep).map FileInfo.name := by
        rw [Numbered.map_name (Numbered.filter hnumbered hkeep)]
        exact List.mem_map_of_mem (List.mem_filter.mpr ⟨hmem, hkept⟩)
      obtain ⟨f', hf', hsame⟩ := List.mem_map.mp hname
      exact lastNamed_eq_none.mp hinserted f' hf' hsame

/-- Nothing of a map is new to it. -/
theorem not_fresh_of_mem (hnamed : Named existing) (hfile : file ∈ existing.values) :
    ¬ Fresh existing file := by
  intro hfresh
  obtain ⟨name, hget⟩ := AssocMap.mem_values_iff.mp hfile
  rw [← hnamed name file hget] at hget
  exact not_newer_of_topValue rfl (hfresh file hget)

/-- Files are cached under their names. -/
theorem named_insertAll (hnamed : Named existing) (files : List FileInfo) :
    Named (GrizolIndex.insertAll existing files) := by
  intro name file hget
  rw [get_insertAll] at hget
  cases hlast : lastNamed files name with
  | some f =>
      rw [hlast, Option.some_or] at hget
      obtain rfl := Option.some.inj hget
      exact (lastNamed_eq_some hlast).2
  | none =>
      rw [hlast, Option.none_or] at hget
      exact hnamed name file hget

/-- The files of a map under their names have different names. -/
theorem nodup_names (hnamed : Named existing) : (existing.values.map FileInfo.name).Nodup := by
  have hnames : existing.values.map FileInfo.name = existing.keys := by
    rw [AssocMap.values, AssocMap.keys, List.map_map]
    apply List.map_congr_left
    rintro ⟨name, file⟩ hmem
    exact hnamed name file (AssocMap.mem_entries_iff.mp hmem)
  rw [hnames]
  exact existing.nodup

end Differences

/-! ## The rows of a file -/

section Rows

variable {key : FileKey} {deviceId other : DeviceId} {folder : String} {file : FileInfo}
  {tx tx' : Database}

/-- Deleting other files. -/
theorem sameRowsAt_deleteFileInfo {p : FileKey → Bool} (hother : p key = false) :
    SameRowsAt key tx (tx.deleteFileInfo p) := by
  have hget : ∀ {κ ν : Type} [DecidableEq κ] (rows : AssocMap κ ν) (fileOf : κ → FileKey) (k : κ),
      fileOf k = key → (rows.retain fun k _ => !p (fileOf k)).get k = rows.get k := by
    intro κ ν _ rows fileOf k hk
    rw [AssocMap.get_retain, hk, hother]
    cases rows.get k <;> rfl
  exact ⟨hget _ id key rfl, fun k hk => hget _ LocationKey.file k hk, hget _ id key rfl,
    fun k hk => hget _ BlockKey.file k hk, fun k hk => hget _ VersionKey.file k hk⟩

/-- A row of another file leaves the rows at a key. -/
theorem sameRowsAt_insertFileInfo {k : FileKey} {row : FileRow} (hother : key ≠ k)
    (h : tx.insertFileInfo k row = .ok tx') : SameRowsAt key tx tx' := by
  unfold Database.insertFileInfo at h
  split_ifs at h
  obtain rfl := Except.ok.inj h
  exact ⟨AssocMap.get_insert_of_ne _ _ hother, fun _ _ => rfl, rfl, fun _ _ => rfl, fun _ _ => rfl⟩

/-- So does a counter of another file. -/
theorem sameRowsAt_insertVersion {k : VersionKey} (hother : key ≠ k.file)
    (h : tx.insertVersion k = .ok tx') : SameRowsAt key tx tx' := by
  unfold Database.insertVersion at h
  split_ifs at h
  obtain rfl := Except.ok.inj h
  refine ⟨rfl, fun _ _ => rfl, rfl, fun _ _ => rfl, ?_⟩
  rintro k' rfl
  rw [AssocMap.get_entryOrInsert, if_neg]
  rintro rfl
  exact hother rfl

/-- And a block of another file. -/
theorem sameRowsAt_insertBlock {k : BlockKey} {row : BlockRow} (hother : key ≠ k.file)
    (h : tx.insertBlock k row = .ok tx') : SameRowsAt key tx tx' := by
  unfold Database.insertBlock at h
  split_ifs at h
  obtain rfl := Except.ok.inj h
  refine ⟨rfl, fun _ _ => rfl, rfl, ?_, fun _ _ => rfl⟩
  rintro k' rfl
  rw [AssocMap.get_entryOrInsert, if_neg]
  rintro rfl
  exact hother rfl

/-- Another file that is upserted. -/
theorem sameRowsAt_upsertFile (hother : key ≠ ⟨folder, other, file.name⟩)
    (h : BepState.upsertFile folder other file tx = .ok tx') : SameRowsAt key tx tx' :=
  upsertFile_rel (SameRowsAt key) (SameRowsAt.refl key) SameRowsAt.trans
    (fun _ _ _ h => sameRowsAt_insertFileInfo hother h)
    (fun _ _ _ _ h => sameRowsAt_insertVersion hother h)
    (fun _ _ _ _ _ h => sameRowsAt_insertBlock hother h) h

/-- Or replaced. -/
theorem sameRowsAt_replaceFile (hother : key ≠ ⟨folder, other, file.name⟩)
    (h : BepState.replaceFile folder other file tx = .ok tx') : SameRowsAt key tx tx' := by
  have hdelete : SameRowsAt key tx (tx.deleteFileInfo fun k => k = ⟨folder, other, file.name⟩) :=
    sameRowsAt_deleteFileInfo (decide_eq_false hother)
  exact hdelete.trans (replaceFile_rel (SameRowsAt key) (SameRowsAt.refl key) SameRowsAt.trans
    (fun _ _ _ h => sameRowsAt_insertFileInfo hother h)
    (fun _ _ _ _ h => sameRowsAt_insertVersion hother h)
    (fun _ _ _ _ _ h => sameRowsAt_insertBlock hother h) h)

/-- The rows of a device are those of its files. -/
theorem sameRowsOf_iff :
    SameRowsOf deviceId tx tx' ↔ ∀ k : FileKey, k.device = deviceId → SameRowsAt k tx tx' := by
  constructor
  · rintro h key rfl
    exact ⟨h.files key rfl, fun k hk => h.locations k (congrArg FileKey.device hk),
      h.cache key rfl, fun k hk => h.blocks k (congrArg FileKey.device hk),
      fun k hk => h.versions k (congrArg FileKey.device hk)⟩
  · intro h
    exact ⟨fun k hk => (h k hk).file, fun k hk => (h k.file hk).locations k rfl,
      fun k hk => (h k hk).cache, fun k hk => (h k.file hk).blocks k rfl,
      fun k hk => (h k.file hk).versions k rfl⟩

/-- A file of another device that is upserted. -/
theorem sameRowsOf_upsertFile (hother : other ≠ deviceId)
    (h : BepState.upsertFile folder other file tx = .ok tx') : SameRowsOf deviceId tx tx' := by
  refine sameRowsOf_iff.mpr fun k hk => sameRowsAt_upsertFile ?_ h
  rintro rfl
  exact hother hk

end Rows

/-! ## What is known of a device -/

section Entries

variable {s s' s'' : BepState} {folder : String} {deviceId other : DeviceId} {entry : GrizolIndex}

/-- The entry that is cached. -/
theorem entryFor_of_some (h : s.indices.indices.get ⟨folder, deviceId⟩ = some entry) :
    entryFor s folder deviceId = entry := by rw [entryFor, h, Option.getD_some]

/-- Without an entry the stored files are known. -/
theorem get_entryFor_of_none (h : s.indices.indices.get ⟨folder, deviceId⟩ = none) (name : String) :
    (entryFor s folder deviceId).files.get name = stored s.db ⟨folder, deviceId, name⟩ := by
  rw [entryFor, h, Option.getD_none]
  exact get_loadIndex s.db folder deviceId name

/-- An empty entry has its files under their names. -/
theorem named_empty : Named AssocMap.empty := by
  intro name file hget
  cases hget

/-- The files of the entry `index` makes are under their names. -/
theorem named_ofIndex (index : Index) : Named (GrizolIndex.ofIndex index).files :=
  named_insertAll named_empty index.files

/-- The entry that is cached, or an empty one, has its files under their names. -/
theorem named_entryFor (hnamed : NamedEntries s) (folder : String) (deviceId : DeviceId) :
    Named (entryFor s folder deviceId).files := by
  cases hget : s.indices.indices.get ⟨folder, deviceId⟩ with
  | some entry =>
      rw [entryFor_of_some hget]
      exact hnamed _ entry hget
  | none =>
      rw [entryFor, hget, Option.getD_none]
      exact named_ofIndex _

/-- So has an index that is cached. -/
theorem namedEntries_insert (hnamed : NamedEntries s) (index : Index) (key : FolderDevice)
    (entry : GrizolIndex)
    (hget : (s.indices.insert deviceId index).indices.get key = some entry) :
    Named entry.files := by
  rw [GrizolIndices.insert, AssocMap.get_insert] at hget
  split_ifs at hget
  · obtain rfl := Option.some.inj hget
    exact named_ofIndex index
  · exact hnamed key entry hget

/-- And one to which files are added. -/
theorem namedEntries_insertFileInfo (hnamed : NamedEntries s) (files : List FileInfo)
    (key : FolderDevice) (entry : GrizolIndex)
    (hget : (s.indices.insertFileInfo folder deviceId files).indices.get key = some entry) :
    Named entry.files := by
  rw [get_insertFileInfo] at hget
  split_ifs at hget
  · obtain rfl := Option.some.inj hget
    apply named_insertAll
    cases hget : s.indices.indices.get ⟨folder, deviceId⟩ with
    | some entry => exact hnamed _ entry hget
    | none => exact named_empty
  · exact hnamed key entry hget

/-- The entries of a device hold the same files, and its stored files are the same. -/
structure Untouched (deviceId : DeviceId) (s s' : BepState) : Prop where
  stored : ∀ k : FileKey, k.device = deviceId → stored s'.db k = stored s.db k
  entries : ∀ folder, s'.indices.indices.get ⟨folder, deviceId⟩ =
      s.indices.indices.get ⟨folder, deviceId⟩ ∨
    s.indices.indices.get ⟨folder, deviceId⟩ = none ∧
      s'.indices.indices.get ⟨folder, deviceId⟩ =
        some (.ofIndex (BepState.loadIndex s.db folder deviceId))

/-- Without a change a device is untouched. -/
theorem Untouched.refl (deviceId : DeviceId) (s : BepState) : Untouched deviceId s s :=
  ⟨fun _ _ => rfl, fun _ => Or.inl rfl⟩

/-- What is known is the same, too. -/
theorem Untouched.get_entryFor (h : Untouched deviceId s s') (folder name : String) :
    (entryFor s' folder deviceId).files.get name = (entryFor s folder deviceId).files.get name := by
  rcases h.entries folder with hsame | ⟨hnone, hloaded⟩
  · cases hget : s.indices.indices.get ⟨folder, deviceId⟩ with
    | some entry => rw [entryFor_of_some hget, entryFor_of_some (hsame.trans hget)]
    | none =>
        rw [get_entryFor_of_none hget, get_entryFor_of_none (hsame.trans hget), h.stored _ rfl]
  · rw [entryFor_of_some hloaded, entryFor, hnone, Option.getD_none]

/-- An untouched device knows what it knew. -/
theorem Untouched.knows (h : Untouched deviceId s s') (hnamed : NamedEntries s')
    (hknows : Knows s deviceId) : Knows s' deviceId := by
  refine ⟨hnamed, ?_⟩
  intro folder name old hold
  rw [h.stored _ rfl] at hold
  rw [h.get_entryFor]
  exact hknows.files folder name old hold

/-- What is untouched is not older. -/
theorem Untouched.onlyNewer (h : Untouched deviceId s s') : OnlyNewer deviceId s s' := by
  constructor
  · intro key old hdevice hold
    exact ⟨old, (h.stored key hdevice).trans hold, Or.inl rfl⟩
  · intro folder name old hold
    exact ⟨old, (h.get_entryFor folder name).trans hold, Or.inl rfl⟩

/-- Files that are replaced by newer ones, one time after the other. -/
theorem onlyNewer_trans (h : OnlyNewer deviceId s s') (h' : OnlyNewer deviceId s' s'') :
    OnlyNewer deviceId s s'' := by
  have hnewer : ∀ {old mid new : FileInfo}, mid = old ∨ Newer old mid →
      new = mid ∨ Newer mid new → new = old ∨ Newer old new := by
    rintro old mid new (rfl | hmid) (rfl | hnew)
    · exact Or.inl rfl
    · exact Or.inr hnew
    · exact Or.inr hmid
    · exact Or.inr (newer_trans hmid hnew)
  constructor
  · intro key old hdevice hold
    obtain ⟨mid, hstored, hmid⟩ := h.stored key old hdevice hold
    obtain ⟨new, hstored', hnew⟩ := h'.stored key mid hdevice hstored
    exact ⟨new, hstored', hnewer hmid hnew⟩
  · intro folder name old hold
    obtain ⟨mid, hknown, hmid⟩ := h.known folder name old hold
    obtain ⟨new, hknown', hnew⟩ := h'.known folder name mid hknown
    exact ⟨new, hknown', hnewer hmid hnew⟩

/-- **New files that are written are newer.** They are put into the entry, and the tables hold
files of their greatest values. -/
theorem onlyNewer_of_written (hknows : Knows s deviceId)
    (hentry : s.indices.indices.get ⟨folder, deviceId⟩ = some entry) {files : List FileInfo}
    {db : Database} {n : Option Int64}
    (hothers : ∀ k : FileKey, ¬ (k.folder = folder ∧ k.device = deviceId) →
      stored db k = stored s.db k)
    (hfresh : ∀ name file, lastNamed files name = some file → Fresh entry.files file)
    (hsome : ∀ name file, lastNamed files name = some file →
      ∃ new, stored db ⟨folder, deviceId, name⟩ = some new ∧ topValue new = topValue file)
    (hnone : ∀ name, lastNamed files name = none →
      stored db ⟨folder, deviceId, name⟩ = stored s.db ⟨folder, deviceId, name⟩)
    (hs' : s' = { s with sequence := n, db := db,
                         indices := s.indices.insertFileInfo folder deviceId files }) :
    Knows s' deviceId ∧ OnlyNewer deviceId s s' := by
  have hfiles := hknows.files folder
  rw [entryFor_of_some hentry] at hfiles
  have hindices : s'.indices = s.indices.insertFileInfo folder deviceId files := by rw [hs']
  have hdb : s'.db = db := by rw [hs']
  have hthere : entryFor s' folder deviceId =
      { entry with files := GrizolIndex.insertAll entry.files files } := by
    apply entryFor_of_some
    rw [hindices, get_insertFileInfo, if_pos rfl, hentry, Option.getD_some]
  -- under another folder everything is as before
  have helsewhere : ∀ folder', folder' ≠ folder →
      (∀ name, stored db ⟨folder', deviceId, name⟩ = stored s.db ⟨folder', deviceId, name⟩) ∧
      ∀ name, (entryFor s' folder' deviceId).files.get name =
        (entryFor s folder' deviceId).files.get name := by
    intro folder' hne
    have hstored : ∀ name, stored db ⟨folder', deviceId, name⟩ =
        stored s.db ⟨folder', deviceId, name⟩ := fun name => hothers _ fun h => hne h.1
    refine ⟨hstored, ?_⟩
    intro name
    have hget : s'.indices.indices.get ⟨folder', deviceId⟩ =
        s.indices.indices.get ⟨folder', deviceId⟩ := by
      rw [hindices, get_insertFileInfo, if_neg]
      intro heq
      exact hne (FolderDevice.mk.inj heq).1
    cases hentry' : s.indices.indices.get ⟨folder', deviceId⟩ with
    | some entry' => rw [entryFor_of_some hentry', entryFor_of_some (hget.trans hentry')]
    | none =>
        rw [get_entryFor_of_none hentry', get_entryFor_of_none (hget.trans hentry'), hdb, hstored]
  -- of a file that was stored the entry had one of the same greatest value
  have hnewer : ∀ name file old new, lastNamed files name = some file →
      stored s.db ⟨folder, deviceId, name⟩ = some old → topValue new = topValue file →
      Newer old new := by
    intro name file old new hlast hold htop
    obtain ⟨g, hg, hgtop⟩ := hfiles name old hold
    have hname := (lastNamed_eq_some hlast).2
    have hnew := hfresh name file hlast g (by rw [hname, hg])
    rw [newer_congr_left hgtop.symm]
    exact newer_congr_right hnew htop
  have hget : ∀ name, (entryFor s' folder deviceId).files.get name =
      (lastNamed files name).or (entry.files.get name) := by
    intro name
    rw [hthere]
    exact get_insertAll entry.files files name
  have hnamed : NamedEntries s' := by
    rw [NamedEntries, hindices]
    exact namedEntries_insertFileInfo hknows.named files
  refine ⟨⟨hnamed, ?_⟩, ?_, ?_⟩
  · intro folder' name new hnew
    rw [hdb] at hnew
    by_cases hfolder : folder' = folder
    · subst hfolder
      rw [hget]
      cases hlast : lastNamed files name with
      | some file =>
          obtain ⟨new', hnew', htop⟩ := hsome name file hlast
          rw [hnew] at hnew'
          obtain rfl := Option.some.inj hnew'
          exact ⟨file, rfl, htop.symm⟩
      | none =>
          rw [hnone name hlast] at hnew
          rw [Option.none_or]
          exact hfiles name new hnew
    · obtain ⟨hstored, hentries⟩ := helsewhere folder' hfolder
      rw [hstored] at hnew
      rw [hentries]
      exact hknows.files folder' name new hnew
  · rintro ⟨folder', device, name⟩ old rfl hold
    rw [hdb]
    by_cases hfolder : folder' = folder
    · subst hfolder
      cases hlast : lastNamed files name with
      | some file =>
          obtain ⟨new, hnew, htop⟩ := hsome name file hlast
          exact ⟨new, hnew, Or.inr (hnewer name file old new hlast hold htop)⟩
      | none => exact ⟨old, (hnone name hlast).trans hold, Or.inl rfl⟩
    · exact ⟨old, ((helsewhere folder' hfolder).1 name).trans hold, Or.inl rfl⟩
  · intro folder' name old hold
    by_cases hfolder : folder' = folder
    · subst hfolder
      rw [entryFor_of_some hentry] at hold
      rw [hget]
      cases hlast : lastNamed files name with
      | some file =>
          have hname := (lastNamed_eq_some hlast).2
          exact ⟨file, rfl, Or.inr (hfresh name file hlast old (by rw [hname, hold]))⟩
      | none => exact ⟨old, hold, Or.inl rfl⟩
    · exact ⟨old, ((helsewhere folder' hfolder).2 name).trans hold, Or.inl rfl⟩

end Entries

/-! ## Calls -/

section Calls

variable {s s' s'' : BepState} {folder : String} {deviceId other : DeviceId} {entry : GrizolIndex}
  {fileInfo : List FileInfo}

/-- A sequence number touches no device. -/
theorem untouched_of_onlyCounter (h : OnlyCounter s s') : Untouched deviceId s s' := by
  obtain ⟨n, rfl⟩ := h
  exact ⟨fun _ _ => rfl, fun _ => Or.inl rfl⟩

/-- And leaves the entries. -/
theorem OnlyCounter.namedEntries (h : OnlyCounter s s') (hnamed : NamedEntries s) :
    NamedEntries s' := by
  obtain ⟨n, rfl⟩ := h
  exact hnamed

/-- A call leaves the files of the entries under their names. -/
theorem namedEntries_step {e : IndexEvent} (hnamed : NamedEntries s)
    (h : indexStep s e = some s') : NamedEntries s' := by
  cases e with
  | replaceIndex index deviceId =>
      obtain rfl := Option.some.inj h
      rcases replaceIndex_run deviceId s index with ⟨e, s₁, hresult, hcounter⟩ |
        ⟨files, tx, n, -, -, hresult⟩
      · rw [hresult]
        exact hcounter.namedEntries hnamed
      · rw [hresult]
        exact namedEntries_insert hnamed _
  | index folder deviceId =>
      obtain rfl := Option.some.inj h
      rw [index_run, RustM.endState_ok]
      split_ifs
      · exact hnamed
      · exact namedEntries_insert hnamed _
  | insertFileInfo folder deviceId fileInfo =>
      obtain rfl := Option.some.inj h
      rcases insertFileInfo_run folder deviceId s fileInfo with ⟨e, s₁, hresult, hcounter⟩ |
        ⟨files, tx, n, -, -, hresult⟩
      · rw [hresult]
        exact hcounter.namedEntries hnamed
      · rw [hresult]
        exact namedEntries_insertFileInfo hnamed files
  | rmReplaceFileInfo folder deviceId fileInfo =>
      obtain rfl := Option.some.inj h
      rcases rmReplaceFileInfo_run folder deviceId s fileInfo with ⟨e, s₁, hresult, hcounter⟩ |
        ⟨files, tx, n, -, -, hresult⟩
      · rw [hresult]
        exact hcounter.namedEntries hnamed
      · rw [hresult]
        exact namedEntries_insertFileInfo hnamed _
  | mvFileInfo folder deviceId origFileInfo destFileName destFileLocations =>
      obtain rfl := Option.some.inj h
      rcases mvFileInfo_run folder deviceId s origFileInfo destFileName destFileLocations with
        ⟨e, s₁, hresult, hcounter⟩ | ⟨sequence, tx, tx', n, -, -, -, hresult⟩
      · rw [hresult]
        exact hcounter.namedEntries hnamed
      · rw [hresult]
        exact hnamed
  | rmFileInfo folder deviceId fileName =>
      obtain rfl := Option.some.inj h
      rw [rmFileInfo_run, RustM.endState_ok]
      intro key entry hget
      dsimp only at hget
      rw [get_removeFileInfo] at hget
      split_ifs at hget
      · obtain rfl := Option.some.inj hget
        intro name file hfile
        dsimp only at hfile
        rw [AssocMap.get_erase] at hfile
        split_ifs at hfile
        cases hentry : s.indices.indices.get ⟨folder, deviceId⟩ with
        | some entry =>
            rw [hentry, Option.getD_some] at hfile
            exact hnamed _ entry hentry name file hfile
        | none =>
            rw [hentry, Option.getD_none] at hfile
            cases hfile
      · exact hnamed key entry hget
  | restart =>
      obtain rfl := Option.some.inj h
      intro key entry hget
      cases hget

/-- `index` makes the entry it answers from. -/
theorem index_untouched (folder : String) (other deviceId : DeviceId) (s : BepState) :
    Untouched deviceId s (RustM.endState ((BepState.index folder other).run s)) ∧
      (RustM.endState ((BepState.index folder other).run s)).indices.indices.get ⟨folder, other⟩ =
        some (entryFor s folder other) := by
  rw [index_run, RustM.endState_ok]
  cases hget : s.indices.indices.get ⟨folder, other⟩ with
  | some entry =>
      rw [if_pos (AssocMap.contains_iff.mpr ⟨entry, hget⟩), entryFor_of_some hget]
      exact ⟨Untouched.refl deviceId s, hget⟩
  | none =>
      have hcontains := AssocMap.contains_eq_false_iff.mpr hget
      rw [if_neg (by simp [hcontains]), entryFor, hget, Option.getD_none]
      refine ⟨⟨fun _ _ => rfl, ?_⟩, AssocMap.get_insert_self _ _ _⟩
      intro folder'
      by_cases hkey : (⟨folder', deviceId⟩ : FolderDevice) = ⟨folder, other⟩
      · obtain ⟨rfl, rfl⟩ := FolderDevice.mk.inj hkey
        exact Or.inr ⟨hget, AssocMap.get_insert_self _ _ _⟩
      · exact Or.inl (AssocMap.get_insert_of_ne _ _ hkey)

/-- Files of a list with different names, numbered and without those left out, are files of
the list by their names. -/
theorem fresh_of_lastNamed {existing : AssocMap String FileInfo} {files : List FileInfo}
    {keep : FileInfo → Bool} (hnumbered : List.Forall₂ Numbered fileInfo files)
    (hfresh : ∀ f ∈ fileInfo, Fresh existing f) (name : String) (file : FileInfo)
    (hlast : lastNamed (files.filter keep) name = some file) : Fresh existing file := by
  obtain ⟨hmem, -⟩ := lastNamed_eq_some hlast
  obtain ⟨f, hf, n, rfl⟩ := Numbered.mem hnumbered (List.mem_of_mem_filter hmem)
  intro old hold
  exact newer_congr_right (hfresh f hf old hold) rfl

/-- `insert_file_info` of files that are new to the entry, with different names. -/
theorem insertFileInfo_onlyNewer (hknows : Knows s deviceId)
    (hentry : s.indices.indices.get ⟨folder, deviceId⟩ = some entry)
    (hnodup : (fileInfo.map FileInfo.name).Nodup) (hfresh : ∀ f ∈ fileInfo, Fresh entry.files f) :
    Knows (RustM.endState ((BepState.insertFileInfo folder deviceId fileInfo).run s)) deviceId ∧
      OnlyNewer deviceId s
        (RustM.endState ((BepState.insertFileInfo folder deviceId fileInfo).run s)) := by
  rcases insertFileInfo_run folder deviceId s fileInfo with ⟨e, s₁, hresult, hcounter⟩ |
    ⟨files, tx, n, hnumbered, hwrite, hresult⟩
  · rw [hresult]
    have huntouched : Untouched deviceId s s₁ := untouched_of_onlyCounter hcounter
    exact ⟨huntouched.knows (hcounter.namedEntries hknows.named) hknows, huntouched.onlyNewer⟩
  rw [hresult, RustM.endState_ok]
  have hstored := stored_upsertFiles hwrite
  have hall : files.filter (fun _ => true) = files := List.filter_true files
  have hfresh' : ∀ name file, lastNamed files name = some file → Fresh entry.files file := by
    intro name file hlast
    rw [← hall] at hlast
    exact fresh_of_lastNamed hnumbered hfresh name file hlast
  refine onlyNewer_of_written hknows hentry ?_ hfresh' ?_ ?_ rfl
  · intro k hk
    rw [hstored, upsertAll_of_other hk]
  · intro name file hlast
    obtain ⟨hmem, rfl⟩ := lastNamed_eq_some hlast
    have hcounters : keptCounters (stored s.db ⟨folder, deviceId, file.name⟩) files file.name =
        addCounters (((stored s.db ⟨folder, deviceId, file.name⟩).map countersOf).getD [])
          (countersOf file) := by
      rw [← Numbered.map_name hnumbered] at hnodup
      rw [keptCounters, filter_name hnodup hmem, List.flatMap_singleton]
    refine ⟨_, by rw [hstored, upsertAll_apply, hlast], ?_⟩
    rw [hcounters]
    cases hold : stored s.db ⟨folder, deviceId, file.name⟩ with
    | none => exact topValue_dedup
    | some old =>
        have hknown := hknows.files folder file.name old hold
        rw [entryFor_of_some hentry] at hknown
        obtain ⟨g, hg, htop⟩ := hknown
        apply topValue_addCounters
        rw [newer_congr_left htop.symm]
        exact hfresh' _ file hlast g hg
  · intro name hlast
    rw [hstored, upsertAll_apply, hlast]

/-- `rm_replace_file_info` of such files, of which it leaves out the deleted ones. -/
theorem rmReplaceFileInfo_onlyNewer (hknows : Knows s deviceId)
    (hentry : s.indices.indices.get ⟨folder, deviceId⟩ = some entry)
    (hfresh : ∀ f ∈ fileInfo, Fresh entry.files f) :
    Knows (RustM.endState ((BepState.rmReplaceFileInfo folder deviceId fileInfo).run s)) deviceId ∧
      OnlyNewer deviceId s
        (RustM.endState ((BepState.rmReplaceFileInfo folder deviceId fileInfo).run s)) := by
  rcases rmReplaceFileInfo_run folder deviceId s fileInfo with ⟨e, s₁, hresult, hcounter⟩ |
    ⟨files, tx, n, hnumbered, hwrite, hresult⟩
  · rw [hresult]
    have huntouched : Untouched deviceId s s₁ := untouched_of_onlyCounter hcounter
    exact ⟨huntouched.knows (hcounter.namedEntries hknows.named) hknows, huntouched.onlyNewer⟩
  rw [hresult, RustM.endState_ok]
  have hstored := stored_replaceFiles hwrite
  refine onlyNewer_of_written hknows hentry ?_ (fresh_of_lastNamed hnumbered hfresh) ?_ ?_ rfl
  · intro k hk
    rw [hstored, replaceAll_of_other hk]
  · intro name file hlast
    refine ⟨replaced file, ?_, topValue_dedup⟩
    rw [hstored, replaceAll_apply, hlast, Option.map_some, Option.some_or]
  · intro name hlast
    rw [hstored, replaceAll_apply, hlast, Option.map_none, Option.none_or]

/-- An index of one device leaves the others. -/
theorem replaceIndex_untouched {index : Index} (hother : other ≠ deviceId) :
    Untouched deviceId s (RustM.endState ((BepState.replaceIndex index other).run s)) ∧
      SameRowsOf deviceId s.db (RustM.endState ((BepState.replaceIndex index other).run s)).db := by
  refine ⟨⟨fun k hk => replaceIndex_other hother rfl hk, ?_⟩, ?_⟩
  all_goals
    rcases replaceIndex_run other s index with ⟨e, s₁, hresult, n, rfl⟩ |
      ⟨files, tx, n, -, hwrite, hresult⟩
  · intro folder
    rw [hresult]
    exact Or.inl rfl
  · intro folder
    rw [hresult]
    refine Or.inl (AssocMap.get_insert_of_ne _ _ ?_)
    intro heq
    exact hother (FolderDevice.mk.inj heq).2.symm
  · rw [hresult]
    exact SameRowsOf.refl deviceId s.db
  · rw [hresult]
    have hdelete : SameRowsOf deviceId s.db
        (s.db.deleteFileInfo fun k => k.folder = index.folder && k.device = other) := by
      refine sameRowsOf_iff.mpr fun k hk => sameRowsAt_deleteFileInfo ?_
      have hne : k.device ≠ other := fun heq => hother (heq.symm.trans hk)
      simp [hne]
    exact hdelete.trans (writeFiles_rel (SameRowsOf deviceId) (SameRowsOf.refl deviceId)
      SameRowsOf.trans (fun _ _ _ _ h => sameRowsOf_upsertFile hother h) hwrite)

/-- Files of another device that are replaced. -/
theorem rmReplaceFileInfo_untouched (hother : other ≠ deviceId) :
    Untouched deviceId s
      (RustM.endState ((BepState.rmReplaceFileInfo folder other fileInfo).run s)) := by
  refine ⟨fun k hk => rmReplaceFileInfo_other hother rfl hk, ?_⟩
  rcases rmReplaceFileInfo_run folder other s fileInfo with ⟨e, s₁, hresult, n, rfl⟩ |
    ⟨files, tx, n, -, hwrite, hresult⟩
  · intro folder'
    rw [hresult]
    exact Or.inl rfl
  · intro folder'
    rw [hresult]
    refine Or.inl ?_
    dsimp only [RustM.endState_ok]
    rw [get_insertFileInfo, if_neg]
    intro heq
    exact hother (FolderDevice.mk.inj heq).2.symm

/-- `index` leaves the entries that are there. -/
theorem get_index_of_some {key : FolderDevice} (folder : String) (other : DeviceId)
    (hentry : s.indices.indices.get key = some entry) :
    (RustM.endState ((BepState.index folder other).run s)).indices.indices.get key =
      some entry := by
  rw [index_run, RustM.endState_ok]
  split_ifs with hcontains
  · exact hentry
  · refine (AssocMap.get_insert_of_ne _ _ ?_).trans hentry
    rintro rfl
    exact hcontains (AssocMap.contains_iff.mpr ⟨entry, hentry⟩)

/-- What `insert_file_info` leaves in memory. -/
theorem entry_of_insertFileInfo (hentry : s.indices.indices.get ⟨folder, other⟩ = some entry)
    (h : (BepState.insertFileInfo folder other fileInfo).run s = .ok () s') :
    ∃ files, List.Forall₂ Numbered fileInfo files ∧
      s'.indices.indices.get ⟨folder, other⟩ = some { entry with
        files := GrizolIndex.insertAll entry.files files } := by
  rcases insertFileInfo_run folder other s fileInfo with ⟨e, s₁, hresult, -⟩ |
    ⟨files, tx, n, hnumbered, -, hresult⟩
  · rw [hresult] at h
    cases h
  rw [hresult] at h
  obtain ⟨-, rfl⟩ := EStateM.Result.ok.inj h
  refine ⟨files, hnumbered, ?_⟩
  dsimp only
  rw [get_insertFileInfo, if_pos rfl, hentry, Option.getD_some]

/-- Without files it writes nothing. -/
theorem insertFileInfo_nil_db (folder : String) (other : DeviceId) (s : BepState) :
    (RustM.endState ((BepState.insertFileInfo folder other []).run s)).db = s.db := by
  rcases insertFileInfo_run folder other s [] with ⟨e, s₁, hresult, n, rfl⟩ |
    ⟨files, tx, n, hnumbered, hwrite, hresult⟩
  · rw [hresult]
    rfl
  · obtain rfl := List.forall₂_nil_left_iff.mp hnumbered
    obtain rfl := Except.ok.inj hwrite
    rw [hresult]
    rfl

/-- What `rm_replace_file_info` leaves in memory. -/
theorem rmReplaceFileInfo_eq_ok (hentry : s.indices.indices.get ⟨folder, other⟩ = some entry)
    (h : (BepState.rmReplaceFileInfo folder other fileInfo).run s = .ok () s') :
    ∃ files, List.Forall₂ Numbered fileInfo files ∧
      s'.indices.indices.get ⟨folder, other⟩ = some { entry with
        files := GrizolIndex.insertAll entry.files (files.filter fun f => !f.deleted) } ∧
      ∀ key, key ≠ ⟨folder, other⟩ → s'.indices.indices.get key = s.indices.indices.get key := by
  rcases rmReplaceFileInfo_run folder other s fileInfo with ⟨e, s₁, hresult, -⟩ |
    ⟨files, tx, n, hnumbered, -, hresult⟩
  · rw [hresult] at h
    cases h
  rw [hresult] at h
  obtain ⟨-, rfl⟩ := EStateM.Result.ok.inj h
  refine ⟨files, hnumbered, ?_, ?_⟩
  · dsimp only
    rw [get_insertFileInfo, if_pos rfl, hentry, Option.getD_some]
  · intro key hkey
    dsimp only
    rw [get_insertFileInfo, if_neg hkey]

/-- The database and the entries in memory are the same. -/
def SameFilesAs (s s' : BepState) : Prop :=
  s'.db = s.db ∧ ∀ key, s'.indices.indices.get key = s.indices.indices.get key

/-- Files that are the same twice are the same. -/
theorem sameFilesAs_trans (h : SameFilesAs s s') (h' : SameFilesAs s' s'') : SameFilesAs s s'' :=
  ⟨h'.1.trans h.1, fun key => (h'.2 key).trans (h.2 key)⟩

/-- Where all files are flagged deleted `rm_replace_file_info` writes none. -/
theorem rmReplaceFileInfo_of_deleted (hentry : s.indices.indices.get ⟨folder, other⟩ = some entry)
    (hdeleted : ∀ f ∈ fileInfo, f.deleted = true) :
    SameFilesAs s (RustM.endState ((BepState.rmReplaceFileInfo folder other fileInfo).run s)) := by
  rcases rmReplaceFileInfo_run folder other s fileInfo with ⟨e, s₁, hresult, n, rfl⟩ |
    ⟨files, tx, n, hnumbered, hwrite, hresult⟩
  · rw [hresult]
    exact ⟨rfl, fun _ => rfl⟩
  have hnil : (files.filter fun f => !f.deleted) = [] := by
    rw [List.filter_eq_nil_iff]
    intro f' hf'
    obtain ⟨f, hf, m, rfl⟩ := Numbered.mem hnumbered hf'
    simpa using hdeleted f hf
  rw [hnil] at hwrite hresult
  obtain rfl := Except.ok.inj hwrite
  rw [hresult]
  refine ⟨rfl, ?_⟩
  intro key
  dsimp only [RustM.endState_ok]
  rw [get_insertFileInfo]
  split_ifs with hkey
  · rw [hkey, hentry]
    rfl
  · rfl

/-- What is known of a device is its entry, name by name. -/
theorem lastNamed_known_eq (hnamed : Named (entryFor s folder deviceId).files) (name : String) :
    lastNamed (known s folder deviceId).files name =
      (entryFor s folder deviceId).files.get name := by
  cases hget : s.indices.indices.get ⟨folder, deviceId⟩ with
  | some entry =>
      rw [entryFor_of_some hget] at hnamed ⊢
      rw [known_of_entry hget, ← get_ofIndex_values hnamed folder name, GrizolIndex.ofIndex,
        get_insertAll, AssocMap.get_empty, Option.or_none]
      rfl
  | none => rw [known_of_no_entry hget, lastNamed_loadIndex, get_entryFor_of_none hget]

/-- The difference of an index to what is known of a device. -/
theorem diffOrPanic_spec {added : Index} {diff : IndexDiff} {addedFolder : String}
    (hnamed : Named (entryFor s folder deviceId).files)
    (h : diffOrPanic addedFolder added (known s folder deviceId) = .ok diff) :
    diff.newlyAddedFiles.Sublist added.files ∧ ∀ file, file ∈ diff.newlyAddedFiles ↔
      file ∈ added.files ∧ Fresh (entryFor s folder deviceId).files file := by
  have h := diffOrPanic_eq_ok h
  unfold diffIndices at h
  split_ifs at h
  · cases h
  · rw [Rust.bind_eq_ok] at h
    obtain ⟨diff', hdiff, h⟩ := h
    obtain rfl := Except.ok.inj (Except.ok.inj h)
    refine diffFiles_spec (Eq.trans ?_ hdiff)
    apply diffFiles_congr
    intro name
    rw [get_insertAll, AssocMap.get_empty, Option.or_none, lastNamed_known_eq hnamed]

end Calls

end Grizol.Analysis

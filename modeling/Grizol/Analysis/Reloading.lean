import Grizol.Analysis.IndexCoherence
import Grizol.Model.IndexColumns

/-!
# An index that is stored and loaded again

The tables keep a file with all its counters and blocks, if these differ, and the conversions to
columns and back lose nothing (`indexOfRows_eq`). So a server that starts anew finds the index it
has stored, whatever the order of its rows.
-/

set_option autoImplicit false

namespace Grizol.Analysis

open Grizol.Library
open Grizol.Model Grizol.Model.Syncthing Grizol.Interface

/-! ## Columns -/

section Columns

/-- An `i32` is read back from its column. -/
theorem tryIntoI32_toInt64 (x : Int32) : tryIntoI32 x.toInt64 = .ok x := by
  have hle := x.le_toInt
  have hlt := x.toInt_lt
  rw [tryIntoI32, Int32.toInt_toInt64, if_pos ⟨hle, hlt⟩, Int32.toInt32_toInt64]

/-- A number below `2 ^ 63` fits a column. -/
theorem toInt_ofInt_toNat {n : ℕ} (h : n < 2 ^ 63) : (Int64.ofInt (n : ℤ)).toInt = n :=
  Int64.toInt_ofInt_of_le (by omega) (by omega)

/-- So is a `u32`. -/
theorem tryIntoU32_ofInt (x : UInt32) : tryIntoU32 (Int64.ofInt x.toNat) = .ok x := by
  have hlt := x.toNat_lt
  rw [tryIntoU32, toInt_ofInt_toNat (by omega), if_pos ⟨by omega, by omega⟩, Int.toNat_natCast,
    UInt32.ofNat_toNat]

/-- And a `u64` below 2^63. -/
theorem tryIntoU64_ofInt {x : UInt64} (h : x.toNat < 2 ^ 63) :
    tryIntoU64 (Int64.ofInt x.toNat) = .ok x := by
  rw [tryIntoU64, toInt_ofInt_toNat h, if_pos (by omega), Int.toNat_natCast, UInt64.ofNat_toNat]

/-- Eight bytes are read as they were written. -/
theorem shortId_toBe (x : UInt64) : shortId (toBe 8 x.toNat) = .ok x := by
  have hlt : x.toNat < 256 ^ 8 := x.toNat_lt
  rw [shortId, toBe_length, if_pos le_rfl, Nat.sub_self, List.replicate_zero, List.append_nil,
    ofBe_toBe_of_lt hlt, UInt64.ofNat_toNat]

/-- And a flag. -/
theorem flag_eq_one (b : Bool) : (flag b == 1) = b := by
  cases b <;> rfl

/-- The columns of a file read back. -/
theorem toFileInfo_ofRow (row : FileRow) (name : String) :
    (FileColumns.ofRow row).toFileInfo name = .ok (row.toFileInfo name [] []) := by
  simp only [FileColumns.toFileInfo, FileColumns.ofRow, shortId_toBe, tryIntoI32_toInt64,
    tryIntoU32_ofInt, flag_eq_one, Rust.ok_bind, Rust.pure_eq_ok, FileRow.toFileInfo]

/-- And so a block. -/
theorem toBlockInfo_ofBlock (block : BlockInfo) :
    (BlockColumns.ofBlock block).toBlockInfo = .ok block := by
  simp only [BlockColumns.toBlockInfo, BlockColumns.ofBlock, tryIntoI32_toInt64, tryIntoU32_ofInt,
    Rust.ok_bind, Rust.pure_eq_ok]

/-- And a counter. -/
theorem toCounter_ofCounter {counter : Counter} (h : counter.value.toNat < 2 ^ 63) :
    (VersionColumns.ofCounter counter).toCounter = .ok counter := by
  simp only [VersionColumns.toCounter, VersionColumns.ofCounter, shortId_toBe, tryIntoU64_ofInt h,
    Rust.ok_bind, Rust.pure_eq_ok]

/-- A loop over rows that each read as they should. -/
theorem foldlM_eq_foldl {α β γ : Type} {read : γ → β → Rust γ} {add : γ → α → γ} {row : α → β}
    {entries : List α} (h : ∀ e ∈ entries, ∀ existing, read existing (row e) = .ok (add existing e))
    (existing : γ) :
    (entries.map row).foldlM read existing = .ok (entries.foldl add existing) := by
  induction entries generalizing existing with
  | nil => rfl
  | cons e entries ih =>
      rw [List.map_cons, List.foldlM_cons, h e List.mem_cons_self, Rust.ok_bind, List.foldl_cons]
      exact ih (fun e' he' => h e' (List.mem_cons_of_mem e he')) (add existing e)

/-- A row of the first query is read as the tables have it. -/
theorem readFileBlock_eq (existing : AssocMap String FileInfo)
    (e : FileKey × FileRow × Option BlockInfo) :
    readFileBlock existing (e.1, .ofRow e.2.1, e.2.2.map .ofBlock) =
      .ok (BepState.addFileBlock existing e) := by
  obtain ⟨key, row, block⟩ := e
  unfold readFileBlock BepState.addFileBlock
  dsimp only
  split_ifs
  · cases block with
    | none => rfl
    | some bi =>
        rw [Option.map_some]
        dsimp only
        rw [toBlockInfo_ofBlock]
        rfl
  · rw [toFileInfo_ofRow, Rust.ok_bind]
    cases block with
    | none => rfl
    | some bi =>
        rw [Option.map_some]
        dsimp only
        rw [toBlockInfo_ofBlock]
        rfl

/-- So is a row of the second. -/
theorem readFileVersion_eq (existing : AssocMap String FileInfo) {e : String × Counter}
    (h : e.2.value.toNat < 2 ^ 63) :
    readFileVersion existing (e.1, .ofCounter e.2) = .ok (BepState.addFileVersion existing e) := by
  obtain ⟨name, counter⟩ := e
  rw [readFileVersion, BepState.addFileVersion]
  dsimp only
  split_ifs with hcontains
  · rw [toCounter_ofCounter h]
    rfl
  · have hnone := AssocMap.contains_eq_false_iff.mp (Bool.eq_false_iff.mpr hcontains)
    rw [AssocMap.modify, hnone]
    rfl

/-- The rows of the queries are read as the index they stand for. -/
theorem indexOfRows_eq {db : Database} {folder : String} {deviceId : DeviceId}
    (h : ∀ e ∈ BepState.fileVersions db folder deviceId, e.2.value.toNat < 2 ^ 63) :
    indexOfRows folder (fileBlockRows db folder deviceId) (fileVersionRows db folder deviceId) =
      .ok (BepState.loadIndex db folder deviceId) := by
  rw [indexOfRows, fileBlockRows, fileVersionRows,
    foldlM_eq_foldl fun e _ existing => readFileBlock_eq existing e, Rust.ok_bind,
    foldlM_eq_foldl fun e he existing => readFileVersion_eq existing (h e he), Rust.ok_bind]
  rfl

end Columns

/-! ## What is stored -/

section Storing

variable {files : List FileInfo} {folder : String} {deviceId : DeviceId}

/-- Blocks that are all different are kept as they are. -/
theorem addBlocks_of_pairwise {blocks : List BlockInfo}
    (h : blocks.Pairwise fun a b => sameBlock a b = false) : addBlocks [] blocks = blocks := by
  induction blocks using List.reverseRecOn with
  | nil => rfl
  | append_singleton blocks block ih =>
      obtain ⟨hblocks, -, hdiffer⟩ := List.pairwise_append.mp h
      have hnew : ¬ blocks.any (sameBlock block) = true := by
        intro hany
        obtain ⟨b, hb, hsame⟩ := List.any_eq_true.mp hany
        have hdiffer := hdiffer b hb block (List.mem_singleton_self block)
        simp only [sameBlock, Bool.and_eq_true, decide_eq_true_eq] at hsame
        simp [sameBlock, hsame] at hdiffer
      rw [addBlocks, List.foldl_append]
      show addBlock (addBlocks [] blocks) block = _
      rw [ih hblocks, addBlock, if_neg hnew]

/-- Files whose names, counters and blocks differ are stored where nothing was, up to the order of
their counters. -/
theorem upsertAll_rel_lastNamed {old : FileKey → Option FileInfo} {name : String}
    (hold : old ⟨folder, deviceId, name⟩ = none) (hnames : (files.map FileInfo.name).Nodup)
    (hversions : ∀ f ∈ files, f.version.isSome = true)
    (hcounters : ∀ f ∈ files, (countersOf f).Nodup)
    (hblocks : ∀ f ∈ files, f.blocks.Pairwise fun a b => sameBlock a b = false) :
    Option.Rel SameFile (lastNamed files name)
      (upsertAll folder deviceId old files ⟨folder, deviceId, name⟩) := by
  rw [upsertAll_apply, hold]
  cases hlast : lastNamed files name with
  | none => exact .none
  | some file =>
      obtain ⟨hfile, rfl⟩ := lastNamed_eq_some hlast
      dsimp only
      have hparts : (countersOf file).Perm (keptCounters none files file.name) ∧
          keptBlocks none files file.name = file.blocks := by
        rw [keptCounters, keptBlocks, filter_name hnames hfile, List.flatMap_singleton,
          List.flatMap_singleton]
        exact ⟨(addCounters_of_nodup (hcounters file hfile)).symm,
          addBlocks_of_pairwise (hblocks file hfile)⟩
      rw [hparts.2]
      exact .some (SameFile.withParts (hversions file hfile) hparts.1 (.refl _))

/-- Files with different names go into a map in their order. -/
theorem values_insertAll (hnames : (files.map FileInfo.name).Nodup) :
    (GrizolIndex.insertAll .empty files).values = files := by
  induction files using List.reverseRecOn with
  | nil => rfl
  | append_singleton files file ih =>
      rw [List.map_append, List.nodup_append] at hnames
      obtain ⟨hnames, -, hdiffer⟩ := hnames
      have hnew : (GrizolIndex.insertAll .empty files).get file.name = none := by
        rw [get_insertAll, AssocMap.get_empty, Option.or_none]
        refine lastNamed_eq_none.mpr fun f hf => ?_
        exact hdiffer f.name (List.mem_map_of_mem hf) file.name (by simp)
      have hstep : GrizolIndex.insertAll .empty (files ++ [file]) =
          (GrizolIndex.insertAll .empty files).insert file.name file := by
        rw [GrizolIndex.insertAll, List.foldl_append]
        rfl
      rw [hstep, AssocMap.values, AssocMap.entries_insert_of_get_eq_none hnew, List.map_append]
      exact congrArg (· ++ [file]) (ih hnames)

/-- A map that has the files of a list under their names has no others. -/
theorem sameFiles_of_get {loaded : AssocMap String FileInfo}
    (hnames : (files.map FileInfo.name).Nodup)
    (hget : ∀ name, Option.Rel SameFile (lastNamed files name) (loaded.get name)) :
    SameFiles files loaded.values := by
  rw [← values_insertAll hnames]
  refine AssocMap.values_rel fun name => ?_
  rw [get_insertAll, AssocMap.get_empty, Option.or_none]
  exact hget name

end Storing

/-! ## Loading again -/

section Loading

variable {s s' : BepState} {index : Index} {deviceId : DeviceId}

/-- What a call of `replace_index` that returned has written. -/
theorem replaceIndex_wrote (h : (BepState.replaceIndex index deviceId).run s = .ok () s') :
    ∃ numbered s₁, (BepState.assignSequences index.files).run s = .ok numbered s₁ ∧
      BepState.writeFiles (BepState.upsertFile index.folder deviceId) numbered
        (s.db.deleteFileInfo fun k => k.folder = index.folder && k.device = deviceId) =
          .ok s'.db := by
  rw [BepState.replaceIndex, EStateM.run_bind, RustM.run_getThe] at h
  dsimp only at h
  obtain ⟨numbered, s₁, hassign, hnumbered⟩ := RustM.run_bind_eq_ok.mp h
  obtain ⟨tx, s₂, hlift, hend⟩ := RustM.run_bind_eq_ok.mp hnumbered
  have hwrite := (RustM.run_lift_eq_ok.mp hlift).1
  have hdb : tx = s'.db := congrArg BepState.db (EStateM.Result.ok.inj hend).2
  exact ⟨numbered, s₁, hassign, hdb ▸ hwrite⟩

/-- Numbered files are otherwise the ones they were. -/
theorem numbered_of_assignSequences {files numbered : List FileInfo} {s₁ : BepState}
    (h : (BepState.assignSequences files).run s = .ok numbered s₁) :
    List.Forall₂ Numbered files numbered := by
  rcases assignSequences_run files s with ⟨e, s₂, hrun, -⟩ | ⟨files', s₂, hrun, -, hnumbered⟩
  · rw [h] at hrun
    cases hrun
  · rw [h] at hrun
    obtain ⟨rfl, -⟩ := EStateM.Result.ok.inj hrun
    exact hnumbered

/-- **An index that was stored is loaded as it was.** When `replace_index` has stored files with
different names, each with different counters and different blocks, a process that starts anew
gets the same files, with their new sequence numbers, up to the order of files, counters and
blocks; and the columns of the rows are read without a panic. -/
theorem index_of_replaceIndex (hstored : (BepState.replaceIndex index deviceId).run s = .ok () s')
    (hnames : (index.files.map FileInfo.name).Nodup)
    (hcounters : ∀ f ∈ index.files, (countersOf f).Nodup)
    (hblocks : ∀ f ∈ index.files, f.blocks.Pairwise fun a b => sameBlock a b = false) :
    ∃ numbered s₁ loaded s₂,
      (BepState.assignSequences index.files).run s = .ok numbered s₁ ∧
      List.Forall₂ Numbered index.files numbered ∧
      (BepState.index index.folder deviceId).run (.new s'.db) = .ok (some loaded) s₂ ∧
      loaded.folder = index.folder ∧ SameFiles numbered loaded.files ∧
      indexOfRows index.folder (fileBlockRows s'.db index.folder deviceId)
        (fileVersionRows s'.db index.folder deviceId) = .ok loaded := by
  obtain ⟨numbered, s₁, hassign, hwrite⟩ := replaceIndex_wrote hstored
  have hnumbered := numbered_of_assignSequences hassign
  have haccepted := writeFiles_accepted (fun tx => Accepted tx index.folder deviceId)
    (fun _ _ _ => upsertFile_accepted) (fun _ _ _ hindex hf => ⟨hindex ▸ hf.1, hf.2⟩) hwrite
  have hnames' : (numbered.map FileInfo.name).Nodup := by
    rw [Numbered.map_name hnumbered]
    exact hnames
  have hget : ∀ name, Option.Rel SameFile (lastNamed numbered name)
      (stored s'.db ⟨index.folder, deviceId, name⟩) := by
    intro name
    rw [stored_upsertFiles hwrite]
    refine upsertAll_rel_lastNamed ?_ hnames' ?_ ?_ ?_
    · rw [stored_deleteFileInfo, if_pos (by simp)]
    · exact fun f hf => (haccepted f hf).2.2.1
    · intro f' hf'
      obtain ⟨f, hf, n, rfl⟩ := Numbered.mem hnumbered hf'
      exact hcounters f hf
    · intro f' hf'
      obtain ⟨f, hf, n, rfl⟩ := Numbered.mem hnumbered hf'
      exact hblocks f hf
  obtain ⟨files, hfiles, hloaded⟩ := loadIndex_files s'.db index.folder deviceId
  refine ⟨numbered, s₁, BepState.loadIndex s'.db index.folder deviceId, _, hassign, hnumbered,
    index_run index.folder deviceId (.new s'.db), rfl, ?_, indexOfRows_eq ?_⟩
  · rw [hfiles]
    exact sameFiles_of_get hnames' fun name => (hloaded name).symm ▸ hget name
  · -- every counter is one of a file that was accepted
    intro e he
    obtain ⟨⟨key, row⟩, hrow, hcounter⟩ := List.mem_flatMap.mp he
    obtain ⟨hentry, hkey⟩ := List.mem_filter.mp hrow
    obtain ⟨counter, hmem, rfl⟩ := List.mem_map.mp hcounter
    simp only [Bool.and_eq_true, decide_eq_true_eq] at hkey
    have hfile : stored s'.db key = some (row.toFileInfo key.name (s'.db.countersOf key)
        (s'.db.blocksOf key)) := by
      rw [stored, AssocMap.mem_entries_iff.mp hentry, Option.map_some]
    have hlast := hget key.name
    rw [← hkey.1, ← hkey.2, show stored s'.db ⟨key.folder, key.device, key.name⟩ = _ from hfile]
      at hlast
    cases hnamed : lastNamed numbered key.name with
    | none =>
        rw [hnamed] at hlast
        cases hlast
    | some file =>
        rw [hnamed] at hlast
        cases hlast with
        | some hsame =>
            exact (haccepted _ (lastNamed_eq_some hnamed).1).2.2.2 counter
              (hsame.counters.mem_iff.mpr hmem)

end Loading

/-! ## A folder with two files -/

section Example

/-- A file of two blocks and a directory, which has none. -/
def storedFiles : Index :=
  ⟨"default",
    [{ smallFile with blocks := [⟨0, 1, [7], 0⟩, ⟨1, 1, [8], 0⟩] },
     { smallFile with name := "d", type := 1, blocks := [], version := some ⟨[⟨1, 1⟩, ⟨2, 5⟩]⟩ }]⟩

/-- Both are there after a restart. -/
theorem index_of_replaceIndex_two :
    ∃ s numbered s₁ loaded s₂,
      (BepState.replaceIndex storedFiles ⟨Vector.replicate 32 0⟩).run (.new emptyFolder) =
        .ok () s ∧
      (BepState.assignSequences storedFiles.files).run (.new emptyFolder) = .ok numbered s₁ ∧
      List.Forall₂ Numbered storedFiles.files numbered ∧
      (BepState.index storedFiles.folder ⟨Vector.replicate 32 0⟩).run (.new s.db) =
        .ok (some loaded) s₂ ∧
      loaded.folder = storedFiles.folder ∧ SameFiles numbered loaded.files ∧
      indexOfRows storedFiles.folder
        (fileBlockRows s.db storedFiles.folder ⟨Vector.replicate 32 0⟩)
        (fileVersionRows s.db storedFiles.folder ⟨Vector.replicate 32 0⟩) = .ok loaded := by
  have hstored : (BepState.replaceIndex storedFiles ⟨Vector.replicate 32 0⟩).run
      (.new emptyFolder) = .ok () _ := rfl
  obtain ⟨numbered, s₁, loaded, s₂, hloaded⟩ :=
    index_of_replaceIndex hstored (by decide) (by decide) (by decide)
  exact ⟨_, numbered, s₁, loaded, s₂, hstored, hloaded⟩

end Example

end Grizol.Analysis

import Mathlib.Algebra.BigOperators.Fin
import Grizol.Interface.ChunkArithmetic
import Grizol.Interface.ConcurrentResponses
import Grizol.Analysis.HandlerTurns

/-!
# Marking the blocks of a file

What `replace_file_info` leaves of a file, and what `update_block_storage_state` makes
of it: with hashes that differ it marks one block, and it answers by comparing how many
are marked with the number of blocks that the sizes of the file give.
-/

set_option autoImplicit false

namespace Grizol.Analysis

open Grizol.Library
open Grizol.Model Grizol.Model.Syncthing Grizol.Interface

variable {folder : String} {deviceId : DeviceId} {file : FileInfo}

/-! ## The rows of a recorded file -/

section Rows

/-- The rows of a file whose blocks are marked or not. -/
def markedRows (key : FileKey) (file : FileInfo) (marked : Fin file.blocks.length → Bool) :
    List (BlockKey × BlockRow) :=
  (List.finRange file.blocks.length).map fun i =>
    (BepState.blockKey key (file.blocks.get i),
      ⟨(file.blocks.get i).weakHash, if marked i then .storedLocally else .notStored⟩)

/-- New rows are rows with no mark. -/
theorem newBlockRows_eq_markedRows (key : FileKey) (file : FileInfo) :
    newBlockRows key file.blocks = markedRows key file fun _ => false := by
  have hblocks : file.blocks = (List.finRange file.blocks.length).map fun i => (file.blocks.get i) := by
    apply List.ext_getElem
    · simp
    · intro i hi hi'
      simp
  rw [newBlockRows, markedRows]
  conv_lhs => rw [hblocks]
  rw [List.map_map]
  rfl

/-- Numbering goes both ways. -/
theorem Numbered.symm {f f' : FileInfo} (h : Numbered f f') : Numbered f' f := by
  obtain ⟨n, rfl⟩ := h
  exact ⟨f.sequence, rfl⟩

/-- What a list of replacements leaves of the last file of a name. -/
theorem rows_of_replaceFiles {tx tx' : Database} {files : List FileInfo}
    (h : BepState.writeFiles (BepState.replaceFile folder deviceId) files tx = .ok tx')
    (hlast : lastNamed files file.name = some file) :
    tx'.bepFileInfo.get ⟨folder, deviceId, file.name⟩ = some (.ofFileInfo file) ∧
      tx'.blockRowsOf ⟨folder, deviceId, file.name⟩ =
        newBlockRows ⟨folder, deviceId, file.name⟩ file.blocks ∧
      8 * file.blocks.length ≤ BepState.maxVariables := by
  induction files using List.reverseRecOn generalizing tx' with
  | nil => cases hlast
  | append_singleton files f ih =>
      have hconcat : ∀ (fs : List FileInfo) (tx : Database),
          BepState.writeFiles (BepState.replaceFile folder deviceId) (fs ++ [f]) tx =
            (BepState.writeFiles (BepState.replaceFile folder deviceId) fs tx).bind
              (BepState.replaceFile folder deviceId f) := by
        intro fs
        induction fs with
        | nil =>
            intro tx
            simp only [List.nil_append, BepState.writeFiles]
            exact bind_pure _
        | cons g fs ihfs =>
            intro tx
            simp only [List.cons_append, BepState.writeFiles]
            cases hg : BepState.replaceFile folder deviceId g tx with
            | error e => rfl
            | ok tx₁ => exact ihfs tx₁
      rw [hconcat] at h
      obtain ⟨tx₁, hfiles, hlastFile⟩ := Rust.bind_eq_ok.mp h
      obtain ⟨hrow, -, hblocks, hmany⟩ := replaceFile_eq_ok hlastFile
      by_cases hname : f.name = file.name
      · obtain rfl : f = file := by
          rw [lastNamed, List.reverse_append, List.reverse_singleton, List.singleton_append,
            List.find?_cons_of_pos (by simpa using hname)] at hlast
          exact Option.some.inj hlast
        rw [hrow, if_pos rfl, hblocks, if_pos rfl]
        exact ⟨rfl, rfl, hmany⟩
      · have hother : (⟨folder, deviceId, file.name⟩ : FileKey) ≠ ⟨folder, deviceId, f.name⟩ := by
          intro heq
          exact hname (FileKey.mk.inj heq).2.2.symm
        rw [lastNamed, List.reverse_append, List.reverse_singleton, List.singleton_append,
          List.find?_cons_of_neg (by simpa using hname)] at hlast
        rw [hrow, if_neg hother, hblocks, if_neg hother]
        exact ih hfiles hlast

/-- What is recorded of a file: its sizes, its blocks, none of them marked, and not too many. -/
theorem rows_of_recorded {db : Database} (h : Recorded db folder deviceId file) :
    (∃ row, db.bepFileInfo.get ⟨folder, deviceId, file.name⟩ = some row ∧
      row.size = file.size ∧ row.blockSize = file.blockSize) ∧
    db.blockRowsOf ⟨folder, deviceId, file.name⟩ =
      markedRows ⟨folder, deviceId, file.name⟩ file (fun _ => false) ∧
    8 * file.blocks.length ≤ BepState.maxVariables := by
  obtain ⟨s, s', fileInfo, hrun, hlast, hrow, hblocks⟩ := h
  rcases rmReplaceFileInfo_run folder deviceId s fileInfo with
    ⟨e, s₁, herror, -⟩ | ⟨files, tx, n, hnumbered, hwrite, hend⟩
  · rw [hrun] at herror
    cases herror
  · rw [hrun] at hend
    obtain ⟨-, rfl⟩ := EStateM.Result.ok.inj hend
    have hkept : List.Forall₂ Numbered (files.filter fun f => !f.deleted)
        (fileInfo.filter fun f => !f.deleted) :=
      (Numbered.filter hnumbered fun _ _ => rfl).flip.imp fun _ _ h => Numbered.symm h
    obtain ⟨file', hlast', m, rfl⟩ := Numbered.lastNamed hkept hlast
    have hname : lastNamed (files.filter fun f => !f.deleted) file'.name = some file' := hlast'
    obtain ⟨hrow', hblocks', hmany⟩ := rows_of_replaceFiles hwrite hname
    refine ⟨⟨_, hrow.trans hrow', rfl, rfl⟩, ?_, hmany⟩
    exact (hblocks.trans hblocks').trans (newBlockRows_eq_markedRows _ file')

end Rows

/-! ## The number of blocks -/

section Counting

/-- The blocks that are marked. -/
theorem countP_markedRows (key : FileKey) (marked : Fin file.blocks.length → Bool) :
    (markedRows key file marked).countP (fun e => e.2.storageStatus = .storedLocally) =
      ∑ i, if marked i then 1 else 0 := by
  have hlist : ∀ l : List (Fin file.blocks.length),
      (l.map fun i => (BepState.blockKey key (file.blocks.get i), (⟨(file.blocks.get i).weakHash,
        if marked i then .storedLocally else .notStored⟩ : BlockRow))).countP
          (fun e => e.2.storageStatus = .storedLocally) =
        (l.map fun i => if marked i then 1 else 0).sum := by
    intro l
    induction l with
    | nil => rfl
    | cons i l ih =>
        rw [List.map_cons, List.countP_cons, ih, List.map_cons, List.sum_cons, Nat.add_comm]
        cases marked i <;> rfl
  rw [markedRows, hlist, Fin.sum_univ_def]

/-- The cast of a size keeps the number. -/
theorem toSize_eq_ok {x : ℤ} {n : ℕ} : BepProcessor.toSize x = .ok n ↔ x = n := by
  rw [BepProcessor.toSize]
  split_ifs with hx
  · rw [Rust.unwrap_some, Except.ok.injEq]
    omega
  · constructor
    · intro h
      cases h
    · intro h
      omega

/-- The size of a block is not zero if it is positive. -/
theorem blockSize_ne_zero_iff {chunkSize : ℕ} (hchunk : file.blockSize.toInt = chunkSize) :
    file.blockSize ≠ 0 ↔ 0 < chunkSize := by
  have hzero : file.blockSize = 0 ↔ file.blockSize.toInt = 0 :=
    ⟨fun h => by rw [h]; rfl, fun h => Int32.toInt_inj.mp h⟩
  rw [Ne, hzero]
  omega

/-- The sizes of a file give a number of expected blocks when they fit; it is that of the chunks,
and one for an empty file. -/
theorem expectedBlocks_eq_ok_iff {fileSize chunkSize : ℕ} (hfile : file.size.toInt = fileSize)
    (hchunk : file.blockSize.toInt = chunkSize) {n : ℤ} :
    BepState.expectedBlocks file.size file.blockSize = .ok n ↔
      SizesFit file ∧ n = max (chunkCount fileSize chunkSize : ℤ) 1 := by
  have hne := blockSize_ne_zero_iff hchunk
  rw [SizesFit, hne, hfile, hchunk, BepState.expectedBlocks, hfile, hchunk]
  by_cases hsum : (fileSize : ℤ) + chunkSize < 2 ^ 63
  · rw [BepState.i64, if_pos (by omega), Rust.ok_bind, BepState.i64, if_pos (by omega),
      Rust.ok_bind]
    by_cases hpos : 0 < chunkSize
    · have hdiv : ((fileSize : ℤ) + chunkSize - 1).tdiv chunkSize =
          (chunkCount fileSize chunkSize : ℤ) := by
        have hcast : (fileSize : ℤ) + chunkSize - 1 = ((fileSize + chunkSize - 1 : ℕ) : ℤ) := by
          omega
        rw [hcast, chunkCount, Int.ofNat_tdiv]
      have hle : chunkCount fileSize chunkSize ≤ fileSize + chunkSize - 1 := Nat.div_le_self _ _
      rw [if_neg (hne.mpr hpos), hdiv, BepState.i64, if_pos (by omega), Rust.ok_bind,
        Rust.pure_eq_ok, Except.ok.injEq]
      constructor
      · intro h
        exact ⟨⟨hpos, hsum⟩, h.symm⟩
      · intro h
        exact h.2.symm
    · rw [if_pos (not_not.mp (mt hne.mp hpos))]
      simp [hpos]
  · rw [BepState.i64, if_neg (by omega), Rust.error_bind]
    refine iff_of_false ?_ fun h => hsum h.1.2
    intro h
    cases h

/-- The database counts as many blocks as cover the file. -/
theorem expectedBlocks_of_tiled (htiled : Tiled file)
    (hmany : 8 * file.blocks.length ≤ BepState.maxVariables) :
    file.blocks.length = chunkCount (byteSize file) (blockBytes file) ∧
    BepState.expectedBlocks file.size file.blockSize = .ok (file.blocks.length : ℤ) ∧
    byteSize file + blockBytes file < 2 ^ 64 := by
  have hsize : file.size.toInt = (byteSize file : ℤ) :=
    (Int.toNat_of_nonneg (Int.le_of_lt htiled.size)).symm
  have hblock : file.blockSize.toInt = (blockBytes file : ℤ) :=
    (Int.toNat_of_nonneg (Int.le_of_lt htiled.blockSize)).symm
  have hmax : BepState.maxVariables = 32766 := rfl
  rw [hmax] at hmany
  have hpos : 0 < blockBytes file := by
    have hblockSize := htiled.blockSize
    omega
  have hlength : file.blocks.length = chunkCount (byteSize file) (blockBytes file) := by
    simpa using htiled.blocks.length_eq
  -- the number of blocks is bounded, so the sum of the sizes is far from overflowing
  have hcover := le_chunkCount_mul (byteSize file) hpos
  have hwidth : blockBytes file < 2 ^ 31 := by
    have hlt := file.blockSize.toInt_lt
    omega
  have hbound : file.blocks.length * blockBytes file ≤ 4095 * 2 ^ 31 :=
    Nat.mul_le_mul (by omega) (Nat.le_of_lt hwidth)
  rw [← hlength] at hcover
  have hfirst : 0 < chunkCount (byteSize file) (blockBytes file) := by
    rw [lt_chunkCount_iff hpos]
    have hfile := htiled.size
    omega
  have hfit : SizesFit file := by
    refine ⟨(blockSize_ne_zero_iff hblock).mpr hpos, ?_⟩
    rw [hsize, hblock]
    omega
  refine ⟨hlength, (expectedBlocks_eq_ok_iff hsize hblock).mpr ⟨hfit, ?_⟩, by omega⟩
  omega

/-- Marking the blocks with a hash marks the one block that has it. -/
theorem blockRowsOf_mark {db : Database} {key : FileKey} {marked : Fin file.blocks.length → Bool}
    (hrows : db.blockRowsOf key = markedRows key file marked)
    (hhashes : (file.blocks.map BlockInfo.hash).Nodup) (i : Fin file.blocks.length) :
    (markHash db key (file.blocks.get i).hash).blockRowsOf key =
      markedRows key file (Function.update marked i true) := by
  have hfilter : ∀ rows : List (BlockKey × BlockRow),
      ((rows.map fun e => (e.1, if e.1.file = key && e.1.hash = (file.blocks.get i).hash then
        { e.2 with storageStatus := StorageStatus.storedLocally } else e.2)).filter
          fun e => e.1.file = key) =
        (rows.filter fun e => e.1.file = key).map fun e => (e.1,
          if e.1.file = key && e.1.hash = (file.blocks.get i).hash then
            { e.2 with storageStatus := StorageStatus.storedLocally } else e.2) := by
    intro rows
    rw [List.filter_map]
    rfl
  rw [Database.blockRowsOf, markHash, Database.setStorageStatus]
  dsimp only [AssocMap.mapValues]
  rw [hfilter, ← Database.blockRowsOf, hrows, markedRows, markedRows, List.map_map]
  apply List.map_congr_left
  intro j _
  by_cases hji : j = i
  · subst hji
    simp [BepState.blockKey]
  · have hother : (file.blocks.get j).hash ≠ (file.blocks.get i).hash := by
      intro heq
      have hblock : (file.blocks.get j) = (file.blocks.get i) :=
        List.inj_on_of_nodup_map hhashes (List.getElem_mem _) (List.getElem_mem _) heq
      exact hji (Fin.ext ((List.Nodup.of_map _ hhashes).getElem_inj_iff.mp hblock))
    simp only [Function.comp_apply, BepState.blockKey, Function.update_of_ne hji, decide_true,
      Bool.true_and, decide_eq_true_eq, if_neg hother]

/-- The marked blocks are as many as there are blocks when all are marked, else fewer. -/
theorem compare_marked {n : ℕ} (marked : Fin n → Bool) :
    compare ((∑ j, if marked j then 1 else 0 : ℕ) : ℤ) (n : ℤ) =
      if ∀ j, marked j = true then .eq else .lt := by
  have hcard : (∑ j, if marked j then 1 else 0) =
      (Finset.univ.filter fun j => marked j = true).card := (Finset.card_filter _ _).symm
  have hle : (Finset.univ.filter fun j => marked j = true).card ≤ n := by
    have hsubset := Finset.card_le_univ (Finset.univ.filter fun j => marked j = true)
    rwa [Fintype.card_fin] at hsubset
  rw [hcard]
  split_ifs with hall
  · rw [Finset.filter_true_of_mem fun j _ => hall j, Finset.card_univ, Fintype.card_fin]
    exact compare_eq_iff_eq.mpr rfl
  · rw [compare_lt_iff_lt, Nat.cast_lt]
    apply Nat.lt_of_le_of_ne hle
    intro heq
    apply hall
    intro j
    have huniv : (Finset.univ.filter fun j => marked j = true) = Finset.univ :=
      Finset.card_eq_iff_eq_univ _ |>.mp (heq.trans (Fintype.card_fin n).symm)
    have hmem := Finset.mem_univ j
    rw [← huniv, Finset.mem_filter] at hmem
    exact hmem.2

/-- **Marking a block.** The section that marks a block of a file answers whether all are
marked now. -/
theorem updateBlockStorageState_marks {s : BepState} {row : FileRow}
    {marked : Fin file.blocks.length → Bool} (htiled : Tiled file)
    (hmany : 8 * file.blocks.length ≤ BepState.maxVariables)
    (hrow : s.db.bepFileInfo.get ⟨folder, deviceId, file.name⟩ = some row)
    (hsize : row.size = file.size) (hblockSize : row.blockSize = file.blockSize)
    (hrows : s.db.blockRowsOf ⟨folder, deviceId, file.name⟩ =
      markedRows ⟨folder, deviceId, file.name⟩ file marked)
    {requestId : Int32} {r : Request} {i : Fin file.blocks.length}
    (hrequest : s.outgoingRequests.get requestId = some r)
    (hasks : AsksFor folder file (file.blocks.get i) r) :
    (BepState.updateBlockStorageState requestId deviceId).run s =
      .ok (.ok (if ∀ j, Function.update marked i true j = true then .allBlocks
          else .blocksMissing))
        { s with db := markHash s.db ⟨folder, deviceId, file.name⟩ (file.blocks.get i).hash } := by
  obtain ⟨hlength, hexpected, -⟩ := expectedBlocks_of_tiled htiled hmany
  -- the section reads the rows as they are after the statement
  have hstored : BepState.storedBlocks (markHash s.db ⟨folder, deviceId, file.name⟩
      (file.blocks.get i).hash) ⟨folder, deviceId, file.name⟩ =
      ∑ j, if Function.update marked i true j then 1 else 0 := by
    rw [BepState.storedBlocks, blockRowsOf_mark hrows htiled.hashes i, countP_markedRows]
  -- and finds at least the block it marked
  obtain ⟨n, hone⟩ : ∃ n, (∑ j, if Function.update marked i true j then 1 else 0) = n + 1 := by
    apply Nat.exists_eq_add_one.mpr
    have hle := Finset.single_le_sum_of_canonicallyOrdered
      (f := fun j => if Function.update marked i true j then 1 else 0) (Finset.mem_univ i)
    rw [Function.update_self, if_pos rfl] at hle
    exact hle
  have hcompare := compare_marked (Function.update marked i true)
  rw [hone] at hcompare
  obtain ⟨hfolder, hname, -, hhash⟩ := hasks
  have hrow' : (markHash s.db ⟨folder, deviceId, file.name⟩ (file.blocks.get i).hash).bepFileInfo.get
      ⟨folder, deviceId, file.name⟩ = some row := hrow
  rw [BepState.updateBlockStorageState, EStateM.run_bind, RustM.run_getThe]
  dsimp only
  rw [hrequest, Rust.unwrap_some, EStateM.run_bind, RustM.run_lift_ok]
  dsimp only
  rw [hfolder, hname, hhash, ← markHash, hrow', hstored, hone]
  dsimp only
  rw [hsize, hblockSize, hexpected, EStateM.run_bind, RustM.run_lift_ok]
  dsimp only
  rw [EStateM.run_bind, EStateM.run_set]
  dsimp only
  rw [hcompare]
  split_ifs <;> rfl

end Counting

end Grizol.Analysis

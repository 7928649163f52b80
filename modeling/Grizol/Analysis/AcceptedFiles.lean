import Grizol.Analysis.IndexCoherence

/-!
# What the database takes

The statements for one file go through exactly when the file is accepted and no other row
has its sequence number: `upsertFile_returns` and `replaceFile_returns` are the halves
that `upsertFile_accepted` and `replaceFile_accepted` leave open. A sequence number is
there to be had unless the counter is at its end.
-/

set_option autoImplicit false

namespace Grizol.Analysis

open Grizol.Library
open Grizol.Model Grizol.Model.Syncthing Grizol.Interface

/-! ## The statements for one file -/

section Statements

variable {tx : Database}

/-- A row is written where its index is there, its type is of the table and its number is free. -/
theorem insertFileInfo_returns {key : FileKey} {row : FileRow}
    (hindex : (key.folder, key.device) ∈ tx.bepIndex) (htype : 0 ≤ row.type ∧ row.type ≤ 4)
    (hfree : tx.sequenceFree key row.sequence = true) :
    ∃ tx', tx.insertFileInfo key row = .ok tx' :=
  ⟨_, dif_pos ⟨hindex, htype, hfree⟩⟩

/-- Counters are written where the row is there and they fit in an `i64`. -/
theorem insertVersions_returns {key : FileKey} (counters : List Counter) :
    ∀ {tx : Database}, tx.bepFileInfo.contains key = true →
      (∀ counter ∈ counters, counter.value.toNat < 2 ^ 63) →
        ∃ tx', BepState.insertVersions key counters tx = .ok tx' := by
  induction counters with
  | nil =>
      intro tx _ _
      exact ⟨tx, rfl⟩
  | cons counter counters ih =>
      intro tx hfile hvalues
      obtain ⟨hvalue, hvalues⟩ := List.forall_mem_cons.mp hvalues
      have hinsert : tx.insertVersion ⟨key, counter.id, counter.value⟩ = .ok { tx with
          bepFileVersion := (tx.bepFileVersion.entryOrInsert ⟨key, counter.id, counter.value⟩ ()).1
          versionOfFile := tx.versionOfFile.entryOrInsert hfile } := dif_pos hfile
      obtain ⟨tx', hrest⟩ := @ih { tx with
          bepFileVersion := (tx.bepFileVersion.entryOrInsert ⟨key, counter.id, counter.value⟩ ()).1
          versionOfFile := tx.versionOfFile.entryOrInsert hfile } hfile hvalues
      refine ⟨tx', ?_⟩
      rw [BepState.insertVersions, Rust.tryInto_of_lt hvalue, Rust.ok_bind, hinsert]
      exact hrest

/-- Blocks are written where the row is there. -/
theorem insertBlocks_returns {key : FileKey} (blocks : List BlockInfo) :
    ∀ {tx : Database}, tx.bepFileInfo.contains key = true →
      ∃ tx', BepState.insertBlocks key blocks tx = .ok tx' := by
  induction blocks with
  | nil =>
      intro tx _
      exact ⟨tx, rfl⟩
  | cons block blocks ih =>
      intro tx hfile
      have hinsert : tx.insertBlock (BepState.blockKey key block) ⟨block.weakHash, .notStored⟩ =
          .ok { tx with
            bepBlockInfo := (tx.bepBlockInfo.entryOrInsert (BepState.blockKey key block)
              ⟨block.weakHash, .notStored⟩).1
            blockOfFile := tx.blockOfFile.entryOrInsert hfile } := dif_pos hfile
      obtain ⟨tx', hrest⟩ := @ih { tx with
            bepBlockInfo := (tx.bepBlockInfo.entryOrInsert (BepState.blockKey key block)
              ⟨block.weakHash, .notStored⟩).1
            blockOfFile := tx.blockOfFile.entryOrInsert hfile } hfile
      refine ⟨tx', ?_⟩
      rw [BepState.insertBlocks, hinsert]
      exact hrest

/-- Blocks that are not there yet, and differ from one another, go in with one statement. -/
theorem insertNewBlocks_returns {key : FileKey} (blocks : List BlockInfo) :
    ∀ {tx : Database}, tx.bepFileInfo.contains key = true →
      (∀ b ∈ blocks, tx.bepBlockInfo.contains (BepState.blockKey key b) = false) →
      (blocks.Pairwise fun a b => sameBlock a b = false) →
        ∃ tx', BepState.insertNewBlocks key blocks tx = .ok tx' := by
  induction blocks with
  | nil =>
      intro tx _ _ _
      exact ⟨tx, rfl⟩
  | cons block blocks ih =>
      intro tx hfile hnew hdistinct
      obtain ⟨hblock, hnew⟩ := List.forall_mem_cons.mp hnew
      obtain ⟨hdiffer, hdistinct⟩ := List.pairwise_cons.mp hdistinct
      let tx₁ : Database := { tx with
        bepBlockInfo := (tx.bepBlockInfo.entryOrInsert (BepState.blockKey key block)
          ⟨block.weakHash, .notStored⟩).1
        blockOfFile := tx.blockOfFile.entryOrInsert hfile }
      have hinsert : tx.insertNewBlock (BepState.blockKey key block)
          ⟨block.weakHash, .notStored⟩ = .ok tx₁ := by
        rw [Database.insertNewBlock, if_neg (by simp [hblock])]
        exact dif_pos hfile
      have hrestNew : ∀ b ∈ blocks,
          tx₁.bepBlockInfo.contains (BepState.blockKey key b) = false := by
        intro b hb
        rw [AssocMap.contains_eq_false_iff]
        dsimp only [tx₁]
        rw [AssocMap.get_entryOrInsert, if_neg, AssocMap.contains_eq_false_iff.mp (hnew b hb)]
        intro hkey
        have hsame : sameBlock block b = true := by
          rw [BepState.blockKey, BepState.blockKey, BlockKey.mk.injEq] at hkey
          obtain ⟨-, hoffset, hsize, hhash⟩ := hkey
          simp [sameBlock, hoffset, hsize, hhash]
        rw [hdiffer b hb] at hsame
        cases hsame
      obtain ⟨tx', hrest⟩ := @ih tx₁ hfile hrestNew hdistinct
      refine ⟨tx', ?_⟩
      rw [BepState.insertNewBlocks, hinsert]
      exact hrest

/-- A file that is accepted, with a sequence number no other row has, is put over what is
there. -/
theorem upsertFile_returns {folder : String} {deviceId : DeviceId} {file : FileInfo}
    (h : Accepted tx folder deviceId file)
    (hfree : tx.sequenceFree ⟨folder, deviceId, file.name⟩ file.sequence = true) :
    ∃ tx', BepState.upsertFile folder deviceId file tx = .ok tx' := by
  obtain ⟨hindex, htype, hversion, hvalues⟩ := h
  let key : FileKey := ⟨folder, deviceId, file.name⟩
  obtain ⟨tx₁, hinsert⟩ := @insertFileInfo_returns tx key (.ofFileInfo file) hindex htype hfree
  have hfile : tx₁.bepFileInfo.contains key = true := by
    rw [(insertFileInfo_eq_ok hinsert).1]
    exact AssocMap.contains_iff.mpr ⟨_, AssocMap.get_insert_self _ _ _⟩
  obtain ⟨version, hversion⟩ := Option.isSome_iff_exists.mp hversion
  have hcounters : ∀ counter ∈ version.counters, counter.value.toNat < 2 ^ 63 := by
    simpa [countersOf, hversion] using hvalues
  obtain ⟨tx₂, hversions⟩ := insertVersions_returns version.counters hfile hcounters
  have hfile₂ : tx₂.bepFileInfo.contains key = true := by
    rw [(insertVersions_eq_ok hversions).1]
    exact hfile
  obtain ⟨tx₃, hblocks⟩ := insertBlocks_returns file.blocks hfile₂
  refine ⟨tx₃, ?_⟩
  simp only [BepState.upsertFile, hinsert, hversion, Rust.expect_some, hversions, hblocks,
    Rust.ok_bind, key]

/-- A file that is replaceable takes the place of what is there. -/
theorem replaceFile_returns {folder : String} {deviceId : DeviceId} {file : FileInfo}
    (h : Replaceable tx folder deviceId file)
    (hfree : tx.sequenceFree ⟨folder, deviceId, file.name⟩ file.sequence = true) :
    ∃ tx', BepState.replaceFile folder deviceId file tx = .ok tx' := by
  obtain ⟨⟨hindex, htype, hversion, hvalues⟩, hmany, hdistinct⟩ := h
  let key : FileKey := ⟨folder, deviceId, file.name⟩
  have hfree₀ : (tx.deleteFileInfo fun k => k = key).sequenceFree key file.sequence = true := by
    rw [Database.sequenceFree_iff] at hfree ⊢
    intro k r hk
    rw [Database.deleteFileInfo, AssocMap.get_retain, Option.filter_eq_some_iff] at hk
    exact hfree k r hk.1
  obtain ⟨tx₁, hinsert⟩ := @insertFileInfo_returns (tx.deleteFileInfo fun k => k = key) key
    (.ofFileInfo file) hindex htype hfree₀
  obtain ⟨hfiles₁, hblocks₁, -⟩ := insertFileInfo_eq_ok hinsert
  have hfile : tx₁.bepFileInfo.contains key = true := by
    rw [hfiles₁]
    exact AssocMap.contains_iff.mpr ⟨_, AssocMap.get_insert_self _ _ _⟩
  obtain ⟨version, hversion⟩ := Option.isSome_iff_exists.mp hversion
  have hcounters : ∀ counter ∈ version.counters, counter.value.toNat < 2 ^ 63 := by
    simpa [countersOf, hversion] using hvalues
  obtain ⟨tx₂, hversions⟩ := insertVersions_returns version.counters hfile hcounters
  obtain ⟨hfiles₂, hblocks₂, -⟩ := insertVersions_eq_ok hversions
  have hfile₂ : tx₂.bepFileInfo.contains key = true := by
    rw [hfiles₂]
    exact hfile
  -- the blocks of the old row went with it
  have hgone : ∀ b ∈ file.blocks, tx₂.bepBlockInfo.contains (BepState.blockKey key b) = false := by
    intro b _
    rw [hblocks₂, hblocks₁, AssocMap.contains_eq_false_iff, Database.deleteFileInfo,
      AssocMap.get_retain, Option.filter_eq_none_iff]
    intro row _
    simp [BepState.blockKey]
  obtain ⟨tx₃, hblocks⟩ := insertNewBlocks_returns file.blocks hfile₂ hgone hdistinct
  refine ⟨tx₃, ?_⟩
  have hmany : ¬ BepState.maxVariables < 8 * file.blocks.length := Nat.not_lt.mpr hmany
  simp only [BepState.replaceFile, hinsert, hversion, Rust.expect_some, hversions, hmany, hblocks,
    Rust.ok_bind, key, if_false]

/-- Nothing else goes through. -/
theorem upsertFile_sequenceFree {tx' : Database} {folder : String} {deviceId : DeviceId}
    {file : FileInfo} (h : BepState.upsertFile folder deviceId file tx = .ok tx') :
    tx.sequenceFree ⟨folder, deviceId, file.name⟩ file.sequence = true := by
  rw [BepState.upsertFile, Rust.bind_eq_ok] at h
  obtain ⟨tx₁, hinsert, -⟩ := h
  unfold Database.insertFileInfo at hinsert
  split_ifs at hinsert with haccepted
  exact haccepted.2.2

/-- What goes through is there. -/
theorem upsertFile_files {tx' : Database} {folder : String} {deviceId : DeviceId}
    {file : FileInfo} (h : BepState.upsertFile folder deviceId file tx = .ok tx') :
    tx'.bepFileInfo =
      tx.bepFileInfo.insert ⟨folder, deviceId, file.name⟩ (.ofFileInfo file) := by
  simp only [BepState.upsertFile, Rust.bind_eq_ok] at h
  obtain ⟨tx₁, hinsert, version, -, tx₂, hversions, hblocks⟩ := h
  rw [(insertBlocks_eq_ok hblocks).1, (insertVersions_eq_ok hversions).1,
    (insertFileInfo_eq_ok hinsert).1]

/-- A file that is replaced has its new row, and the other rows stay. -/
theorem replaceFile_files {tx' : Database} {folder : String} {deviceId : DeviceId}
    {file : FileInfo} (h : BepState.replaceFile folder deviceId file tx = .ok tx') :
    tx'.bepFileInfo = (tx.bepFileInfo.retain fun k _ =>
      !decide (k = ⟨folder, deviceId, file.name⟩)).insert ⟨folder, deviceId, file.name⟩
        (.ofFileInfo file) := by
  simp only [BepState.replaceFile, Rust.bind_eq_ok] at h
  obtain ⟨tx₁, hinsert, version, -, tx₂, hversions, hblocks⟩ := h
  split_ifs at hblocks
  rw [(insertNewBlocks_eq_ok hblocks).1, (insertVersions_eq_ok hversions).1,
    (insertFileInfo_eq_ok hinsert).1]
  rfl

/-! ## Moving a row -/

/-- A row under a name that is free, or its own, is moved. -/
theorem renameFileInfo_returns {key : FileKey} {name : String} {sequence : Int64}
    (hrow : tx.bepFileInfo.contains key = true)
    (hdest : name = key.name ∨ tx.bepFileInfo.contains { key with name := name } = false)
    (hfree : tx.sequenceFree key sequence = true) :
    ∃ tx' row, tx.renameFileInfo key name sequence = .ok tx' ∧
      tx'.bepFileInfo = (tx.bepFileInfo.erase key).insert { key with name := name } row := by
  let dest : FileKey := { key with name := name }
  obtain ⟨row, hrow⟩ := AssocMap.contains_iff.mp hrow
  have hdest : dest = key ∨ tx.bepFileInfo.get dest = none := by
    rcases hdest with rfl | hnone
    · exact Or.inl rfl
    · exact Or.inr (AssocMap.contains_eq_false_iff.mp hnone)
  -- no row is at the new name, unless it is the old one
  have hmove : ∀ k k' : FileKey, tx.bepFileInfo.contains k = true →
      tx.bepFileInfo.contains k' = true →
      Database.moveFile key dest k = Database.moveFile key dest k' → k = k' := by
    intro k k' hk hk' heq
    have hother : ∀ k, tx.bepFileInfo.contains k = true → k ≠ key → k ≠ dest := by
      rintro k hk hne rfl
      rcases hdest with hsame | hnone
      · exact hne hsame
      · rw [AssocMap.contains, hnone] at hk
        cases hk
    unfold Database.moveFile at heq
    split_ifs at heq with h₁ h₂ h₂
    · rw [h₁, h₂]
    · exact absurd heq.symm (hother k' hk' h₂)
    · exact absurd heq (hother k hk h₁)
    · exact heq
  have hrekey : ∀ {κ ν : Type} [DecidableEq κ] (rows : AssocMap κ ν) (file : κ → FileKey)
      (move : κ → κ), Refers file rows tx.bepFileInfo →
      (∀ k, file (move k) = Database.moveFile key dest (file k)) →
      (∀ k k', file k = file k' → move k = move k' → k = k') →
      ∃ rows', rows.rekey move = some rows' := by
    intro κ ν _ rows file move hrefers hfile hrest
    refine AssocMap.exists_rekey fun k hk k' hk' heq => ?_
    obtain ⟨v, hv⟩ := AssocMap.mem_keys_iff.mp hk
    obtain ⟨v', hv'⟩ := AssocMap.mem_keys_iff.mp hk'
    refine hrest k k' (hmove _ _ (hrefers k v hv) (hrefers k' v' hv') ?_) heq
    rw [← hfile, ← hfile, heq]
  obtain ⟨locations, hlocations⟩ := hrekey tx.bepFileLocation LocationKey.file
    (fun k => { k with file := Database.moveFile key dest k.file }) tx.locationOfFile
    (fun _ => rfl) (by
      rintro ⟨f, b, l⟩ ⟨f', b', l'⟩ hfile heq
      cases hfile
      cases heq
      rfl)
  obtain ⟨cache, hcache⟩ := hrekey tx.bepLocalCache id (Database.moveFile key dest) tx.cacheOfFile
    (fun _ => rfl) (fun _ _ hfile _ => hfile)
  obtain ⟨blocks, hblocks⟩ := hrekey tx.bepBlockInfo BlockKey.file
    (fun k => { k with file := Database.moveFile key dest k.file }) tx.blockOfFile
    (fun _ => rfl) (by
      rintro ⟨f, o, s, h⟩ ⟨f', o', s', h'⟩ hfile heq
      cases hfile
      cases heq
      rfl)
  obtain ⟨versions, hversions⟩ := hrekey tx.bepFileVersion VersionKey.file
    (fun k => { k with file := Database.moveFile key dest k.file }) tx.versionOfFile
    (fun _ => rfl) (by
      rintro ⟨f, i, v⟩ ⟨f', i', v'⟩ hfile heq
      cases hfile
      cases heq
      rfl)
  unfold Database.renameFileInfo
  dsimp only
  split
  · rename_i hnone
    rw [hrow] at hnone
    cases hnone
  · rename_i row' hrow'
    rw [dif_pos ⟨hdest, hfree⟩]
    split
    · exact ⟨_, _, rfl, rfl⟩
    · rename_i hfails
      exact absurd hversions (hfails locations cache blocks versions hlocations hcache hblocks)

end Statements

end Grizol.Analysis

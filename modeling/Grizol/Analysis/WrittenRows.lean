import Grizol.Analysis.BackupDeletion
import Grizol.Interface.WrittenRows

/-!
# When a writer leaves nothing of an earlier version

A file that is deleted first has no rows when the new ones go in, so they are all it has
then. An upsert keeps the rows of blocks and counters that are there, so it leaves exactly
the new ones when those that are there are among them.
-/

set_option autoImplicit false

namespace Grizol.Analysis

open Grizol.Library
open Grizol.Model Grizol.Model.Syncthing Grizol.Interface

/-! ## Rows -/

section Rows

variable {tx tx' : Database} {key : FileKey} {file : FileInfo}

/-- The rows of a file in the tables of blocks and versions are the same. -/
def SamePartsOf (key : FileKey) (tx tx' : Database) : Prop :=
  tx'.blockRowsOf key = tx.blockRowsOf key ∧ tx'.countersOf key = tx.countersOf key

/-- Without a write the parts of a file are the same. -/
theorem SamePartsOf.refl (key : FileKey) (tx : Database) : SamePartsOf key tx tx := ⟨rfl, rfl⟩

/-- What is the same twice is the same. -/
theorem SamePartsOf.trans {tx'' : Database} (h : SamePartsOf key tx tx')
    (h' : SamePartsOf key tx' tx'') : SamePartsOf key tx tx'' :=
  ⟨h'.1.trans h.1, h'.2.trans h.2⟩

/-- And the other way round. -/
theorem SamePartsOf.symm (h : SamePartsOf key tx tx') : SamePartsOf key tx' tx :=
  ⟨h.1.symm, h.2.symm⟩

/-- What is said of these rows is said of the same rows. -/
theorem SamePartsOf.congr (h : SamePartsOf key tx tx') {P : Database → Prop}
    (hP : ∀ tx tx', SamePartsOf key tx tx' → P tx → P tx') : P tx' ↔ P tx :=
  ⟨hP tx' tx h.symm, hP tx tx' h⟩

/-- Whether the rows are those of a file depends on its parts. -/
theorem rowsOf_congr (h : SamePartsOf key tx tx') : RowsOf tx' key file ↔ RowsOf tx key file :=
  h.congr (P := (RowsOf · key file)) fun _ _ hsame hrows =>
    ⟨hsame.1 ▸ hrows.blocks, hsame.2 ▸ hrows.versions⟩

/-- So does whether there is nothing else. -/
theorem nothingElse_congr (h : SamePartsOf key tx tx') :
    NothingElse tx' key file ↔ NothingElse tx key file :=
  h.congr (P := (NothingElse · key file)) fun _ _ hsame hnothing =>
    ⟨hsame.1 ▸ hnothing.blocks, hsame.2 ▸ hnothing.versions⟩

/-- A file that is not there has nothing else. -/
theorem nothingElse_deleteFileInfo {p : FileKey → Bool} (hp : p key = true) :
    NothingElse (tx.deleteFileInfo p) key file := by
  have habsent : (tx.deleteFileInfo p).bepFileInfo.get key = none := by
    rw [Database.deleteFileInfo, AssocMap.get_retain]
    cases tx.bepFileInfo.get key <;> simp [hp]
  constructor
  · rw [blockRowsOf_of_absent habsent]
    simp
  · rw [countersOf_of_absent habsent]
    simp

/-- The blocks of a file that are put to those that are there. -/
theorem insertBlocks_rows {blocks : List BlockInfo}
    (h : BepState.insertBlocks key blocks tx = .ok tx') :
    (∀ e ∈ tx.blockRowsOf key, e ∈ tx'.blockRowsOf key) ∧
      (∀ e ∈ tx'.blockRowsOf key, e ∈ tx.blockRowsOf key ∨ ∃ b ∈ blocks, e = newBlock key b) ∧
      ∀ b ∈ blocks, ∃ row, (BepState.blockKey key b, row) ∈ tx'.blockRowsOf key := by
  induction blocks generalizing tx with
  | nil =>
      obtain rfl := Except.ok.inj h
      exact ⟨fun _ he => he, fun _ he => Or.inl he, by simp⟩
  | cons b blocks ih =>
      rw [BepState.insertBlocks, Rust.bind_eq_ok] at h
      obtain ⟨tx₁, hinsert, h⟩ := h
      obtain ⟨hkept, hadded, hall⟩ := ih h
      have hrows := blockRowsOf_insertBlock hinsert
      have hfirst : ∀ e ∈ tx.blockRowsOf key, e ∈ tx₁.blockRowsOf key := by
        intro e he
        rw [hrows]
        exact List.mem_append_left _ he
      refine ⟨fun e he => hkept e (hfirst e he), ?_, ?_⟩
      · intro e he
        rcases hadded e he with he | ⟨b', hb', rfl⟩
        · rw [hrows, List.mem_append] at he
          rcases he with he | he
          · exact Or.inl he
          · split_ifs at he
            · exact Or.inr ⟨b, List.mem_cons_self, List.mem_singleton.mp he⟩
            · cases he
        · exact Or.inr ⟨b', List.mem_cons_of_mem _ hb', rfl⟩
      · intro b' hb'
        rcases List.mem_cons.mp hb' with rfl | hb'
        · suffices hthere : ∃ row, (BepState.blockKey key b', row) ∈ tx₁.blockRowsOf key by
            obtain ⟨row, hrow⟩ := hthere
            exact ⟨row, hkept _ hrow⟩
          rw [hrows]
          cases hcontains : tx.bepBlockInfo.contains (BepState.blockKey key b') with
          | false =>
              refine ⟨⟨b'.weakHash, .notStored⟩, List.mem_append_right _ ?_⟩
              rw [if_pos ⟨rfl, rfl⟩]
              exact List.mem_singleton_self _
          | true =>
              obtain ⟨row, hrow⟩ := AssocMap.contains_iff.mp hcontains
              refine ⟨row, List.mem_append_left _ ?_⟩
              exact List.mem_filter.mpr ⟨AssocMap.mem_entries_iff.mpr hrow, by simp [BepState.blockKey]⟩
        · exact hall b' hb'

/-- Blocks of which no two are the same have different rows. -/
theorem eq_of_blockKey {blocks : List BlockInfo}
    (hdistinct : blocks.Pairwise fun a b => sameBlock a b = false) {a b : BlockInfo}
    (ha : a ∈ blocks) (hb : b ∈ blocks)
    (hkey : BepState.blockKey key a = BepState.blockKey key b) : a = b := by
  have hnodup : (blocks.map (BepState.blockKey key)).Nodup := by
    refine List.pairwise_map.mpr (hdistinct.imp ?_)
    intro a b hdiffer hsame
    obtain ⟨-, hoffset, hsize, hhash⟩ := BlockKey.mk.inj hsame
    rw [sameBlock, hoffset, hsize, hhash] at hdiffer
    simp at hdiffer
  exact List.inj_on_of_nodup_map hnodup ha hb hkey

variable {folder : String} {deviceId : DeviceId}

/-- Another file that is upserted. -/
theorem samePartsOf_upsertFile (hother : key ≠ ⟨folder, deviceId, file.name⟩)
    (h : BepState.upsertFile folder deviceId file tx = .ok tx') : SamePartsOf key tx tx' := by
  refine upsertFile_rel (SamePartsOf key) (SamePartsOf.refl key) SamePartsOf.trans ?_ ?_ ?_ h
  · intro row tx tx' hfile
    obtain ⟨-, hblocks, hversions⟩ := insertFileInfo_eq_ok hfile
    exact ⟨by rw [Database.blockRowsOf, hblocks, ← Database.blockRowsOf],
      by rw [Database.countersOf, hversions, ← Database.countersOf]⟩
  · intro id value tx tx' hversion
    have hblocks := (insertVersion_tables hversion).2
    exact ⟨by rw [Database.blockRowsOf, hblocks, ← Database.blockRowsOf],
      by rw [countersOf_insertVersion hversion, if_neg hother]⟩
  · intro b _ row tx tx' hblock
    have hversions := (insertBlock_tables hblock).2
    refine ⟨?_, by rw [Database.countersOf, hversions, ← Database.countersOf]⟩
    rw [blockRowsOf_insertBlock hblock, if_neg, List.append_nil]
    exact fun hnew => hother hnew.2.symm

/-- An upsert leaves the new rows exactly when nothing else was there. -/
theorem upsertFile_rowsOf (hdistinct : file.blocks.Pairwise fun a b => sameBlock a b = false)
    (h : BepState.upsertFile folder deviceId file tx = .ok tx') :
    RowsOf tx' ⟨folder, deviceId, file.name⟩ file ↔
      NothingElse tx ⟨folder, deviceId, file.name⟩ file := by
  simp only [BepState.upsertFile, Rust.bind_eq_ok] at h
  obtain ⟨tx₁, hfile, version, hversion, tx₂, hcounters, hblocks⟩ := h
  obtain ⟨-, hcountersOf⟩ := version_of_expect hversion
  obtain ⟨-, hblocks₁, hversions₁⟩ := insertFileInfo_eq_ok hfile
  obtain ⟨-, hblocks₂, hcounters₂⟩ := insertVersions_eq_ok hcounters
  obtain ⟨-, hversions₃, -⟩ := insertBlocks_eq_ok hblocks
  obtain ⟨hkept, hadded, hall⟩ := insertBlocks_rows hblocks
  have hrows : ∀ k, tx₂.blockRowsOf k = tx.blockRowsOf k := by
    intro k
    rw [Database.blockRowsOf, hblocks₂, hblocks₁, ← Database.blockRowsOf]
  have hcounters₀ : ∀ k, tx₁.countersOf k = tx.countersOf k := by
    intro k
    rw [Database.countersOf, hversions₁, ← Database.countersOf]
  have hcounters₃ : ∀ k, tx'.countersOf k = tx₂.countersOf k := by
    intro k
    rw [Database.countersOf, hversions₃, ← Database.countersOf]
  have hcounters' : ∀ c, c ∈ tx'.countersOf ⟨folder, deviceId, file.name⟩ ↔
      c ∈ tx.countersOf ⟨folder, deviceId, file.name⟩ ∨ c ∈ Interface.countersOf file := by
    intro c
    rw [hcounters₃, hcounters₂, if_pos rfl, hcounters₀, hcountersOf, mem_addCounters]
  simp only [hrows] at hkept hadded
  constructor
  · intro hexact
    constructor
    · intro e he
      exact (hexact.blocks e).mp (hkept e he)
    · intro c hc
      exact (hexact.versions c).mp ((hcounters' c).mpr (Or.inl hc))
  · intro hnothing
    have hnew : ∀ e ∈ tx'.blockRowsOf ⟨folder, deviceId, file.name⟩, ∃ b ∈ file.blocks,
        e = newBlock ⟨folder, deviceId, file.name⟩ b := by
      intro e he
      rcases hadded e he with hold | hadd
      · exact hnothing.blocks e hold
      · exact hadd
    refine ⟨?_, ?_⟩
    · intro e
      refine ⟨hnew e, ?_⟩
      rintro ⟨b, hb, rfl⟩
      -- the row with the key of the block is that of a block, so of this one
      obtain ⟨row, hrow⟩ := hall b hb
      obtain ⟨b', hb', heq⟩ := hnew _ hrow
      obtain ⟨hkey, hrow'⟩ := Prod.mk.inj heq
      obtain rfl := eq_of_blockKey hdistinct hb hb' hkey
      rw [hrow'] at hrow
      exact hrow
    · intro c
      rw [hcounters']
      exact or_iff_right_of_imp (hnothing.versions c)

/-- A replacement always does. -/
theorem replaceFile_rowsOf (h : BepState.replaceFile folder deviceId file tx = .ok tx') :
    RowsOf tx' ⟨folder, deviceId, file.name⟩ file ∧
      ∀ k, k ≠ ⟨folder, deviceId, file.name⟩ → SamePartsOf k tx tx' := by
  obtain ⟨-, hcounters, hblocks, -⟩ := replaceFile_eq_ok h
  refine ⟨⟨?_, ?_⟩, ?_⟩
  · intro e
    rw [hblocks, if_pos rfl, newBlockRows, List.mem_map]
    exact exists_congr fun b => and_congr_right fun _ => eq_comm
  · intro c
    rw [hcounters, if_pos rfl, mem_addCounters]
    simp
  · intro k hk
    exact ⟨by rw [hblocks, if_neg hk], by rw [hcounters, if_neg hk]⟩

end Rows

/-! ## Lists of files -/

section Files

variable {folder : String} {deviceId : DeviceId} {files : List FileInfo} {tx tx' : Database}
  {write : FileInfo → Database → Rust Database}

/-- Of a list of upserts. -/
theorem upsertFiles_rowsOf (hnodup : (files.map FileInfo.name).Nodup)
    (hdistinct : ∀ file ∈ files, file.blocks.Pairwise fun a b => sameBlock a b = false)
    (h : BepState.writeFiles (BepState.upsertFile folder deviceId) files tx = .ok tx') :
    ∀ file ∈ files, RowsOf tx' ⟨folder, deviceId, file.name⟩ file ↔
      NothingElse tx ⟨folder, deviceId, file.name⟩ file := by
  intro file hfile
  obtain ⟨tx₁, tx₂, hwrite, hbefore, hafter⟩ := writeFiles_split SamePartsOf.refl SamePartsOf.trans
    (fun _ _ _ hwrite _ hk => samePartsOf_upsertFile hk hwrite) hnodup h hfile
  rw [rowsOf_congr hafter, upsertFile_rowsOf (hdistinct file hfile) hwrite,
    nothingElse_congr hbefore]

/-- And of replacements. -/
theorem replaceFiles_rowsOf (hnodup : (files.map FileInfo.name).Nodup)
    (h : BepState.writeFiles (BepState.replaceFile folder deviceId) files tx = .ok tx') :
    ∀ file ∈ files, RowsOf tx' ⟨folder, deviceId, file.name⟩ file := by
  intro file hfile
  obtain ⟨tx₁, tx₂, hwrite, -, hafter⟩ :=
    writeFiles_split SamePartsOf.refl SamePartsOf.trans
      (fun _ _ _ hwrite => (replaceFile_rowsOf hwrite).2) hnodup h hfile
  rw [rowsOf_congr hafter]
  exact (replaceFile_rowsOf hwrite).1

end Files

/-! ## Writers -/

section Writers

variable {folder : String} {deviceId : DeviceId} {files : List FileInfo} {s s' : BepState}

/-- Files are not moved: the call that would do so fails, or has none to write. -/
theorem replaceFileInfo_eq_ok {moveFile : Bool}
    (h : (BepState.replaceFileInfo folder deviceId files moveFile).run s = .ok () s') :
    (BepState.rmReplaceFileInfo folder deviceId files).run s = .ok () s' := by
  unfold BepState.replaceFileInfo at h
  unfold BepState.rmReplaceFileInfo BepState.replaceFileInfo
  obtain ⟨s₀, s₁, hget, h⟩ := RustM.run_bind_eq_ok.mp h
  refine RustM.run_bind_eq_ok.mpr ⟨s₀, s₁, hget, ?_⟩
  dsimp only at h ⊢
  obtain ⟨numbered, s₂, hnumbered, h⟩ := RustM.run_bind_eq_ok.mp h
  refine RustM.run_bind_eq_ok.mpr ⟨numbered, s₂, hnumbered, ?_⟩
  obtain ⟨u, s₃, hassert, hrest⟩ := RustM.run_bind_eq_ok.mp h
  obtain ⟨-, hsame⟩ := RustM.run_lift_eq_ok.mp hassert
  refine RustM.run_bind_eq_ok.mpr ⟨u, s₃, RustM.run_lift_eq_ok.mpr ⟨?_, hsame⟩, hrest⟩
  exact if_pos (Or.inl rfl)

/-- The number of a file is not in its rows. -/
theorem rowsOf_numbered {db : Database} {key : FileKey} {f : FileInfo} {n : Int64} :
    RowsOf db key { f with sequence := n } ↔ RowsOf db key f :=
  ⟨fun h => ⟨h.blocks, h.versions⟩, fun h => ⟨h.blocks, h.versions⟩⟩

/-- A sequence number is not among the parts. -/
theorem nothingElse_numbered {db : Database} {key : FileKey} {f : FileInfo} {n : Int64} :
    NothingElse db key { f with sequence := n } ↔ NothingElse db key f :=
  ⟨fun h => ⟨h.blocks, h.versions⟩, fun h => ⟨h.blocks, h.versions⟩⟩

/-- **Which writers leave nothing of an earlier version.** Of files with different names, each
with distinct blocks, a writer that commits leaves exactly their blocks, none of them
stored, and their counters, when it clears what was there: replacing a file or an index
always does, an upsert if and only if nothing else was there. -/
theorem rowsOf_iff_clears (w : IndexWriter) (folder : String) (deviceId : DeviceId)
    (files : List FileInfo) (s s' : BepState) (hnodup : (files.map FileInfo.name).Nodup)
    (hdistinct : ∀ file ∈ files, file.blocks.Pairwise fun a b => sameBlock a b = false)
    (h : (w.call folder deviceId files).run s = .ok () s') :
    (∀ file ∈ w.written files, RowsOf s'.db ⟨folder, deviceId, file.name⟩ file) ↔
      w.Clears folder deviceId files s.db := by
  have hnumberedNodup : ∀ {numbered : List FileInfo}, List.Forall₂ Numbered files numbered →
      (numbered.map FileInfo.name).Nodup := by
    intro numbered hnumbered
    rw [Numbered.map_name hnumbered]
    exact hnodup
  have hnumberedDistinct : ∀ {numbered : List FileInfo}, List.Forall₂ Numbered files numbered →
      ∀ file ∈ numbered, file.blocks.Pairwise fun a b => sameBlock a b = false := by
    intro numbered hnumbered file hfile
    obtain ⟨f, hf, n, rfl⟩ := Numbered.mem hnumbered hfile
    exact hdistinct f hf
  cases w with
  | insertFileInfo =>
      rcases insertFileInfo_run folder deviceId s files with ⟨e, s₁, herror, -⟩ |
        ⟨numbered, tx, n, hnumbered, hwrite, hrun⟩
      · rw [IndexWriter.call, herror] at h
        cases h
      rw [IndexWriter.call, hrun] at h
      obtain ⟨-, rfl⟩ := EStateM.Result.ok.inj h
      have hfiles : ∀ file ∈ files, RowsOf tx ⟨folder, deviceId, file.name⟩ file ↔
          NothingElse s.db ⟨folder, deviceId, file.name⟩ file := by
        refine Numbered.forall_mem hnumbered ?_
          (upsertFiles_rowsOf (hnumberedNodup hnumbered) (hnumberedDistinct hnumbered) hwrite)
        intro f n hiff
        rw [rowsOf_numbered, nothingElse_numbered] at hiff
        exact hiff
      exact forall₂_congr hfiles
  | replaceFileInfo moveFile =>
      refine iff_of_true ?_ trivial
      have h := replaceFileInfo_eq_ok h
      rcases rmReplaceFileInfo_run folder deviceId s files with ⟨e, s₁, herror, -⟩ |
        ⟨numbered, tx, n, hnumbered, hwrite, hrun⟩
      · rw [herror] at h
        cases h
      rw [hrun] at h
      obtain ⟨-, rfl⟩ := EStateM.Result.ok.inj h
      have hkept := Numbered.filter hnumbered (p := fun f => !f.deleted) fun _ _ => rfl
      have hnodup' : ((numbered.filter fun f => !f.deleted).map FileInfo.name).Nodup :=
        (List.filter_sublist.map FileInfo.name).nodup (hnumberedNodup hnumbered)
      refine Numbered.forall_mem hkept ?_ (replaceFiles_rowsOf hnodup' hwrite)
      exact fun f n hrows => rowsOf_numbered.mp hrows
  | replaceIndex =>
      refine iff_of_true ?_ trivial
      rcases replaceIndex_run deviceId s ⟨folder, files⟩ with ⟨e, s₁, herror, -⟩ |
        ⟨numbered, tx, n, hnumbered, hwrite, hrun⟩
      · rw [IndexWriter.call, herror] at h
        cases h
      rw [IndexWriter.call, hrun] at h
      obtain ⟨-, rfl⟩ := EStateM.Result.ok.inj h
      refine Numbered.forall_mem hnumbered ?_ fun file hfile => ?_
      · exact fun f n hrows => rowsOf_numbered.mp hrows
      · -- the files of the index were deleted before
        refine (upsertFiles_rowsOf (hnumberedNodup hnumbered) (hnumberedDistinct hnumbered) hwrite
          file hfile).mpr ?_
        exact nothingElse_deleteFileInfo (by simp)

end Writers

/-! ## An earlier version that remains -/

section Example

/-- A file of one block with this hash, at a version. -/
def fileOfVersion (version : UInt64) (value : UInt8) : FileInfo :=
  { sharedFile version false with blocks := [⟨0, 1, List.replicate 32 value, 0⟩] }

/-- What a call leaves that commits. -/
def afterCall (w : IndexWriter) (files : List FileInfo) (s : BepState) : Option BepState :=
  match (w.call "default" thisDevice files).run s with
  | .ok _ s' => some s'
  | .error _ _ => none

/-- A call that left a state returned. -/
theorem call_of_afterCall {w : IndexWriter} {files : List FileInfo} {s s' : BepState}
    (h : afterCall w files s = some s') :
    (w.call "default" thisDevice files).run s = .ok () s' := by
  unfold afterCall at h
  split at h
  · rename_i s₁ hrun
    rw [hrun, Option.some.inj h]
  · cases h

/-- A replacement of a file leaves nothing of its earlier version. -/
theorem rowsOf_replaced :
    ∃ s s', afterCall .replaceIndex [fileOfVersion 1 7] sharingNode.state = some s ∧
      afterCall (.replaceFileInfo false) [fileOfVersion 2 8] s = some s' ∧
      RowsOf s'.db ⟨"default", thisDevice, "a"⟩ (fileOfVersion 2 8) := by
  obtain ⟨s, hs⟩ : ∃ s, afterCall .replaceIndex [fileOfVersion 1 7] sharingNode.state = some s :=
    Option.isSome_iff_exists.mp (by decide +kernel)
  obtain ⟨s', hs'⟩ : ∃ s', (afterCall .replaceIndex [fileOfVersion 1 7] sharingNode.state).bind
      (afterCall (.replaceFileInfo false) [fileOfVersion 2 8]) = some s' :=
    Option.isSome_iff_exists.mp (by decide +kernel)
  rw [hs, Option.bind_some] at hs'
  refine ⟨s, s', hs, hs', ?_⟩
  exact (rowsOf_iff_clears (.replaceFileInfo false) "default" thisDevice [fileOfVersion 2 8] s s'
    (by decide) (by decide) (call_of_afterCall hs')).mpr trivial (fileOfVersion 2 8) (by decide)

/-- An upsert leaves the block and the counter of the earlier version next to the new ones. -/
theorem oldRows_remain :
    ¬ ∀ (w : IndexWriter) (folder : String) (deviceId : DeviceId) (files : List FileInfo)
      (s s' : BepState), (files.map FileInfo.name).Nodup →
      (∀ file ∈ files, file.blocks.Pairwise fun a b => sameBlock a b = false) →
      (w.call folder deviceId files).run s = .ok () s' →
      ∀ file ∈ w.written files, RowsOf s'.db ⟨folder, deviceId, file.name⟩ file := by
  intro hall
  obtain ⟨s', hs'⟩ : ∃ s', (afterCall .insertFileInfo [fileOfVersion 1 7] sharingNode.state).bind
      (afterCall .insertFileInfo [fileOfVersion 2 8]) = some s' :=
    Option.isSome_iff_exists.mp (by decide +kernel)
  obtain ⟨s, hs, hs'⟩ := Option.bind_eq_some_iff.mp hs'
  have hcounters : ((afterCall .insertFileInfo [fileOfVersion 1 7] sharingNode.state).bind
      (afterCall .insertFileInfo [fileOfVersion 2 8])).map (fun s' =>
        s'.db.countersOf ⟨"default", thisDevice, "a"⟩) = some [⟨1, 1⟩, ⟨1, 2⟩] := by
    decide +kernel
  rw [hs, Option.bind_some, hs', Option.map_some, Option.some.injEq] at hcounters
  have hrows := hall .insertFileInfo "default" thisDevice [fileOfVersion 2 8] s s' (by decide)
    (by decide) (call_of_afterCall hs') (fileOfVersion 2 8) (by decide)
  have hold := (hrows.versions ⟨1, 1⟩).mp (by
    have hkey : (⟨"default", thisDevice, (fileOfVersion 2 8).name⟩ : FileKey) =
      ⟨"default", thisDevice, "a"⟩ := rfl
    rw [hkey, hcounters]
    decide)
  revert hold
  decide

end Example

end Grizol.Analysis

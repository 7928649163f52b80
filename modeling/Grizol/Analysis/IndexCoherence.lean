import Grizol.Interface.IndexCache
import Grizol.Analysis.IndexLoading
import Grizol.Analysis.StateWriters

/-!
# When the indices in memory follow the database

A call that meets `KeepsEntry` changes an entry and the tables alike, so a run of such
calls leaves the entries coherent. The calls that do not meet it are the ones that make
an entry for a folder that was never loaded, write counters or blocks next to those
that are stored, or move a file.
-/

set_option autoImplicit false

namespace Grizol.Analysis

open Grizol.Library
open Grizol.Model Grizol.Model.Syncthing Grizol.Interface

/-! ## What lists of writes leave under a name -/

section Lists

variable {folder : String} {deviceId : DeviceId}

/-- The counters of one more file are added under its name. -/
theorem keptCounters_concat (old : Option FileInfo) (files : List FileInfo) (file : FileInfo)
    (name : String) :
    keptCounters old (files ++ [file]) name = if file.name = name
      then addCounters (keptCounters old files name) (countersOf file)
      else keptCounters old files name := by
  by_cases hname : file.name = name
  · simp [keptCounters, addCounters, List.filter_append, hname, List.foldl_append]
  · simp [keptCounters, List.filter_append, hname]

/-- So are its blocks. -/
theorem keptBlocks_concat (old : Option FileInfo) (files : List FileInfo) (file : FileInfo)
    (name : String) :
    keptBlocks old (files ++ [file]) name = if file.name = name
      then addBlocks (keptBlocks old files name) file.blocks else keptBlocks old files name := by
  by_cases hname : file.name = name
  · simp [keptBlocks, addBlocks, List.filter_append, hname, List.foldl_append]
  · simp [keptBlocks, List.filter_append, hname]

/-- Writes for a folder and device leave the files of others as they are. -/
theorem setFile_of_other {files : FileKey → Option FileInfo} {k : FileKey} {name : String}
    {file : FileInfo} (hk : ¬ (k.folder = folder ∧ k.device = deviceId)) :
    setFile files ⟨folder, deviceId, name⟩ file k = files k := by
  rw [setFile, Function.update_of_ne]
  rintro rfl
  exact hk ⟨rfl, rfl⟩

/-- Files of one index leave those of the others. -/
theorem upsertAll_of_other {old : FileKey → Option FileInfo} {files : List FileInfo} {k : FileKey}
    (hk : ¬ (k.folder = folder ∧ k.device = deviceId)) :
    upsertAll folder deviceId old files k = old k := by
  induction files using List.reverseRecOn with
  | nil => rfl
  | append_singleton files file ih =>
      rw [upsertAll, List.foldl_append, List.foldl_cons, List.foldl_nil, setFile_of_other hk]
      exact ih

/-- Also where they replace what is there. -/
theorem replaceAll_of_other {old : FileKey → Option FileInfo} {files : List FileInfo} {k : FileKey}
    (hk : ¬ (k.folder = folder ∧ k.device = deviceId)) :
    replaceAll folder deviceId old files k = old k := by
  induction files using List.reverseRecOn with
  | nil => rfl
  | append_singleton files file ih =>
      rw [replaceAll, List.foldl_append, List.foldl_cons, List.foldl_nil, setFile_of_other hk]
      exact ih

/-- After upserts the last file of a name is stored, with all counters and blocks. -/
theorem upsertAll_apply (old : FileKey → Option FileInfo) (files : List FileInfo)
    (name : String) :
    upsertAll folder deviceId old files ⟨folder, deviceId, name⟩ =
      match lastNamed files name with
      | some file => some (withParts file (keptCounters (old ⟨folder, deviceId, name⟩) files name)
          (keptBlocks (old ⟨folder, deviceId, name⟩) files name))
      | none => old ⟨folder, deviceId, name⟩ := by
  -- the parts are known whether or not a file of this name was there
  have hparts : ∀ files : List FileInfo, ∀ stored : Option FileInfo,
      (stored = match lastNamed files name with
        | some file => some (withParts file
            (keptCounters (old ⟨folder, deviceId, name⟩) files name)
            (keptBlocks (old ⟨folder, deviceId, name⟩) files name))
        | none => old ⟨folder, deviceId, name⟩) →
      (stored.map countersOf).getD [] = keptCounters (old ⟨folder, deviceId, name⟩) files name ∧
        (stored.map FileInfo.blocks).getD [] =
          keptBlocks (old ⟨folder, deviceId, name⟩) files name := by
    rintro files _ rfl
    cases hlast : lastNamed files name with
    | some file => exact ⟨rfl, rfl⟩
    | none =>
        have hnone : (files.filter fun f => f.name = name) = [] := by
          rw [List.filter_eq_nil_iff]
          intro f hf
          simpa using lastNamed_eq_none.mp hlast f hf
        simp [keptCounters, keptBlocks, hnone, addCounters, addBlocks]
  induction files using List.reverseRecOn with
  | nil => rfl
  | append_singleton files file ih =>
      have hstep : upsertAll folder deviceId old (files ++ [file]) =
          setFile (upsertAll folder deviceId old files) ⟨folder, deviceId, file.name⟩
            (upserted (upsertAll folder deviceId old files ⟨folder, deviceId, file.name⟩) file) := by
        rw [upsertAll, List.foldl_append]
        rfl
      rw [hstep, lastNamed_concat, keptCounters_concat, keptBlocks_concat]
      by_cases hname : file.name = name
      · subst hname
        obtain ⟨hcounters, hblocks⟩ := hparts files _ ih
        simp only [if_true]
        rw [setFile, Function.update_self, upserted, hcounters, hblocks]
      · simp only [hname, if_false]
        rw [setFile, Function.update_of_ne, ih]
        intro heq
        exact hname (FileKey.mk.inj heq).2.2.symm

/-- After replacements the last file of a name is stored. -/
theorem replaceAll_apply (old : FileKey → Option FileInfo) (files : List FileInfo)
    (name : String) :
    replaceAll folder deviceId old files ⟨folder, deviceId, name⟩ =
      ((lastNamed files name).map replaced).or (old ⟨folder, deviceId, name⟩) := by
  induction files using List.reverseRecOn with
  | nil => rfl
  | append_singleton files file ih =>
      have hstep : replaceAll folder deviceId old (files ++ [file]) =
          setFile (replaceAll folder deviceId old files) ⟨folder, deviceId, file.name⟩
            (replaced file) := by
        rw [replaceAll, List.foldl_append]
        rfl
      rw [hstep, lastNamed_concat]
      by_cases hname : file.name = name
      · subst hname
        rw [setFile, Function.update_self, if_pos rfl, Option.map_some, Option.some_or]
      · rw [if_neg hname, setFile, Function.update_of_ne, ih]
        intro heq
        exact hname (FileKey.mk.inj heq).2.2.symm

end Lists

/-! ## Numbered files -/

section NumberedFiles

variable {files files' : List FileInfo}

/-- A test that does not look at the sequence number keeps the same files. -/
theorem Numbered.filter (h : List.Forall₂ Numbered files files') {p : FileInfo → Bool}
    (hp : ∀ f n, p { f with sequence := n } = p f) :
    List.Forall₂ Numbered (files.filter p) (files'.filter p) := by
  induction h with
  | nil => exact List.Forall₂.nil
  | @cons f _ _ _ hf _ ih =>
      obtain ⟨n, rfl⟩ := hf
      rw [List.filter_cons, List.filter_cons, hp f n]
      split_ifs
      · exact List.Forall₂.cons ⟨n, rfl⟩ ih
      · exact ih

/-- What is the same for a file and the numbered one is the same for the lists. -/
theorem Numbered.flatMap_eq {α : Type} (h : List.Forall₂ Numbered files files')
    {part : FileInfo → List α} (hpart : ∀ f n, part { f with sequence := n } = part f) :
    files'.flatMap part = files.flatMap part := by
  induction h with
  | nil => rfl
  | @cons f _ _ _ hf _ ih =>
      obtain ⟨n, rfl⟩ := hf
      rw [List.flatMap_cons, List.flatMap_cons, ih, hpart f n]

/-- Numbering leaves the names. -/
theorem Numbered.map_name (h : List.Forall₂ Numbered files files') :
    files'.map FileInfo.name = files.map FileInfo.name := by
  induction h with
  | nil => rfl
  | cons hf _ ih =>
      obtain ⟨n, rfl⟩ := hf
      rw [List.map_cons, List.map_cons, ih]

/-- What holds of every numbered file, whatever its number, holds of the files. -/
theorem Numbered.forall_mem (h : List.Forall₂ Numbered files files') {p : FileInfo → Prop}
    (hp : ∀ f n, p { f with sequence := n } → p f) (hall : ∀ file ∈ files', p file) :
    ∀ file ∈ files, p file := by
  induction h with
  | nil => exact hall
  | @cons f _ _ _ hf _ ih =>
      obtain ⟨n, rfl⟩ := hf
      obtain ⟨hfirst, hrest⟩ := List.forall_mem_cons.mp hall
      exact List.forall_mem_cons.mpr ⟨hp f n hfirst, ih hrest⟩

/-- A numbered file comes from one of the list. -/
theorem Numbered.mem (h : List.Forall₂ Numbered files files') {file' : FileInfo}
    (hmem : file' ∈ files') : ∃ file ∈ files, Numbered file file' := by
  induction h with
  | nil => cases hmem
  | @cons f _ _ _ hf _ ih =>
      rcases List.mem_cons.mp hmem with rfl | htail
      · exact ⟨f, List.mem_cons_self, hf⟩
      · obtain ⟨file, hfile, hnumber⟩ := ih htail
        exact ⟨file, List.mem_cons_of_mem f hfile, hnumber⟩

/-- The last file of a name is the numbered one of the last before. -/
theorem Numbered.lastNamed (h : List.Forall₂ Numbered files files') {name : String}
    {file' : FileInfo} (hlast : Interface.lastNamed files' name = some file') :
    ∃ file, Interface.lastNamed files name = some file ∧ Numbered file file' := by
  have hreverse := List.forall₂_reverse_iff.mpr h
  revert hlast
  rw [Interface.lastNamed, Interface.lastNamed]
  generalize files.reverse = fs at hreverse
  generalize files'.reverse = fs' at hreverse
  induction hreverse with
  | nil => intro hlast; cases hlast
  | cons hf _ ih =>
      obtain ⟨n, rfl⟩ := hf
      rw [List.find?_cons, List.find?_cons]
      split
      · intro hlast
        obtain rfl := Option.some.inj hlast
        rename_i hname
        exact ⟨_, by simp [hname], n, rfl⟩
      · intro hlast
        rename_i hname
        simpa [hname] using ih hlast

/-- The files of one name are numbered alike. -/
theorem Numbered.filter_name (h : List.Forall₂ Numbered files files') (name : String) :
    List.Forall₂ Numbered (files.filter fun f => f.name = name)
      (files'.filter fun f => f.name = name) := by
  apply Numbered.filter h
  intro f n
  rfl

/-- The counters kept under a name do not depend on the numbers. -/
theorem Numbered.keptCounters (h : List.Forall₂ Numbered files files') {old : Option FileInfo}
    {name : String} : keptCounters old files' name = keptCounters old files name := by
  rw [Interface.keptCounters, Interface.keptCounters,
    Numbered.flatMap_eq (Numbered.filter_name h name) fun _ _ => rfl]

/-- Nor do the blocks. -/
theorem Numbered.keptBlocks (h : List.Forall₂ Numbered files files') {old : Option FileInfo}
    {name : String} : keptBlocks old files' name = keptBlocks old files name := by
  rw [Interface.keptBlocks, Interface.keptBlocks,
    Numbered.flatMap_eq (Numbered.filter_name h name) fun _ _ => rfl]

/-- Numbering leaves what the last file keeps. -/
theorem Numbered.keptByLast (h : List.Forall₂ Numbered files files') {old : Option FileInfo}
    {name : String} (hkept : KeptByLast old files name) : KeptByLast old files' name := by
  intro file' hlast
  obtain ⟨file, hfile, n, rfl⟩ := Numbered.lastNamed h hlast
  rw [Numbered.keptCounters h, Numbered.keptBlocks h]
  exact hkept file hfile

end NumberedFiles

/-! ## What was written was accepted -/

section Accepting

variable {folder : String} {deviceId : DeviceId} {tx tx' : Database}

/-- Counters that were written fit in an `i64`. -/
theorem insertVersions_accepted {key : FileKey} {counters : List Counter}
    (h : BepState.insertVersions key counters tx = .ok tx') :
    ∀ counter ∈ counters, counter.value.toNat < 2 ^ 63 := by
  induction counters generalizing tx with
  | nil => exact fun _ hc => absurd hc List.not_mem_nil
  | cons counter counters ih =>
      rw [BepState.insertVersions, Rust.bind_eq_ok] at h
      obtain ⟨_, hvalue, h⟩ := h
      rw [Rust.bind_eq_ok] at h
      obtain ⟨tx₁, -, h⟩ := h
      have hsmall : counter.value.toNat < 2 ^ 63 := by
        unfold Rust.tryInto at hvalue
        split_ifs at hvalue with hlt
        exact hlt
      exact List.forall_mem_cons.mpr ⟨hsmall, ih h⟩

/-- Being the same block is symmetric. -/
theorem sameBlock_comm (a b : BlockInfo) : sameBlock a b = sameBlock b a := by
  have hoffset : decide (a.offset = b.offset) = decide (b.offset = a.offset) :=
    decide_eq_decide.mpr eq_comm
  have hsize : decide (a.size = b.size) = decide (b.size = a.size) := decide_eq_decide.mpr eq_comm
  have hhash : decide (a.hash = b.hash) = decide (b.hash = a.hash) := decide_eq_decide.mpr eq_comm
  rw [sameBlock, sameBlock, hoffset, hsize, hhash]

/-- Blocks that go in with one statement are different, and none was there. -/
theorem insertNewBlocks_accepted {key : FileKey} {blocks : List BlockInfo}
    (h : BepState.insertNewBlocks key blocks tx = .ok tx') :
    (∀ block ∈ blocks, (tx.blocksOf key).any (sameBlock block) = false) ∧
      blocks.Pairwise fun a b => sameBlock a b = false := by
  induction blocks generalizing tx with
  | nil =>
      obtain rfl := Except.ok.inj h
      exact ⟨fun _ hb => absurd hb List.not_mem_nil, List.Pairwise.nil⟩
  | cons block blocks ih =>
      rw [BepState.insertNewBlocks, Rust.bind_eq_ok] at h
      obtain ⟨tx₁, hinsert, h⟩ := h
      obtain ⟨hnew, hpairwise⟩ := ih h
      rw [Database.insertNewBlock] at hinsert
      split_ifs at hinsert with hcontains
      have habsent : (tx.blocksOf key).any (sameBlock block) = false := by
        rw [Bool.eq_false_iff]
        intro hany
        exact hcontains (contains_blockKey_iff.mpr hany)
      have hblocks : tx₁.blocksOf key = tx.blocksOf key ++ [block] := by
        rw [blocksOf_insertBlock hinsert, if_pos rfl, addBlock, if_neg (by simp [habsent])]
      have hrest : ∀ b ∈ blocks,
          (tx.blocksOf key).any (sameBlock b) = false ∧ sameBlock block b = false := by
        intro b hb
        have hb := hnew b hb
        rw [hblocks, List.any_append, Bool.or_eq_false_iff] at hb
        refine ⟨hb.1, ?_⟩
        have hsame : sameBlock b block = false := by simpa using hb.2
        rw [sameBlock_comm]
        exact hsame
      refine ⟨?_, ?_⟩
      · exact List.forall_mem_cons.mpr ⟨habsent, fun b hb => (hrest b hb).1⟩
      · exact List.Pairwise.cons (fun b hb => (hrest b hb).2) hpairwise

/-- A row that was written has its index and a type of the table. -/
theorem insertFileInfo_accepted {key : FileKey} {row : FileRow}
    (h : tx.insertFileInfo key row = .ok tx') :
    (key.folder, key.device) ∈ tx.bepIndex ∧ 0 ≤ row.type ∧ row.type ≤ 4 := by
  unfold Database.insertFileInfo at h
  split_ifs at h with haccepted
  exact ⟨haccepted.1, haccepted.2.1⟩

/-- A file that was written over its row was acceptable. -/
theorem upsertFile_accepted {file : FileInfo}
    (h : BepState.upsertFile folder deviceId file tx = .ok tx') :
    tx'.bepIndex = tx.bepIndex ∧ Accepted tx folder deviceId file := by
  have hindex := (upsertFile_sideTables h).bepIndex
  simp only [BepState.upsertFile, Rust.bind_eq_ok] at h
  obtain ⟨tx₁, hfile, version, hversion, tx₂, hcounters, -⟩ := h
  obtain ⟨hmem, htype⟩ := insertFileInfo_accepted hfile
  obtain ⟨hsome, hfileCounters⟩ := version_of_expect hversion
  refine ⟨hindex, hmem, htype, hsome, ?_⟩
  rw [hfileCounters]
  exact insertVersions_accepted hcounters

/-- One that was put in place of it was, too. -/
theorem replaceFile_accepted {file : FileInfo}
    (h : BepState.replaceFile folder deviceId file tx = .ok tx') :
    tx'.bepIndex = tx.bepIndex ∧ Replaceable tx folder deviceId file := by
  have hmany := (replaceFile_eq_ok h).2.2.2
  have hindex := (replaceFile_sideTables h).bepIndex
  simp only [BepState.replaceFile, Rust.bind_eq_ok] at h
  obtain ⟨tx₁, hfile, version, hversion, tx₂, hcounters, hblocks⟩ := h
  rw [if_neg (Nat.not_lt.mpr hmany)] at hblocks
  obtain ⟨hmem, htype⟩ := insertFileInfo_accepted hfile
  obtain ⟨-, hpairwise⟩ := insertNewBlocks_accepted hblocks
  obtain ⟨hsome, hfileCounters⟩ := version_of_expect hversion
  refine ⟨hindex, ⟨hmem, htype, hsome, ?_⟩, hmany, hpairwise⟩
  rw [hfileCounters]
  exact insertVersions_accepted hcounters

/-- A list that was written was accepted file by file, for no statement changes the
table of indices. -/
theorem writeFiles_accepted {write : FileInfo → Database → Rust Database}
    (accepted : Database → FileInfo → Prop)
    (hwrite : ∀ file tx tx', write file tx = .ok tx' →
      tx'.bepIndex = tx.bepIndex ∧ accepted tx file)
    (hindex : ∀ tx tx' file, tx'.bepIndex = tx.bepIndex → accepted tx' file → accepted tx file)
    {files : List FileInfo} (h : BepState.writeFiles write files tx = .ok tx') :
    ∀ file ∈ files, accepted tx file := by
  induction files generalizing tx with
  | nil => exact fun _ hf => absurd hf List.not_mem_nil
  | cons file files ih =>
      rw [BepState.writeFiles, Rust.bind_eq_ok] at h
      obtain ⟨tx₁, hfile, h⟩ := h
      obtain ⟨hsame, haccepted⟩ := hwrite file tx tx₁ hfile
      refine List.forall_mem_cons.mpr ⟨haccepted, ?_⟩
      intro f hf
      exact hindex tx tx₁ f hsame (ih h f hf)

end Accepting

/-! ## The invariant -/

section Invariant

variable {folder : String} {deviceId : DeviceId} {s s' : BepState}

/-- The files of an entry are, name by name, those that are stored. -/
def Mirrors (files : AssocMap String FileInfo) (db : Database) (key : FolderDevice) : Prop :=
  ∀ name, Option.Rel SameFile (files.get name) (stored db ⟨key.folder, key.deviceId, name⟩)

/-- Every entry is for the folder it is keyed by and mirrors the tables. -/
def CacheInvariant (s : BepState) : Prop :=
  ∀ key entry, s.indices.indices.get key = some entry →
    entry.folder = key.folder ∧ Mirrors entry.files s.db key

/-- The invariant is coherence, name by name. -/
theorem coherent_of_cacheInvariant (h : CacheInvariant s) : Coherent s := by
  intro key entry hentry
  obtain ⟨hfolder, hmirrors⟩ := h key entry hentry
  obtain ⟨files, hfiles, hget⟩ := loadIndex_files s.db key.folder key.deviceId
  refine ⟨hfolder, ?_⟩
  rw [hfiles]
  apply AssocMap.values_rel
  intro name
  rw [hget]
  exact hmirrors name

/-- A file is the same as itself. -/
theorem SameFile.refl (f : FileInfo) : SameFile f f :=
  ⟨rfl, rfl, List.Perm.refl _, List.Perm.refl _⟩

/-- A file with its own counters and blocks in another order. -/
theorem SameFile.withParts {f : FileInfo} {counters : List Counter} {blocks : List BlockInfo}
    (hversion : f.version.isSome = true) (hcounters : (countersOf f).Perm counters)
    (hblocks : f.blocks.Perm blocks) : SameFile f (withParts f counters blocks) :=
  ⟨rfl, hversion, hcounters, hblocks⟩

/-- No entry, no incoherence. -/
theorem cacheInvariant_new (db : Database) : CacheInvariant (BepState.new db) := by
  intro key entry hentry
  cases hentry

/-- A sequence number leaves the cache and the tables in step. -/
theorem cacheInvariant_of_onlyCounter (h : CacheInvariant s) (hcounter : OnlyCounter s s') :
    CacheInvariant s' := by
  obtain ⟨n, rfl⟩ := hcounter
  exact h

/-- A call for one folder and device keeps the invariant when it does so there. -/
theorem cacheInvariant_of_entry (h : CacheInvariant s) (key : FolderDevice) (entry : GrizolIndex)
    (hstored : ∀ k : FileKey, ¬ (k.folder = key.folder ∧ k.device = key.deviceId) →
      stored s'.db k = stored s.db k)
    (hget : ∀ key', s'.indices.indices.get key' =
      if key' = key then some entry else s.indices.indices.get key')
    (hfolder : entry.folder = key.folder) (hmirrors : Mirrors entry.files s'.db key) :
    CacheInvariant s' := by
  intro key' entry' hentry
  rw [hget] at hentry
  split_ifs at hentry with hkey
  · obtain rfl := Option.some.inj hentry
    rw [hkey]
    exact ⟨hfolder, hmirrors⟩
  · obtain ⟨hfolder', hmirrors'⟩ := h key' entry' hentry
    refine ⟨hfolder', ?_⟩
    intro name
    rw [hstored]
    · exact hmirrors' name
    · rintro ⟨hsame, hdevice⟩
      apply hkey
      cases key'
      cases key
      exact congrArg₂ FolderDevice.mk hsame hdevice

/-- The entry a call of `insert_file_info` or `remove_file_info` works on. -/
theorem entry_of_known (key : FolderDevice) {names : List String} (h : CacheInvariant s)
    (hknown : EntryKnown s key.folder key.deviceId names) :
    ((s.indices.indices.get key).getD .default).folder = key.folder ∧
      ∀ name, name ∉ names →
        Option.Rel SameFile (((s.indices.indices.get key).getD .default).files.get name)
          (stored s.db ⟨key.folder, key.deviceId, name⟩) := by
  cases hget : s.indices.indices.get key with
  | some entry =>
      obtain ⟨hfolder, hmirrors⟩ := h key entry hget
      exact ⟨hfolder, fun name _ => hmirrors name⟩
  | none =>
      obtain ⟨hempty, hnames⟩ := hknown.resolve_left (by simp [AssocMap.contains, hget])
      refine ⟨hempty.symm, ?_⟩
      intro name hname
      have habsent : s.db.bepFileInfo.get ⟨key.folder, key.deviceId, name⟩ = none := by
        rw [← AssocMap.contains_eq_false_iff, Bool.eq_false_iff]
        intro hcontains
        exact hname (hnames name hcontains)
      rw [stored, habsent]
      exact Option.Rel.none

variable (folder deviceId) in
/-- What `GrizolIndices::insert_file_info` leaves under every key. -/
theorem get_insertFileInfo (indices : GrizolIndices) (files : List FileInfo)
    (key : FolderDevice) :
    (indices.insertFileInfo folder deviceId files).indices.get key =
      if key = ⟨folder, deviceId⟩
      then
        some { ((indices.indices.get ⟨folder, deviceId⟩).getD .default) with
          files := GrizolIndex.insertAll
            ((indices.indices.get ⟨folder, deviceId⟩).getD .default).files files }
      else indices.indices.get key := by
  rw [GrizolIndices.insertFileInfo]
  dsimp only
  rw [AssocMap.get_insert_entryOrInsert, AssocMap.snd_entryOrInsert]

variable (folder deviceId) in
/-- What `GrizolIndices::remove_file_info` leaves under every key. -/
theorem get_removeFileInfo (indices : GrizolIndices) (fileName : String) (key : FolderDevice) :
    (indices.removeFileInfo folder deviceId fileName).indices.get key =
      if key = ⟨folder, deviceId⟩
      then
        some { ((indices.indices.get ⟨folder, deviceId⟩).getD .default) with
          files := ((indices.indices.get ⟨folder, deviceId⟩).getD .default).files.erase fileName }
      else indices.indices.get key := by
  rw [GrizolIndices.removeFileInfo]
  dsimp only
  rw [AssocMap.get_insert_entryOrInsert, AssocMap.snd_entryOrInsert]

/-- Files put into an entry keep the invariant when the tables hold the last of each name
and are otherwise as before. -/
theorem cacheInvariant_insertFileInfo (h : CacheInvariant s) {files : List FileInfo}
    {db : Database} {n : Option Int64}
    (hknown : EntryKnown s folder deviceId (files.map FileInfo.name))
    (hothers : ∀ k : FileKey, ¬ (k.folder = folder ∧ k.device = deviceId) →
      stored db k = stored s.db k)
    (hsome : ∀ name file, lastNamed files name = some file →
      ∃ file', stored db ⟨folder, deviceId, name⟩ = some file' ∧ SameFile file file')
    (hnone : ∀ name, lastNamed files name = none →
      stored db ⟨folder, deviceId, name⟩ = stored s.db ⟨folder, deviceId, name⟩) :
    CacheInvariant { s with sequence := n, db := db,
                            indices := s.indices.insertFileInfo folder deviceId files } := by
  obtain ⟨hfolder, hrest⟩ := entry_of_known ⟨folder, deviceId⟩ h hknown
  refine cacheInvariant_of_entry h ⟨folder, deviceId⟩ _ hothers
    (get_insertFileInfo folder deviceId s.indices files) hfolder ?_
  intro name
  dsimp only
  rw [get_insertAll]
  cases hlast : lastNamed files name with
  | some file =>
      obtain ⟨file', hstored, hsame⟩ := hsome name file hlast
      rw [hstored]
      exact Option.Rel.some hsame
  | none =>
      rw [hnone name hlast, Option.none_or]
      apply hrest
      intro hmem
      obtain ⟨f, hf, hname⟩ := List.mem_map.mp hmem
      exact lastNamed_eq_none.mp hlast f hf hname

/-! ## Steps -/

/-- A new index keeps them in step. -/
theorem replaceIndex_cacheInvariant {index : Index} (h : CacheInvariant s)
    (hkeeps : KeepsEntry s (.replaceIndex index deviceId))
    (hrun : RustM.endState ((BepState.replaceIndex index deviceId).run s) = s') :
    CacheInvariant s' := by
  rcases replaceIndex_run deviceId s index with ⟨e, s₁, hresult, hcounter⟩ |
    ⟨files, tx, n, hnumbered, hwrite, hresult⟩
  · rw [hresult, RustM.endState_error] at hrun
    obtain rfl := hrun
    exact cacheInvariant_of_onlyCounter h hcounter
  rw [hresult, RustM.endState_ok] at hrun
  obtain rfl := hrun
  have haccepted := writeFiles_accepted (fun tx => Accepted tx index.folder deviceId)
    (fun _ _ _ => upsertFile_accepted) (fun _ _ _ hindex hf => ⟨hindex ▸ hf.1, hf.2⟩) hwrite
  have hkept : ∀ name, KeptByLast none files name := by
    intro name
    apply Numbered.keptByLast hnumbered
    exact hkeeps (Numbered.forall_mem hnumbered (fun _ _ hf => hf) haccepted) name
  have hstored := stored_upsertFiles hwrite
  refine cacheInvariant_of_entry h ⟨index.folder, deviceId⟩
    (.ofIndex { index with files := files }) ?_ ?_ rfl ?_
  · intro k hk
    dsimp only
    rw [hstored, upsertAll_of_other hk, stored_deleteFileInfo, if_neg (by simpa using hk)]
  · intro key
    exact AssocMap.get_insert _ _ _ _
  · intro name
    dsimp only
    rw [GrizolIndex.ofIndex, get_insertAll, AssocMap.get_empty, Option.or_none, hstored,
      upsertAll_apply, stored_deleteFileInfo, if_pos (by simp)]
    cases hlast : lastNamed files name with
    | some file =>
        obtain ⟨hcounters, hblocks⟩ := hkept name file hlast
        have hversion := (haccepted file (lastNamed_eq_some hlast).1).2.2.1
        exact Option.Rel.some (SameFile.withParts hversion hcounters hblocks)
    | none => exact Option.Rel.none

/-- So do files that are added. -/
theorem insertFileInfo_cacheInvariant {fileInfo : List FileInfo} (h : CacheInvariant s)
    (hkeeps : KeepsEntry s (.insertFileInfo folder deviceId fileInfo))
    (hrun : RustM.endState ((BepState.insertFileInfo folder deviceId fileInfo).run s) = s') :
    CacheInvariant s' := by
  rcases insertFileInfo_run folder deviceId s fileInfo with ⟨e, s₁, hresult, hcounter⟩ |
    ⟨files, tx, n, hnumbered, hwrite, hresult⟩
  · rw [hresult, RustM.endState_error] at hrun
    obtain rfl := hrun
    exact cacheInvariant_of_onlyCounter h hcounter
  rw [hresult, RustM.endState_ok] at hrun
  obtain rfl := hrun
  have haccepted := writeFiles_accepted (fun tx => Accepted tx folder deviceId)
    (fun _ _ _ => upsertFile_accepted) (fun _ _ _ hindex hf => ⟨hindex ▸ hf.1, hf.2⟩) hwrite
  have hstored := stored_upsertFiles hwrite
  obtain ⟨hknown, hkept⟩ :=
    hkeeps (Numbered.forall_mem hnumbered (fun _ _ hf => hf) haccepted)
  rw [← Numbered.map_name hnumbered] at hknown
  apply cacheInvariant_insertFileInfo h hknown
  · intro k hk
    rw [hstored, upsertAll_of_other hk]
  · intro name file hlast
    obtain ⟨hcounters, hblocks⟩ := Numbered.keptByLast hnumbered (hkept name) file hlast
    have hversion := (haccepted file (lastNamed_eq_some hlast).1).2.2.1
    refine ⟨_, ?_, SameFile.withParts hversion hcounters hblocks⟩
    rw [hstored, upsertAll_apply, hlast]
  · intro name hlast
    rw [hstored, upsertAll_apply, hlast]

/-- Counters that are all different are kept, in the order of the primary key. -/
theorem addCounters_of_nodup {counters : List Counter} (h : counters.Nodup) :
    (addCounters [] counters).Perm counters := by
  induction counters using List.reverseRecOn with
  | nil => exact .refl _
  | append_singleton counters counter ih =>
      have hparts := List.nodup_append.mp h
      have hkept := ih hparts.1
      have hnew : counter ∉ addCounters [] counters := fun hmem =>
        hparts.2.2 counter (hkept.mem_iff.mp hmem) counter (by simp) rfl
      rw [addCounters, List.foldl_append]
      show (addCounter (addCounters [] counters) counter).Perm _
      rw [addCounter, if_neg hnew]
      exact (List.perm_orderedInsert _ _ _).trans
        ((hkept.cons counter).trans (List.perm_append_singleton counter counters).symm)

/-- And files that are replaced. -/
theorem rmReplaceFileInfo_cacheInvariant {fileInfo : List FileInfo} (h : CacheInvariant s)
    (hkeeps : KeepsEntry s (.rmReplaceFileInfo folder deviceId fileInfo))
    (hrun : RustM.endState ((BepState.rmReplaceFileInfo folder deviceId fileInfo).run s) = s') :
    CacheInvariant s' := by
  rcases rmReplaceFileInfo_run folder deviceId s fileInfo with ⟨e, s₁, hresult, hcounter⟩ |
    ⟨files, tx, n, hnumbered, hwrite, hresult⟩
  · rw [hresult, RustM.endState_error] at hrun
    obtain rfl := hrun
    exact cacheInvariant_of_onlyCounter h hcounter
  rw [hresult, RustM.endState_ok] at hrun
  obtain rfl := hrun
  have hfiltered : List.Forall₂ Numbered (fileInfo.filter fun f => !f.deleted)
      (files.filter fun f => !f.deleted) := Numbered.filter hnumbered fun _ _ => rfl
  have haccepted := writeFiles_accepted (fun tx => Replaceable tx folder deviceId)
    (fun _ _ _ => replaceFile_accepted)
    (fun _ _ _ hindex hf => ⟨⟨hindex ▸ hf.1.1, hf.1.2⟩, hf.2⟩) hwrite
  have hstored := stored_replaceFiles hwrite
  obtain ⟨hknown, hnodup⟩ :=
    hkeeps (Numbered.forall_mem hfiltered (fun _ _ hf => hf) haccepted)
  rw [← Numbered.map_name hfiltered] at hknown
  apply cacheInvariant_insertFileInfo h hknown
  · intro k hk
    rw [hstored, replaceAll_of_other hk]
  · intro name file' hlast
    obtain ⟨file, hfile, m, rfl⟩ := Numbered.lastNamed hfiltered hlast
    have hcounters := addCounters_of_nodup (hnodup name file hfile)
    have hversion := (haccepted _ (lastNamed_eq_some hlast).1).1.2.2.1
    refine ⟨_, ?_, SameFile.withParts hversion hcounters.symm (List.Perm.refl _)⟩
    rw [hstored, replaceAll_apply, hlast, Option.map_some, Option.some_or]
    rfl
  · intro name hlast
    rw [hstored, replaceAll_apply, hlast, Option.map_none, Option.none_or]

/-- And a file that is removed. -/
theorem rmFileInfo_cacheInvariant {fileName : String} (h : CacheInvariant s)
    (hkeeps : KeepsEntry s (.rmFileInfo folder deviceId fileName))
    (hrun : RustM.endState ((BepState.rmFileInfo folder deviceId fileName).run s) = s') :
    CacheInvariant s' := by
  rw [rmFileInfo_run, RustM.endState_ok] at hrun
  obtain rfl := hrun
  obtain ⟨hfolder, hrest⟩ := entry_of_known ⟨folder, deviceId⟩ h hkeeps
  refine cacheInvariant_of_entry h ⟨folder, deviceId⟩ _ ?_
    (get_removeFileInfo folder deviceId s.indices fileName) hfolder ?_
  · intro k hk
    dsimp only
    rw [stored_deleteFileInfo, if_neg]
    intro hkey
    obtain rfl := of_decide_eq_true hkey
    exact hk ⟨rfl, rfl⟩
  · intro name
    dsimp only
    rw [AssocMap.get_erase, stored_deleteFileInfo]
    by_cases hname : name = fileName
    · rw [if_pos hname, if_pos (by simp [hname])]
      exact Option.Rel.none
    · rw [if_neg hname, if_neg (by simp [hname])]
      exact hrest name (by simp [hname])

/-- A move that renames a file does not find its new name taken. -/
theorem renameFileInfo_free {tx tx' : Database} {key : FileKey} {name : String} {sequence : Int64}
    (h : tx.renameFileInfo key name sequence = .ok tx') :
    tx.bepFileInfo.contains key = false ∨ name = key.name ∨
      tx.bepFileInfo.contains { key with name := name } = false := by
  unfold Database.renameFileInfo at h
  dsimp only at h
  split at h
  · rename_i hrow
    exact Or.inl (AssocMap.contains_eq_false_iff.mpr hrow)
  · split_ifs at h with hfree
    rcases hfree.1 with hsame | hnone
    · exact Or.inr (Or.inl (congrArg FileKey.name hsame))
    · exact Or.inr (Or.inr (AssocMap.contains_eq_false_iff.mpr hnone))

/-- And a move, where it meets its condition. -/
theorem mvFileInfo_cacheInvariant {origFileInfo : FileInfo} {destFileName : String}
    {destFileLocations : List FileLocation} (h : CacheInvariant s)
    (hkeeps : KeepsEntry s
      (.mvFileInfo folder deviceId origFileInfo destFileName destFileLocations))
    (hrun : RustM.endState ((BepState.mvFileInfo folder deviceId origFileInfo destFileName
      destFileLocations).run s) = s') :
    CacheInvariant s' := by
  rcases mvFileInfo_run folder deviceId s origFileInfo destFileName destFileLocations with ⟨e, s₁, hresult, hcounter⟩ |
    ⟨sequence, tx, tx', n, hrename, hstored, -, hresult⟩
  · rw [hresult, RustM.endState_error] at hrun
    obtain rfl := hrun
    exact cacheInvariant_of_onlyCounter h hcounter
  rw [hresult, RustM.endState_ok] at hrun
  obtain rfl := hrun
  obtain ⟨hunmoved, hothers⟩ := stored_renameFileInfo hrename
  have hcases : s.indices.indices.contains ⟨folder, deviceId⟩ = false ∨
      s.db.bepFileInfo.contains ⟨folder, deviceId, origFileInfo.name⟩ = false := by
    rcases hkeeps with hentry | habsent | ⟨hne, htaken⟩
    · exact Or.inl hentry
    · exact Or.inr habsent
    · rcases renameFileInfo_free hrename with habsent | hsame | hfree
      · exact Or.inr habsent
      · exact absurd hsame hne
      · exact absurd htaken (by simp [hfree])
  intro key entry hentry
  obtain ⟨hfolder, hmirrors⟩ := h key entry hentry
  refine ⟨hfolder, ?_⟩
  intro name
  dsimp only
  rw [hstored]
  rcases hcases with hnone | habsent
  · rw [hothers]
    · exact hmirrors name
    · rintro ⟨hsame, hdevice⟩
      have hkey : key = ⟨folder, deviceId⟩ := by
        cases key
        exact congrArg₂ FolderDevice.mk hsame hdevice
      rw [AssocMap.contains_eq_false_iff, ← hkey] at hnone
      exact absurd (hentry.symm.trans hnone) (Option.some_ne_none entry)
  · rw [hunmoved (AssocMap.contains_eq_false_iff.mp habsent)]
    exact hmirrors name

/-- Reading an index caches what the tables have. -/
theorem index_cacheInvariant (h : CacheInvariant s)
    (hrun : RustM.endState ((BepState.index folder deviceId).run s) = s') :
    CacheInvariant s' := by
  rw [index_run, RustM.endState_ok] at hrun
  obtain rfl := hrun
  split_ifs with hloaded
  · exact h
  · refine cacheInvariant_of_entry h ⟨folder, deviceId⟩
      (.ofIndex (BepState.loadIndex s.db folder deviceId)) (fun _ _ => rfl) ?_ rfl ?_
    · intro key
      exact AssocMap.get_insert _ _ _ _
    · intro name
      rw [get_loadIndex]
      cases stored s.db ⟨folder, deviceId, name⟩ with
      | none => exact Option.Rel.none
      | some file => exact Option.Rel.some (SameFile.refl file)

/-- **A call that keeps the entry keeps the invariant.** -/
theorem cacheInvariant_step {e : IndexEvent} (h : CacheInvariant s) (hkeeps : KeepsEntry s e)
    (hstep : indexStep s e = some s') : CacheInvariant s' := by
  cases e with
  | replaceIndex index deviceId =>
      exact replaceIndex_cacheInvariant h hkeeps (Option.some.inj hstep)
  | index folder deviceId => exact index_cacheInvariant h (Option.some.inj hstep)
  | insertFileInfo folder deviceId fileInfo =>
      exact insertFileInfo_cacheInvariant h hkeeps (Option.some.inj hstep)
  | rmReplaceFileInfo folder deviceId fileInfo =>
      exact rmReplaceFileInfo_cacheInvariant h hkeeps (Option.some.inj hstep)
  | mvFileInfo folder deviceId origFileInfo destFileName destFileLocations =>
      exact mvFileInfo_cacheInvariant h hkeeps (Option.some.inj hstep)
  | rmFileInfo folder deviceId fileName =>
      exact rmFileInfo_cacheInvariant h hkeeps (Option.some.inj hstep)
  | restart =>
      obtain rfl := Option.some.inj hstep
      exact cacheInvariant_new s.db

/-- **The indices in memory follow the database.** From a start with any database, after
any calls and restarts of which each keeps the entry it works on, every entry is for the
folder it is keyed by and has, up to order, the files `index` would load. -/
theorem coherent_of_run {db : Database} {events : List IndexEvent}
    (hkeeps : Transition.Meets indexStep KeepsEntry (BepState.new db) events)
    (hrun : Transition.run indexStep (BepState.new db) events = some s) : Coherent s := by
  apply coherent_of_cacheInvariant
  refine Transition.invariant_run_of_meets CacheInvariant (cacheInvariant_new db) ?_ hkeeps hrun
  intro t e t' ht hcond hstep
  exact cacheInvariant_step ht hcond hstep

end Invariant

/-! ## A run with a loaded folder -/

section Example

/-- One folder of one device, with no files. -/
def emptyFolder : Database := .ofIndex [("default", ⟨Vector.replicate 32 0⟩)]

/-- A file of one block. -/
def smallFile : FileInfo :=
  { name := "a", size := 1, blockSize := 1, version := some ⟨[⟨1, 1⟩]⟩, blocks := [⟨0, 1, [7], 0⟩] }

/-- A folder that is loaded and then given a file stays coherent. -/
theorem coherent_of_run_replaced :
    ∃ s, Transition.run indexStep (BepState.new emptyFolder)
        [.index "default" ⟨Vector.replicate 32 0⟩,
         .rmReplaceFileInfo "default" ⟨Vector.replicate 32 0⟩ [smallFile]] = some s ∧
      Coherent s := by
  have hmeets : Transition.Meets indexStep KeepsEntry (BepState.new emptyFolder)
      [.index "default" ⟨Vector.replicate 32 0⟩,
       .rmReplaceFileInfo "default" ⟨Vector.replicate 32 0⟩ [smallFile]] := by
    refine ⟨trivial, ?_⟩
    intro s hs
    obtain rfl := Option.some.inj hs
    refine ⟨?_, fun _ _ => trivial⟩
    intro _
    refine ⟨Or.inl (by decide +kernel), ?_⟩
    intro name file hlast
    have hmem := (lastNamed_eq_some hlast).1
    obtain rfl : file = smallFile := by simpa [smallFile] using hmem
    decide
  exact ⟨_, rfl, coherent_of_run hmeets rfl⟩

/-- The same files have the same names. -/
theorem names_of_sameFiles {fs gs : List FileInfo} (h : SameFiles fs gs) :
    (fs.map FileInfo.name).Perm (gs.map FileInfo.name) := by
  obtain ⟨hs, hsame, hperm⟩ := h
  have hnames : fs.map FileInfo.name = hs.map FileInfo.name := by
    clear hperm
    induction hsame with
    | nil => rfl
    | @cons f f' _ _ hf _ ih =>
        have hname : f.name = f'.name := (FileInfo.mk.inj hf.fields).1
        rw [List.map_cons, List.map_cons, ih, hname]
  rw [hnames]
  exact hperm.map _

/-- A file that is moved keeps its old name in memory. -/
theorem movedFile_not_coherent :
    ∃ s, Transition.run indexStep (BepState.new emptyFolder)
        [.index "default" ⟨Vector.replicate 32 0⟩,
         .insertFileInfo "default" ⟨Vector.replicate 32 0⟩ [smallFile],
         .mvFileInfo "default" ⟨Vector.replicate 32 0⟩ smallFile "b" []] = some s ∧
      ¬ Coherent s := by
  refine ⟨_, rfl, ?_⟩
  intro h
  obtain ⟨-, hfiles⟩ := h ⟨"default", ⟨Vector.replicate 32 0⟩⟩ _ rfl
  have hnames := names_of_sameFiles hfiles
  have hmoved : (["a"] : List String).Perm ["b"] := hnames
  simp at hmoved

end Example

end Grizol.Analysis

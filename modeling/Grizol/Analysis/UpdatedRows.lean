import Grizol.Analysis.IndexIntake
import Grizol.Analysis.RepeatedMessages
import Grizol.Analysis.WrittenRows
import Grizol.Interface.UpdatedRows

/-!
# An update replaces rows as a whole, or leaves them

`rm_replace_file_info` deletes the row of each file it writes, and with it all that refers to
it, so the rows that follow are all there are. What it writes is what the comparison before
it found. For the second comparison the client has its stored files and those of the update,
up to their numbers (`SameButNumber`), so that it finds the files an update brings.
-/

set_option autoImplicit false

namespace Grizol.Analysis

open Grizol.Library
open Grizol.Model Grizol.Model.Syncthing Grizol.Interface

/-! ## The rows of one file -/

section Rows

variable {key : FileKey} {folder : String} {deviceId : DeviceId} {file : FileInfo}
  {files : List FileInfo} {tx tx' : Database}

/-- The rows of a file are all there is of its blocks and counters. -/
theorem rowsOf_of_sameRowsAt (h : SameRowsAt key tx tx') (hrows : RowsOf tx key file) :
    RowsOf tx' key file := by
  have hblocks : ∀ e, e ∈ tx'.blockRowsOf key ↔ e ∈ tx.blockRowsOf key := by
    rintro ⟨k, row⟩
    rw [Database.blockRowsOf, Database.blockRowsOf, List.mem_filter, List.mem_filter,
      AssocMap.mem_entries_iff, AssocMap.mem_entries_iff]
    refine and_congr_left fun hk => ?_
    rw [h.blocks k (of_decide_eq_true hk)]
  have hcounters : ∀ c, c ∈ tx'.countersOf key ↔ c ∈ tx.countersOf key := by
    intro c
    rw [mem_countersOf_iff, mem_countersOf_iff, h.versions _ rfl]
  exact ⟨fun e => (hblocks e).trans (hrows.blocks e),
    fun c => (hcounters c).trans (hrows.versions c)⟩

/-- A file that was replaced stays so while its rows stay. -/
theorem replacedBy_of_sameRowsAt {s : BepState} (h : SameRowsAt key tx tx')
    (hreplaced : ReplacedBy file key s tx) : ReplacedBy file key s tx' where
  row := by
    rw [h.file]
    exact hreplaced.row
  rows := rowsOf_of_sameRowsAt h hreplaced.rows
  locations k hk := (h.locations k hk).trans (hreplaced.locations k hk)
  cache := h.cache.trans hreplaced.cache

/-- A file that is deleted has no rows left in the tables that refer to it. -/
theorem deleteFileInfo_sideRows (db : Database) (key : FileKey) :
    (∀ k : LocationKey, k.file = key →
      (db.deleteFileInfo fun k => k = key).bepFileLocation.get k = none) ∧
      (db.deleteFileInfo fun k => k = key).bepLocalCache.get key = none := by
  refine ⟨?_, ?_⟩
  · rintro k rfl
    simp [Database.deleteFileInfo, AssocMap.get_retain]
  · simp [Database.deleteFileInfo, AssocMap.get_retain]

/-- **A file that is replaced leaves its rows only.** -/
theorem replacedBy_of_replaceFile {s : BepState}
    (hafter : ∀ last, lastSequence s = some last → last < file.sequence)
    (h : BepState.replaceFile folder deviceId file tx = .ok tx') :
    ReplacedBy file ⟨folder, deviceId, file.name⟩ s tx' := by
  obtain ⟨hrow, -⟩ := replaceFile_eq_ok h
  obtain ⟨-, hlocations, hcache⟩ := replaceFile_sideTables h
  obtain ⟨hlocations', hcache'⟩ := deleteFileInfo_sideRows tx ⟨folder, deviceId, file.name⟩
  refine ⟨⟨file.sequence, hafter, ?_⟩, (replaceFile_rowsOf h).1, ?_, ?_⟩
  · rw [hrow, if_pos rfl]
  · intro k hk
    rw [hlocations]
    exact hlocations' k hk
  · rw [hcache]
    exact hcache'

end Rows

/-! ## Content -/

section Content

variable {f g old : FileInfo} {key : FileKey} {s : BepState} {db : Database}

/-- The same file up to its number and to the order of its counters and of its blocks. -/
structure SameButNumber (f g : FileInfo) : Prop where
  fields : withParts { f with sequence := 0 } [] [] = withParts { g with sequence := 0 } [] []
  counters : ∀ c, c ∈ countersOf f ↔ c ∈ countersOf g
  blocks : ∀ b, b ∈ f.blocks ↔ b ∈ g.blocks

/-- A file is the same as itself. -/
theorem SameButNumber.refl (f : FileInfo) : SameButNumber f f := ⟨rfl, fun _ => Iff.rfl, fun _ => Iff.rfl⟩

/-- The same file is the same up to its number. -/
theorem sameButNumber_of_sameFile (h : SameFile f g) : SameButNumber f g where
  fields := congrArg (fun f : FileInfo => { f with sequence := 0 }) h.fields
  counters _ := h.counters.mem_iff
  blocks _ := h.blocks.mem_iff

/-- So is a numbered one. -/
theorem sameButNumber_numbered (h : Numbered f g) : SameButNumber g f := by
  obtain ⟨n, rfl⟩ := h
  exact ⟨rfl, fun _ => Iff.rfl, fun _ => Iff.rfl⟩

namespace SameButNumber

variable (h : SameButNumber f g)

include h

/-- They have the same name. -/
theorem name : f.name = g.name := by
  have hname := congrArg FileInfo.name h.fields
  exact hname

/-- They are both deleted or not. -/
theorem deleted : f.deleted = g.deleted := by
  have hdeleted := congrArg FileInfo.deleted h.fields
  exact hdeleted

/-- They have the same greatest value. -/
theorem topValue : topValue f = topValue g := topValue_congr h.counters

/-- And supersede the same files. -/
theorem supersedes {o o' : Option FileInfo} (hold : Option.Rel SameButNumber o o') :
    Supersedes o f ↔ Supersedes o' g := by
  cases hold with
  | none => simp [Supersedes]
  | some hsame =>
      simp only [Supersedes, Option.mem_def, Option.some.injEq, forall_eq']
      rw [newer_iff, newer_iff, h.topValue, hsame.topValue]

/-- It is replaced by the one as by the other. -/
theorem replacedBy (hreplaced : ReplacedBy f key s db) : ReplacedBy g key s db where
  row := by
    obtain ⟨sequence, hafter, hrow⟩ := hreplaced.row
    refine ⟨sequence, hafter, hrow.trans (congrArg some ?_)⟩
    have hcolumns := congrArg
      (fun f : FileInfo => FileRow.ofFileInfo { f with sequence := sequence }) h.fields
    exact hcolumns
  rows := by
    refine ⟨fun e => (hreplaced.rows.blocks e).trans ?_, fun c => (hreplaced.rows.versions c).trans
      (h.counters c)⟩
    exact exists_congr fun b => and_congr_left fun _ => h.blocks b
  locations := hreplaced.locations
  cache := hreplaced.cache

end SameButNumber

/-- A later number comes after the last one before, too. -/
theorem replacedBy_of_last {s' : BepState} (hreplaced : ReplacedBy f key s' db)
    (hlast : ∀ l, lastSequence s = some l → ∃ l', lastSequence s' = some l' ∧ l ≤ l') :
    ReplacedBy f key s db := by
  obtain ⟨⟨sequence, hafter, hrow⟩, hrows, hlocations, hcache⟩ := hreplaced
  refine ⟨⟨sequence, ?_, hrow⟩, hrows, hlocations, hcache⟩
  intro l hl
  obtain ⟨l', hl', hle⟩ := hlast l hl
  exact Int64.lt_of_le_of_lt hle (hafter l' hl')

end Content

/-! ## One call -/

section Calls

variable {s s' : BepState} {folder : String} {deviceId : DeviceId} {fileInfo : List FileInfo}

/-- What a call leaves that replaces files. -/
structure Replaces (folder : String) (deviceId : DeviceId) (fileInfo : List FileInfo)
    (s s' : BepState) : Prop where
  written : ∀ f ∈ fileInfo, f.deleted = false → ReplacedBy f ⟨folder, deviceId, f.name⟩ s s'.db
  others : ∀ key, (∀ f ∈ fileInfo, f.deleted = false → key ≠ ⟨folder, deviceId, f.name⟩) →
    SameRowsAt key s.db s'.db
  indices : s'.db.bepIndex = s.db.bepIndex
  last : ∀ l, lastSequence s = some l → ∃ l', lastSequence s' = some l' ∧ l ≤ l'

/-- **`rm_replace_file_info` writes its files but those flagged deleted.** -/
theorem replaces_of_rmReplaceFileInfo (hnodup : (fileInfo.map FileInfo.name).Nodup)
    (h : (BepState.rmReplaceFileInfo folder deviceId fileInfo).run s = .ok () s') :
    Replaces folder deviceId fileInfo s s' := by
  rw [BepState.rmReplaceFileInfo, BepState.replaceFileInfo, EStateM.run_bind, RustM.run_getThe] at h
  dsimp only at h
  obtain ⟨numbered, s₁, hassign, h⟩ := RustM.run_bind_eq_ok.mp h
  obtain ⟨n, rfl, hnumbering⟩ := numbering_of_assignSequences hassign
  obtain ⟨_, s₂, hassert, h⟩ := RustM.run_bind_eq_ok.mp h
  obtain ⟨-, rfl⟩ := RustM.run_lift_eq_ok.mp hassert
  obtain ⟨tx, s₃, hlift, h⟩ := RustM.run_bind_eq_ok.mp h
  obtain ⟨hwrite, rfl⟩ := RustM.run_lift_eq_ok.mp hlift
  obtain ⟨-, rfl⟩ := EStateM.Result.ok.inj h
  have hkept : ∀ f' ∈ numbered.filter fun f => !f.deleted, ∃ f ∈ fileInfo, f.deleted = false ∧
      Numbered f f' := by
    intro f' hf'
    obtain ⟨hmem, hnot⟩ := List.mem_filter.mp hf'
    obtain ⟨f, hf, m, rfl⟩ := Numbered.mem hnumbering.assigned hmem
    exact ⟨f, hf, by simpa using hnot, m, rfl⟩
  have hnodup' : ((numbered.filter fun f => !f.deleted).map FileInfo.name).Nodup := by
    refine (List.filter_sublist.map FileInfo.name).nodup ?_
    rw [Numbered.map_name hnumbering.assigned]
    exact hnodup
  refine ⟨?_, ?_, ?_, ?_⟩
  · refine Numbered.forall_mem hnumbering.assigned ?_ fun f' hf' hnot => ?_
    · exact fun f m hreplaced hnot => (sameButNumber_numbered ⟨m, rfl⟩).replacedBy (hreplaced hnot)
    · -- the numbered file went in, and nothing was written over it
      have hmem : f' ∈ numbered.filter fun f => !f.deleted :=
        List.mem_filter.mpr ⟨hf', by rw [hnot]; rfl⟩
      obtain ⟨tx₁, tx₂, hfile, -, hafter⟩ := writeFiles_split SameRowsAt.refl SameRowsAt.trans
        (fun _ _ _ hwrite _ hk => sameRowsAt_replaceFile hk hwrite) hnodup' hwrite hmem
      refine replacedBy_of_sameRowsAt hafter (replacedBy_of_replaceFile ?_ hfile)
      exact fun l hl => Int64.lt_iff_toInt_lt.mpr (hnumbering.after f' hf' l hl)
  · intro key hkey
    refine writeFiles_rel (SameRowsAt key) (SameRowsAt.refl key) SameRowsAt.trans ?_ hwrite
    intro f' hf' tx tx' hfile
    obtain ⟨f, hf, hnot, hnumbered⟩ := hkept f' hf'
    refine sameRowsAt_replaceFile ?_ hfile
    rw [(sameButNumber_numbered hnumbered).name]
    exact hkey f hf hnot
  · refine writeFiles_rel (fun tx tx' => tx'.bepIndex = tx.bepIndex) (fun _ => rfl)
      (fun h h' => h'.trans h) (fun _ _ _ _ h => (replaceFile_accepted h).1) hwrite
  · intro l hl
    rcases hnumbering.counter with ⟨rfl, rfl⟩ | ⟨m, rfl, hle, -⟩
    · obtain rfl := List.forall₂_nil_left_iff.mp hnumbering.assigned
      obtain rfl := Except.ok.inj hwrite
      exact ⟨l, hl, Int64.le_refl l⟩
    · exact ⟨m, rfl, Int64.le_iff_toInt_le.mpr (hle l hl)⟩

/-- Where no file of the name is written. -/
theorem Replaces.kept (h : Replaces folder deviceId fileInfo s s') {name : String}
    (hname : ∀ f ∈ fileInfo, f.deleted = false → f.name ≠ name) :
    SameRowsAt ⟨folder, deviceId, name⟩ s.db s'.db := by
  apply h.others
  intro f hf hnot heq
  exact hname f hf hnot (FileKey.mk.inj heq).2.2.symm

/-- Replacing files of one index leaves the rows of the others. -/
theorem Replaces.elsewhere (h : Replaces folder deviceId fileInfo s s') {key : FileKey}
    (hkey : key.folder ≠ folder ∨ key.device ≠ deviceId) : SameRowsAt key s.db s'.db := by
  apply h.others
  rintro f - - rfl
  simp at hkey

end Calls

/-! ## The comparisons -/

section Comparison

variable {db : Database} {update : IndexUpdate} {client : DeviceId} {name : String}
  {existing : AssocMap String FileInfo} {file : FileInfo} {newly files : List FileInfo}

/-- What a map holds under its names is what `files` does, up to the numbers. -/
def HoldsFiles (existing : AssocMap String FileInfo) (files : String → Option FileInfo) : Prop :=
  ∀ name, Option.Rel SameButNumber (existing.get name) (files name)

/-- What is related to something is something. -/
theorem exists_of_rel_some {α β : Type} {r : α → β → Prop} {a : α} {y : Option β}
    (h : Option.Rel r (some a) y) : ∃ b, y = some b ∧ r a b := by
  cases h with
  | some hr => exact ⟨_, rfl, hr⟩

/-- What a present value is related to is present. -/
theorem exists_of_some_rel {α β : Type} {r : α → β → Prop} {x : Option α} {b : β}
    (h : Option.Rel r x (some b)) : ∃ a, x = some a ∧ r a b := by
  cases h with
  | some hr => exact ⟨_, rfl, hr⟩

/-- Files that are under their names in the one are so in the other. -/
theorem named_of_holds {files : String → Option FileInfo} (h : HoldsFiles existing files)
    (hnames : ∀ name f, files name = some f → f.name = name) : Named existing := by
  intro name f hget
  obtain ⟨g, hfile, hsame⟩ := exists_of_rel_some (hget ▸ h name)
  rw [hsame.name, hnames name g hfile]

/-- New to the map is what is newer than the stored file. -/
theorem fresh_iff_supersedes {stored : String → Option FileInfo} (h : HoldsFiles existing stored) :
    Fresh existing file ↔ Supersedes (stored file.name) file :=
  (SameButNumber.refl file).supersedes (h file.name)

/-- The client is sent this file. -/
def Sent (db : Database) (update : IndexUpdate) (client : DeviceId) (name : String)
    (file : FileInfo) : Prop :=
  lastNamed update.files name = some file ∧ file.deleted = false ∧
    Supersedes (stored db ⟨update.folder, client, name⟩) file

/-- A file that was sent is the file of the client. -/
theorem clientFile_of_sent (h : Sent db update client name file) :
    clientFile db update client name = some file := by
  obtain ⟨hlast, hnew⟩ := h
  rw [clientFile, hlast]
  exact if_pos hnew

/-- Otherwise it is the stored one. -/
theorem clientFile_of_not_sent (h : ∀ file, ¬ Sent db update client name file) :
    clientFile db update client name = stored db ⟨update.folder, client, name⟩ := by
  rw [clientFile]
  cases hlast : lastNamed update.files name with
  | none => rfl
  | some file => exact if_neg fun hnew => h file ⟨hlast, hnew⟩

/-- No file is newer than itself, so what is sent is not there. -/
theorem not_supersedes_self (file : FileInfo) : ¬ Supersedes (some file) file :=
  fun h => not_newer_of_topValue rfl (h file rfl)

/-- A file of the client was sent if it is not the stored one. -/
theorem sent_iff : Sent db update client name file ↔
    clientFile db update client name = some file ∧
      stored db ⟨update.folder, client, name⟩ ≠ some file := by
  constructor
  · intro h
    refine ⟨clientFile_of_sent h, ?_⟩
    intro hstored
    rw [Sent, hstored] at h
    exact not_supersedes_self file h.2.2
  · rintro ⟨hfile, hdiffers⟩
    by_cases hsent : ∃ f, Sent db update client name f
    · obtain ⟨f, hf⟩ := hsent
      rw [clientFile_of_sent hf, Option.some.injEq] at hfile
      rw [← hfile]
      exact hf
    · rw [clientFile_of_not_sent (not_exists.mp hsent)] at hfile
      exact absurd hfile hdiffers

/-- A file of the client is under its name. -/
theorem name_of_clientFile (h : clientFile db update client name = some file) :
    file.name = name := by
  by_cases hstored : stored db ⟨update.folder, client, name⟩ = some file
  · exact name_of_stored db hstored
  · exact (lastNamed_eq_some (sent_iff.mpr ⟨h, hstored⟩).1).2

/-- The files that are written for the client are those it is sent. -/
theorem mem_newly_iff_sent (hnodup : (update.files.map FileInfo.name).Nodup)
    (hholds : HoldsFiles existing fun name => stored db ⟨update.folder, client, name⟩)
    (hnewly : ∀ f, f ∈ newly ↔ f ∈ update.files ∧ Fresh existing f) :
    file ∈ newly ∧ file.deleted = false ↔ Sent db update client file.name file := by
  rw [hnewly, fresh_iff_supersedes hholds]
  constructor
  · rintro ⟨⟨hmem, hnew⟩, hnot⟩
    exact ⟨lastNamed_of_mem hnodup hmem, hnot, hnew⟩
  · rintro ⟨hlast, hnot, hnew⟩
    exact ⟨⟨(lastNamed_eq_some hlast).1, hnew⟩, hnot⟩

/-- **What the client has for the second comparison.** -/
theorem holds_clientFile (hnodup : (update.files.map FileInfo.name).Nodup)
    (hholds : HoldsFiles existing fun name => stored db ⟨update.folder, client, name⟩)
    (hnewly : ∀ f, f ∈ newly ↔ f ∈ update.files ∧ Fresh existing f)
    (hnumbered : List.Forall₂ Numbered newly files) :
    HoldsFiles (GrizolIndex.insertAll existing (files.filter fun f => !f.deleted))
      (clientFile db update client) := by
  intro name
  rw [get_insertAll]
  cases hlast : lastNamed (files.filter fun f => !f.deleted) name with
  | some f' =>
      obtain ⟨hmem, rfl⟩ := lastNamed_eq_some hlast
      obtain ⟨hmem, hnot⟩ := List.mem_filter.mp hmem
      obtain ⟨f, hf, hnumber⟩ := Numbered.mem hnumbered hmem
      have hsame := sameButNumber_numbered hnumber
      have hnot : f.deleted = false := by
        rw [← hsame.deleted]
        simpa using hnot
      have hsent := (mem_newly_iff_sent hnodup hholds hnewly).mp ⟨hf, hnot⟩
      rw [Option.some_or, hsame.name, clientFile_of_sent hsent]
      exact Option.Rel.some hsame
  | none =>
      rw [Option.none_or, clientFile_of_not_sent]
      · exact hholds name
      · intro f hsent
        obtain rfl := (lastNamed_eq_some hsent.1).2
        obtain ⟨hf, hnot⟩ := (mem_newly_iff_sent hnodup hholds hnewly).mpr hsent
        have hname : f.name ∈ (files.filter fun f => !f.deleted).map FileInfo.name := by
          rw [Numbered.map_name (Numbered.filter hnumbered fun _ _ => rfl)]
          exact List.mem_map_of_mem (List.mem_filter.mpr ⟨hf, by simp [hnot]⟩)
        obtain ⟨g, hg, hsame⟩ := List.mem_map.mp hname
        exact lastNamed_eq_none.mp hlast g hg hsame

variable {localDeviceId : DeviceId} {known : AssocMap String FileInfo}

/-- A file that is brought is found by the second comparison. -/
theorem exists_newly_of_brings (hclient : HoldsFiles known (clientFile db update client))
    (hlocal : HoldsFiles existing fun name => stored db ⟨update.folder, localDeviceId, name⟩)
    (hnewly : ∀ f, f ∈ newly ↔ f ∈ known.values ∧ Fresh existing f)
    (h : Brings db update client localDeviceId name file) :
    ∃ f ∈ newly, f.name = name ∧ SameButNumber f file := by
  obtain ⟨hfile, hnot, hnew⟩ := h
  obtain ⟨f, hget, hsame⟩ := exists_of_some_rel (hfile ▸ hclient _)
  have hname : f.name = name := hsame.name.trans (name_of_clientFile hfile)
  refine ⟨f, ?_, hname, hsame⟩
  rw [hnewly, fresh_iff_supersedes hlocal, hname]
  refine ⟨AssocMap.mem_values_iff.mpr ⟨name, hget⟩, ?_⟩
  intro old hold
  exact newer_congr_right (hnew old hold) hsame.topValue

/-- And it finds such files only. -/
theorem exists_brings_of_newly (hclient : HoldsFiles known (clientFile db update client))
    (hlocal : HoldsFiles existing fun name => stored db ⟨update.folder, localDeviceId, name⟩)
    (hnewly : ∀ f, f ∈ newly ↔ f ∈ known.values ∧ Fresh existing f) {f : FileInfo} (hf : f ∈ newly)
    (hnot : f.deleted = false) : ∃ file, Brings db update client localDeviceId f.name file := by
  rw [hnewly, fresh_iff_supersedes hlocal, AssocMap.mem_values_iff] at hf
  obtain ⟨⟨name, hget⟩, hnew⟩ := hf
  obtain ⟨file, hfile, hsame⟩ := exists_of_rel_some (hget ▸ hclient _)
  have hname : f.name = name := hsame.name.trans (name_of_clientFile hfile)
  rw [hname] at hnew ⊢
  refine ⟨file, hfile, hsame.deleted.symm.trans hnot, ?_⟩
  intro old hold
  exact newer_congr_right (hnew old hold) hsame.topValue.symm

/-- Of itself a device is brought what it is sent. -/
theorem brings_self_iff :
    Brings db update client client name file ↔ Sent db update client name file := by
  constructor
  · rintro ⟨hfile, hnot, hnew⟩
    refine sent_iff.mpr ⟨hfile, ?_⟩
    intro hstored
    rw [hstored] at hnew
    exact not_supersedes_self file hnew
  · intro h
    exact ⟨clientFile_of_sent h, h.2⟩

end Comparison

/-! ## Updates -/

section Updates

variable {s s' : BepState} {update : IndexUpdate} {client localDeviceId : DeviceId}

/-- What is known of a device whose entry agrees with the tables is what they hold. -/
theorem holds_entryFor {folder : String} {deviceId : DeviceId}
    (h : AgreesWithTables s folder deviceId) :
    HoldsFiles (entryFor s folder deviceId).files fun name => stored s.db ⟨folder, deviceId, name⟩ := by
  intro name
  dsimp only
  cases hget : s.indices.indices.get ⟨folder, deviceId⟩ with
  | some entry =>
      rw [entryFor_of_some hget]
      have hrel := h entry hget name
      revert hrel
      generalize entry.files.get name = known, stored s.db ⟨folder, deviceId, name⟩ = old
      rintro (hsame | -)
      · exact Option.Rel.some (sameButNumber_of_sameFile hsame)
      · exact Option.Rel.none
  | none =>
      rw [get_entryFor_of_none hget]
      cases stored s.db ⟨folder, deviceId, name⟩ with
      | none => exact Option.Rel.none
      | some f => exact Option.Rel.some (SameButNumber.refl f)

/-- The first comparison and what is written after it. -/
structure FirstPass (update : IndexUpdate) (client : DeviceId) (s s' : BepState) : Prop where
  sent : ∀ name file, Sent s.db update client name file →
    ReplacedBy file ⟨update.folder, client, name⟩ s s'.db
  unsent : ∀ name, (∀ file, ¬ Sent s.db update client name file) →
    SameRowsAt ⟨update.folder, client, name⟩ s.db s'.db
  elsewhere : ∀ key : FileKey, key.folder ≠ update.folder ∨ key.device ≠ client →
    SameRowsAt key s.db s'.db
  indices : s'.db.bepIndex = s.db.bepIndex
  last : ∀ l, lastSequence s = some l → ∃ l', lastSequence s' = some l' ∧ l ≤ l'
  entry : ∃ entry, s'.indices.indices.get ⟨update.folder, client⟩ = some entry ∧
    HoldsFiles entry.files (clientFile s.db update client)
  known : ∀ deviceId, client ≠ deviceId → ∀ name,
    (entryFor s' update.folder deviceId).files.get name =
      (entryFor s update.folder deviceId).files.get name

/-- `index` changes neither the tables nor the counter. -/
theorem index_last (folder : String) (deviceId : DeviceId) (s : BepState) :
    lastSequence (RustM.endState ((BepState.index folder deviceId).run s)) = lastSequence s := by
  rw [index_run, RustM.endState_ok]
  split_ifs <;> rfl

/-- What replaces the files that are new for the client is such a first pass. -/
theorem firstPass_of_run {diff : IndexDiff} (hnodup : (update.files.map FileInfo.name).Nodup)
    (hclient : AgreesWithTables s update.folder client)
    (hdiff : diffOrPanic update.folder ⟨update.folder, update.files⟩
      (known s update.folder client) = .ok diff)
    (h : (BepState.rmReplaceFileInfo update.folder client diff.newlyAddedFiles).run
      (RustM.endState ((BepState.index update.folder client).run s)) = .ok () s') :
    FirstPass update client s s' := by
  have hholds := holds_entryFor hclient
  have hdb := index_db update.folder client s
  have hlast := index_last update.folder client s
  obtain ⟨-, hentry⟩ := index_untouched update.folder client client s
  obtain ⟨hsublist, hnewly⟩ :=
    diffOrPanic_spec (named_of_holds hholds fun _ _ hf => name_of_stored s.db hf) hdiff
  have hmem : ∀ f, f ∈ diff.newlyAddedFiles ∧ f.deleted = false ↔
      Sent s.db update client f.name f := fun f => mem_newly_iff_sent hnodup hholds hnewly
  have hreplaces := replaces_of_rmReplaceFileInfo ((hsublist.map FileInfo.name).nodup hnodup) h
  obtain ⟨files, hnumbered, hentry', -⟩ := rmReplaceFileInfo_eq_ok hentry h
  refine ⟨?_, ?_, ?_, ?_, ?_, ⟨_, hentry', holds_clientFile hnodup hholds hnewly hnumbered⟩, ?_⟩
  · intro name file hsent
    obtain rfl := (lastNamed_eq_some hsent.1).2
    obtain ⟨hnew, hnot⟩ := (hmem file).mpr hsent
    refine replacedBy_of_last (hreplaces.written file hnew hnot) ?_
    intro l hl
    exact ⟨l, hlast.trans hl, Int64.le_refl l⟩
  · intro name hsent
    rw [← hdb]
    apply hreplaces.kept
    rintro f hnew hnot rfl
    exact hsent f ((hmem f).mp ⟨hnew, hnot⟩)
  · intro key hkey
    rw [← hdb]
    exact hreplaces.elsewhere hkey
  · exact hreplaces.indices.trans (congrArg Database.bepIndex hdb)
  · rw [← hlast]
    exact hreplaces.last
  · intro deviceId hother name
    have hindex := (index_untouched update.folder client deviceId s).1
    have hwrite := @rmReplaceFileInfo_untouched
      (RustM.endState ((BepState.index update.folder client).run s)) update.folder deviceId client
      diff.newlyAddedFiles hother
    rw [h, RustM.endState_ok] at hwrite
    rw [hwrite.get_entryFor, hindex.get_entryFor]

/-- The second one: what is brought is written, and no other local file. -/
theorem replaces_brought {s₁ s₂ : BepState} {diff : IndexDiff} (hfirst : FirstPass update client s s₁)
    (hlocal : AgreesWithTables s update.folder localDeviceId)
    (hs₂ : RustM.endState ((BepState.index update.folder localDeviceId).run s₁) = s₂)
    (hdiff : diffOrPanic update.folder (known s₂ update.folder client)
      (known s₁ update.folder localDeviceId) = .ok diff)
    (h : (BepState.rmReplaceFileInfo update.folder localDeviceId diff.newlyAddedFiles).run
      (RustM.endState ((BepState.index update.folder client).run s₂)) = .ok () s') :
    (∃ t, t.db = s₁.db ∧ lastSequence t = lastSequence s₁ ∧
      Replaces update.folder localDeviceId diff.newlyAddedFiles t s') ∧
    (client = localDeviceId → diff.newlyAddedFiles = []) ∧
    (client ≠ localDeviceId →
      (∀ name file, Brings s.db update client localDeviceId name file →
        ∃ f ∈ diff.newlyAddedFiles, f.name = name ∧ SameButNumber f file) ∧
      ∀ f ∈ diff.newlyAddedFiles, f.deleted = false →
        ∃ file, Brings s.db update client localDeviceId f.name file) := by
  obtain ⟨entry, hentry, hclient⟩ := hfirst.entry
  have hnamed : Named entry.files := named_of_holds hclient fun _ _ => name_of_clientFile
  -- the entry of the client is still the one that was written
  have hentry₂ : s₂.indices.indices.get ⟨update.folder, client⟩ = some entry := by
    rw [← hs₂]
    exact get_index_of_some update.folder localDeviceId hentry
  rw [known_of_entry hentry₂] at hdiff
  have hlocalNamed : Named (entryFor s₁ update.folder localDeviceId).files := by
    by_cases hself : client = localDeviceId
    · rw [← hself, entryFor_of_some hentry]
      exact hnamed
    · intro name file hget
      rw [hfirst.known localDeviceId hself] at hget
      exact named_of_holds (holds_entryFor hlocal) (fun _ _ hf => name_of_stored s.db hf) name file hget
  obtain ⟨hsublist, hnewly⟩ := diffOrPanic_spec hlocalNamed hdiff
  refine ⟨⟨_, ?_, ?_, replaces_of_rmReplaceFileInfo
    ((hsublist.map FileInfo.name).nodup (nodup_names hnamed)) h⟩, ?_, ?_⟩
  · rw [index_db, ← hs₂, index_db]
  · rw [index_last, ← hs₂, index_last]
  · rintro rfl
    rw [List.eq_nil_iff_forall_not_mem]
    intro f hf
    obtain ⟨hmem, hnew⟩ := (hnewly f).mp hf
    rw [entryFor_of_some hentry] at hnew
    exact not_fresh_of_mem hnamed hmem hnew
  · intro hother
    have hholds : HoldsFiles (entryFor s₁ update.folder localDeviceId).files fun name =>
        stored s.db ⟨update.folder, localDeviceId, name⟩ := by
      intro name
      rw [hfirst.known localDeviceId hother]
      exact holds_entryFor hlocal name
    exact ⟨fun _ _ => exists_newly_of_brings hclient hholds hnewly,
      fun _ => exists_brings_of_newly hclient hholds hnewly⟩

/-- **What an update leaves.** -/
theorem leavesRows_of_updateIndices {unstoredBlocks : List BlockInfoExt}
    (hnodup : (update.files.map FileInfo.name).Nodup)
    (hclient : AgreesWithTables s update.folder client)
    (hlocal : AgreesWithTables s update.folder localDeviceId)
    (h : (BepProcessor.updateIndices localDeviceId ⟨update.folder, update.files⟩ client).run s =
      .ok unstoredBlocks s') : LeavesRows update client localDeviceId s s'.db := by
  unfold BepProcessor.updateIndices at h
  rw [run_index_bind] at h
  obtain ⟨diff, s₁, hlift, h⟩ := RustM.run_bind_eq_ok.mp h
  obtain ⟨hdiff, rfl⟩ := RustM.run_lift_eq_ok.mp hlift
  obtain ⟨_, s₂, hwrite, h⟩ := RustM.run_bind_eq_ok.mp h
  have hfirst := firstPass_of_run hnodup hclient hdiff hwrite
  rw [run_index_bind, run_index_bind] at h
  obtain ⟨diff', s₃, hlift', h⟩ := RustM.run_bind_eq_ok.mp h
  obtain ⟨hdiff', rfl⟩ := RustM.run_lift_eq_ok.mp hlift'
  obtain ⟨_, s₃, hwrite', h⟩ := RustM.run_bind_eq_ok.mp h
  obtain ⟨-, rfl⟩ := EStateM.Result.ok.inj h
  obtain ⟨⟨t, hdb, hlast, hsecond⟩, hself, hother⟩ :=
    replaces_brought hfirst hlocal rfl hdiff' hwrite'
  have hlater : ∀ {file key}, ReplacedBy file key t s₃.db → ReplacedBy file key s s₃.db := by
    intro file key hreplaced
    refine replacedBy_of_last hreplaced ?_
    rw [hlast]
    exact hfirst.last
  have helsewhere : ∀ key : FileKey, key.folder ≠ update.folder ∨ key.device ≠ localDeviceId →
      SameRowsAt key s₂.db s₃.db := by
    intro key hkey
    rw [← hdb]
    exact hsecond.elsewhere hkey
  have hnothing : client = localDeviceId → ∀ key, SameRowsAt key s₂.db s₃.db := by
    intro hlocalClient key
    rw [← hdb]
    apply hsecond.others
    simp [hself hlocalClient]
  have hclientRows : ∀ name, SameRowsAt ⟨update.folder, client, name⟩ s₂.db s₃.db := by
    intro name
    by_cases hsame : client = localDeviceId
    · exact hnothing hsame _
    · exact helsewhere _ (Or.inr hsame)
  refine ⟨?_, ?_, ?_, ?_, ?_, ?_⟩
  · intro name file hbrings
    by_cases hsame : client = localDeviceId
    · subst hsame
      exact replacedBy_of_sameRowsAt (hclientRows name)
        (hfirst.sent name file (brings_self_iff.mp hbrings))
    · obtain ⟨f, hf, rfl, hcontent⟩ := (hother hsame).1 name file hbrings
      have hnot : f.deleted = false := hcontent.deleted.trans hbrings.2.1
      exact hlater (hcontent.replacedBy (hsecond.written f hf hnot))
  · intro name hnone
    by_cases hsame : client = localDeviceId
    · subst hsame
      refine (hfirst.unsent name ?_).trans (hclientRows name)
      exact fun file hsent => hnone file (brings_self_iff.mpr hsent)
    · refine (hfirst.elsewhere _ (Or.inr (Ne.symm hsame))).trans ?_
      rw [← hdb]
      apply hsecond.kept
      rintro f hf hnot rfl
      obtain ⟨file, hbrings⟩ := (hother hsame).2 f hf hnot
      exact hnone file hbrings
  · intro name file hfile hdiffers
    exact replacedBy_of_sameRowsAt (hclientRows name)
      (hfirst.sent name file (sent_iff.mpr ⟨hfile, hdiffers⟩))
  · intro name hfile
    refine (hfirst.unsent name ?_).trans (hclientRows name)
    intro file hsent
    obtain ⟨hbecomes, hdiffers⟩ := sent_iff.mp hsent
    exact hdiffers (hfile.symm.trans hbecomes)
  · intro key hkey
    have hclientKey : key.folder ≠ update.folder ∨ key.device ≠ client := hkey.imp_right And.left
    exact (hfirst.elsewhere key hclientKey).trans (helsewhere key (hkey.imp_right And.right))
  · exact hsecond.indices.trans ((congrArg Database.bepIndex hdb).trans hfirst.indices)

/-- **An update replaces rows as a whole, or leaves them.** From every state whose entries of
the folder agree with the tables, a handler of an `IndexUpdate` that returns leaves of every
name the rows of the file it brings, or the rows that were there. -/
theorem leavesRows_of_handleIndexUpdate (p p' : BepProcessor) (update : IndexUpdate)
    (client : DeviceId) (clock : ℕ → ℕ) (events : List (Except BepProcessorError GrizolEvent))
    (hnodup : (update.files.map FileInfo.name).Nodup)
    (hclient : AgreesWithTables p.state update.folder client)
    (hlocal : AgreesWithTables p.state update.folder p.config.localDeviceId)
    (h : (BepProcessor.handleIndexUpdate update client clock).run p = .ok events p') :
    LeavesRows update client p.config.localDeviceId p.state p'.state.db := by
  obtain ⟨unstoredBlocks, s₁, hwrite⟩ := @writeOf_eq_ok p p' ⟨.indexUpdate update, client, clock⟩ _ h
  have hdb : p'.state.db = s₁.db := by
    have hend : RustM.endState ((BepProcessor.handleIndexUpdate update client clock).run p) = p' := by
      rw [h, RustM.endState_ok]
    rw [← hend, handleIndexUpdate_run, queueAfter_db]
    exact congrArg (fun r => (RustM.endState r).db) hwrite
  rw [hdb]
  exact leavesRows_of_updateIndices hnodup hclient hlocal hwrite

end Updates

/-! ## An update of a client -/

section Example

/-- Without entries in memory nothing can disagree. -/
theorem agreesWithTables_new (db : Database) (folder : String) (deviceId : DeviceId) :
    AgreesWithTables (.new db) folder deviceId := by
  intro entry hget
  cases hget

/-- A client sends a file of two blocks to a server that has just started. -/
theorem leavesRows_pairFile :
    ∃ events p', (BepProcessor.handleIndexUpdate ⟨"default", [pairFile]⟩ clientDevice
        fun _ => 0).run startedServer = .ok events p' ∧
      LeavesRows ⟨"default", [pairFile]⟩ clientDevice serverDevice startedServer.state
        p'.state.db := by
  obtain ⟨⟨events, p'⟩, hreturned⟩ := Option.isSome_iff_exists.mp
    (show (RustM.returned ((BepProcessor.handleIndexUpdate ⟨"default", [pairFile]⟩ clientDevice
      fun _ => 0).run startedServer)).isSome = true by decide +kernel)
  have hrun := RustM.returned_eq_some.mp hreturned
  exact ⟨events, p', hrun, leavesRows_of_handleIndexUpdate startedServer p' _ clientDevice _
    events (by decide) (agreesWithTables_new _ _ _) (agreesWithTables_new _ _ _) hrun⟩

end Example

end Grizol.Analysis

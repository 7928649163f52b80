import Grizol.Analysis.DatabaseRefinement

/-!
# Loading an index

The query of `index` joins the files with their blocks and folds the rows back into
files, then adds the counters. What comes out is what is stored for the folder and
device, file by file.
-/

set_option autoImplicit false

namespace Grizol.Analysis

open Grizol.Library
open Grizol.Model Grizol.Model.Syncthing Grizol.Interface

/-! ## Files in a map -/

/-- The last file of a name. -/
theorem lastNamed_concat (files : List FileInfo) (file : FileInfo) (name : String) :
    lastNamed (files ++ [file]) name =
      if file.name = name then some file else lastNamed files name := by
  simp only [lastNamed, List.reverse_append, List.reverse_singleton, List.singleton_append,
    List.find?_cons]
  split_ifs with h
  · simp [h]
  · simp [h]

/-- Of the files put into a map under their names the last of each name is found. -/
theorem get_insertAll (files : AssocMap String FileInfo) (added : List FileInfo) (name : String) :
    (GrizolIndex.insertAll files added).get name = (lastNamed added name).or (files.get name) := by
  induction added using List.reverseRecOn with
  | nil => rfl
  | append_singleton added file ih =>
      have hstep : GrizolIndex.insertAll files (added ++ [file]) =
          (GrizolIndex.insertAll files added).insert file.name file := by
        rw [GrizolIndex.insertAll, List.foldl_append]
        rfl
      rw [hstep, AssocMap.get_insert, lastNamed_concat, ih]
      by_cases hname : file.name = name
      · rw [if_pos hname.symm, if_pos hname, Option.some_or]
      · rw [if_neg fun h => hname h.symm, if_neg hname]

/-- It is one of the list, and has the name. -/
theorem lastNamed_eq_some {files : List FileInfo} {name : String} {file : FileInfo}
    (h : lastNamed files name = some file) : file ∈ files ∧ file.name = name := by
  refine ⟨List.mem_reverse.mp (List.mem_of_find?_eq_some h), ?_⟩
  simpa using List.find?_some h

/-- There is none only if no file has the name. -/
theorem lastNamed_eq_none {files : List FileInfo} {name : String} :
    lastNamed files name = none ↔ ∀ f ∈ files, f.name ≠ name := by
  simp [lastNamed]

/-- Of files with different names there is one of each. -/
theorem eq_of_name {files : List FileInfo} (hnodup : (files.map FileInfo.name).Nodup)
    {f g : FileInfo} (hf : f ∈ files) (hg : g ∈ files) (hname : f.name = g.name) : f = g :=
  List.inj_on_of_nodup_map hnodup hf hg hname

/-- The one is the last of its name. -/
theorem lastNamed_of_mem {files : List FileInfo} {file : FileInfo}
    (hnodup : (files.map FileInfo.name).Nodup) (hfile : file ∈ files) :
    lastNamed files file.name = some file := by
  cases hlast : lastNamed files file.name with
  | none => exact absurd rfl (lastNamed_eq_none.mp hlast file hfile)
  | some f =>
      obtain ⟨hmem, hname⟩ := lastNamed_eq_some hlast
      rw [eq_of_name hnodup hmem hfile hname]

/-- Where the names differ there is one file of a name. -/
theorem filter_name {files : List FileInfo} (hnodup : (files.map FileInfo.name).Nodup)
    {file : FileInfo} (hfile : file ∈ files) :
    (files.filter fun f => f.name = file.name) = [file] := by
  induction files with
  | nil => cases hfile
  | cons f files ih =>
      rw [List.map_cons, List.nodup_cons] at hnodup
      rcases List.mem_cons.mp hfile with rfl | hmem
      · rw [List.filter_cons_of_pos (by simp), List.cons.injEq]
        refine ⟨rfl, List.filter_eq_nil_iff.mpr ?_⟩
        intro g hg hname
        exact hnodup.1 (List.mem_map.mpr ⟨g, hg, of_decide_eq_true hname⟩)
      · have hne : f.name ≠ file.name := by
          intro hname
          exact hnodup.1 (List.mem_map.mpr ⟨file, hmem, hname.symm⟩)
        rw [List.filter_cons_of_neg (by simpa using hne)]
        exact ih hnodup.2 hmem

/-- Going through an `Index` and back loses only the order. -/
theorem get_ofIndex_values {files : AssocMap String FileInfo} (hnamed : Named files)
    (folder : String) (name : String) :
    (GrizolIndex.ofIndex ⟨folder, files.values⟩).files.get name = files.get name := by
  rw [GrizolIndex.ofIndex, get_insertAll, AssocMap.get_empty, Option.or_none]
  cases hlast : lastNamed files.values name with
  | some file =>
      obtain ⟨hmem, hname⟩ := lastNamed_eq_some hlast
      obtain ⟨k, hk⟩ := AssocMap.mem_values_iff.mp hmem
      rw [← hname, hnamed k file hk, hk]
  | none =>
      cases hget : files.get name with
      | none => rfl
      | some file =>
          have hmem := AssocMap.mem_values_iff.mpr ⟨name, hget⟩
          exact absurd (hnamed name file hget) (lastNamed_eq_none.mp hlast file hmem)

/-! ## The rows of one file -/

section Load

variable {existing : AssocMap String FileInfo}

/-- Blocks of a file that is there already are appended. -/
theorem get_foldl_moreBlocks (key : FileKey) (row : FileRow) (blocks : List BlockInfo)
    {file : FileInfo} (hfile : existing.get key.name = some file) (name : String) :
    ((blocks.map fun bi => (key, row, some bi)).foldl BepState.addFileBlock existing).get name =
      if name = key.name then some { file with blocks := file.blocks ++ blocks }
      else existing.get name := by
  induction blocks generalizing existing file with
  | nil =>
      simp only [List.map_nil, List.foldl_nil, List.append_nil]
      split_ifs with hname
      · rw [hname, hfile]
      · rfl
  | cons bi blocks ih =>
      have hstep : BepState.addFileBlock existing (key, row, some bi) =
          existing.modify key.name fun f => { f with blocks := f.blocks ++ [bi] } := by
        simp [BepState.addFileBlock, AssocMap.contains, hfile]
      have hget : (existing.modify key.name fun f => { f with blocks := f.blocks ++ [bi] }).get
          key.name = some { file with blocks := file.blocks ++ [bi] } := by
        rw [AssocMap.get_modify, if_pos rfl, hfile, Option.map_some]
      rw [List.map_cons, List.foldl_cons, hstep, ih hget]
      split_ifs with hname
      · simp [List.append_assoc]
      · rw [AssocMap.get_modify, if_neg hname]

/-- The rows of a file, as the join gives them. -/
def rowsOfFile (db : Database) (e : FileKey × FileRow) :
    List (FileKey × FileRow × Option BlockInfo) :=
  match db.blocksOf e.1 with
  | [] => [(e.1, e.2, none)]
  | blocks => blocks.map fun bi => (e.1, e.2, some bi)

/-- The rows of a new file make it, with all its blocks. -/
theorem get_foldl_rowsOfFile (db : Database) (e : FileKey × FileRow)
    (hnew : existing.get e.1.name = none) (name : String) :
    ((rowsOfFile db e).foldl BepState.addFileBlock existing).get name =
      if name = e.1.name then some (e.2.toFileInfo e.1.name [] (db.blocksOf e.1))
      else existing.get name := by
  have hinsert : ∀ block, BepState.addFileBlock existing (e.1, e.2, block) =
      existing.insert e.1.name (e.2.toFileInfo e.1.name [] block.toList) := by
    intro block
    simp [BepState.addFileBlock, AssocMap.contains, hnew]
  unfold rowsOfFile
  cases hblocks : db.blocksOf e.1 with
  | nil =>
      rw [List.foldl_cons, List.foldl_nil, hinsert, AssocMap.get_insert]
      rfl
  | cons bi blocks =>
      dsimp only
      rw [List.map_cons, List.foldl_cons, hinsert,
        get_foldl_moreBlocks _ _ _ (AssocMap.get_insert_self _ _ _)]
      split_ifs with hname
      · rfl
      · exact AssocMap.get_insert_of_ne _ _ hname

/-- The counters of a file are appended to it. -/
theorem get_foldl_counters (fileName : String) (counters : List Counter) (name : String) :
    ((counters.map fun c => (fileName, c)).foldl BepState.addFileVersion existing).get name =
      if name = fileName then (existing.get name).map fun f =>
        { f with version := f.version.map fun v => { counters := v.counters ++ counters } }
      else existing.get name := by
  induction counters generalizing existing with
  | nil =>
      simp only [List.map_nil, List.foldl_nil, List.append_nil]
      split_ifs with hname
      · cases existing.get name <;> simp
      · rfl
  | cons counter counters ih =>
      have hstep : BepState.addFileVersion existing (fileName, counter) =
          existing.modify fileName fun f =>
            { f with version := f.version.map fun v => { counters := v.counters ++ [counter] } } :=
        rfl
      rw [List.map_cons, List.foldl_cons, hstep, ih, AssocMap.get_modify]
      split_ifs with hname
      · subst hname
        cases existing.get name with
        | none => rfl
        | some f => simp [Function.comp_def]
      · rfl

/-! ## All files -/

/-- A fold over files of different names sets the name of each once. -/
theorem get_foldl_files (add : AssocMap String FileInfo → FileKey × FileRow →
      AssocMap String FileInfo) (value : FileKey × FileRow → Option FileInfo)
    {rows : List (FileKey × FileRow)}
    (hadd : ∀ existing' e, e ∈ rows → existing'.get e.1.name = existing.get e.1.name →
      ∀ name, (add existing' e).get name =
        if name = e.1.name then value e else existing'.get name)
    (hnames : (rows.map fun e => e.1.name).Nodup) (name : String) :
    (rows.foldl add existing).get name =
      match rows.find? fun e => e.1.name = name with
      | some e => value e
      | none => existing.get name := by
  have hrun : ∀ existing', (∀ e ∈ rows, existing'.get e.1.name = existing.get e.1.name) →
      (rows.foldl add existing').get name =
        match rows.find? fun e => e.1.name = name with
        | some e => value e
        | none => existing'.get name := by
    induction rows with
    | nil =>
        intro existing' _
        rfl
    | cons e rows ih =>
        intro existing' hsame
        rw [List.map_cons, List.nodup_cons] at hnames
        have hstep := hadd existing' e List.mem_cons_self (hsame e List.mem_cons_self)
        have hne : ∀ e' ∈ rows, e'.1.name ≠ e.1.name := by
          intro e' he' heq
          exact hnames.1 (List.mem_map.mpr ⟨e', he', heq⟩)
        have hrest := ih (fun existing' e' he' => hadd existing' e' (List.mem_cons_of_mem e he'))
          hnames.2 (add existing' e) fun e' he' => by
            rw [hstep, if_neg (hne e' he')]
            exact hsame e' (List.mem_cons_of_mem e he')
        rw [List.foldl_cons, hrest, List.find?_cons]
        by_cases hname : e.1.name = name
        · have hnone : (rows.find? fun e' => e'.1.name = name) = none := by
            rw [List.find?_eq_none]
            intro e' he'
            simpa [hname] using hname ▸ hne e' he'
          simp only [hname, hnone, hstep, if_pos]
          simp
        · have hother : name ≠ e.1.name := fun h => hname h.symm
          simp only [hname, hstep, if_neg hother]
          simp
  exact hrun existing fun _ _ => rfl

variable (db : Database) (folder : String) (deviceId : DeviceId)

/-- The files of a folder and device have different names. -/
theorem nodup_fileRows :
    ((BepState.fileRows db folder deviceId).map fun e => e.1.name).Nodup := by
  have hkeys : ((BepState.fileRows db folder deviceId).map Prod.fst).Nodup :=
    db.bepFileInfo.nodup.sublist (List.filter_sublist.map _)
  have hmap : (BepState.fileRows db folder deviceId).map (fun e => e.1.name) =
      ((BepState.fileRows db folder deviceId).map Prod.fst).map FileKey.name := by
    rw [List.map_map]
    rfl
  rw [hmap]
  apply hkeys.map_on
  intro k hk k' hk' hname
  obtain ⟨⟨k, r⟩, hmem, rfl⟩ := List.mem_map.mp hk
  obtain ⟨⟨k', r'⟩, hmem', rfl⟩ := List.mem_map.mp hk'
  simp only [BepState.fileRows, List.mem_filter, Bool.and_eq_true, decide_eq_true_eq] at hmem hmem'
  obtain ⟨-, hfolder, hdevice⟩ := hmem
  obtain ⟨-, hfolder', hdevice'⟩ := hmem'
  cases k
  cases k'
  simp_all

/-- The row of a name among those of a folder and device. -/
theorem find_fileRows (name : String) :
    ((BepState.fileRows db folder deviceId).find? fun e => e.1.name = name) =
      (db.bepFileInfo.get ⟨folder, deviceId, name⟩).map fun row =>
        (⟨folder, deviceId, name⟩, row) := by
  cases hfind : (BepState.fileRows db folder deviceId).find? fun e => e.1.name = name with
  | some e =>
      obtain ⟨k, row⟩ := e
      have hmem := List.mem_of_find?_eq_some hfind
      have hname : k.name = name := by simpa using List.find?_some hfind
      simp only [BepState.fileRows, List.mem_filter, Bool.and_eq_true, decide_eq_true_eq] at hmem
      obtain ⟨hmem, hfolder, hdevice⟩ := hmem
      obtain rfl : k = ⟨folder, deviceId, name⟩ := by
        rw [← hfolder, ← hdevice, ← hname]
      rw [AssocMap.mem_entries_iff.mp hmem, Option.map_some]
  | none =>
      cases hget : db.bepFileInfo.get ⟨folder, deviceId, name⟩ with
      | none => rfl
      | some row =>
          have hmem : (⟨folder, deviceId, name⟩, row) ∈ BepState.fileRows db folder deviceId := by
            simp [BepState.fileRows, AssocMap.mem_entries_iff.mpr hget]
          have hnot := List.find?_eq_none.mp hfind _ hmem
          simp at hnot

/-- What a name is bound to before the counters are added. -/
theorem get_foldl_fileBlocks (name : String) :
    ((BepState.fileBlocks db folder deviceId).foldl BepState.addFileBlock .empty).get name =
      (db.bepFileInfo.get ⟨folder, deviceId, name⟩).map fun row =>
        row.toFileInfo name [] (db.blocksOf ⟨folder, deviceId, name⟩) := by
  have hflat : (BepState.fileBlocks db folder deviceId).foldl BepState.addFileBlock .empty =
      (BepState.fileRows db folder deviceId).foldl
        (fun existing e => (rowsOfFile db e).foldl BepState.addFileBlock existing) .empty :=
    List.foldl_flatMap ..
  rw [hflat, get_foldl_files _
    (fun e => some (e.2.toFileInfo e.1.name [] (db.blocksOf e.1))) _
    (nodup_fileRows db folder deviceId), find_fileRows]
  · cases db.bepFileInfo.get ⟨folder, deviceId, name⟩ <;> rfl
  · intro existing e _ hnew name
    exact get_foldl_rowsOfFile db e hnew name

/-- **The loaded index is what is stored.** The files `index` reads are those that are
stored for the folder and device, each once. -/
theorem loadIndex_files : ∃ files : AssocMap String FileInfo,
    (BepState.loadIndex db folder deviceId).files = files.values ∧
      ∀ name, files.get name = stored db ⟨folder, deviceId, name⟩ := by
  refine ⟨_, rfl, ?_⟩
  intro name
  have hflat : ∀ existing, (BepState.fileVersions db folder deviceId).foldl
      BepState.addFileVersion existing =
      (BepState.fileRows db folder deviceId).foldl (fun existing e =>
        ((db.countersOf e.1).map fun c => (e.1.name, c)).foldl BepState.addFileVersion existing)
        existing := fun existing => List.foldl_flatMap ..
  rw [hflat, get_foldl_files _ (fun e => some (e.2.toFileInfo e.1.name (db.countersOf e.1)
    (db.blocksOf e.1))) _ (nodup_fileRows db folder deviceId), find_fileRows,
    get_foldl_fileBlocks, stored]
  · cases db.bepFileInfo.get ⟨folder, deviceId, name⟩ <;> rfl
  · intro existing e he hsame name
    rw [get_foldl_counters]
    split_ifs with hname
    · have hrow : db.bepFileInfo.get e.1 = some e.2 := by
        have hmem := List.mem_of_mem_filter he
        exact AssocMap.mem_entries_iff.mp hmem
      have hkey : (⟨folder, deviceId, e.1.name⟩ : FileKey) = e.1 := by
        simp only [BepState.fileRows, List.mem_filter, Bool.and_eq_true, decide_eq_true_eq] at he
        rw [← he.2.1, ← he.2.2]
      rw [hname, hsame, get_foldl_fileBlocks, hkey, hrow]
      rfl
    · rfl

/-- What is stored under a name has that name. -/
theorem name_of_stored {key : FileKey} {file : FileInfo} (h : stored db key = some file) :
    file.name = key.name := by
  obtain ⟨row, -, rfl⟩ := Option.map_eq_some_iff.mp h
  rfl

/-- The entry `index` makes holds, under every name, what is stored. -/
theorem get_loadIndex (name : String) :
    (GrizolIndex.ofIndex (BepState.loadIndex db folder deviceId)).files.get name =
      stored db ⟨folder, deviceId, name⟩ := by
  obtain ⟨files, hfiles, hget⟩ := loadIndex_files db folder deviceId
  have hnamed : Named files := by
    intro name file hfile
    rw [hget] at hfile
    exact name_of_stored db hfile
  rw [← hget, ← get_ofIndex_values hnamed folder name, ← hfiles]
  rfl

end Load

end Grizol.Analysis

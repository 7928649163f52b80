import Grizol.Analysis.DirectoryPaging
import Grizol.Analysis.FuseRefresh
import Grizol.Interface.MovedFiles

/-!
# Where a rename in memory leaves the files

The loop of `rename_mem` takes the files below a directory one after the other, and each
goes to a key that is free, so what a row holds is what it held before. The folder of the
new key is that of the file, whatever the folder of the new parent is.
-/

set_option autoImplicit false

namespace Grizol.Analysis

open Grizol.Library Grizol.Library.Prefixes
open Grizol.Model Grizol.Model.Syncthing Grizol.Interface

open GrizolFsMem (splitPath)

/-! ## One file -/

section OneFile

variable {db db' : Database} {key : FileKey} {name : String}

/-- Nothing refers to a file that is not there. -/
theorem ne_of_refers {κ ν : Type} [DecidableEq κ] {file : κ → FileKey} {rows : AssocMap κ ν}
    {files : AssocMap FileKey FileRow} (h : Refers file rows files) {dest : FileKey}
    (hfree : files.contains dest = false) {k : κ} {v : ν} (hk : rows.get k = some v) :
    file k ≠ dest := by
  rintro rfl
  rw [h k v hk] at hfree
  cases hfree

/-- The rows that refer to another file stay, -/
theorem get_rekey_of_other {κ ν : Type} [DecidableEq κ] {file : κ → FileKey} {move : κ → κ}
    {rows rows' : AssocMap κ ν} {dest : FileKey} (hrows : rows.rekey move = some rows')
    (hmove : ∀ k, file (move k) = Database.moveFile key dest (file k))
    (hfixed : ∀ k, file k ≠ key → move k = k) {k : κ} (hkey : file k ≠ key)
    (hdest : file k ≠ dest) : rows'.get k = rows.get k := by
  refine AssocMap.get_rekey_eq hrows fun k₀ v hk₀ => ?_
  constructor
  · rintro rfl
    by_cases hk : file k₀ = key
    · rw [hmove, Database.moveFile, if_pos hk] at hdest
      exact absurd rfl hdest
    · exact (hfixed k₀ hk).symm
  · rintro rfl
    exact hfixed k₀ hkey

/-- and those that refer to the renamed one go with it. -/
theorem get_rekey_of_moved {κ ν : Type} [DecidableEq κ] {file : κ → FileKey} {move : κ → κ}
    {rows rows' : AssocMap κ ν} {files : AssocMap FileKey FileRow} {dest : FileKey}
    (hrows : rows.rekey move = some rows') (hrefers : Refers file rows files)
    (hfree : files.contains dest = false)
    (hmove : ∀ k, file (move k) = Database.moveFile key dest (file k))
    (hfixed : ∀ k, file k ≠ key → move k = k)
    (hinj : ∀ k k', file k = key → file k' = key → move k = move k' → k = k') {k : κ}
    (hkey : file k = key) : rows'.get (move k) = rows.get k := by
  refine AssocMap.get_rekey_eq hrows fun k₀ v hk₀ => ?_
  constructor
  · intro heq
    by_cases hk : file k₀ = key
    · exact hinj k₀ k hk hkey heq
    · -- a row that stays would refer to the new key
      have hdest : file k₀ = dest := by
        rw [← hfixed k₀ hk, heq, hmove, Database.moveFile, if_pos hkey]
      exact absurd hdest (ne_of_refers hrefers hfree hk₀)
  · rintro rfl
    rfl

/-- `UPDATE` with its cascades moves one file. -/
theorem filesMoved_of_renameFileInfo {sequence : Int64}
    (h : db.renameFileInfo key name sequence = .ok db')
    (hkey : db.bepFileInfo.contains key = true)
    (hfree : db.bepFileInfo.contains { key with name := name } = false) :
    FilesMoved (fun k d => k = key ∧ d = { key with name := name }) db db' := by
  have hne : key ≠ { key with name := name } := by
    intro heq
    rw [← heq, hkey] at hfree
    cases hfree
  unfold Database.renameFileInfo at h
  dsimp only at h
  split at h
  · rename_i hrow
    rw [AssocMap.contains, hrow] at hkey
    cases hkey
  rename_i row hrow
  split_ifs at h
  split at h
  · rename_i locations cache blocks versions hlocations hcache hblocks hversions
    obtain rfl := Except.ok.inj h
    refine ⟨?_, ?_, ?_⟩
    · rintro k d ⟨rfl, rfl⟩
      refine ⟨⟨row, sequence, hrow, AssocMap.get_insert_self _ _ _⟩, ?_, ?_⟩
      · intro b hb
        have hmoved := get_rekey_of_moved hblocks db.blockOfFile hfree (fun _ => rfl)
          (fun b hb => by rw [Database.moveFile, if_neg hb])
          (by
            rintro ⟨file, offset, size, hash⟩ ⟨file', offset', size', hash'⟩ rfl rfl heq
            simpa using heq) hb
        rwa [Database.moveFile, if_pos hb] at hmoved
      · intro v hv
        have hmoved := get_rekey_of_moved hversions db.versionOfFile hfree (fun _ => rfl)
          (fun v hv => by rw [Database.moveFile, if_neg hv])
          (by
            rintro ⟨file, id, value⟩ ⟨file', id', value'⟩ rfl rfl heq
            simpa using heq) hv
        rwa [Database.moveFile, if_pos hv] at hmoved
    · rintro k d ⟨rfl, rfl⟩
      rw [AssocMap.contains_eq_false_iff, AssocMap.get_insert_of_ne _ _ hne,
        AssocMap.get_erase_self]
    · intro k hsource hdest
      have hkey' : k ≠ key := fun heq => hsource _ ⟨heq, rfl⟩
      have hdest' : k ≠ { key with name := name } := fun heq => hdest key ⟨rfl, heq⟩
      refine ⟨?_, ?_, ?_, ?_, ?_⟩
      · rw [AssocMap.get_insert_of_ne _ _ hdest', AssocMap.get_erase_of_ne _ hkey']
      · rintro l rfl
        exact get_rekey_of_other hlocations (fun _ => rfl)
          (fun l hl => by rw [Database.moveFile, if_neg hl]) hkey' hdest'
      · exact @get_rekey_of_other key _ _ _ id (Database.moveFile key _) _ _ _ hcache
          (fun _ => rfl) (fun _ hc => if_neg hc) k hkey' hdest'
      · rintro b rfl
        exact get_rekey_of_other hblocks (fun _ => rfl)
          (fun b hb => by rw [Database.moveFile, if_neg hb]) hkey' hdest'
      · rintro v rfl
        exact get_rekey_of_other hversions (fun _ => rfl)
          (fun v hv => by rw [Database.moveFile, if_neg hv]) hkey' hdest'
  · cases h

/-- Only where a file is stored and cached has changed. -/
structure Relocated (dest : FileKey) (db db' : Database) : Prop where
  index : db'.bepIndex = db.bepIndex
  files : db'.bepFileInfo = db.bepFileInfo
  blocks : db'.bepBlockInfo = db.bepBlockInfo
  versions : db'.bepFileVersion = db.bepFileVersion
  locations : ∀ k : LocationKey, k.file ≠ dest →
    db'.bepFileLocation.get k = db.bepFileLocation.get k
  cache : ∀ k, k ≠ dest → db'.bepLocalCache.get k = db.bepLocalCache.get k

/-- The locations and the entry of the cache are taken away, -/
theorem relocated_delete (dest : FileKey) (db : Database) :
    Relocated dest db ((db.deleteLocations fun k => k.file = dest).deleteLocalCache
      fun k => k = dest) := by
  refine ⟨rfl, rfl, rfl, rfl, ?_, ?_⟩
  · intro k hk
    show (db.bepFileLocation.retain _).get k = _
    rw [AssocMap.get_retain]
    cases db.bepFileLocation.get k <;> simp [hk]
  · intro k hk
    show (db.bepLocalCache.retain _).get k = _
    rw [AssocMap.get_retain]
    cases db.bepLocalCache.get k <;> simp [hk]

/-- and new locations are put there. -/
theorem relocated_insertLocations {dest : FileKey} (locations : List (String × String)) :
    ∀ {db db' : Database}, BepState.insertLocations dest locations db = .ok db' →
      Relocated dest db db' := by
  induction locations with
  | nil =>
      intro db db' h
      obtain rfl := Except.ok.inj h
      exact ⟨rfl, rfl, rfl, rfl, fun _ _ => rfl, fun _ _ => rfl⟩
  | cons l locations ih =>
      intro db db' h
      obtain ⟨db₁, hinsert, hrest⟩ := Rust.bind_eq_ok.mp h
      unfold Database.insertLocation at hinsert
      split_ifs at hinsert
      obtain rfl := Except.ok.inj hinsert
      have hlater := ih hrest
      refine ⟨hlater.index, hlater.files, hlater.blocks, hlater.versions, ?_, hlater.cache⟩
      intro k hk
      rw [hlater.locations k hk, AssocMap.get_entryOrInsert, if_neg]
      rintro rfl
      exact hk rfl

/-- That is of no concern to another file. -/
theorem Relocated.sameRowsAt {dest key : FileKey} {db db' : Database} (h : Relocated dest db db')
    (hother : key ≠ dest) : SameRowsAt key db db' where
  file := by rw [h.files]
  locations := by
    rintro l rfl
    exact h.locations l hother
  cache := h.cache key hother
  blocks b _ := by rw [h.blocks]
  versions v _ := by rw [h.versions]

/-- A file that moved may be stored elsewhere then. -/
theorem filesMoved_of_relocated {moves : FileKey → FileKey → Prop} {db₁ db₂ : Database}
    {dest : FileKey} (h : FilesMoved moves db db₁) (hmoves : ∃ k, moves k dest)
    (h' : Relocated dest db₁ db₂) : FilesMoved moves db db₂ where
  carried k d hkd := by
    obtain ⟨row, sequence, hrow, hdest⟩ := (h.carried k d hkd).file
    refine ⟨⟨row, sequence, hrow, ?_⟩, ?_, ?_⟩
    · rw [h'.files, hdest]
    · intro b hb
      rw [h'.blocks, (h.carried k d hkd).blocks b hb]
    · intro v hv
      rw [h'.versions, (h.carried k d hkd).versions v hv]
  gone k d hkd := by rw [h'.files, h.gone k d hkd]
  others k hsource hdest := by
    obtain ⟨source, hsource'⟩ := hmoves
    have hne : k ≠ dest := by
      rintro rfl
      exact hdest source hsource'
    exact (h.others k hsource hdest).trans (h'.sameRowsAt hne)

/-- **What `mv_file_info` writes is one move**, when the new name is free. -/
theorem filesMoved_of_moveRows {fileLocations : List FileLocation} {sequence : Int64}
    (h : moveRows db key name fileLocations sequence = .ok db')
    (hkey : db.bepFileInfo.contains key = true)
    (hfree : db.bepFileInfo.contains { key with name := name } = false) :
    FilesMoved (fun k d => k = key ∧ d = { key with name := name }) db db' := by
  obtain ⟨tx, hrename, hinsert⟩ := Rust.bind_eq_ok.mp h
  have hmoved := filesMoved_of_renameFileInfo hrename hkey hfree
  have hdeleted := filesMoved_of_relocated hmoved ⟨key, rfl, rfl⟩ (relocated_delete _ tx)
  exact filesMoved_of_relocated hdeleted ⟨key, rfl, rfl⟩ (relocated_insertLocations _ hinsert)

/-- The table of indices stays. -/
theorem bepIndex_of_moveRows {fileLocations : List FileLocation} {sequence : Int64}
    (h : moveRows db key name fileLocations sequence = .ok db') :
    db'.bepIndex = db.bepIndex := by
  obtain ⟨tx, hrename, hinsert⟩ := Rust.bind_eq_ok.mp h
  refine (relocated_insertLocations _ hinsert).index.trans ?_
  show tx.bepIndex = db.bepIndex
  unfold Database.renameFileInfo at hrename
  dsimp only at hrename
  split at hrename
  · obtain rfl := Except.ok.inj hrename
    rfl
  · split_ifs at hrename
    split at hrename
    · obtain rfl := Except.ok.inj hrename
      rfl
    · cases hrename

end OneFile

/-! ## The loop -/

section Loop

variable {ν : Type} {fs fs' : GrizolFS ν}

/-- `mv_file_info` returns when its rows can be written. -/
theorem mvFileInfo_eq_ok {s s' : BepState} {folder : String} {deviceId : DeviceId}
    {file : FileInfo} {destName : String} {fileLocations : List FileLocation}
    (h : (BepState.mvFileInfo folder deviceId file destName fileLocations).run s = .ok () s') :
    ∃ sequence, moveRows s.db ⟨folder, deviceId, file.name⟩ destName fileLocations sequence =
      .ok s'.db := by
  cases hnext : nextSequence s with
  | none =>
      obtain ⟨e, s₁, hrun, -⟩ := @mvFileInfo_of_none s folder deviceId file destName fileLocations
        hnext
      rw [hrun] at h
      cases h
  | some sequence =>
      obtain ⟨n, hrun⟩ := @mvFileInfo_of_some s folder deviceId file destName fileLocations _ hnext
      rw [hrun] at h
      cases hmove : moveRows s.db ⟨folder, deviceId, file.name⟩ destName fileLocations
          sequence with
      | error e =>
          rw [hmove] at h
          cases h
      | ok tx =>
          rw [hmove] at h
          cases h
          exact ⟨sequence, hmove⟩

/-- One turn of the loop, when all copies ran. -/
theorem renameMem_moveRows {file : GrizolFileInfo} {destName : String} {outcomes : RenameOutcomes}
    (h : (GrizolFS.renameMem file destName outcomes).run fs = .ok () fs')
    (hcopies : (copies fs file destName outcomes).length = file.fileLocations.length) :
    ∃ sequence, moveRows fs.state.db (fileKey fs file) destName
      (file.fileLocations.map (movedLocation fs.config file.folder destName)) sequence =
        .ok fs'.state.db := by
  rw [GrizolFS.renameMem, EStateM.run_bind, RustM.run_getThe] at h
  dsimp only at h
  rw [EStateM.run_bind, fs_logCommands_run] at h
  dsimp only at h
  rcases cpRemoteToRemote_eq fs.config file.folder destName outcomes.rclone file.fileLocations with
    ⟨-, hcopied, -⟩ | ⟨hstopped, -⟩
  · rw [hcopied] at h
    dsimp only at h
    obtain ⟨_, fs₁, hmove, h⟩ := RustM.run_bind_eq_ok.mp h
    obtain ⟨_, fs₂, hlog, h⟩ := RustM.run_bind_eq_ok.mp h
    obtain ⟨_, fs₃, hdelete, h⟩ := RustM.run_bind_eq_ok.mp h
    cases h
    obtain ⟨-, rfl⟩ := RustM.run_lift_eq_ok.mp hdelete
    rw [fs_logCommands_run] at hlog
    cases hlog
    rw [fs_onState_run] at hmove
    cases hrun : (BepState.mvFileInfo file.folder fs.config.localDeviceId file.fileInfo destName
        (file.fileLocations.map (movedLocation fs.config file.folder destName))).run fs.state with
    | error e s =>
        rw [hrun] at hmove
        cases hmove
    | ok _ s =>
        rw [hrun] at hmove
        cases hmove
        exact mvFileInfo_eq_ok hrun
  · exact absurd hcopies hstopped

variable {origNamePrefix destNamePrefix : String} {outcomes : ℕ → RenameOutcomes}

/-- The loop goes on after a file that was handled. -/
theorem renameEach_cons_eq_ok {n : ℕ} {node : FsNode} {nodes : List FsNode}
    (h : (GrizolFS.renameEach origNamePrefix destNamePrefix outcomes n (node :: nodes)).run fs =
      .ok () fs') :
    ∃ file fs₁, node.fileType = .file file ∧
      origNamePrefix.toList <+: file.fileInfo.name.toList ∧
      (GrizolFS.renameMem file (GrizolFS.destFileName origNamePrefix destNamePrefix
        file.fileInfo.name) (outcomes n)).run fs = .ok () fs₁ ∧
      (GrizolFS.renameEach origNamePrefix destNamePrefix outcomes (n + 1) nodes).run fs₁ =
        .ok () fs' := by
  unfold GrizolFS.renameEach at h
  cases hnode : node.fileType with
  | folder folder =>
      rw [hnode] at h
      cases h
  | file file =>
      rw [hnode] at h
      dsimp only at h
      obtain ⟨_, fs₁, hassert, h⟩ := RustM.run_bind_eq_ok.mp h
      obtain ⟨_, fs₂, hrename, hrest⟩ := RustM.run_bind_eq_ok.mp h
      obtain ⟨hasserted, rfl⟩ := RustM.run_lift_eq_ok.mp hassert
      refine ⟨file, fs₂, rfl, ?_, hrename, hrest⟩
      by_contra hnot
      rw [Rust.assert, if_neg hnot] at hasserted
      cases hasserted

/-- The rename of a file leaves the configuration. -/
theorem config_of_renameMem {file : GrizolFileInfo} {destName : String}
    {outcome : RenameOutcomes}
    (h : (GrizolFS.renameMem file destName outcome).run fs = .ok () fs') :
    fs'.config = fs.config := by
  have hconfig := renameMem_config file destName outcome fs
  rwa [afterRenameMem, h] at hconfig

/-- The files of these nodes, each with its new name in its own folder. -/
def NodeMoves (origNamePrefix destNamePrefix : String) (deviceId : DeviceId)
    (nodes : List FsNode) (key dest : FileKey) : Prop :=
  ∃ node ∈ nodes, ∃ file, node.fileType = .file file ∧
    key = ⟨file.folder, deviceId, file.fileInfo.name⟩ ∧
      dest = { key with
        name := GrizolFS.destFileName origNamePrefix destNamePrefix file.fileInfo.name }

/-- What moves is the first file, or one of the others. -/
theorem nodeMoves_cons {deviceId : DeviceId} {node : FsNode} {nodes : List FsNode}
    {file : GrizolFileInfo} (hnode : node.fileType = .file file) (key dest : FileKey) :
    NodeMoves origNamePrefix destNamePrefix deviceId (node :: nodes) key dest ↔
      (key = ⟨file.folder, deviceId, file.fileInfo.name⟩ ∧ dest = { key with
        name := GrizolFS.destFileName origNamePrefix destNamePrefix file.fileInfo.name }) ∨
      NodeMoves origNamePrefix destNamePrefix deviceId nodes key dest := by
  simp only [NodeMoves, List.exists_mem_cons_iff, hnode, GrizolFSFileType.file.injEq,
    exists_eq_left']

/-- No file comes after the loop but where one of the nodes went. -/
theorem contains_of_renameEach (nodes : List FsNode) : ∀ {n : ℕ} {fs : GrizolFS ν},
    EachRenamed CopiesToRemote origNamePrefix destNamePrefix outcomes n nodes fs →
      (GrizolFS.renameEach origNamePrefix destNamePrefix outcomes n nodes).run fs = .ok () fs' →
        ∀ k, fs'.state.db.bepFileInfo.contains k = true →
          fs.state.db.bepFileInfo.contains k = true ∨ ∃ key,
            NodeMoves origNamePrefix destNamePrefix fs.config.localDeviceId nodes key k := by
  induction nodes with
  | nil =>
      intro n fs _ h k hk
      cases h
      exact Or.inl hk
  | cons node nodes ih =>
      intro n fs hcopies h k hk
      obtain ⟨file, fs₁, hnode, hprefix, hrename, hrest⟩ := renameEach_cons_eq_ok h
      obtain ⟨hcopied, hlater⟩ := hcopies file hnode hprefix
      obtain ⟨sequence, hmove⟩ := renameMem_moveRows hrename hcopied.1
      have hmoved := moveRows_movedTo hmove
      simp only [nodeMoves_cons hnode]
      rcases ih (hlater fs₁ hrename) hrest k hk with hbefore | ⟨key, hkey⟩
      · by_cases hrow : fs.state.db.bepFileInfo.contains (fileKey fs file) = true
        · rcases (hmoved.moved hrow k).mp hbefore with rfl | ⟨-, hold⟩
          · exact Or.inr ⟨_, Or.inl ⟨rfl, rfl⟩⟩
          · exact Or.inl hold
        · rw [hmoved.absent (by simpa using hrow)] at hbefore
          exact Or.inl hbefore
      · rw [config_of_renameMem hrename] at hkey
        exact Or.inr ⟨key, Or.inr hkey⟩

/-- A rename leaves `bep_index`. -/
theorem bepIndex_of_renameEach (nodes : List FsNode) : ∀ {n : ℕ} {fs : GrizolFS ν},
    EachRenamed CopiesToRemote origNamePrefix destNamePrefix outcomes n nodes fs →
      (GrizolFS.renameEach origNamePrefix destNamePrefix outcomes n nodes).run fs = .ok () fs' →
        fs'.state.db.bepIndex = fs.state.db.bepIndex := by
  induction nodes with
  | nil =>
      intro n fs _ h
      cases h
      rfl
  | cons node nodes ih =>
      intro n fs hcopies h
      obtain ⟨file, fs₁, hnode, hprefix, hrename, hrest⟩ := renameEach_cons_eq_ok h
      obtain ⟨hcopied, hlater⟩ := hcopies file hnode hprefix
      obtain ⟨sequence, hmove⟩ := renameMem_moveRows hrename hcopied.1
      exact (ih (hlater fs₁ hrename) hrest).trans (bepIndex_of_moveRows hmove)

/-- Names under one prefix are told apart by what they are renamed to. -/
theorem destFileName_injective {a b : String} (ha : origNamePrefix.toList <+: a.toList)
    (hb : origNamePrefix.toList <+: b.toList)
    (h : GrizolFS.destFileName origNamePrefix destNamePrefix a =
      GrizolFS.destFileName origNamePrefix destNamePrefix b) : a = b := by
  obtain ⟨rest, ha⟩ := ha
  obtain ⟨rest', hb⟩ := hb
  rw [GrizolFS.destFileName, GrizolFS.destFileName, String.append_right_inj, ← ha, ← hb,
    List.drop_left, List.drop_left, String.ofList_inj] at h
  rw [← String.ofList_toList (s := a), ← String.ofList_toList (s := b), ← ha, ← hb, h]

/-- Nodes of different files. -/
def Apart (nodes : List FsNode) : Prop :=
  nodes.Pairwise fun a b => ∀ f g, a.fileType = .file f → b.fileType = .file g →
    ¬ (f.folder = g.folder ∧ f.fileInfo.name = g.fileInfo.name)

/-- **The loop moves its files**, when they are there and where they go nothing is. -/
theorem filesMoved_of_renameEach (nodes : List FsNode) : ∀ {n : ℕ} {fs : GrizolFS ν},
    Apart nodes →
      (∀ key dest, NodeMoves origNamePrefix destNamePrefix fs.config.localDeviceId nodes key dest →
        fs.state.db.bepFileInfo.contains key = true ∧
          fs.state.db.bepFileInfo.contains dest = false) →
      (∀ node ∈ nodes, ∀ file, node.fileType = .file file →
        origNamePrefix.toList <+: file.fileInfo.name.toList) →
      EachRenamed CopiesToRemote origNamePrefix destNamePrefix outcomes n nodes fs →
      (GrizolFS.renameEach origNamePrefix destNamePrefix outcomes n nodes).run fs = .ok () fs' →
        FilesMoved (NodeMoves origNamePrefix destNamePrefix fs.config.localDeviceId nodes)
          fs.state.db fs'.state.db := by
  induction nodes with
  | nil =>
      intro n fs _ _ _ _ h
      cases h
      exact (FilesMoved.none fs'.state.db).congr fun k d => by simp [NodeMoves]
  | cons node nodes ih =>
      intro n fs hapart hrows hprefixes hcopies h
      obtain ⟨file, fs₁, hnode, hprefix, hrename, hrest⟩ := renameEach_cons_eq_ok h
      obtain ⟨hcopied, hlater⟩ := hcopies file hnode hprefix
      obtain ⟨sequence, hmove⟩ := renameMem_moveRows hrename hcopied.1
      obtain ⟨hother, hapart⟩ := List.pairwise_cons.mp hapart
      obtain ⟨-, hprefixes⟩ := List.forall_mem_cons.mp hprefixes
      simp only [nodeMoves_cons hnode] at hrows
      obtain ⟨hkey, hfree⟩ := hrows _ _ (Or.inl ⟨rfl, rfl⟩)
      have hone := filesMoved_of_moveRows hmove hkey hfree
      have hconfig := config_of_renameMem hrename
      -- the files that are still to come have nothing to do with this one
      have hne : ∀ k d k' d', (k = fileKey fs file ∧ d = { fileKey fs file with
          name := GrizolFS.destFileName origNamePrefix destNamePrefix file.fileInfo.name }) →
          NodeMoves origNamePrefix destNamePrefix fs.config.localDeviceId nodes k' d' →
            k ≠ k' ∧ k ≠ d' ∧ d ≠ k' ∧ d ≠ d' := by
        rintro k d k' d' ⟨rfl, rfl⟩ hmoves
        obtain ⟨hkey', hfree'⟩ := hrows k' d' (Or.inr hmoves)
        obtain ⟨other, hmem, g, hg, rfl, rfl⟩ := hmoves
        refine ⟨?_, ?_, ?_, ?_⟩
        · intro heq
          exact hother other hmem file g hnode hg
            ⟨congrArg FileKey.folder heq, congrArg FileKey.name heq⟩
        · intro heq
          rw [← heq] at hfree'
          exact absurd (hkey.symm.trans hfree') (by simp)
        · intro heq
          rw [← heq] at hkey'
          exact absurd (hkey'.symm.trans hfree) (by simp)
        · intro heq
          exact hother other hmem file g hnode hg ⟨congrArg FileKey.folder heq,
            destFileName_injective hprefix (hprefixes other hmem g hg)
              (congrArg FileKey.name heq)⟩
      have hsame : ∀ k, k ≠ fileKey fs file → k ≠ { fileKey fs file with
          name := GrizolFS.destFileName origNamePrefix destNamePrefix file.fileInfo.name } →
            fs₁.state.db.bepFileInfo.contains k = fs.state.db.bepFileInfo.contains k :=
        fun k hsource hdest =>
          (hone.others k (fun d hd => hsource hd.1) fun k' hk' => hdest (hk'.1 ▸ hk'.2)).contains
      have hmoved := @ih (n + 1) fs₁ hapart (by
        rw [hconfig]
        intro k d hmoves
        obtain ⟨h₁, h₂, h₃, h₄⟩ := hne _ _ k d ⟨rfl, rfl⟩ hmoves
        rw [hsame k (Ne.symm h₁) (Ne.symm h₃), hsame d (Ne.symm h₂) (Ne.symm h₄)]
        exact hrows k d (Or.inr hmoves)) hprefixes (hlater fs₁ hrename) hrest
      rw [hconfig] at hmoved
      refine (hone.trans hmoved ?_).congr fun k d => ?_
      · rintro k d k' d' ⟨rfl, rfl⟩ hmoves
        exact hne _ _ k' d' ⟨rfl, rfl⟩ hmoves
      · rw [nodeMoves_cons hnode]
        refine or_congr_left ?_
        constructor
        · rintro ⟨rfl, rfl⟩
          exact ⟨rfl, rfl⟩
        · rintro ⟨rfl, rfl⟩
          exact ⟨rfl, rfl⟩

end Loop

/-! ## The nodes below a directory -/

section Traversal

variable {m : GrizolFsMem}

/-- What is above a node that can be reached can be, too. -/
theorem reachable_of_prefix {p : List String} {x : FsNode} (h : Reachable m p x) :
    ∀ q, q <+: p → ∃ y, Reachable m q y := by
  induction h with
  | root hnode =>
      intro q hq
      rw [List.prefix_nil.mp hq]
      exact ⟨_, .root hnode⟩
  | @child path name node child hparent hchild ih =>
      intro q hq
      by_cases hself : q = path ++ [name]
      · rw [hself]
        exact ⟨child, .child hparent hchild⟩
      · refine ih q ?_
        have habove := prefix_dropLast hq hself
        rwa [List.dropLast_concat] at habove

/-- A path is not longer than there are nodes. -/
theorem length_lt_of_reachable {p : List String} {x : FsNode} (h : Reachable m p x) :
    p.length < m.tree.entries.length := by
  have hkeys : (List.range (p.length + 1)).map p.take ⊆ m.tree.keys := by
    intro q hq
    obtain ⟨i, -, rfl⟩ := List.mem_map.mp hq
    obtain ⟨y, hy⟩ := reachable_of_prefix h (p.take i) (List.take_prefix i p)
    exact AssocMap.mem_keys_iff.mpr ⟨y, get_of_reachable hy⟩
  have hnodup : ((List.range (p.length + 1)).map p.take).Nodup := by
    refine List.Nodup.map_on ?_ List.nodup_range
    intro i hi j hj heq
    have hlength := congrArg List.length heq
    rw [List.mem_range] at hi hj
    rw [List.length_take, List.length_take] at hlength
    omega
  have hlength := (hnodup.subperm hkeys).length_le
  rw [List.length_map, List.length_range, AssocMap.keys, List.length_map] at hlength
  exact hlength

/-- Only what is below is visited, -/
theorem reachable_of_mem_traversePost (depth : ℕ) : ∀ {path : List String} {node x : FsNode},
    Reachable m path node → x ∈ m.traversePost depth path node →
      ∃ rest, Reachable m (path ++ rest) x := by
  induction depth with
  | zero =>
      intro path node x hnode hx
      obtain rfl := List.mem_singleton.mp hx
      exact ⟨[], by rwa [List.append_nil]⟩
  | succ depth ih =>
      intro path node x hnode hx
      rw [GrizolFsMem.traversePost, List.mem_append, List.mem_flatMap] at hx
      rcases hx with ⟨⟨name, child⟩, hchild, hx⟩ | hx
      · obtain ⟨rest, hrest⟩ := ih (.child hnode hchild) hx
        exact ⟨name :: rest, by rwa [List.append_cons]⟩
      · obtain rfl := List.mem_singleton.mp hx
        exact ⟨[], by rwa [List.append_nil]⟩

/-- and all of it. -/
theorem mem_traversePost_of_reachable (depth : ℕ) : ∀ {path rest : List String} {node x : FsNode},
    Reachable m path node → Reachable m (path ++ rest) x → rest.length ≤ depth →
      x ∈ m.traversePost depth path node := by
  induction depth with
  | zero =>
      intro path rest node x hnode hx hdepth
      obtain rfl := List.length_eq_zero_iff.mp (Nat.le_zero.mp hdepth)
      rw [List.append_nil] at hx
      exact List.mem_singleton.mpr
        (Option.some.inj ((get_of_reachable hx).symm.trans (get_of_reachable hnode)))
  | succ depth ih =>
      intro path rest node x hnode hx hdepth
      rw [GrizolFsMem.traversePost, List.mem_append, List.mem_flatMap]
      cases rest with
      | nil =>
          rw [List.append_nil] at hx
          exact Or.inr (List.mem_singleton.mpr
            (Option.some.inj ((get_of_reachable hx).symm.trans (get_of_reachable hnode))))
      | cons name rest =>
          rw [List.append_cons] at hx
          obtain ⟨child, hchild⟩ := reachable_of_prefix hx (path ++ [name])
            (List.prefix_append _ rest)
          exact Or.inl ⟨(name, child), mem_children.mpr (get_of_reachable hchild),
            ih hchild hx (Nat.le_of_succ_le_succ hdepth)⟩

/-- Nothing is visited twice. -/
theorem nodup_traversePost
    (hunique : ∀ p p' x, Reachable m p x → Reachable m p' x → p = p') (depth : ℕ) :
    ∀ {path : List String} {node : FsNode}, Reachable m path node →
      (m.traversePost depth path node).Nodup := by
  induction depth with
  | zero => exact fun _ => List.nodup_singleton _
  | succ depth ih =>
      intro path node hnode
      rw [GrizolFsMem.traversePost, List.nodup_append]
      refine ⟨List.nodup_flatMap.mpr ⟨?_, ?_⟩, List.nodup_singleton _, ?_⟩
      · rintro ⟨name, child⟩ hchild
        exact ih (.child hnode hchild)
      · have hnames : ((m.children path).map Prod.fst).Nodup := by
          rw [children_names]
          exact nodup_childNames m.tree.nodup
        refine (List.pairwise_map.mp hnames).imp_of_mem ?_
        rintro ⟨name, child⟩ ⟨name', child'⟩ hchild hchild' hne x hx hx'
        obtain ⟨rest, hrest⟩ := reachable_of_mem_traversePost depth (.child hnode hchild) hx
        obtain ⟨rest', hrest'⟩ := reachable_of_mem_traversePost depth (.child hnode hchild') hx'
        have hpath := hunique _ _ x hrest hrest'
        rw [← List.append_cons, ← List.append_cons] at hpath
        exact hne (List.cons.inj (List.append_cancel_left hpath)).1
      · rintro x hx y hy rfl
        obtain rfl := List.mem_singleton.mp hy
        obtain ⟨⟨name, child⟩, hchild, hx⟩ := List.mem_flatMap.mp hx
        obtain ⟨rest, hrest⟩ := reachable_of_mem_traversePost depth (.child hnode hchild) hx
        have hpath := congrArg List.length (hunique _ _ x hrest hnode)
        simp only [List.length_append, List.length_cons] at hpath
        omega

end Traversal

/-! ## What is below a path -/

/-- The names that begin with a path, as names and as paths. -/
theorem exists_below_iff {path name : String} :
    (∃ rel, Below rel ∧ name = path ++ rel) ↔ Path.split path <+: Path.split name := by
  constructor
  · rintro ⟨rel, rfl | ⟨rest, rfl⟩, rfl⟩
    · rw [String.append_empty]
    · rw [← String.append_assoc, Path.split_append_slash]
      exact List.prefix_append _ _
  · intro h
    rcases Path.append_of_split_prefix h with rfl | ⟨rest, rfl⟩
    · exact ⟨"", Or.inl rfl, String.append_empty.symm⟩
    · exact ⟨"/" ++ rest, Or.inr ⟨rest, rfl⟩, String.append_assoc⟩

/-- What follows a path has the same parts after any other. -/
theorem split_append_below {rel : String} (h : Below rel) :
    ∃ parts, ∀ path, Path.split (path ++ rel) = Path.split path ++ parts := by
  rcases h with rfl | ⟨rest, rfl⟩
  · exact ⟨[], fun path => by rw [String.append_empty, List.append_nil]⟩
  · exact ⟨Path.split rest, fun path => by
      rw [← String.append_assoc, Path.split_append_slash]⟩

/-- What the parts after a path are parts of. -/
theorem exists_below_of_split {path name : String} {parts : List String}
    (h : Path.split name = Path.split path ++ parts) : ∃ rel, Below rel ∧ name = path ++ rel ∧
      ∀ other, Path.split (other ++ rel) = Path.split other ++ parts := by
  obtain ⟨rel, hrel, rfl⟩ := exists_below_iff.mpr (h ▸ List.prefix_append _ parts)
  obtain ⟨parts', hparts⟩ := split_append_below hrel
  rw [hparts] at h
  obtain rfl := List.append_cancel_left h
  exact ⟨rel, hrel, rfl, hparts⟩

/-- What is below the source is below the destination. -/
theorem destFileName_append (path dest rel : String) :
    GrizolFS.destFileName path dest (path ++ rel) = dest ++ rel := by
  rw [GrizolFS.destFileName, String.toList_append, List.drop_left, String.ofList_toList]

/-! ## The tree and the rows -/

section Tree

variable {folders : List GrizolFolder} {files : List GrizolFileInfo} {m : GrizolFsMem}

/-- What the nodes of the tree stand for. -/
theorem node_of_treeOf (hm : TreeOf folders files m) {p : List String} {x : FsNode}
    (hx : Reachable m p x) (hne : p ≠ []) :
    (∃ f ∈ folders, p = [f.folder.id] ∧ x.fileType = .folder f) ∨
      ∃ f ∈ files, p = splitPath f ∧ x.fileType = .file f := by
  have hlisted := (hm.only p x hx).resolve_left hne
  rw [listedPaths, List.mem_append, List.mem_map, List.mem_map] at hlisted
  rcases hlisted with ⟨f, hf, rfl⟩ | ⟨f, hf, rfl⟩
  · obtain ⟨serial, id, -, hget⟩ := hm.folder f hf
    obtain rfl := (hm.unique _ _ _ _ hx hget).1 rfl
    exact Or.inl ⟨f, hf, rfl, rfl⟩
  · obtain ⟨serial, id, -, hget⟩ := hm.file f hf
    obtain rfl := (hm.unique _ _ _ _ hx hget).1 rfl
    exact Or.inr ⟨f, hf, rfl, rfl⟩

/-- The file of a node. -/
theorem file_of_treeOf (hm : TreeOf folders files m) {p : List String} {x : FsNode}
    (hx : Reachable m p x) (hne : p ≠ []) {f : GrizolFileInfo} (hf : x.fileType = .file f) :
    f ∈ files ∧ splitPath f = p := by
  rcases node_of_treeOf hm hx hne with ⟨g, -, -, hg⟩ | ⟨g, hg, hpath, hfile⟩
  · rw [hg] at hf
    cases hf
  · rw [hfile] at hf
    obtain rfl := GrizolFSFileType.file.inj hf
    exact ⟨hg, hpath.symm⟩

/-- The path of a name in a directory is made of its parts. -/
theorem namePrefix_of_treeOf (hm : TreeOf folders files m) {folder : String}
    {parent : List String} {x : FsNode} (hx : Reachable m (folder :: parent) x) (name : String) :
    GrizolFS.namePrefix x name = Path.join (parent ++ [name]) ∧
      Path.split (Path.join (parent ++ [name])) = parent ++ Path.split name := by
  rw [GrizolFS.namePrefix]
  rcases node_of_treeOf hm hx (List.cons_ne_nil _ _) with ⟨f, -, hpath, hfile⟩ |
    ⟨f, -, hpath, hfile⟩
  · obtain rfl := (List.cons.inj hpath).2
    rw [hfile, List.nil_append, Path.join_singleton]
    exact ⟨rfl, rfl⟩
  · obtain rfl := (List.cons.inj hpath).2
    rw [hfile, Path.join_append (Path.split_ne_nil _) (List.cons_ne_nil _ _), Path.join_split,
      Path.join_singleton]
    exact ⟨rfl, Path.split_append_slash _ _⟩

/-- `find` returns a child that is a file of this name. -/
theorem findChild_eq_some {name : String} {x : String × FsNode} (l : List (String × FsNode)) :
    GrizolFS.findChild name l = .ok (some x) →
      x ∈ l ∧ ∃ f, x.2.fileType = .file f ∧ f.fileInfo.name = name := by
  induction l with
  | nil =>
      intro h
      cases h
  | cons c l ih =>
      obtain ⟨childName, child⟩ := c
      intro h
      rw [GrizolFS.findChild] at h
      cases hchild : child.fileType with
      | folder f =>
          rw [hchild] at h
          cases h
      | file f =>
          rw [hchild] at h
          dsimp only at h
          split_ifs at h with hname
          · obtain rfl := Option.some.inj (Except.ok.inj h)
            exact ⟨List.mem_cons_self, f, hchild, hname⟩
          · obtain ⟨hmem, hfile⟩ := ih h
            exact ⟨List.mem_cons_of_mem _ hmem, hfile⟩

/-- **What a rename works on**: the node of the name, and all that is below. -/
theorem renameTargets_eq_ok (hm : TreeOf folders files m) {request : RenameRequest}
    {origFolder destFolder : String} {origParent destParent : List String}
    (hin : RenameIn m request origFolder origParent destFolder destParent)
    {targets : GrizolFS.RenameTargets}
    (h : GrizolFS.renameTargets m request = .ok (.ok targets)) :
    ∃ f node, f ∈ files ∧ node.fileType = .file f ∧
      Reachable m (origFolder :: origParent ++ [request.origName]) node ∧
      splitPath f = origFolder :: origParent ++ [request.origName] ∧
      targets = ⟨m.traversePost m.tree.entries.length
          (origFolder :: origParent ++ [request.origName]) node,
        Path.join (origParent ++ [request.origName]),
        Path.join (destParent ++ [request.destName])⟩ := by
  obtain ⟨origNode, horig, horigIno⟩ := hin.orig
  obtain ⟨destNode, hdest, hdestIno⟩ := hin.dest
  obtain ⟨weak, hweak, hpath, hupgrade⟩ := hm.resolved _ _ horig
  obtain ⟨weak', hweak', -, hupgrade'⟩ := hm.resolved _ _ hdest
  rw [GrizolFS.renameTargets] at h
  split_ifs at h with hroot
  · cases h
  rw [← horigIno, hweak, Rust.unwrap_some, Rust.ok_bind, hupgrade, ← hdestIno, hweak'] at h
  dsimp only at h
  rw [Rust.unwrap_some, Rust.ok_bind, hupgrade', hpath] at h
  dsimp only at h
  rw [(namePrefix_of_treeOf hm horig _).1, (namePrefix_of_treeOf hm hdest _).1] at h
  obtain ⟨found, hfound, h⟩ := Rust.bind_eq_ok.mp h
  cases found with
  | none => cases Except.ok.inj h
  | some x =>
      obtain ⟨childName, node⟩ := x
      obtain rfl := Except.ok.inj (Except.ok.inj h)
      obtain ⟨hmem, f, hfile, hname⟩ := findChild_eq_some _ hfound
      have hnode : Reachable m (origFolder :: origParent ++ [childName]) node :=
        .child horig hmem
      obtain ⟨hf, hsplit⟩ := file_of_treeOf hm hnode (by simp) hfile
      -- the part of the path is the name that was asked for
      have hparts : origParent ++ Path.split request.origName = origParent ++ [childName] := by
        rw [← (namePrefix_of_treeOf hm horig request.origName).2, ← hname]
        exact (List.cons.inj hsplit).2
      obtain rfl : request.origName = childName := by
        rw [← Path.join_split request.origName, List.append_cancel_left hparts,
          Path.join_singleton]
      exact ⟨f, node, hf, hfile, hnode, hsplit, rfl⟩

variable {db : Database} {deviceId : DeviceId} {rowid : FileKey → Int64}

/-- The listed files are the rows of the device, -/
theorem contains_of_listedFile (hfiles : files.Perm (BepState.filesFuse rowid db deviceId))
    {f : GrizolFileInfo} (hf : f ∈ files) :
    db.bepFileInfo.contains ⟨f.folder, deviceId, f.fileInfo.name⟩ = true := by
  obtain ⟨key, hkey, hdevice, hpath, -⟩ := mem_filesFuse (hfiles.mem_iff.mp hf)
  have hsame : (⟨f.folder, deviceId, f.fileInfo.name⟩ : FileKey) = key :=
    keyPath_injective hdevice.symm hpath
  rwa [hsame]

/-- A listed path stands for a row. -/
theorem contains_of_listedPath (hfiles : files.Perm (BepState.filesFuse rowid db deviceId))
    {f : GrizolFileInfo} (hf : f ∈ files) {key : FileKey} (hdevice : key.device = deviceId)
    (hpath : splitPath f = keyPath key) : db.bepFileInfo.contains key = true := by
  have hsame : (⟨f.folder, deviceId, f.fileInfo.name⟩ : FileKey) = key :=
    keyPath_injective hdevice.symm hpath
  rw [← hsame]
  exact contains_of_listedFile hfiles hf

/-- and the rows are listed. -/
theorem listedFile_of_contains (hfiles : files.Perm (BepState.filesFuse rowid db deviceId))
    {key : FileKey} (hkey : db.bepFileInfo.contains key = true) (hdevice : key.device = deviceId) :
    ∃ f ∈ files, key = ⟨f.folder, deviceId, f.fileInfo.name⟩ ∧ splitPath f = keyPath key := by
  obtain ⟨f, hf, hpath⟩ := @filesFuse_of_row db deviceId rowid key hkey hdevice
  exact ⟨f, hfiles.mem_iff.mpr hf,
    (keyPath_injective (k := ⟨f.folder, deviceId, f.fileInfo.name⟩) hdevice.symm hpath).symm,
    hpath⟩

/-- What is at a path of the tree is a row, if it is neither the root nor a folder. -/
theorem contains_of_reachable (hm : TreeOf folders files m)
    (hfiles : files.Perm (BepState.filesFuse rowid db deviceId)) {p : List String} {x : FsNode}
    (hx : Reachable m p x) : p ∈ rowPaths db deviceId ∪ folderPaths := by
  by_cases hne : p = []
  · rw [hne]
    exact Or.inr (Nat.zero_le 1)
  rcases node_of_treeOf hm hx hne with ⟨f, -, rfl, -⟩ | ⟨f, hf, rfl, -⟩
  · exact Or.inr (le_refl 1)
  · exact Or.inl ⟨_, contains_of_listedFile hfiles hf, rfl, rfl⟩

/-- The rows of the tree have their parents. -/
theorem parentsStored_of_treeOf (hm : TreeOf folders files m)
    (hfiles : files.Perm (BepState.filesFuse rowid db deviceId)) : ParentsStored db deviceId := by
  rintro p ⟨key, hkey, hdevice, rfl⟩ q hq
  obtain ⟨f, hf, -, hpath⟩ := listedFile_of_contains hfiles hkey hdevice
  obtain ⟨serial, id, -, hnode⟩ := hm.file f hf
  rw [hpath] at hnode
  obtain ⟨y, hy⟩ := reachable_of_prefix hnode q hq
  exact contains_of_reachable hm hfiles hy

end Tree

/-! ## The subtree -/

section Subtree

variable {folders : List GrizolFolder} {files : List GrizolFileInfo} {m : GrizolFsMem}
  {db : Database} {deviceId : DeviceId} {rowid : FileKey → Int64}

/-- Where a subtree goes nothing is, when nothing is at its new path. -/
theorem subtree_free (hm : TreeOf folders files m)
    (hfiles : files.Perm (BepState.filesFuse rowid db deviceId)) {paths : GrizolFS.RenamePaths}
    (hfree : ∀ x, ¬ Reachable m (paths.destFolder :: Path.split paths.destName) x)
    {rel : String} (hrel : Below rel) :
    db.bepFileInfo.contains ⟨paths.destFolder, deviceId, paths.destName ++ rel⟩ = false := by
  rw [← Bool.not_eq_true]
  intro hrow
  obtain ⟨f, hf, -, hpath⟩ := listedFile_of_contains hfiles hrow rfl
  obtain ⟨serial, id, -, hnode⟩ := hm.file f hf
  obtain ⟨parts, hparts⟩ := split_append_below hrel
  rw [hpath, keyPath, hparts] at hnode
  obtain ⟨x, hx⟩ := reachable_of_prefix hnode (paths.destFolder :: Path.split paths.destName)
    (List.prefix_append (paths.destFolder :: Path.split paths.destName) parts)
  exact hfree x hx

/-- The nodes below a path are apart, as they are at different places. -/
theorem apart_traversePost (hm : TreeOf folders files m) {path : List String} (hne : path ≠ [])
    {node : FsNode} (hnode : Reachable m path node) (depth : ℕ) :
    Apart (m.traversePost depth path node) := by
  have hnodup := nodup_traversePost (fun p p' x hx hx' => (hm.unique p p' x x hx hx').2 rfl)
    depth hnode
  refine hnodup.imp_of_mem ?_
  rintro x y hx hy hxy f g hf hg ⟨hfolder, hname⟩
  obtain ⟨rest, hrest⟩ := reachable_of_mem_traversePost depth hnode hx
  obtain ⟨rest', hrest'⟩ := reachable_of_mem_traversePost depth hnode hy
  obtain ⟨-, hpath⟩ := file_of_treeOf hm hrest (by simp [hne]) hf
  obtain ⟨-, hpath'⟩ := file_of_treeOf hm hrest' (by simp [hne]) hg
  have hsame : splitPath f = splitPath g := by rw [splitPath, splitPath, hfolder, hname]
  exact hxy ((hm.unique _ _ x y hrest hrest').1 (by rw [← hpath, ← hpath', hsame]))

/-- The files a rename visits are those below the path, in its folder. -/
theorem mem_subtree_iff (hm : TreeOf folders files m) {folder path : String} {node : FsNode}
    (hnode : Reachable m (folder :: Path.split path) node) {f : GrizolFileInfo} :
    (∃ x ∈ m.traversePost m.tree.entries.length (folder :: Path.split path) node,
      x.fileType = .file f) ↔
      f ∈ files ∧ f.folder = folder ∧ ∃ rel, Below rel ∧ f.fileInfo.name = path ++ rel := by
  rw [exists_below_iff]
  constructor
  · rintro ⟨x, hx, hfile⟩
    obtain ⟨rest, hrest⟩ := reachable_of_mem_traversePost _ hnode hx
    obtain ⟨hf, hpath⟩ := file_of_treeOf hm hrest (by simp) hfile
    obtain ⟨hfolder, hname⟩ := List.cons.inj hpath
    exact ⟨hf, hfolder, hname ▸ List.prefix_append _ rest⟩
  · rintro ⟨hf, rfl, rest, hname⟩
    obtain ⟨serial, id, -, hget⟩ := hm.file f hf
    have hpath : splitPath f = f.folder :: Path.split path ++ rest := by
      rw [splitPath, ← hname, List.cons_append]
    rw [hpath] at hget
    refine ⟨_, mem_traversePost_of_reachable _ hnode hget ?_, rfl⟩
    have hlength := length_lt_of_reachable hget
    rw [List.length_append] at hlength
    omega

/-- **The loop moves the subtree**, though within its folder. -/
theorem nodeMoves_iff_subtreeMoves (hm : TreeOf folders files m)
    (hfiles : files.Perm (BepState.filesFuse rowid db deviceId)) {folder path dest : String}
    {node : FsNode} (hnode : Reachable m (folder :: Path.split path) node) (k d : FileKey) :
    SubtreeMoves db deviceId ⟨folder, path, folder, dest⟩ k d ↔
      NodeMoves path dest deviceId
        (m.traversePost m.tree.entries.length (folder :: Path.split path) node) k d := by
  constructor
  · rintro ⟨hrow, rel, hrel, rfl, rfl⟩
    obtain ⟨f, hf, hkey, -⟩ := listedFile_of_contains hfiles hrow rfl
    have hname : path ++ rel = f.fileInfo.name := congrArg FileKey.name hkey
    have hfolder : folder = f.folder := congrArg FileKey.folder hkey
    obtain ⟨x, hx, hfile⟩ := (mem_subtree_iff hm hnode).mpr
      ⟨hf, hfolder.symm, rel, hrel, hname.symm⟩
    refine ⟨x, hx, f, hfile, hkey, ?_⟩
    rw [← hname, destFileName_append]
  · rintro ⟨x, hx, f, hfile, rfl, rfl⟩
    obtain ⟨hf, rfl, rel, hrel, hname⟩ := (mem_subtree_iff hm hnode).mp ⟨x, hx, hfile⟩
    refine ⟨contains_of_listedFile hfiles hf, rel, hrel, by rw [hname], ?_⟩
    rw [hname, destFileName_append]

end Subtree

/-! ## The rows after a move -/

section Rows

variable {db db' : Database} {deviceId : DeviceId} {moves : FileKey → FileKey → Prop}

/-- The rows there are. -/
theorem contains_of_filesMoved (h : FilesMoved moves db db') (k : FileKey) :
    db'.bepFileInfo.contains k = true ↔
      (∃ key, moves key k) ∨ (∀ d, ¬ moves k d) ∧ db.bepFileInfo.contains k = true := by
  by_cases hdest : ∃ key, moves key k
  · obtain ⟨key, hmoves⟩ := hdest
    exact iff_of_true (h.carried key k hmoves).contains (Or.inl ⟨key, hmoves⟩)
  · rw [or_iff_right hdest]
    by_cases hsource : ∃ d, moves k d
    · obtain ⟨d, hmoves⟩ := hsource
      refine iff_of_false ?_ fun hnot => hnot.1 d hmoves
      rw [h.gone k d hmoves]
      exact Bool.false_ne_true
    · rw [not_exists] at hsource hdest
      rw [(h.others k hsource hdest).contains, and_iff_right hsource]

/-- **A subtree that moved has its parents**, when it did not go below itself. -/
theorem parentsStored_of_subtreeMoved {paths : GrizolFS.RenamePaths} {destParent : List String}
    (hstored : ParentsStored db deviceId)
    (h : FilesMoved (SubtreeMoves db deviceId paths) db db')
    (hdest : ∀ q, q <+: paths.destFolder :: destParent → q ∈ rowPaths db deviceId ∪ folderPaths)
    {destName : String} (hname : Path.split paths.destName = destParent ++ [destName])
    (hapart : ¬ (paths.origFolder :: Path.split paths.origName) <+:
      paths.destFolder :: destParent) : ParentsStored db' deviceId := by
  -- a row above which the subtree is not stays where it is
  have hstays : ∀ q, q ∈ rowPaths db deviceId ∪ folderPaths →
      ¬ (paths.origFolder :: Path.split paths.origName) <+: q →
        q ∈ rowPaths db' deviceId ∪ folderPaths := by
    rintro q (⟨key, hkey, hdevice, rfl⟩ | hfolder) hnot
    · refine Or.inl ⟨key, (contains_of_filesMoved h key).mpr (Or.inr ⟨?_, hkey⟩), hdevice, rfl⟩
      rintro d ⟨-, rel, hrel, rfl, -⟩
      obtain ⟨parts, hparts⟩ := split_append_below hrel
      apply hnot
      rw [keyPath, hparts]
      exact List.prefix_append (paths.origFolder :: Path.split paths.origName) parts
    · exact Or.inr hfolder
  rintro p ⟨key, hkey, hdevice, rfl⟩ q hq
  rcases (contains_of_filesMoved h key).mp hkey with ⟨orig, hmoves⟩ | ⟨hsource, hrow⟩
  · obtain ⟨horig, rel, hrel, rfl, rfl⟩ := hmoves
    obtain ⟨parts, hparts⟩ := split_append_below hrel
    have hmoved : keyPath ⟨paths.destFolder, deviceId, paths.destName ++ rel⟩ =
        (paths.destFolder :: destParent ++ [destName]) ++ parts := by
      rw [keyPath, hparts, hname]
      rfl
    by_cases hparent : q <+: paths.destFolder :: destParent
    · exact hstays q (hdest q hparent) fun hbelow => hapart (hbelow.trans hparent)
    -- at the new path or below it, where something was at the same place below the old one
    obtain ⟨parts', rfl⟩ : (paths.destFolder :: destParent ++ [destName]) <+: q := by
      rcases List.prefix_or_prefix_of_prefix (hmoved ▸ hq) (List.prefix_append _ parts) with
        habove | hbelow
      · rcases List.prefix_concat_iff.mp habove with rfl | hnear
        · exact List.prefix_refl _
        · exact absurd hnear hparent
      · exact hbelow
    rw [hmoved, List.prefix_append_right_inj] at hq
    have hold : keyPath ⟨paths.origFolder, deviceId, paths.origName ++ rel⟩ =
        (paths.origFolder :: Path.split paths.origName) ++ parts := by
      rw [keyPath, hparts]
      rfl
    have hplace := hstored _ ⟨_, horig, rfl, rfl⟩
      ((paths.origFolder :: Path.split paths.origName) ++ parts')
      (hold ▸ (List.prefix_append_right_inj _).mpr hq)
    rcases hplace with ⟨⟨folder, device, name⟩, hrow, rfl, hpath⟩ | hshort
    · obtain ⟨rfl, hsplit⟩ := List.cons.inj hpath
      obtain ⟨rel', hrel', rfl, hother⟩ := exists_below_of_split hsplit
      refine Or.inl ⟨⟨paths.destFolder, device, paths.destName ++ rel'⟩,
        (contains_of_filesMoved h _).mpr (Or.inl ⟨_, hrow, rel', hrel', rfl, rfl⟩), rfl, ?_⟩
      rw [keyPath, hother, hname]
      rfl
    · have hpos := List.length_pos_of_ne_nil (Path.split_ne_nil paths.origName)
      have hlength : ((paths.origFolder :: Path.split paths.origName) ++ parts').length ≤ 1 :=
        hshort
      rw [List.length_append, List.length_cons] at hlength
      omega
  · apply hstays q (hstored (keyPath key) ⟨key, hrow, hdevice, rfl⟩ q hq)
    intro hbelow
    obtain ⟨hfolder, hprefix⟩ := List.cons_prefix_cons.mp (hbelow.trans hq)
    obtain ⟨rel, hrel, hrelName⟩ := exists_below_iff.mpr hprefix
    refine hsource ⟨paths.destFolder, deviceId, paths.destName ++ rel⟩ ⟨hrow, rel, hrel, ?_, rfl⟩
    rw [hfolder, ← hrelName, ← hdevice]

end Rows

/-! ## The refresh after it -/

section Shown

variable {db : Database} {deviceId : DeviceId} {rowid : FileKey → Int64}
  {folders : List GrizolFolder} {files : List GrizolFileInfo}

/-- The lists of a database have its keys. -/
theorem databaseRows_of_queries {bepFolders : BepFolders db.bepIndex}
    (hfolders : folders.Perm (BepState.topFoldersFuse bepFolders deviceId))
    (hfiles : files.Perm (BepState.filesFuse rowid db deviceId))
    (hids : (files.map GrizolFileInfo.id).Nodup) : DatabaseRows folders files where
  folderIds := (hfolders.map _).nodup_iff.mpr
    (bepFolders.primaryKey.sublist (List.filter_sublist.map _))
  folderRows := (hfolders.map _).nodup_iff.mpr
    (bepFolders.rowIds.sublist (List.filter_sublist.map _))
  names := (hfiles.map _).nodup_iff.mpr filesFuse_names
  fileRows := hids
  inFolder f hf := by
    obtain ⟨r, hr, hid⟩ := topFolder_of_row bepFolders (contains_of_listedFile hfiles hf) rfl
    exact ⟨r, hfolders.mem_iff.mpr hr, hid⟩

/-- Every tree that refreshes leave has its root. -/
theorem rooted_of_run {earlier : List Refresh} {m : GrizolFsMem}
    (hm : Transition.run afterRefresh .new earlier = some m) : Rooted m :=
  Transition.invariant_run Rooted rooted_new (fun _ _ _ hm hstep => rooted_afterRefresh hstep hm) hm

/-- **A refresh shows what moved within its folder.** -/
theorem shownMoved_of_filesMoved {db db' : Database} {moves : FileKey → FileKey → Prop}
    (h : FilesMoved moves db db')
    (hfolder : ∀ key dest, moves key dest → key.folder = dest.folder ∧ key.device = deviceId ∧
      dest.device = deviceId) : ShownMoved moves db' deviceId := by
  intro bepFolders rowid folders files hfolders hfiles hids earlier m fuel m' hm hrun key dest
    hmoves
  obtain ⟨hsame, hdevice, hdevice'⟩ := hfolder key dest hmoves
  have hrows := databaseRows_of_queries hfolders hfiles hids
  have hended : afterRefresh m ⟨folders, files, hrows, fuel⟩ = some m' :=
    afterRefresh_eq_some.mpr hrun
  obtain ⟨hparents, m₁, -, -, hloaded, hloaded'⟩ := loaded_of_ended hrows hrun
  have hrooted : Rooted m' := rooted_afterRefresh hended (rooted_of_run hm)
  have hnew : db'.bepFileInfo.contains dest = true := (h.carried key dest hmoves).contains
  constructor
  · obtain ⟨f, hf, -, hpath⟩ := listedFile_of_contains hfiles hnew hdevice'
    obtain ⟨id, serial, -, hget, -⟩ := hloaded'.file f hf
    refine ⟨_, f, hf, hpath ▸ reachable_of_prefixes _ (contains_of_listed hrooted hparents hloaded
      hloaded' (List.mem_append_right _ (List.mem_map_of_mem hf))) hget, rfl⟩
  · intro node hnode
    have hgone := h.gone key dest hmoves
    rcases path_of_loaded hloaded hloaded' (get_of_reachable hnode) with ⟨f, -, hpath⟩ |
      ⟨f, hf, hpath⟩ | ⟨hnone, -⟩
    · exact absurd ((List.cons.inj hpath).2).symm (Path.split_ne_nil key.name)
    · rw [contains_of_listedPath hfiles hf hdevice hpath] at hgone
      cases hgone
    · obtain ⟨f, hf, hid⟩ := topFolder_of_row bepFolders hnew hdevice'
      refine hnone ⟨f, hfolders.mem_iff.mpr hf, ?_⟩
      rw [keyPath, hsame, ← hid]
      exact List.prefix_append [f.folder.id] _

end Shown

/-! ## A rename in memory -/

section Rename

variable {ν : Type} {fs fs' : GrizolFS ν} {m : GrizolFsMem} {request : RenameRequest}
  {outcomes : ℕ → RenameOutcomes} {origFolder destFolder : String}
  {origParent destParent : List String}

/-- A call that replies ok has run its loop. -/
theorem renameMemCall_eq_ok
    (h : (GrizolFS.renameMemCall m request outcomes).run fs = .ok (.ok ()) fs') :
    ∃ targets, GrizolFS.renameTargets m request = .ok (.ok targets) ∧
      (GrizolFS.renameEach targets.origNamePrefix targets.destNamePrefix outcomes 0
        targets.nodes).run fs = .ok () fs' := by
  rw [GrizolFS.renameMemCall] at h
  obtain ⟨found, fs₁, hfound, h⟩ := RustM.run_bind_eq_ok.mp h
  obtain ⟨htargets, rfl⟩ := RustM.run_lift_eq_ok.mp hfound
  cases found with
  | error e => cases h
  | ok targets =>
      obtain ⟨_, fs₂, heach, h⟩ := RustM.run_bind_eq_ok.mp h
      cases h
      exact ⟨targets, htargets, heach⟩

/-- **A rename in memory moves the subtree if and only if it stays in its folder**, and does not
go below itself. -/
theorem subtreeMoved_iff (htree : TreeMatches fs.state.db fs.config.localDeviceId m)
    (hin : RenameIn m request origFolder origParent destFolder destParent)
    (hcopies : ∀ targets, GrizolFS.renameTargets m request = .ok (.ok targets) →
      EachRenamed CopiesToRemote targets.origNamePrefix targets.destNamePrefix outcomes 0
        targets.nodes fs)
    (hok : (GrizolFS.renameMemCall m request outcomes).run fs = .ok (.ok ()) fs') :
    SubtreeMoved fs.config.localDeviceId
        (renamedPaths request origFolder origParent destFolder destParent)
        fs.state.db fs'.state.db ↔
      origFolder = destFolder ∧
        ¬ (origFolder :: origParent ++ [request.origName]) <+: destFolder :: destParent := by
  obtain ⟨bepFolders, rowid, folders, files, hfolders, hfiles, hm⟩ := htree
  obtain ⟨targets, htargets, heach⟩ := renameMemCall_eq_ok hok
  have hcopied := hcopies targets htargets
  obtain ⟨f, node, hf, hfile, hnode, hpath, rfl⟩ := renameTargets_eq_ok hm hin htargets
  dsimp only at heach hcopied
  obtain ⟨destNode, hdest, -⟩ := hin.dest
  have horigSplit : Path.split (Path.join (origParent ++ [request.origName])) =
      origParent ++ [request.origName] := by
    have hname : Path.split f.fileInfo.name = origParent ++ [request.origName] :=
      (List.cons.inj hpath).2
    rw [← hname, Path.join_split]
  have hdestSplit : Path.split (Path.join (destParent ++ [request.destName])) =
      destParent ++ [request.destName] := by
    rw [(namePrefix_of_treeOf hm hdest request.destName).2, Path.split_of_not_mem hin.name]
  have horig : (origFolder :: origParent ++ [request.origName]) =
      origFolder :: Path.split (Path.join (origParent ++ [request.origName])) := by
    rw [horigSplit, List.cons_append]
  rw [horig] at hpath hnode hcopied heach ⊢
  have hfree : ∀ x, ¬ Reachable m ((renamedPaths request origFolder origParent destFolder
      destParent).destFolder :: Path.split (renamedPaths request origFolder origParent destFolder
      destParent).destName) x := by
    intro x hx
    rw [renamedPaths, hdestSplit] at hx
    exact hin.free x hx
  constructor
  · rintro ⟨hrows, hends, -⟩
    have hroot : SubtreeMoves fs.state.db fs.config.localDeviceId
        (renamedPaths request origFolder origParent destFolder destParent)
        ⟨origFolder, fs.config.localDeviceId, Path.join (origParent ++ [request.origName])⟩
        ⟨destFolder, fs.config.localDeviceId, Path.join (destParent ++ [request.destName])⟩ := by
      refine ⟨?_, "", Or.inl rfl, ?_, ?_⟩
      · exact contains_of_listedPath hfiles hf rfl hpath
      · rw [String.append_empty, renamedPaths]
      · rw [String.append_empty, renamedPaths]
    have hnew := (hrows.carried _ _ hroot).contains
    have hgone := hrows.gone _ _ hroot
    constructor
    · rcases contains_of_renameEach _ hcopied heach _ hnew with
        hold | ⟨key, x, hx, g, hg, rfl, hkey⟩
      · have hnone := subtree_free hm hfiles hfree (Or.inl rfl)
        rw [String.append_empty, renamedPaths, hold] at hnone
        cases hnone
      · obtain ⟨-, hfolder, -⟩ := (mem_subtree_iff hm hnode).mp ⟨x, hx, hg⟩
        exact hfolder.symm.trans (congrArg FileKey.folder hkey).symm
    · intro hbelow
      have hindex := bepIndex_of_renameEach _ hcopied heach
      obtain ⟨hlisted, -⟩ := hends (hindex ▸ bepFolders) (fun _ => 0) _ _ (List.Perm.refl _)
        (List.Perm.refl _)
      obtain ⟨g, hg, hgpath⟩ := filesFuse_of_row hnew rfl
      have habove := hlisted g hg
        (origFolder :: Path.split (Path.join (origParent ++ [request.origName])))
        (List.cons_ne_nil _ _) (by
          rw [hgpath, keyPath, hdestSplit]
          exact hbelow.trans (List.prefix_append (destFolder :: destParent) [request.destName]))
      rw [listedPaths, List.mem_append, List.mem_map, List.mem_map] at habove
      rcases habove with ⟨k, -, hk⟩ | ⟨k, hk, hkpath⟩
      · exact Path.split_ne_nil _ (List.cons.inj hk).2.symm
      · have hrow : fs'.state.db.bepFileInfo.contains ⟨origFolder, fs.config.localDeviceId,
            Path.join (origParent ++ [request.origName])⟩ = true :=
          contains_of_listedPath (List.Perm.refl _) hk rfl hkpath
        rw [hgone] at hrow
        cases hrow
  · rintro ⟨rfl, hapart⟩
    have hsame : ∀ k d, SubtreeMoves fs.state.db fs.config.localDeviceId
        (renamedPaths request origFolder origParent origFolder destParent) k d ↔ _ :=
      nodeMoves_iff_subtreeMoves hm hfiles hnode
    have hrows : FilesMoved (SubtreeMoves fs.state.db fs.config.localDeviceId
        (renamedPaths request origFolder origParent origFolder destParent))
        fs.state.db fs'.state.db := by
      refine (filesMoved_of_renameEach _ (apart_traversePost hm (List.cons_ne_nil _ _) hnode _)
        ?_ ?_ hcopied heach).congr hsame
      · intro key dest hmoves
        obtain ⟨hrow, rel, hrel, rfl, rfl⟩ := (hsame key dest).mpr hmoves
        exact ⟨hrow, subtree_free hm hfiles hfree hrel⟩
      · intro x hx g hg
        obtain ⟨-, -, rel, -, hname⟩ := (mem_subtree_iff hm hnode).mp ⟨x, hx, hg⟩
        rw [hname, String.toList_append]
        exact List.prefix_append _ _
    refine ⟨hrows, refreshEnds_of_parentsStored ?_, shownMoved_of_filesMoved hrows ?_⟩
    · refine parentsStored_of_subtreeMoved (parentsStored_of_treeOf hm hfiles) hrows ?_ hdestSplit
        hapart
      intro q hq
      obtain ⟨y, hy⟩ := reachable_of_prefix hdest q hq
      exact contains_of_reachable hm hfiles hy
    · rintro key dest ⟨-, rel, -, rfl, rfl⟩
      exact ⟨rfl, rfl, rfl⟩

end Rename

/-! ## Out of its folder -/

section Example

/-- A device with two folders, and a directory with a file in the first. -/
def twoFolderNode : GrizolFS Unit where
  config := sharingNode.config
  readCache := ⟨"cache", 10⟩
  storageBackends := ["gcs"]
  state := RustM.endState <| EStateM.run
    (do
      BepState.insertFileInfo "default" thisDevice [parentDirectory, nestedFile]
      BepState.updateFileLocations "default" thisDevice "d/f" [("gcs", objectPath "d/f")])
    { sharingNode.state with db := sharingNode.state.db.insertIndex "other" thisDevice }
  copied := .empty

/-- Its folders, -/
def folderPair : List GrizolFolder := [⟨{ id := "default" }, 1⟩, ⟨{ id := "other" }, 2⟩]

/-- its files, as they are queried, -/
def twoFolderFiles : List GrizolFileInfo :=
  BepState.filesFuse (fun key => if key.name = "d" then 1 else 2) twoFolderNode.state.db thisDevice

/-- and the tree of a refresh. -/
def twoFolderTree : GrizolFsMem :=
  (refreshFoldersFiles 2 folderPair twoFolderFiles .new).toOption.getD .new

/-- Every command succeeds. -/
def everyCommandSucceeds : RenameOutcomes where
  rclone := fun _ => .ok ⟨true, []⟩
  copy := fun _ => .exits true
  delete := fun _ => .exits true

/-- Where every command succeeds the copies do. -/
theorem copiesToRemote_of_success (fs : GrizolFS Unit) (file : GrizolFileInfo) (dest : String) :
    CopiesToRemote fs file dest everyCommandSucceeds := by
  rw [CopiesToRemote, NoCopyFails, copies]
  induction file.fileLocations with
  | nil => exact ⟨rfl, by simp [GrizolFS.copiesRan]⟩
  | cons l locations ih =>
      obtain ⟨location, ⟨storageBackend⟩⟩ := l
      obtain ⟨hlength, hsuccess⟩ := ih
      simp only [GrizolFS.copiesRan, everyCommandSucceeds] at hlength hsuccess ⊢
      exact ⟨congrArg Nat.succ hlength, List.forall_mem_cons.mpr ⟨rfl, hsuccess⟩⟩

/-- What always holds holds along the loop. -/
theorem eachRenamed_of_forall {ν : Type}
    {P : GrizolFS ν → GrizolFileInfo → String → RenameOutcomes → Prop}
    {origNamePrefix destNamePrefix : String} {outcomes : ℕ → RenameOutcomes}
    (h : ∀ n fs file dest, P fs file dest (outcomes n)) (nodes : List FsNode) : ∀ n fs,
      EachRenamed P origNamePrefix destNamePrefix outcomes n nodes fs := by
  induction nodes with
  | nil => exact fun _ _ => trivial
  | cons node nodes ih => exact fun n fs file _ _ => ⟨h n fs file _, fun fs' _ => ih (n + 1) fs'⟩

/-- The two folders and their files are a listing. -/
theorem listing_folderPair : Listing folderPair twoFolderFiles := by
  refine ⟨?_, ?_, ?_, ?_, ⟨?_, ?_⟩, ?_⟩
  · decide
  · decide
  · decide +kernel
  · decide +kernel
  · decide
  · decide +kernel
  · have hinits : ∀ file ∈ twoFolderFiles, ∀ path ∈ (splitPath file).inits, path ≠ [] →
        path ∈ listedPaths folderPair twoFolderFiles := by decide +kernel
    intro file hfile path hne habove
    exact hinits file hfile path ((List.mem_inits path _).mpr habove) hne

/-- The tree is theirs. -/
theorem treeOf_folderPair : TreeOf folderPair twoFolderFiles twoFolderTree := by
  obtain ⟨fuel, m, hrun, hm⟩ := exists_treeOf listing_folderPair rooted_new (inside_new _)
  have hends : (refreshFoldersFiles 2 folderPair twoFolderFiles .new).toOption.isSome := by
    decide +kernel
  cases hrun' : refreshFoldersFiles 2 folderPair twoFolderFiles .new with
  | error e =>
      rw [hrun'] at hends
      cases hends
  | ok m' =>
      have htree : twoFolderTree = m' := by
        rw [twoFolderTree, hrun']
        rfl
      obtain ⟨m₁, hfirst, hsecond⟩ := refreshFoldersFiles_eq_ok.mp hrun
      obtain ⟨m₂, hfirst', hsecond'⟩ := refreshFoldersFiles_eq_ok.mp hrun'
      obtain rfl := Except.ok.inj (hfirst.symm.trans hfirst')
      rw [htree, ← insertFiles_unique hsecond hsecond']
      exact hm

/-- And the rows of the folders. -/
theorem folderRows_folderPair : ∃ bepFolders : BepFolders twoFolderNode.state.db.bepIndex,
    folderPair.Perm (BepState.topFoldersFuse bepFolders thisDevice) := by
  have hfolders : ∀ k ∈ twoFolderNode.state.db.bepIndex, ∃ r ∈ folderPair, r.folder.id = k.1 := by
    decide +kernel
  have hlisted : folderPair.filter (fun r => twoFolderNode.state.db.bepIndex.contains
      (r.folder.id, thisDevice)) = folderPair := by decide +kernel
  refine ⟨⟨folderPair, by decide, by decide, hfolders⟩, ?_⟩
  rw [BepState.topFoldersFuse, hlisted]

/-- So the tree matches the database. -/
theorem treeMatches_folderPair :
    TreeMatches twoFolderNode.state.db thisDevice twoFolderTree := by
  obtain ⟨bepFolders, hfolders⟩ := folderRows_folderPair
  exact ⟨bepFolders, _, folderPair, twoFolderFiles, hfolders, List.Perm.refl _,
    treeOf_folderPair⟩

/-- The directory goes to another name in a folder. -/
def moveDirectory (destParentDirIno : ℕ) : RenameRequest := ⟨11, "d", destParentDirIno, "e"⟩

/-- The rename is one in the tree. -/
theorem renameIn_folderPair {folder : GrizolFolder} (hfolder : folder ∈ folderPair) {ino : ℕ}
    (hino : topDirId folder.id = .ok ino)
    (hfree : twoFolderTree.tree.get [folder.folder.id, "e"] = none) :
    RenameIn twoFolderTree (moveDirectory ino) "default" [] folder.folder.id [] := by
  obtain ⟨serial, id, hid, hnode⟩ := treeOf_folderPair.folder ⟨{ id := "default" }, 1⟩ (by decide)
  obtain ⟨serial', id', hid', hnode'⟩ := treeOf_folderPair.folder folder hfolder
  refine ⟨⟨_, hnode, (Except.ok.inj hid).symm⟩, ⟨_, hnode', Except.ok.inj (hid'.symm.trans hino)⟩,
    (by decide : '/' ∉ "e".toList), ?_⟩
  intro node hget
  exact absurd ((get_of_reachable hget).symm.trans hfree) (Option.some_ne_none node)

/-- Moved to the other folder, the directory is renamed in its own. -/
theorem moved_out_of_folder :
    TreeMatches twoFolderNode.state.db thisDevice twoFolderTree ∧
      RenameIn twoFolderTree (moveDirectory 12) "default" [] "other" [] ∧
      (∀ targets, GrizolFS.renameTargets twoFolderTree (moveDirectory 12) = .ok (.ok targets) →
        EachRenamed CopiesToRemote targets.origNamePrefix targets.destNamePrefix
          (fun _ => everyCommandSucceeds) 0 targets.nodes twoFolderNode) ∧
      ∃ fs', (GrizolFS.renameMemCall twoFolderTree (moveDirectory 12)
          (fun _ => everyCommandSucceeds)).run twoFolderNode = .ok (.ok ()) fs' ∧
        fs'.state.db.bepFileInfo.keys.map keyPath = [["default", "e", "f"], ["default", "e"]] ∧
        ¬ SubtreeMoved thisDevice ⟨"default", "d", "other", "e"⟩ twoFolderNode.state.db
          fs'.state.db := by
  refine ⟨treeMatches_folderPair,
    @renameIn_folderPair ⟨{ id := "other" }, 2⟩ (by decide) 12 (by decide) (by decide +kernel),
    fun targets _ => eachRenamed_of_forall (fun _ => copiesToRemote_of_success) _ _ _, ?_⟩
  have hrun : (RustM.returned ((GrizolFS.renameMemCall twoFolderTree (moveDirectory 12)
      (fun _ => everyCommandSucceeds)).run twoFolderNode)).map (fun r =>
        (r.1, r.2.state.db.bepFileInfo.keys.map keyPath,
          r.2.state.db.bepFileInfo.contains ⟨"other", thisDevice, "e"⟩)) =
      some (.ok (), [["default", "e", "f"], ["default", "e"]], false) := by decide +kernel
  obtain ⟨⟨reply, fs'⟩, hreturned, hafter⟩ := Option.map_eq_some_iff.mp hrun
  obtain ⟨rfl, hkeys, hnone⟩ : reply = .ok () ∧ _ ∧ _ := by
    simpa only [Prod.mk.injEq] using hafter
  refine ⟨fs', RustM.returned_eq_some.mp hreturned, hkeys, fun hmoved => ?_⟩
  have hroot : SubtreeMoves twoFolderNode.state.db thisDevice ⟨"default", "d", "other", "e"⟩
      ⟨"default", thisDevice, "d"⟩ ⟨"other", thisDevice, "e"⟩ :=
    ⟨by decide +kernel, "", Or.inl rfl, by decide, by decide⟩
  rw [(hmoved.rows.carried _ _ hroot).contains] at hnone
  cases hnone

/-- Witness: the directory is renamed in its folder, and what is below moves with it. -/
theorem subtreeMoved_iff_renamed :
    ∃ fs', (GrizolFS.renameMemCall twoFolderTree (moveDirectory 11)
        (fun _ => everyCommandSucceeds)).run twoFolderNode = .ok (.ok ()) fs' ∧
      SubtreeMoved thisDevice (renamedPaths (moveDirectory 11) "default" [] "default" [])
        twoFolderNode.state.db fs'.state.db := by
  have hrun : (RustM.returned ((GrizolFS.renameMemCall twoFolderTree (moveDirectory 11)
      (fun _ => everyCommandSucceeds)).run twoFolderNode)).map Prod.fst = some (.ok ()) := by
    decide +kernel
  obtain ⟨⟨reply, fs'⟩, hreturned, rfl⟩ := Option.map_eq_some_iff.mp hrun
  have hok := RustM.returned_eq_some.mp hreturned
  exact ⟨fs', hok, (subtreeMoved_iff treeMatches_folderPair
    (@renameIn_folderPair ⟨{ id := "default" }, 1⟩ (by decide) 11 (by decide) (by decide +kernel))
    (fun targets _ => eachRenamed_of_forall (fun _ => copiesToRemote_of_success) _ _ _) hok).mpr
    ⟨rfl, by decide⟩⟩

end Example

end Grizol.Analysis

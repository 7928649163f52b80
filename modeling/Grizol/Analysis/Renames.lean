import Grizol.Analysis.AcceptedFiles
import Grizol.Analysis.ReadCache
import Grizol.Analysis.UploadSafety
import Grizol.Interface.Renames

/-!
# Renames and the copies on the backends

A rename goes wrong exactly when it moves the row of a file although a copy exited with
failure: the exit status of `rclone` is dropped on the way. What a rename leaves is known
from its log and its tables, so `SafeRename` is first brought to a condition on the copies
and deletions that ran, and then each call to the three ends it can have: stopped in the
copies, refused by the database, or moved.
-/

set_option autoImplicit false

namespace Grizol.Analysis

open Grizol.Library
open Grizol.Model Grizol.Model.Syncthing Grizol.Interface

variable {ν : Type}

/-! ## The commands that ran -/

/-- Where the copy of a location goes. -/
def movedLocation (config : GrizolConfig) (folder dest : String) (l : FileLocation) :
    FileLocation :=
  match l.storageBackend with
  | .remote storageBackend =>
      ⟨GrizolFS.remotePath config folder dest storageBackend, .remote storageBackend⟩

/-- `cp_remote_to_remote` returns when every copy was started, whatever their exit status. -/
theorem cpRemoteToRemote_eq (config : GrizolConfig) (folder dest : String)
    (rclone : List String → Except String Output) (locations : List FileLocation) :
    ((GrizolFS.copiesRan config folder dest rclone locations).length = locations.length ∧
      GrizolFS.cpRemoteToRemote config folder dest rclone locations =
        .ok (locations.map (movedLocation config folder dest)) ∧
      ∀ l ∈ locations, ∀ storageBackend, l.storageBackend = .remote storageBackend →
        ∃ success, (⟨GrizolFS.rcloneCommand config ["copyto", l.location,
          GrizolFS.remotePath config folder dest storageBackend], success⟩ : Ran) ∈
            GrizolFS.copiesRan config folder dest rclone locations) ∨
    ((GrizolFS.copiesRan config folder dest rclone locations).length ≠ locations.length ∧
      ∃ e, GrizolFS.cpRemoteToRemote config folder dest rclone locations = .error e) := by
  induction locations with
  | nil => exact Or.inl ⟨rfl, rfl, by simp⟩
  | cons l locations ih =>
      obtain ⟨location, ⟨storageBackend⟩⟩ := l
      simp only [GrizolFS.copiesRan, GrizolFS.cpRemoteToRemote]
      cases hrun : rclone (GrizolFS.rcloneCommand config ["copyto", location,
          GrizolFS.remotePath config folder dest storageBackend]) with
      | error e => exact Or.inr ⟨by simp, _, rfl⟩
      | ok output =>
          dsimp only
          rcases ih with ⟨hlength, hrest, hcopied⟩ | ⟨hlength, e, hrest⟩
          · refine Or.inl ⟨by rw [List.length_cons, List.length_cons, hlength], ?_, ?_⟩
            · rw [hrest]
              rfl
            · intro l' hl' b hb
              rcases List.mem_cons.mp hl' with rfl | hl'
              · obtain rfl := StorageBackend.remote.inj hb
                exact ⟨output.success, List.mem_cons_self⟩
              · obtain ⟨success, hmem⟩ := hcopied l' hl' b hb
                exact ⟨success, List.mem_cons_of_mem _ hmem⟩
          · refine Or.inr ⟨by rw [List.length_cons, List.length_cons]; omega, e, ?_⟩
            rw [hrest]
            rfl

/-- The loop over the backends returns when every command ran to its end. -/
theorem backendLoop_eq (command : String → List String) (remoteBaseDir folder name : String)
    (run : ℕ → CommandOutcome) (backends : List String) (n : ℕ) :
    ((GrizolFS.backendRan command run n backends).length = backends.length ∧
      (∃ res, GrizolFS.backendLoop remoteBaseDir folder name run n backends = .ok res) ∧
      ∀ storageBackend ∈ backends, ∃ success,
        (⟨command storageBackend, success⟩ : Ran) ∈ GrizolFS.backendRan command run n backends) ∨
    ((GrizolFS.backendRan command run n backends).length ≠ backends.length ∧
      ∃ e, GrizolFS.backendLoop remoteBaseDir folder name run n backends = .error e) := by
  induction backends generalizing n with
  | nil => exact Or.inl ⟨rfl, ⟨[], rfl⟩, by simp⟩
  | cons storageBackend backends ih =>
      simp only [GrizolFS.backendRan, GrizolFS.backendLoop]
      cases run n with
      | notStarted => exact Or.inr ⟨by simp, _, rfl⟩
      | waitFails => exact Or.inr ⟨by simp, _, rfl⟩
      | exits success =>
          dsimp only
          rcases ih (n + 1) with ⟨hlength, ⟨res, hrest⟩, hran⟩ | ⟨hlength, e, hrest⟩
          · refine Or.inl ⟨by rw [List.length_cons, List.length_cons, hlength],
              ⟨_, Rust.bind_eq_ok.mpr ⟨res, hrest, rfl⟩⟩, ?_⟩
            · intro b hb
              rcases List.mem_cons.mp hb with rfl | hb
              · exact ⟨success, List.mem_cons_self⟩
              · obtain ⟨success', hmem⟩ := hran b hb
                exact ⟨success', List.mem_cons_of_mem _ hmem⟩
          · refine Or.inr ⟨by rw [List.length_cons, List.length_cons]; omega, e, ?_⟩
            rw [hrest]
            rfl

/-! ## What is safe, from the log and the tables -/

/-- The row of a file is there, with the locations of its objects. -/
def Recorded (db : Database) (key : FileKey) (holds : String → Prop) (orig : String → String) :
    Prop :=
  db.bepFileInfo.contains key = true ∧ ∀ storageBackend, holds storageBackend →
    db.bepFileLocation.contains ⟨key, storageBackend, orig storageBackend⟩ = true

section Log

variable {fs fs' : GrizolFS ν} {key : FileKey} {holds : String → Prop}
  {orig dest : String → String} {copies deletions : List Ran}

end Log

/-! ## The move in the database -/

/-- A rename that returns with a row at its key found the number free. -/
theorem renameFileInfo_sequenceFree {tx tx' : Database} {key : FileKey} {name : String}
    {sequence : Int64} (h : tx.renameFileInfo key name sequence = .ok tx')
    (hrow : tx.bepFileInfo.contains key = true) : tx.sequenceFree key sequence = true := by
  unfold Database.renameFileInfo at h
  dsimp only at h
  split at h
  · rename_i hnone
    rw [AssocMap.contains, hnone] at hrow
    cases hrow
  · split_ifs at h with hfree
    exact hfree.2

/-- A rename of a file that has no row does nothing. -/
theorem renameFileInfo_of_absent {tx : Database} {key : FileKey} {name : String}
    {sequence : Int64} (h : tx.bepFileInfo.contains key = false) :
    tx.renameFileInfo key name sequence = .ok tx := by
  unfold Database.renameFileInfo
  dsimp only
  split
  · rfl
  · rename_i row hrow
    rw [AssocMap.contains, hrow] at h
    cases h

/-- Rows of locations need the row of their file. -/
theorem insertLocations_hasFile {key : FileKey} {locations : List (String × String)}
    {tx tx' : Database} (h : BepState.insertLocations key locations tx = .ok tx') :
    locations = [] ∨ tx.bepFileInfo.contains key = true := by
  cases locations with
  | nil => exact Or.inl rfl
  | cons l locations =>
      obtain ⟨tx₁, hinsert, -⟩ := Rust.bind_eq_ok.mp h
      unfold Database.insertLocation at hinsert
      split_ifs at hinsert with hfile
      exact Or.inr hfile

/-- The rows after a move that went through: the file is under its new name, if it was there. -/
structure MovedTo (db db' : Database) (key : FileKey) (destName : String)
    (fileLocations : List FileLocation) : Prop where
  moved : db.bepFileInfo.contains key = true → ∀ k, db'.bepFileInfo.contains k = true ↔
    k = { key with name := destName } ∨ k ≠ key ∧ db.bepFileInfo.contains k = true
  absent : db.bepFileInfo.contains key = false → db'.bepFileInfo = db.bepFileInfo
  same : destName = key.name → fileLocations = [] ∨
    db'.bepFileInfo.contains key = true ∧
      ∀ location storageBackend, (⟨location, .remote storageBackend⟩ : FileLocation) ∈
        fileLocations → db'.bepFileLocation.contains ⟨key, storageBackend, location⟩ = true

/-- Under another name, nothing is left under the old one. -/
theorem MovedTo.gone {db db' : Database} {key : FileKey} {destName : String}
    {fileLocations : List FileLocation} (h : MovedTo db db' key destName fileLocations)
    (hne : destName ≠ key.name) : db'.bepFileInfo.contains key = false := by
  by_cases hkey : db.bepFileInfo.contains key = true
  · rw [← Bool.not_eq_true, h.moved hkey]
    rintro (heq | ⟨hself, -⟩)
    · exact hne (congrArg FileKey.name heq).symm
    · exact hself rfl
  · have hkey : db.bepFileInfo.contains key = false := by simpa using hkey
    rw [h.absent hkey, hkey]

/-- The rows of a map after one of its keys was renamed. -/
theorem contains_rename {files : AssocMap FileKey FileRow} {key dest k : FileKey} {row : FileRow} :
    ((files.erase key).insert dest row).contains k = true ↔
      k = dest ∨ k ≠ key ∧ files.contains k = true := by
  simp only [AssocMap.contains, AssocMap.get_insert, AssocMap.get_erase]
  split_ifs with hdest hkey
  · simp [hdest]
  · simp [hkey.symm ▸ hdest, hkey]
  · simp [hdest, hkey]

section Move

variable {s : BepState} {folder : String} {deviceId : DeviceId} {file : FileInfo}
  {destName : String} {fileLocations : List FileLocation}

/-- The rows `mv_file_info` inserts. -/
def locationRows (fileLocations : List FileLocation) : List (String × String) :=
  fileLocations.map fun l => match l.storageBackend with
    | .remote storageBackend => (storageBackend, l.location)

/-- What `mv_file_info` does once it has its number. -/
def moveRows (db : Database) (key : FileKey) (destName : String)
    (fileLocations : List FileLocation) (sequence : Int64) : Rust Database := do
  let dest : FileKey := { key with name := destName }
  let tx ← db.renameFileInfo key destName sequence
  BepState.insertLocations dest (locationRows fileLocations)
    ((tx.deleteLocations fun k => k.file = dest).deleteLocalCache fun k => k = dest)

/-- With a sequence number the rows are moved, or it is a panic. -/
theorem mvFileInfo_of_some {sequence : Int64} (h : nextSequence s = some sequence) :
    ∃ n, (BepState.mvFileInfo folder deviceId file destName fileLocations).run s =
      match moveRows s.db ⟨folder, deviceId, file.name⟩ destName fileLocations sequence with
      | .ok tx => .ok () { s with sequence := n, db := tx }
      | .error e => .error e { s with sequence := n } := by
  obtain ⟨n, hnext⟩ := nextSequenceId_eq s
  rw [h] at hnext
  refine ⟨n, ?_⟩
  rw [BepState.mvFileInfo, EStateM.run_bind, hnext]
  dsimp only
  rw [EStateM.run_bind, RustM.run_getThe]
  dsimp only
  rw [EStateM.run_bind, moveRows]
  cases hrename : s.db.renameFileInfo ⟨folder, deviceId, file.name⟩ destName sequence with
  | error e => rfl
  | ok tx =>
      rw [RustM.run_lift_ok, Rust.ok_bind]
      dsimp only
      rw [EStateM.run_bind, locationRows]
      generalize BepState.insertLocations _ _ _ = locations
      cases locations <;> rfl

/-- Without one it is a panic. -/
theorem mvFileInfo_of_none (h : nextSequence s = none) :
    Aborts s (BepState.mvFileInfo folder deviceId file destName fileLocations) := by
  obtain ⟨n, hnext⟩ := nextSequenceId_eq s
  rw [h] at hnext
  unfold Aborts
  rw [BepState.mvFileInfo, EStateM.run_bind, hnext]
  exact ⟨_, _, rfl, n, rfl⟩

variable {db db' : Database} {key : FileKey} {sequence : Int64}

/-- The move goes through on the rows `Movable` names. -/
theorem moveRows_returns
    (hpresent : db.bepFileInfo.contains key = true →
      (destName = key.name ∨ db.bepFileInfo.contains { key with name := destName } = false) ∧
      db.sequenceFree key sequence = true)
    (habsent : db.bepFileInfo.contains key = false →
      fileLocations = [] ∨ db.bepFileInfo.contains { key with name := destName } = true) :
    ∃ db', moveRows db key destName fileLocations sequence = .ok db' := by
  by_cases hkey : db.bepFileInfo.contains key = true
  · obtain ⟨hdest, hfree⟩ := hpresent hkey
    obtain ⟨tx, row, hrename, hrows⟩ := renameFileInfo_returns hkey hdest hfree
    have hfile : ((tx.deleteLocations fun k => k.file = { key with name := destName }).deleteLocalCache
        fun k => k = { key with name := destName }).bepFileInfo.contains
          { key with name := destName } = true := by
      show tx.bepFileInfo.contains { key with name := destName } = true
      rw [hrows]
      exact AssocMap.contains_iff.mpr ⟨row, AssocMap.get_insert_self _ _ _⟩
    obtain ⟨db', hinsert, -⟩ := insertLocations_contains (locationRows fileLocations) hfile
    exact ⟨db', Rust.bind_eq_ok.mpr ⟨tx, hrename, hinsert⟩⟩
  · have hkey : db.bepFileInfo.contains key = false := by simpa using hkey
    have hrename : db.renameFileInfo key destName sequence = .ok db :=
      renameFileInfo_of_absent hkey
    rcases habsent hkey with rfl | hfile
    · exact ⟨_, Rust.bind_eq_ok.mpr ⟨db, hrename, rfl⟩⟩
    · obtain ⟨db', hinsert, -⟩ := @insertLocations_contains { key with name := destName }
        (locationRows fileLocations)
        ((db.deleteLocations fun k => k.file = { key with name := destName }).deleteLocalCache
          fun k => k = { key with name := destName }) hfile
      exact ⟨db', Rust.bind_eq_ok.mpr ⟨db, hrename, hinsert⟩⟩

/-- It goes through on no others. -/
theorem moveRows_movable (h : moveRows db key destName fileLocations sequence = .ok db') :
    (db.bepFileInfo.contains key = true →
      (destName = key.name ∨ db.bepFileInfo.contains { key with name := destName } = false) ∧
      db.sequenceFree key sequence = true) ∧
    (db.bepFileInfo.contains key = false →
      fileLocations = [] ∨ db.bepFileInfo.contains { key with name := destName } = true) := by
  obtain ⟨tx, hrename, hinsert⟩ := Rust.bind_eq_ok.mp h
  constructor
  · intro hkey
    refine ⟨?_, renameFileInfo_sequenceFree hrename hkey⟩
    rcases renameFileInfo_free hrename with habsent | hdest
    · rw [hkey] at habsent
      cases habsent
    · exact hdest
  · intro hkey
    obtain rfl := Except.ok.inj ((renameFileInfo_of_absent hkey).symm.trans hrename)
    rcases insertLocations_hasFile hinsert with hnil | hfile
    · exact Or.inl (List.map_eq_nil_iff.mp hnil)
    · exact Or.inr hfile

/-- It leaves no row under the old name, or the row as the listing has it. -/
theorem moveRows_movedTo (h : moveRows db key destName fileLocations sequence = .ok db') :
    MovedTo db db' key destName fileLocations := by
  have hmovable := moveRows_movable h
  obtain ⟨tx, hrename, hinsert⟩ := Rust.bind_eq_ok.mp h
  have hfiles : db'.bepFileInfo = tx.bepFileInfo := (insertLocations_rows _ hinsert).1
  have hmoved : db.bepFileInfo.contains key = true → ∀ k, db'.bepFileInfo.contains k = true ↔
      k = { key with name := destName } ∨ k ≠ key ∧ db.bepFileInfo.contains k = true := by
    intro hkey k
    obtain ⟨hdest, hfree⟩ := hmovable.1 hkey
    obtain ⟨tx', row, hrename', hrows⟩ := renameFileInfo_returns hkey hdest hfree
    obtain rfl := Except.ok.inj (hrename'.symm.trans hrename)
    rw [hfiles, hrows, contains_rename]
  have habsent : db.bepFileInfo.contains key = false → db'.bepFileInfo = db.bepFileInfo := by
    intro hkey
    obtain rfl := Except.ok.inj ((renameFileInfo_of_absent hkey).symm.trans hrename)
    exact hfiles
  refine ⟨hmoved, habsent, ?_⟩
  rintro rfl
  by_cases hkey : db.bepFileInfo.contains key = true
  · right
    have hfile : db'.bepFileInfo.contains key = true := (hmoved hkey key).mpr (Or.inl rfl)
    refine ⟨hfile, ?_⟩
    intro location b hl
    obtain ⟨db'', hinsert', hcontains⟩ := @insertLocations_contains key
      (locationRows fileLocations)
      ((tx.deleteLocations fun k => k.file = key).deleteLocalCache fun k => k = key)
      (hfiles ▸ hfile)
    obtain rfl := Except.ok.inj (hinsert'.symm.trans hinsert)
    exact (hcontains _).mpr (Or.inr ⟨(b, location), List.mem_map.mpr ⟨_, hl, rfl⟩, rfl⟩)
  · left
    have hkey : db.bepFileInfo.contains key = false := by simpa using hkey
    rcases hmovable.2 hkey with hnil | hdest
    · exact hnil
    · exact absurd (hkey.symm.trans hdest) (by simp)

/-- `mv_file_info` moves the row that is movable, and refuses any other. -/
theorem mvFileInfo_ends (s : BepState) (folder : String) (deviceId : DeviceId) (file : FileInfo)
    (destName : String) (fileLocations : List FileLocation) :
    (Movable s ⟨folder, deviceId, file.name⟩ destName fileLocations ∧ ∃ n tx,
      (BepState.mvFileInfo folder deviceId file destName fileLocations).run s =
        .ok () { s with sequence := n, db := tx } ∧
      MovedTo s.db tx ⟨folder, deviceId, file.name⟩ destName fileLocations) ∨
    (¬ Movable s ⟨folder, deviceId, file.name⟩ destName fileLocations ∧
      Aborts s (BepState.mvFileInfo folder deviceId file destName fileLocations)) := by
  cases hnext : nextSequence s with
  | none =>
      refine Or.inr ⟨?_, mvFileInfo_of_none hnext⟩
      rintro ⟨n, hn, -⟩
      rw [hnext] at hn
      cases hn
  | some sequence =>
      obtain ⟨n, hrun⟩ := @mvFileInfo_of_some s folder deviceId file destName fileLocations _ hnext
      cases hmove : moveRows s.db ⟨folder, deviceId, file.name⟩ destName fileLocations sequence with
      | ok tx =>
          rw [hmove] at hrun
          obtain ⟨hpresent, habsent⟩ := moveRows_movable hmove
          exact Or.inl ⟨⟨sequence, hnext, hpresent, habsent⟩, n, tx, hrun, moveRows_movedTo hmove⟩
      | error e =>
          rw [hmove] at hrun
          refine Or.inr ⟨?_, e, _, hrun, n, rfl⟩
          rintro ⟨n', hn', hpresent, habsent⟩
          obtain rfl := Option.some.inj (hnext.symm.trans hn')
          obtain ⟨tx, hreturns⟩ := moveRows_returns hpresent habsent
          rw [hmove] at hreturns
          cases hreturns

end Move

/-! ## In memory -/

section Memory

variable (fs : GrizolFS ν) (file : GrizolFileInfo) (destName : String)
  (outcomes : RenameOutcomes)

/-- A command that is logged is the last. -/
theorem fs_logCommands_run (commands : List Ran) (fs : GrizolFS ν) :
    (GrizolFS.logCommands commands).run fs = .ok () { fs with ran := fs.ran ++ commands } := rfl

/-- Whether a row can be moved does not depend on where its objects are. -/
theorem movable_map_iff {s : BepState} {key : FileKey} {fileLocations : List FileLocation}
    (f : FileLocation → FileLocation) :
    Movable s key destName (fileLocations.map f) ↔ Movable s key destName fileLocations := by
  simp only [Movable, List.map_eq_nil_iff]

/-- The copies went as far as they could, and the tables are as before. -/
theorem renameMem_of_not_movesRow (h : ¬ MovesRow fs file destName outcomes) :
    (afterRenameMem fs file destName outcomes).ran =
        fs.ran ++ copies fs file destName outcomes ∧
      (afterRenameMem fs file destName outcomes).state.db = fs.state.db := by
  rw [afterRenameMem, GrizolFS.renameMem, EStateM.run_bind, RustM.run_getThe]
  dsimp only
  rw [EStateM.run_bind, fs_logCommands_run]
  dsimp only
  rcases cpRemoteToRemote_eq fs.config file.folder destName outcomes.rclone file.fileLocations with
    ⟨hlength, hcopied, -⟩ | ⟨hlength, e, hstopped⟩
  · rw [hcopied]
    dsimp only
    rcases mvFileInfo_ends fs.state file.folder fs.config.localDeviceId file.fileInfo destName
        (file.fileLocations.map (movedLocation fs.config file.folder destName)) with
      ⟨hmovable, -⟩ | ⟨-, e, s', hrun, n, rfl⟩
    · exact absurd ⟨hlength, (movable_map_iff destName _).mp hmovable⟩ h
    · rw [EStateM.run_bind, fs_onState_run, hrun]
      exact ⟨rfl, rfl⟩
  · rw [hstopped]
    exact ⟨rfl, rfl⟩

/-- Every copy was started, the row moved and the objects deleted. -/
theorem renameMem_of_movesRow (h : MovesRow fs file destName outcomes) :
    (afterRenameMem fs file destName outcomes).ran =
        fs.ran ++ (copies fs file destName outcomes ++ deletions fs file outcomes) ∧
      MovedTo fs.state.db (afterRenameMem fs file destName outcomes).state.db
        (fileKey fs file) destName
        (file.fileLocations.map (movedLocation fs.config file.folder destName)) := by
  obtain ⟨hlength, hmovable⟩ := h
  rw [afterRenameMem, GrizolFS.renameMem, EStateM.run_bind, RustM.run_getThe]
  dsimp only
  rw [EStateM.run_bind, fs_logCommands_run]
  dsimp only
  rcases cpRemoteToRemote_eq fs.config file.folder destName outcomes.rclone file.fileLocations with
    ⟨-, hcopied, -⟩ | ⟨hstopped, -⟩
  · rw [hcopied]
    dsimp only
    rcases mvFileInfo_ends fs.state file.folder fs.config.localDeviceId file.fileInfo destName
        (file.fileLocations.map (movedLocation fs.config file.folder destName)) with
      ⟨-, n, tx, hrun, hmoved⟩ | ⟨hrefused, -⟩
    · rw [EStateM.run_bind, fs_onState_run, hrun]
      dsimp only
      rw [EStateM.run_bind, fs_logCommands_run]
      dsimp only
      rw [RustM.endState_bind_pure, RustM.endState_lift]
      exact ⟨List.append_assoc _ _ _, hmoved⟩
    · exact absurd ((movable_map_iff destName _).mpr hmovable) hrefused
  · exact absurd hlength hstopped

end Memory

section Lists

variable (fs : GrizolFS ν) (paths : GrizolFS.RenamePaths) (outcomes : RenameOutcomes)

/-- The key of the row a rename from the lists moves. -/
def pathKey : FileKey := ⟨paths.origFolder, fs.config.localDeviceId, paths.origName⟩

/-- The key it moves to. -/
def destKey : FileKey := ⟨paths.destFolder, fs.config.localDeviceId, paths.destName⟩

/-- The node after the rename of a row. -/
def afterRenameDb : GrizolFS ν :=
  RustM.endState ((GrizolFS.renameDb paths.origFolder paths.origName paths.destFolder
    paths.destName outcomes).run fs)

/-- One file goes in exactly when it is accepted under the number that is next. -/
theorem insertFileInfo_one (s : BepState) (folder : String) (deviceId : DeviceId)
    (file : FileInfo) :
    ((∃ n, nextSequence s = some n ∧ Accepted s.db folder deviceId file ∧
        s.db.sequenceFree ⟨folder, deviceId, file.name⟩ n = true) ∧
      ∃ s' row, (BepState.insertFileInfo folder deviceId [file]).run s = .ok () s' ∧
        s'.db.bepFileInfo = s.db.bepFileInfo.insert ⟨folder, deviceId, file.name⟩ row) ∨
    ((¬ ∃ n, nextSequence s = some n ∧ Accepted s.db folder deviceId file ∧
        s.db.sequenceFree ⟨folder, deviceId, file.name⟩ n = true) ∧
      Aborts s (BepState.insertFileInfo folder deviceId [file])) := by
  obtain ⟨m, hnext⟩ := nextSequenceId_eq s
  unfold Aborts
  rw [BepState.insertFileInfo, EStateM.run_bind, RustM.run_getThe]
  dsimp only
  rw [EStateM.run_bind, BepState.assignSequences, EStateM.run_bind, hnext]
  cases hn : nextSequence s with
  | none =>
      refine Or.inr ⟨?_, _, _, rfl, m, rfl⟩
      rintro ⟨n, hsome, -⟩
      cases hsome
  | some n =>
      dsimp only
      rw [EStateM.run_bind]
      have hassign : (BepState.assignSequences []).run { s with sequence := m } =
          .ok [] { s with sequence := m } := rfl
      rw [hassign]
      dsimp only
      rw [EStateM.run_pure]
      dsimp only
      rw [EStateM.run_bind]
      have hwrite : BepState.writeFiles (BepState.upsertFile folder deviceId)
          [{ file with sequence := n }] s.db =
          BepState.upsertFile folder deviceId { file with sequence := n } s.db := by
        simp only [BepState.writeFiles]
        cases BepState.upsertFile folder deviceId { file with sequence := n } s.db <;> rfl
      rw [hwrite]
      cases hupsert : BepState.upsertFile folder deviceId { file with sequence := n } s.db with
      | error e =>
          refine Or.inr ⟨?_, _, _, rfl, m, rfl⟩
          rintro ⟨n', hn', haccepted, hfree⟩
          obtain rfl := Option.some.inj hn'
          obtain ⟨tx, hreturns⟩ := @upsertFile_returns s.db folder deviceId
            { file with sequence := n } haccepted hfree
          rw [hupsert] at hreturns
          cases hreturns
      | ok tx =>
          refine Or.inl ⟨⟨n, rfl, (upsertFile_accepted hupsert).2,
            upsertFile_sequenceFree hupsert⟩, _, .ofFileInfo { file with sequence := n }, rfl, ?_⟩
          exact upsertFile_files hupsert

/-- Nothing was deleted, and the tables are as before. -/
theorem renameDb_of_not_movesRow (h : ¬ MovesRowDb fs paths outcomes) :
    (afterRenameDb fs paths outcomes).state.db = fs.state.db ∧
      ((fs.state.db.bepFileInfo.contains (pathKey fs paths) = false ∧
        (afterRenameDb fs paths outcomes).ran = fs.ran) ∨
      fs.state.db.bepFileInfo.contains (pathKey fs paths) = true ∧
        (afterRenameDb fs paths outcomes).ran = fs.ran ++ copiesDb fs paths outcomes) := by
  have hcontains : (fs.state.fileInfo paths.origFolder fs.config.localDeviceId
      paths.origName).isSome = fs.state.db.bepFileInfo.contains (pathKey fs paths) := by
    rw [BepState.fileInfo, Option.isSome_map, AssocMap.contains, pathKey]
  rw [← hcontains, afterRenameDb, GrizolFS.renameDb, EStateM.run_bind, RustM.run_getThe]
  dsimp only
  rw [EStateM.run_bind]
  cases hfile : fs.state.fileInfo paths.origFolder fs.config.localDeviceId paths.origName with
  | none => exact ⟨rfl, Or.inl ⟨rfl, rfl⟩⟩
  | some file =>
  rw [Rust.unwrap_some, RustM.run_lift_ok]
  dsimp only
  rw [EStateM.run_bind, fs_logCommands_run]
  dsimp only
  rw [EStateM.run_bind]
  rcases backendLoop_eq (GrizolFS.cpCommand fs.config paths.origFolder paths.origName
      paths.destFolder paths.destName) fs.config.remoteBaseDir paths.destFolder paths.destName
      outcomes.copy fs.storageBackends 0 with ⟨hlength, ⟨res, hres⟩, -⟩ | ⟨-, e, hres⟩
  · rw [hres, RustM.run_lift_ok]
    dsimp only
    rw [EStateM.run_bind]
    rcases insertFileInfo_one fs.state paths.destFolder fs.config.localDeviceId
        { file with name := paths.destName } with ⟨⟨n, hn, haccepted, hfree⟩, -⟩ |
      ⟨-, e, s', hrun, n, rfl⟩
    · exact absurd ⟨file, n, hfile, hlength, hn, haccepted, hfree⟩ h
    · rw [fs_onState_run, hrun]
      exact ⟨rfl, Or.inr ⟨rfl, rfl⟩⟩
  · rw [hres]
    exact ⟨rfl, Or.inr ⟨rfl, rfl⟩⟩

/-- Every copy ran to its end, the row went to the new path and the objects were deleted. -/
theorem renameDb_of_movesRow (h : MovesRowDb fs paths outcomes) :
    (afterRenameDb fs paths outcomes).ran =
        fs.ran ++ (copiesDb fs paths outcomes ++ deletionsDb fs paths outcomes) ∧
      ∀ k, (afterRenameDb fs paths outcomes).state.db.bepFileInfo.contains k = true ↔
        (k = destKey fs paths ∨ fs.state.db.bepFileInfo.contains k = true) ∧
          k ≠ pathKey fs paths := by
  obtain ⟨file, n, hfile, hlength, hn, haccepted, hfree⟩ := h
  rw [afterRenameDb, GrizolFS.renameDb, EStateM.run_bind, RustM.run_getThe]
  dsimp only
  rw [EStateM.run_bind, hfile, Rust.unwrap_some, RustM.run_lift_ok]
  dsimp only
  rw [EStateM.run_bind, fs_logCommands_run]
  dsimp only
  rw [EStateM.run_bind]
  rcases backendLoop_eq (GrizolFS.cpCommand fs.config paths.origFolder paths.origName
      paths.destFolder paths.destName) fs.config.remoteBaseDir paths.destFolder paths.destName
      outcomes.copy fs.storageBackends 0 with ⟨-, ⟨res, hres⟩, -⟩ | ⟨hstopped, -⟩
  · rw [hres, RustM.run_lift_ok]
    dsimp only
    rw [EStateM.run_bind]
    rcases insertFileInfo_one fs.state paths.destFolder fs.config.localDeviceId
        { file with name := paths.destName } with ⟨-, s', row, hrun, hrows⟩ | ⟨hrefused, -⟩
    · rw [fs_onState_run, hrun]
      dsimp only
      have hcontains : s'.db.bepFileInfo.contains
          ⟨paths.destFolder, fs.config.localDeviceId, paths.destName⟩ = true := by
        rw [hrows]
        exact AssocMap.contains_iff.mpr ⟨row, AssocMap.get_insert_self _ _ _⟩
      obtain ⟨tx, hinsert, -⟩ := insertLocations_contains res hcontains
      have hupdate : (BepState.updateFileLocations paths.destFolder fs.config.localDeviceId
          paths.destName res).run s' = .ok () { s' with db := tx } := by
        rw [BepState.updateFileLocations, EStateM.run_bind, RustM.run_getThe]
        dsimp only
        rw [EStateM.run_bind, hinsert]
        rfl
      rw [EStateM.run_bind, fs_onState_run, hupdate]
      dsimp only
      rw [EStateM.run_bind, fs_onState_run, rmFileInfo_run]
      dsimp only
      rw [EStateM.run_bind, fs_logCommands_run]
      dsimp only
      rw [RustM.endState_bind_pure, RustM.endState_lift]
      refine ⟨List.append_assoc _ _ _, fun k => ?_⟩
      have hfiles : tx.bepFileInfo = s'.db.bepFileInfo := (insertLocations_rows res hinsert).1
      show (tx.bepFileInfo.retain fun k _ => !decide (k = pathKey fs paths)).contains k = true ↔ _
      rw [AssocMap.contains, AssocMap.get_retain, hfiles, hrows, AssocMap.get_insert]
      by_cases hkey : k = pathKey fs paths
      · simp [hkey]
      · by_cases hdest : k = destKey fs paths
        · simp [hdest, destKey]
        · have hnew : ¬ k = ⟨paths.destFolder, fs.config.localDeviceId, paths.destName⟩ := hdest
          simp [hkey, hdest, hnew, AssocMap.contains]
    · exact absurd ⟨n, hn, haccepted, hfree⟩ hrefused
  · exact absurd hlength hstopped

end Lists

/-! ## A whole call -/

section Example

/-- The path of the file on its backend. -/
def objectPath (name : String) : String :=
  GrizolFS.remotePath sharingNode.config "default" name "gcs"

end Example

end Grizol.Analysis

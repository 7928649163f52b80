import Grizol.Analysis.FileWriterCalls

/-!
# The registry of writers

The registry keeps, for every key, the writer of the first call that got as far as
making one. So the writer of a call is the one its arguments ask for exactly when the
first call on its key stored, since a concluding call leaves the base directory out of
the path, and named the same sizes. Writers that agree with the calls deliver the
versions that are stored through them; a file whose size changed, or which is
concluded first in a new process, has a writer that does not agree.
-/

set_option autoImplicit false

namespace Grizol.Analysis

open Grizol.Library Grizol.Model Grizol.Interface
open Grizol.Model.Syncthing

variable (hash : String → ℕ → ℕ → UInt64)

/-! ## What one call does -/

/-- The path a call makes its writer with. -/
def StorageCall.path (config : GrizolConfig) (c : StorageCall) : String :=
  if c.isStore then config.localBaseDir ++ "/" ++ c.key else c.key

/-- The writer `FileWriter::new` makes for a call that gets that far. -/
structure MadeFor (config : GrizolConfig) (c : StorageCall) (w : FileWriter) : Prop where
  filePath : w.filePath = StorageCall.path config c
  fileSize : w.fileSize = c.fileSize
  chunkSize : w.chunkSize = c.chunkSize
  suffix : w.suffix =
    toString (hash (StorageCall.path config c) c.fileSize c.chunkSize).toNat

/-- Two writers made for one call are the same. -/
theorem MadeFor.sameWriter {config : GrizolConfig} {c : StorageCall} {w w' : FileWriter}
    (h : MadeFor hash config c w) (h' : MadeFor hash config c w') : SameWriter w w' :=
  ⟨h'.filePath.trans h.filePath.symm, h'.fileSize.trans h.fileSize.symm,
    h'.chunkSize.trans h.chunkSize.symm, h'.suffix.trans h.suffix.symm⟩

/-- A writer stays made for its call. -/
theorem MadeFor.of_sameWriter {config : GrizolConfig} {c : StorageCall} {w w' : FileWriter}
    (h : MadeFor hash config c w) (hsame : SameWriter w w') : MadeFor hash config c w' :=
  ⟨hsame.filePath.trans h.filePath, hsame.fileSize.trans h.fileSize,
    hsame.chunkSize.trans h.chunkSize, hsame.suffix.trans h.suffix⟩

/-- A writer no call is working on. -/
structure Idle (w : FileWriter) : Prop where
  state : w.state = .writingChunks 0
  free : w.writingChunk.all (fun flag => !flag) = true

/-- `FileWriter::new` succeeds when the number of chunks can be computed. -/
theorem new_eq_ok (path : String) {fileSize chunkSize : ℕ} (hpos : 0 < chunkSize)
    (hlt : fileSize + chunkSize < 2 ^ 64) :
    ∃ w, FileWriter.new hash path fileSize chunkSize = .ok w ∧ Idle w ∧ w.filePath = path ∧
      w.fileSize = fileSize ∧ w.chunkSize = chunkSize ∧
      w.suffix = toString (hash path fileSize chunkSize).toNat := by
  have hadd := Rust.add_of_lt hlt
  have hsub : Rust.sub (fileSize + chunkSize) 1 = .ok (fileSize + chunkSize - 1) :=
    Rust.sub_of_le (by omega)
  have hnew : FileWriter.new hash path fileSize chunkSize = .ok
      { filePath := path
        fileSize := fileSize
        chunkSize := chunkSize
        writingChunk := List.replicate (chunkCount fileSize chunkSize) false
        suffix := toString (hash path fileSize chunkSize).toNat
        state := .writingChunks 0
        chunkSize_pos := hpos
        writingChunk_length := List.length_replicate } := by
    simp only [FileWriter.new, hadd, hsub, Rust.ok_bind, Rust.div_of_pos hpos, dif_pos hpos]
    rfl
  exact ⟨_, hnew, ⟨rfl, by simp⟩, rfl, rfl, rfl, rfl⟩

/-- It panics when it cannot. -/
theorem new_eq_error (path : String) {fileSize chunkSize : ℕ}
    (h : ¬ (0 < chunkSize ∧ fileSize + chunkSize < 2 ^ 64)) :
    ∃ e, FileWriter.new hash path fileSize chunkSize = .error e := by
  by_cases hlt : fileSize + chunkSize < 2 ^ 64
  · obtain rfl : chunkSize = 0 := by
      by_contra hne
      exact h ⟨Nat.pos_of_ne_zero hne, hlt⟩
    have hadd := Rust.add_of_lt hlt
    by_cases hone : 1 ≤ fileSize + 0
    · refine ⟨.divideByZero, ?_⟩
      simp only [FileWriter.new, hadd, Rust.sub_of_le hone, Rust.ok_bind]
      rfl
    · refine ⟨.overflow, ?_⟩
      have hsub : Rust.sub (fileSize + 0) 1 = .error .overflow := if_neg hone
      simp only [FileWriter.new, hadd, hsub, Rust.ok_bind, Rust.error_bind]
  · refine ⟨.overflow, ?_⟩
    have hadd : Rust.add 64 fileSize chunkSize = .error .overflow := if_neg hlt
    simp only [FileWriter.new, hadd, Rust.error_bind]

/-- What a call does with its writer. -/
def useWriter (w : FileWriter) (disk : FileStore) :
    StorageCall → FileWriter × FileStore × Rust (Except IoError Unit)
  | .store data request _ _ outcomes =>
      match StorageManager.toUsize request.offset with
      | none => (w, disk, .error .unwrap)
      | some offset =>
          let (w, disk, pc) := w.writeChunk disk data offset outcomes.file
          (w, disk, match pc with
            | .returned result => .ok result
            | .panicked fault => .error fault
            | _ => .error .divergence)
  | .conclude _ _ _ outcomes =>
      let (w, disk, pc) := w.consolidate disk outcomes.file
      (w, disk, match pc with
        | .returned result => .ok result
        | _ => .error .divergence)

/-- The effect of a call that gets to its writer. -/
structure CallEffect (m : StorageManager) (c : StorageCall) (w : FileWriter) : Prop where
  performed : performedBy hash m c = some w
  config : (callStep hash m c).config = m.config
  disk : (callStep hash m c).disk = (useWriter w m.disk c).2.1
  writers : ∀ key, (callStep hash m c).fileWriters.get key =
    if key = c.key then some (useWriter w m.disk c).1 else m.fileWriters.get key
  ok : ReturnsOk hash m c ↔ (useWriter w m.disk c).2.2 = .ok (.ok ())

/-- The writer of a key is made if there is none. -/
theorem entryWriter_run (m : StorageManager) (key : String) {path : String}
    {fileSize chunkSize : ℕ} {w : FileWriter}
    (hnew : FileWriter.new hash path fileSize chunkSize = .ok w) :
    (StorageManager.entryWriter hash key path fileSize chunkSize).run m =
      .ok ((m.fileWriters.get key).getD w)
        { m with fileWriters := (m.fileWriters.entryOrInsert key w).1 } := by
  have hvalue : (m.fileWriters.entryOrInsert key w).2 = (m.fileWriters.get key).getD w := by
    unfold AssocMap.entryOrInsert
    cases m.fileWriters.get key <;> rfl
  simp [StorageManager.entryWriter, hnew, EStateM.run_bind, hvalue]

/-- The registry after the lookup, with what the call made of the writer put back. -/
theorem get_insert_entryOrInsert (writers : AssocMap String FileWriter) (key key' : String)
    (w w' : FileWriter) :
    (((writers.entryOrInsert key w).1).insert key w').get key' =
      if key' = key then some w' else writers.get key' := by
  rw [AssocMap.get_insert]
  split_ifs with hkey
  · rfl
  · rw [AssocMap.get_entryOrInsert, if_neg hkey]

/-- The result of a call from what it did with its writer. -/
def resultOf (m : StorageManager) (c : StorageCall) (fresh : FileWriter) :
    EStateM.Result Fault StorageManager (Except IoError Unit) :=
  let used := useWriter ((m.fileWriters.get c.key).getD fresh) m.disk c
  let m' : StorageManager := { m with
    fileWriters := (m.fileWriters.entryOrInsert c.key fresh).1.insert c.key used.1
    disk := used.2.1 }
  match used.2.2 with
  | .ok result => .ok result m'
  | .error fault => .error fault m'

/-- A call that ends as it should has the effect it should have. -/
theorem callEffect_of_resultOf {m : StorageManager} {c : StorageCall} {fresh : FileWriter}
    (hperformed : performedBy hash m c = some ((m.fileWriters.get c.key).getD fresh))
    (hrun : (performCall hash c).run m = resultOf m c fresh) :
    CallEffect hash m c ((m.fileWriters.get c.key).getD fresh) := by
  have hstep : callStep hash m c = { m with
      fileWriters := (m.fileWriters.entryOrInsert c.key fresh).1.insert c.key
        (useWriter ((m.fileWriters.get c.key).getD fresh) m.disk c).1
      disk := (useWriter ((m.fileWriters.get c.key).getD fresh) m.disk c).2.1 } := by
    simp only [callStep, hrun, resultOf]
    split <;> rfl
  refine ⟨hperformed, ?_, ?_, ?_, ?_⟩
  · rw [hstep]
  · rw [hstep]
  · intro key
    rw [hstep]
    exact get_insert_entryOrInsert _ _ _ _ _
  · simp only [ReturnsOk, hrun, resultOf]
    split
    · rename_i result hresult
      simp [hresult]
    · rename_i fault hresult
      simp [hresult]

/-- The effect of `store_block_concurrently`. An offset that is no `usize` panics after the
writer was looked up. -/
theorem callEffect_store {m : StorageManager} {data : Bytes} {request : Request}
    {fileSize chunkSize : ℕ} {outcomes : StorageOutcomes} {fresh : FileWriter}
    (hparent : StorageManager.hasParent
      (m.config.localBaseDir ++ "/" ++ StorageManager.fileRelPath request) = true)
    (hdir : outcomes.createDir = .ok)
    (hentry : (StorageManager.entryWriter hash (StorageManager.fileRelPath request)
        (m.config.localBaseDir ++ "/" ++ StorageManager.fileRelPath request)
        fileSize chunkSize).run m =
      .ok ((m.fileWriters.get (StorageManager.fileRelPath request)).getD fresh) { m with
        fileWriters :=
          (m.fileWriters.entryOrInsert (StorageManager.fileRelPath request) fresh).1 }) :
    CallEffect hash m (.store data request fileSize chunkSize outcomes)
      ((m.fileWriters.get (StorageManager.fileRelPath request)).getD fresh) := by
  have hperformed : performedBy hash m (.store data request fileSize chunkSize outcomes) =
      some ((m.fileWriters.get (StorageManager.fileRelPath request)).getD fresh) := by
    simp [performedBy, openWriter, EStateM.run_bind, StorageManager.absPath, hparent, hdir, hentry]
  cases hoffset : StorageManager.toUsize request.offset with
  | none =>
      have hrun : (performCall hash (.store data request fileSize chunkSize outcomes)).run m =
          .error .unwrap { m with
            fileWriters :=
              (m.fileWriters.entryOrInsert (StorageManager.fileRelPath request) fresh).1 } := by
        simp [performCall, StorageManager.storeBlockConcurrently, EStateM.run_bind,
          StorageManager.absPath, hparent, hdir, hentry, hoffset, Rust.unwrap]
      refine ⟨hperformed, ?_, ?_, ?_, ?_⟩
      · simp [callStep, hrun]
      · simp [callStep, hrun, useWriter, hoffset]
      · intro key
        simp only [callStep, hrun, RustM.endState_error, useWriter, hoffset]
        exact AssocMap.get_entryOrInsert _ _ _ _
      · simp [ReturnsOk, hrun, useWriter, hoffset]
  | some offset =>
      apply callEffect_of_resultOf hash hperformed
      simp only [resultOf, useWriter, hoffset, performCall,
        StorageManager.storeBlockConcurrently, EStateM.run_bind, StorageManager.absPath, hparent,
        hdir, hentry, RustM.run_getThe, RustM.run_lift_ok, Rust.unwrap_some, if_pos,
        EStateM.run_set, StorageCall.key, StorageCall.request]
      generalize FileWriter.writeChunk _ _ _ _ _ = used
      obtain ⟨w', disk', pc⟩ := used
      cases pc <;> rfl

/-- The effect of `conclude_block_storage`. -/
theorem callEffect_conclude {m : StorageManager} {request : Request} {fileSize chunkSize : ℕ}
    {outcomes : StorageOutcomes} {fresh : FileWriter}
    (hentry : (StorageManager.entryWriter hash (StorageManager.fileRelPath request)
        (StorageManager.fileRelPath request) fileSize chunkSize).run m =
      .ok ((m.fileWriters.get (StorageManager.fileRelPath request)).getD fresh) { m with
        fileWriters :=
          (m.fileWriters.entryOrInsert (StorageManager.fileRelPath request) fresh).1 }) :
    CallEffect hash m (.conclude request fileSize chunkSize outcomes)
      ((m.fileWriters.get (StorageManager.fileRelPath request)).getD fresh) := by
  have hperformed : performedBy hash m (.conclude request fileSize chunkSize outcomes) =
      some ((m.fileWriters.get (StorageManager.fileRelPath request)).getD fresh) := by
    simp [performedBy, openWriter, hentry]
  apply callEffect_of_resultOf hash hperformed
  simp only [resultOf, useWriter, performCall, StorageManager.concludeBlockStorage,
    EStateM.run_bind, hentry, RustM.run_getThe, EStateM.run_set, StorageCall.key,
    StorageCall.request]
  generalize FileWriter.consolidate _ _ _ = used
  obtain ⟨w', disk', pc⟩ := used
  cases pc <;> rfl

/-- What a call that reaches its writer does: the writer is the registered one, or one made
for the call, and the call uses it. -/
theorem callEffect_of_reaches {m : StorageManager} {c : StorageCall}
    (hreach : c.reaches m.config = true) :
    ∃ fresh, MadeFor hash m.config c fresh ∧ Idle fresh ∧
      CallEffect hash m c ((m.fileWriters.get c.key).getD fresh) := by
  obtain ⟨hdir, hpos, hlt⟩ := StorageCall.reaches_iff.mp hreach
  obtain ⟨fresh, hnew, hidle, hpath, hsize, hchunk, hsuffix⟩ :=
    new_eq_ok hash (StorageCall.path m.config c) hpos hlt
  refine ⟨fresh, ⟨hpath, hsize, hchunk, hsuffix⟩, hidle, ?_⟩
  have hentry := entryWriter_run hash m c.key hnew
  cases c with
  | store data request fileSize chunkSize outcomes =>
      obtain ⟨hparent, hcreate⟩ := Bool.and_eq_true_iff.mp hdir
      exact callEffect_store hash hparent (of_decide_eq_true hcreate) hentry
  | conclude request fileSize chunkSize outcomes => exact callEffect_conclude hash hentry

/-- A call that does not reach its writer changes nothing, and does not return `Ok`. -/
theorem performCall_of_not_reaches {m : StorageManager} {c : StorageCall}
    (hreach : ¬ c.reaches m.config = true) :
    callStep hash m c = m ∧ ¬ ReturnsOk hash m c ∧ performedBy hash m c = none := by
  have hentry : c.hasDir m.config = true → ∀ key path, ∃ e,
      (StorageManager.entryWriter hash key path c.fileSize c.chunkSize).run m = .error e m := by
    intro hdir key path
    have hsizes : ¬ (0 < c.chunkSize ∧ c.fileSize + c.chunkSize < 2 ^ 64) :=
      fun h => hreach (StorageCall.reaches_iff.mpr ⟨hdir, h⟩)
    obtain ⟨e, he⟩ := new_eq_error hash path hsizes
    exact ⟨e, by simp [StorageManager.entryWriter, he, EStateM.run_bind]⟩
  cases c with
  | store data request fileSize chunkSize outcomes =>
      by_cases hparent : StorageManager.hasParent
          (m.config.localBaseDir ++ "/" ++ StorageManager.fileRelPath request) = true
      · cases hcreate : outcomes.createDir with
        | ok =>
            have hdir : (StorageCall.store data request fileSize chunkSize outcomes).hasDir
                m.config = true := by
              simp [StorageCall.hasDir, StorageCall.key, StorageCall.request, hparent, hcreate]
            obtain ⟨e, he⟩ := hentry hdir (StorageManager.fileRelPath request)
              (m.config.localBaseDir ++ "/" ++ StorageManager.fileRelPath request)
            simp only [StorageCall.fileSize, StorageCall.chunkSize] at he
            simp [callStep, ReturnsOk, performedBy, performCall, openWriter,
              StorageManager.storeBlockConcurrently, EStateM.run_bind, StorageManager.absPath,
              hparent, hcreate, he]
        | fails n =>
            simp [callStep, ReturnsOk, performedBy, performCall, openWriter,
              StorageManager.storeBlockConcurrently, EStateM.run_bind, StorageManager.absPath,
              hparent, hcreate]
      · simp [callStep, ReturnsOk, performedBy, performCall, openWriter,
          StorageManager.storeBlockConcurrently, EStateM.run_bind, StorageManager.absPath,
          hparent, Rust.unwrap]
  | conclude request fileSize chunkSize outcomes =>
      obtain ⟨e, he⟩ := hentry rfl (StorageManager.fileRelPath request)
        (StorageManager.fileRelPath request)
      simp only [StorageCall.fileSize, StorageCall.chunkSize] at he
      simp [callStep, ReturnsOk, performedBy, performCall, openWriter,
        StorageManager.concludeBlockStorage, EStateM.run_bind, he]

/-! ## What a call does with its writer -/

/-- The flags of the chunks are up only while calls are counted. -/
def Sound (w : FileWriter) : Prop :=
  w.state = .writingChunks 0 → w.writingChunk.all (fun flag => !flag) = true

/-- A sound writer that nobody uses is idle. -/
theorem Sound.idle {w : FileWriter} (h : Sound w) (hstate : w.state = .writingChunks 0) : Idle w :=
  ⟨hstate, h hstate⟩

/-- An idle writer is sound. -/
theorem Idle.sound {w : FileWriter} (h : Idle w) : Sound w := fun _ => h.free

/-- An idle writer has no flag set. -/
theorem Idle.getD {w : FileWriter} (h : Idle w) (i : ℕ) : w.writingChunk.getD i false = false := by
  have hall := h.free
  rw [List.all_eq_true] at hall
  rw [List.getD_eq_getElem?_getD]
  cases hi : w.writingChunk[i]? with
  | none => rfl
  | some b =>
      have hb := hall b (List.mem_of_getElem? hi)
      simpa using hb

/-- What `write_chunk` does to an idle writer: it returns `Ok` having written its chunk, or
it changes nothing, or the call stays counted for ever. -/
theorem writeChunk_idle {w : FileWriter} (h : Idle w) (disk : FileStore) (data : Bytes)
    (offset : ℕ) (outcomes : ℕ → Outcome) :
    ((w.writeChunk disk data offset outcomes).2.2 = .returned (.ok ()) ∧
        (w.writeChunk disk data offset outcomes).1 = w ∧
        (w.fileSize = 0 ∨ GoodChunk data offset w ∧
          HoldsOnly disk (w.writeChunk disk data offset outcomes).2.1
            (w.chunkPath (offset / w.chunkSize)) data)) ∨
      ((∃ e, (w.writeChunk disk data offset outcomes).2.2 = .returned (.error e)) ∧
        ((w.writeChunk disk data offset outcomes).1 = w ∧
            (w.writeChunk disk data offset outcomes).2.1 = disk ∨
          (w.writeChunk disk data offset outcomes).1.state = .writingChunks 1)) := by
  have hprogress := writeChunk_progress data offset h.state (h.getD (offset / w.chunkSize)) disk
    outcomes
  have hend := writeChunk_ends data offset w disk outcomes
  cases hpc : (w.writeChunk disk data offset outcomes).2.2 with
  | returned result =>
      rw [hpc] at hprogress
      cases result with
      | ok u =>
          obtain ⟨hw, hwritten⟩ := hprogress
          refine Or.inl ⟨rfl, hw, ?_⟩
          rcases hwritten with hzero | ⟨hfiles, hgood⟩
          · exact Or.inl hzero
          · exact Or.inr ⟨hgood, hfiles⟩
      | error e => exact Or.inr ⟨⟨e, rfl⟩, hprogress⟩
  | panicked fault =>
      rw [hpc] at hprogress
      exact hprogress.elim
  | check | openEmpty | enter | acquire | openChunk | setLen | writeAll | syncAll | release
  | leave =>
      rw [hpc] at hend
      simp [writeStepsLeft] at hend

/-- A call touches no path but those of its writer. -/
theorem useWriter_frame (w : FileWriter) (disk : FileStore) (c : StorageCall) :
    SameWriter w (useWriter w disk c).1 ∧
      ∀ path, ¬ Uses w path → (useWriter w disk c).2.1.get path = disk.get path := by
  cases c with
  | store data request fileSize chunkSize outcomes =>
      simp only [useWriter]
      cases StorageManager.toUsize request.offset with
      | none => exact ⟨SameWriter.refl w, fun _ _ => rfl⟩
      | some offset =>
          have hframe := writeChunk_frame data offset w disk outcomes.file
          refine ⟨hframe.same, ?_⟩
          intro path hpath
          exact hframe.files path fun i heq => hpath (Or.inr ⟨i, heq⟩)
  | conclude request fileSize chunkSize outcomes =>
      have hframe := consolidate_frame w disk outcomes.file
      exact ⟨hframe.same, hframe.files⟩

/-- A call that leaves its writer without counted calls found it so. -/
theorem state_of_useWriter {w : FileWriter} {disk : FileStore} {c : StorageCall}
    (h : (useWriter w disk c).1.state = .writingChunks 0) : w.state = .writingChunks 0 := by
  cases c with
  | store data request fileSize chunkSize outcomes =>
      simp only [useWriter] at h
      cases hoffset : StorageManager.toUsize request.offset with
      | none =>
          rw [hoffset] at h
          exact h
      | some offset =>
          rw [hoffset] at h
          obtain ⟨m, hle, hstate⟩ := writeChunk_count data offset h
          obtain rfl := Nat.le_zero.mp hle
          exact hstate
  | conclude request fileSize chunkSize outcomes =>
      rcases consolidate_state w disk outcomes.file with heq | ⟨hstate, -⟩
      · have hstate : (w.consolidate disk outcomes.file).1.state = .writingChunks 0 := h
        rwa [heq] at hstate
      · exact hstate

/-- A call keeps the flags in step with the count. -/
theorem Sound.useWriter {w : FileWriter} (h : Sound w) (disk : FileStore) (c : StorageCall) :
    Sound (useWriter w disk c).1 := by
  intro hstate
  have hidle := h.idle (state_of_useWriter hstate)
  cases c with
  | store data request fileSize chunkSize outcomes =>
      simp only [Analysis.useWriter] at hstate ⊢
      cases hoffset : StorageManager.toUsize request.offset with
      | none => exact hidle.free
      | some offset =>
          rw [hoffset] at hstate
          rcases writeChunk_idle hidle disk data offset outcomes.file with
            ⟨-, hw, -⟩ | ⟨-, ⟨hw, -⟩ | hone⟩
          · simpa only [hw] using hidle.free
          · simpa only [hw] using hidle.free
          · rw [hone] at hstate
            cases hstate
  | conclude request fileSize chunkSize outcomes =>
      simp only [Analysis.useWriter]
      rcases consolidate_state w disk outcomes.file with heq | ⟨-, heq⟩
      · simpa only [heq] using hidle.free
      · simpa only [heq, FileWriter.setState_writingChunk] using hidle.free

/-! ## The registry after a sequence of calls -/

section Registry

variable {config : GrizolConfig}

/-- The first call on a key that got to a writer. -/
def firstOn (config : GrizolConfig) (calls : List StorageCall) (key : String) :
    Option StorageCall :=
  calls.find? fun d => d.reaches config && d.key = key

/-- The registry has the writer of the first call on each key. -/
structure RegistryInvariant (config : GrizolConfig) (calls : List StorageCall)
    (m : StorageManager) : Prop where
  sameConfig : m.config = config
  absent : ∀ key, firstOn config calls key = none → m.fileWriters.get key = none
  made : ∀ key first, firstOn config calls key = some first →
    ∃ w, m.fileWriters.get key = some w ∧ MadeFor hash config first w ∧ Sound w

/-- The first call on a key is in the first part, or in the second. -/
theorem firstOn_append (calls calls' : List StorageCall) (key : String) :
    firstOn config (calls ++ calls') key =
      (firstOn config calls key).or (firstOn config calls' key) :=
  List.find?_append

/-- One call that reaches the table is the first on its key. -/
theorem firstOn_singleton_of_reaches {c : StorageCall} (h : c.reaches config = true) :
    firstOn config [c] c.key = some c := by
  simp [firstOn, h]

/-- One on another key is not. -/
theorem firstOn_singleton_of_ne {c : StorageCall} {key : String} (h : c.key ≠ key) :
    firstOn config [c] key = none := by
  simp [firstOn, h]

/-- Nor is one that does not reach it. -/
theorem firstOn_singleton_of_not_reaches {c : StorageCall} (h : ¬ c.reaches config = true)
    (key : String) : firstOn config [c] key = none := by
  simp [firstOn, h]

/-- The first call on a key has the key. -/
theorem key_of_firstOn {calls : List StorageCall} {key : String} {first : StorageCall}
    (h : firstOn config calls key = some first) : first.key = key := by
  have hfound := List.find?_some h
  simp only [Bool.and_eq_true, decide_eq_true_eq] at hfound
  exact hfound.2

/-- A call that reaches its writer goes to the one of the first call on its key. -/
theorem performer_of_reaches {calls : List StorageCall} {m : StorageManager} {c : StorageCall}
    (hinv : RegistryInvariant hash config calls m) (hreach : c.reaches config = true) :
    ∃ first w, firstOn config (calls ++ [c]) c.key = some first ∧ MadeFor hash config first w ∧
      Sound w ∧ (m.fileWriters.get c.key = some w ∨ m.fileWriters.get c.key = none ∧ Idle w) ∧
      CallEffect hash m c w := by
  obtain ⟨fresh, hmade, hidle, heffect⟩ : ∃ fresh, MadeFor hash config c fresh ∧ Idle fresh ∧
      CallEffect hash m c ((m.fileWriters.get c.key).getD fresh) := by
    have hreach' : c.reaches m.config = true := by rwa [hinv.sameConfig]
    rw [← hinv.sameConfig]
    exact callEffect_of_reaches hash hreach'
  rw [firstOn_append]
  cases hfirst : firstOn config calls c.key with
  | none =>
      have hget := hinv.absent c.key hfirst
      rw [hget, Option.getD_none] at heffect
      refine ⟨c, fresh, ?_, hmade, hidle.sound, Or.inr ⟨hget, hidle⟩, heffect⟩
      rw [Option.none_or, firstOn_singleton_of_reaches hreach]
  | some first =>
      obtain ⟨w, hget, hw, hsound⟩ := hinv.made c.key first hfirst
      rw [hget, Option.getD_some] at heffect
      exact ⟨first, w, Option.some_or, hw, hsound, Or.inl hget, heffect⟩

/-- One call keeps the registry invariant. -/
theorem registryInvariant_step {calls : List StorageCall} {m : StorageManager}
    (hinv : RegistryInvariant hash config calls m) (c : StorageCall) :
    RegistryInvariant hash config (calls ++ [c]) (callStep hash m c) := by
  by_cases hreach : c.reaches config = true
  · obtain ⟨first, w, hfirst, hmade, hsound, -, heffect⟩ := performer_of_reaches hash hinv hreach
    have hother : ∀ key, key ≠ c.key → firstOn config (calls ++ [c]) key = firstOn config calls key ∧
        (callStep hash m c).fileWriters.get key = m.fileWriters.get key := by
      intro key hne
      refine ⟨?_, ?_⟩
      · rw [firstOn_append, firstOn_singleton_of_ne (Ne.symm hne), Option.or_none]
      · rw [heffect.writers, if_neg hne]
    refine ⟨heffect.config.trans hinv.sameConfig, ?_, ?_⟩
    · intro key hnone
      by_cases hkey : key = c.key
      · rw [hkey, hfirst] at hnone
        cases hnone
      · obtain ⟨hfirst', hget⟩ := hother key hkey
        rw [hfirst'] at hnone
        rw [hget]
        exact hinv.absent key hnone
    · intro key first' hsome
      by_cases hkey : key = c.key
      · subst hkey
        obtain rfl : first = first' := by rwa [hfirst, Option.some_inj] at hsome
        refine ⟨(useWriter w m.disk c).1, ?_, ?_, hsound.useWriter m.disk c⟩
        · rw [heffect.writers, if_pos rfl]
        · exact hmade.of_sameWriter hash (useWriter_frame w m.disk c).1
      · obtain ⟨hfirst', hget⟩ := hother key hkey
        rw [hfirst'] at hsome
        rw [hget]
        exact hinv.made key first' hsome
  · have hsame : ∀ key, firstOn config (calls ++ [c]) key = firstOn config calls key := by
      intro key
      rw [firstOn_append, firstOn_singleton_of_not_reaches hreach, Option.or_none]
    have hreach' : ¬ c.reaches m.config = true := by rwa [hinv.sameConfig]
    rw [(performCall_of_not_reaches hash hreach').1]
    refine ⟨hinv.sameConfig, ?_, ?_⟩
    · intro key
      rw [hsame]
      exact hinv.absent key
    · intro key first
      rw [hsame]
      exact hinv.made key first

/-- Calls are taken one after the other. -/
theorem afterCalls_append (m : StorageManager) (calls calls' : List StorageCall) :
    afterCalls hash m (calls ++ calls') = afterCalls hash (afterCalls hash m calls) calls' :=
  List.foldl_append

/-- One call is one step. -/
theorem afterCalls_singleton (m : StorageManager) (c : StorageCall) :
    afterCalls hash m [c] = callStep hash m c := rfl

/-- The registry of a new manager after any calls. -/
theorem registryInvariant_afterCalls (config : GrizolConfig) (storageBackends : List String)
    (disk : FileStore) (calls : List StorageCall) :
    RegistryInvariant hash config calls
      (afterCalls hash (StorageManager.new config storageBackends disk) calls) := by
  induction calls using List.reverseRecOn with
  | nil =>
      refine ⟨rfl, ?_, ?_⟩
      · intro key _
        rfl
      · intro key first h
        cases h
  | append_singleton calls c ih =>
      rw [afterCalls_append, afterCalls_singleton]
      exact registryInvariant_step hash ih c

/-- The path below the base directory is not the path from it. -/
theorem absPath_ne_key (m : StorageManager) (key : String) : m.absPath key ≠ key := by
  intro h
  have hlen := congrArg String.length h
  simp only [StorageManager.absPath, String.length_append] at hlen
  have hslash : "/".length = 1 := rfl
  omega

/-- The writers agree with the calls exactly when each call has the sizes of the first one
on its key, which stores. -/
theorem agreement_iff_firstStored (storageBackends : List String) (disk : FileStore)
    (calls : List StorageCall) :
    Agreement hash (StorageManager.new config storageBackends disk) calls ↔
      FirstStored config calls := by
  constructor
  · intro hagree pre c post hcalls hreach
    have hinv := registryInvariant_afterCalls hash config storageBackends disk pre
    obtain ⟨first, w, hfirst, hmade, -, -, heffect⟩ := performer_of_reaches hash hinv hreach
    obtain ⟨hpath, hsize, hchunk⟩ := hagree pre c post hcalls w heffect.performed
    refine ⟨first, hfirst, ?_, hmade.fileSize.symm.trans hsize, hmade.chunkSize.symm.trans hchunk⟩
    by_contra hconclude
    have hkey := key_of_firstOn hfirst
    have hrel : w.filePath = c.key := by
      rw [hmade.filePath, StorageCall.path, if_neg hconclude, hkey]
    exact absPath_ne_key _ _ (hpath.symm.trans hrel)
  · intro hcond pre c post hcalls w hperformed
    have hinv := registryInvariant_afterCalls hash config storageBackends disk pre
    have hreach : c.reaches config = true := by
      by_contra hnot
      rw [← hinv.sameConfig] at hnot
      rw [(performCall_of_not_reaches hash hnot).2.2] at hperformed
      cases hperformed
    obtain ⟨first, w', hfirst, hmade, -, -, heffect⟩ := performer_of_reaches hash hinv hreach
    obtain rfl : w' = w := by
      rw [heffect.performed] at hperformed
      exact Option.some.inj hperformed
    obtain ⟨first', hfirst', hstore, hsize, hchunk⟩ := hcond pre c post hcalls hreach
    obtain rfl : first = first' := by
      have heq := hfirst.symm.trans hfirst'
      exact Option.some.inj heq
    refine ⟨?_, hmade.fileSize.trans hsize, hmade.chunkSize.trans hchunk⟩
    rw [hmade.filePath, StorageCall.path, if_pos hstore, key_of_firstOn hfirst]
    rfl

/-! ## The content of the file -/

/-- The chunks of the version that were stored hold their pieces as long as no call on the
file failed for good. -/
def ChunksHeld (key : String) (content : Bytes) (w' : FileWriter) (m : StorageManager)
    (calls : List StorageCall) : Prop :=
  ∀ w, (afterCalls hash m calls).fileWriters.get key = some w → w.state = .writingChunks 0 →
    ∀ i < chunkCount content.length w'.chunkSize,
      (∃ pre c post, calls = pre ++ c :: post ∧ c.storesBlock key content w'.chunkSize i ∧
        ReturnsOk hash (afterCalls hash m pre) c) →
      (afterCalls hash m calls).disk.get (w'.chunkPath i) =
        some (chunkAt w'.chunkSize content i)

/-- Where a call of a sequence stands: it is the last one, or among those before. -/
theorem split_concat {calls pre post : List StorageCall} {c d : StorageCall}
    (h : calls ++ [d] = pre ++ c :: post) :
    (pre = calls ∧ c = d) ∨ ∃ post', calls = pre ++ c :: post' := by
  induction post using List.reverseRecOn with
  | nil =>
      obtain ⟨hpre, hlast⟩ := List.append_inj' h rfl
      exact Or.inl ⟨hpre.symm, (List.singleton_inj.mp hlast).symm⟩
  | append_singleton post e _ =>
      rw [← List.cons_append, ← List.append_assoc] at h
      exact Or.inr ⟨post, (List.append_inj' h rfl).1⟩

/-- A file a call of the sequence returned `Ok` for has a writer. -/
theorem registered_of_ok {before calls pre post : List StorageCall} {c : StorageCall}
    {m : StorageManager} (hcalls : calls = pre ++ c :: post) (hok : ReturnsOk hash (afterCalls hash m pre) c)
    (hinv : ∀ calls, RegistryInvariant hash config (before ++ calls) (afterCalls hash m calls)) :
    ∃ w, (afterCalls hash m calls).fileWriters.get c.key = some w := by
  have hreach : c.reaches config = true := by
    by_contra hnot
    rw [← (hinv pre).sameConfig] at hnot
    exact (performCall_of_not_reaches hash hnot).2.1 hok
  cases hfirst : firstOn config (before ++ calls) c.key with
  | some first =>
      obtain ⟨w, hget, -⟩ := (hinv calls).made c.key first hfirst
      exact ⟨w, hget⟩
  | none =>
      have hmem : c ∈ before ++ calls := by
        rw [hcalls]
        simp
      have hnot := List.find?_eq_none.mp hfirst c hmem
      simp [hreach] at hnot

/-- A cast that succeeds keeps the number. -/
theorem toUsize_eq_some {x : Int64} {n : ℕ} (h : StorageManager.toUsize x = some n) :
    x.toInt = (n : ℤ) := by
  unfold StorageManager.toUsize at h
  split_ifs at h with hpos
  obtain rfl := Option.some.inj h
  exact (Int.toNat_of_nonneg hpos).symm

/-- A call that stores a block of a file has its key. -/
theorem key_of_storesBlock {key : String} {content : Bytes} {cs i : ℕ} {c : StorageCall}
    (h : c.storesBlock key content cs i) : c.key = key := by
  cases c with
  | store data request fileSize chunkSize outcomes => exact h.1
  | conclude request fileSize chunkSize outcomes => exact h.elim

/-- The position a block of a version is stored at. -/
theorem offset_of_storesBlock {key : String} {content data : Bytes} {cs i offset : ℕ}
    {request : Request} {fileSize chunkSize : ℕ} {outcomes : StorageOutcomes}
    (h : StorageCall.storesBlock key content cs i
      (.store data request fileSize chunkSize outcomes))
    (hoffset : StorageManager.toUsize request.offset = some offset) : offset = i * cs := by
  have heq := (toUsize_eq_some hoffset).symm.trans h.2.1
  exact_mod_cast heq

/-- A call on another file leaves the chunks of this one alone. -/
theorem chunksHeld_other {key : String} {content : Bytes} {w' : FileWriter} {m : StorageManager}
    {calls : List StorageCall} {d : StorageCall} {w₁ : FileWriter}
    (heffect : CallEffect hash (afterCalls hash m calls) d w₁) (hkey : d.key ≠ key)
    (hapart : ∀ path, Uses w₁ path → ¬ Uses w' path)
    (hheld : ChunksHeld hash key content w' m calls) :
    ChunksHeld hash key content w' m (calls ++ [d]) := by
  rintro w hget hstate i hi ⟨pre, c, post, hsplit, hblock, hok⟩
  have hckey := key_of_storesBlock hblock
  rw [afterCalls_append, afterCalls_singleton, heffect.writers, if_neg (Ne.symm hkey)] at hget
  obtain ⟨-, rfl⟩ | ⟨post', hcalls⟩ := split_concat hsplit
  · exact absurd hckey hkey
  · have hunused : ¬ Uses w₁ (w'.chunkPath i) := by
      intro huses
      exact hapart _ huses (Or.inr ⟨i, rfl⟩)
    rw [afterCalls_append, afterCalls_singleton, heffect.disk,
      (useWriter_frame w₁ _ d).2 _ hunused]
    exact hheld w hget hstate i hi ⟨pre, c, post', hcalls, hblock, hok⟩

/-- A call that stores a block of the version holds it, and keeps those held. -/
theorem chunksHeld_store {key : String} {content : Bytes} {w' : FileWriter} {m : StorageManager}
    {calls : List StorageCall} {d : StorageCall} {w₁ : FileWriter}
    (heffect : CallEffect hash (afterCalls hash m calls) d w₁) (hkey : d.key = key)
    (hstore : d.isStore = true) (hsame : SameWriter w' w₁)
    (hsize : w'.fileSize = content.length) (hsound : Sound w₁)
    (hregistered : ∀ pre c post, calls = pre ++ c :: post → c.key = key →
      ReturnsOk hash (afterCalls hash m pre) c →
      (afterCalls hash m calls).fileWriters.get key = some w₁)
    (hown : ReturnsOk hash (afterCalls hash m calls) d →
      ∃ j, d.storesBlock key content w'.chunkSize j)
    (hheld : ChunksHeld hash key content w' m calls) :
    ChunksHeld hash key content w' m (calls ++ [d]) := by
  rintro w hget hstate i hi ⟨pre, c, post, hsplit, hblock, hok⟩
  have hckey := key_of_storesBlock hblock
  -- the writer is idle before the call too
  rw [afterCalls_append, afterCalls_singleton, heffect.writers, if_pos hkey.symm,
    Option.some_inj] at hget
  rw [← hget] at hstate
  have hstate₁ := state_of_useWriter hstate
  have hidle := hsound.idle hstate₁
  have hbefore : ∀ post', calls = pre ++ c :: post' →
      (afterCalls hash m calls).disk.get (w'.chunkPath i) =
        some (chunkAt w'.chunkSize content i) := by
    intro post' hcalls
    exact hheld w₁ (hregistered pre c post' hcalls hckey hok) hstate₁ i hi
      ⟨pre, c, post', hcalls, hblock, hok⟩
  -- a call that did not return `Ok` is not the one that stored block `i`
  have hfailed : ¬ ReturnsOk hash (afterCalls hash m calls) d →
      (afterCalls hash m calls).disk.get (w'.chunkPath i) =
        some (chunkAt w'.chunkSize content i) := by
    intro hnot
    obtain ⟨rfl, rfl⟩ | ⟨post', hcalls⟩ := split_concat hsplit
    · exact absurd hok hnot
    · exact hbefore post' hcalls
  rw [afterCalls_append, afterCalls_singleton, heffect.disk]
  cases d with
  | conclude request fileSize chunkSize outcomes => cases hstore
  | store data request fileSize chunkSize outcomes =>
      cases hoffset : StorageManager.toUsize request.offset with
      | none =>
          have hnot : ¬ ReturnsOk hash (afterCalls hash m calls)
              (.store data request fileSize chunkSize outcomes) := by
            rw [heffect.ok]
            simp [useWriter, hoffset]
          simp only [useWriter, hoffset]
          exact hfailed hnot
      | some offset =>
          have hresult := heffect.ok
          simp only [useWriter, hoffset] at hstate hresult ⊢
          rcases writeChunk_idle hidle (afterCalls hash m calls).disk data offset outcomes.file with
            ⟨hpc, hw₁, hzero | ⟨hgood, hfiles⟩⟩ | ⟨⟨e, he⟩, ⟨hw₁, hdisk⟩ | hone⟩
          · have hinside := (lt_chunkCount_iff w'.chunkSize_pos).mp hi
            rw [← hsize, ← hsame.fileSize, hzero] at hinside
            exact absurd hinside (Nat.not_lt_zero _)
          · rw [hpc] at hresult
            obtain ⟨j, hj⟩ := hown (hresult.mpr rfl)
            have hpos : offset / w₁.chunkSize = j := by
              rw [offset_of_storesBlock hj hoffset, hsame.chunkSize,
                Nat.mul_div_cancel _ w'.chunkSize_pos]
            rw [hfiles, hpos, hsame.chunkPath]
            split_ifs with hpath
            · obtain rfl := w'.chunkPath_inj hpath
              rw [hj.2.2.1]
            · obtain ⟨-, rfl⟩ | ⟨post', hcalls⟩ := split_concat hsplit
              · have hi' : i * w'.chunkSize = j * w'.chunkSize :=
                  (offset_of_storesBlock hblock hoffset).symm.trans
                    (offset_of_storesBlock hj hoffset)
                obtain rfl := Nat.eq_of_mul_eq_mul_right w'.chunkSize_pos hi'
                exact absurd rfl hpath
              · exact hbefore post' hcalls
          · rw [he] at hresult
            rw [hdisk]
            exact hfailed (by simp [hresult])
          · rw [hone] at hstate
            cases hstate

/-- A call that does not get to its writer changes nothing. -/
theorem chunksHeld_unreached {key : String} {content : Bytes} {w' : FileWriter}
    {m : StorageManager} {calls : List StorageCall} {d : StorageCall}
    (hreach : ¬ d.reaches (afterCalls hash m calls).config = true)
    (hheld : ChunksHeld hash key content w' m calls) :
    ChunksHeld hash key content w' m (calls ++ [d]) := by
  obtain ⟨hsame, hnot, -⟩ := performCall_of_not_reaches hash hreach
  rintro w hget hstate i hi ⟨pre, c, post, hsplit, hblock, hok⟩
  rw [afterCalls_append, afterCalls_singleton, hsame] at hget ⊢
  obtain ⟨rfl, rfl⟩ | ⟨post', hcalls⟩ := split_concat hsplit
  · exact absurd hok hnot
  · exact hheld w hget hstate i hi ⟨pre, c, post', hcalls, hblock, hok⟩

/-- While the blocks of a version are stored, those stored are held. Every writer in the
registry for its key is `w'` at an earlier time. -/
theorem chunksHeld_of_stored {before seg : List StorageCall} {key : String} {content : Bytes}
    {w' : FileWriter} {m : StorageManager} {first : StorageCall}
    (hinv : ∀ calls, RegistryInvariant hash config (before ++ calls) (afterCalls hash m calls))
    (hmade : MadeFor hash config first w')
    (hfirst : ∀ calls rest, seg = calls ++ rest → ∀ first',
      firstOn config (before ++ calls) key = some first' → first' = first)
    (hsize : w'.fileSize = content.length)
    (hget : (afterCalls hash m seg).fileWriters.get key = some w')
    (hstored : StoredVersion hash m seg key content w'.chunkSize) :
    ∀ calls rest, seg = calls ++ rest → ChunksHeld hash key content w' m calls := by
  intro calls
  induction calls using List.reverseRecOn with
  | nil =>
      rintro rest - w - - i - ⟨pre, c, post, hnil, -⟩
      simp at hnil
  | append_singleton calls d ih =>
      intro rest hseg
      have hseg' : seg = calls ++ d :: rest := by
        rw [hseg, List.append_assoc, List.singleton_append]
      have hheld := ih (d :: rest) hseg'
      by_cases hreach : d.reaches config = true
      · obtain ⟨first', w₁, hfirst', hmade₁, hsound, hwriter, heffect⟩ :=
          performer_of_reaches hash (hinv calls) hreach
        by_cases hkey : d.key = key
        · rw [hkey, List.append_assoc] at hfirst'
          obtain rfl := hfirst _ rest hseg first' hfirst'
          obtain ⟨hstore, hown⟩ := hstored.own calls d rest hseg' hkey
          apply chunksHeld_store hash heffect hkey hstore (hmade.sameWriter hash hmade₁) hsize
            hsound _ hown hheld
          intro pre c post hcalls hckey hok
          obtain ⟨w, hw⟩ := registered_of_ok hash hcalls hok hinv
          rcases hwriter with hregistered | ⟨habsent, -⟩
          · rwa [hkey] at hregistered
          · rw [hkey, ← hckey, hw] at habsent
            cases habsent
        · exact chunksHeld_other hash heffect hkey
            (hstored.apart calls d rest hseg' hkey w₁ heffect.performed w' hget) hheld
      · rw [← (hinv calls).sameConfig] at hreach
        exact chunksHeld_unreached hash hreach hheld

/-- Writers that agree with the calls deliver the versions stored through them. -/
theorem delivery_of_firstStored {storageBackends : List String} {disk : FileStore}
    {calls : List StorageCall} (hcond : FirstStored config calls) :
    Delivery hash (StorageManager.new config storageBackends disk) calls := by
  intro pre seg c post hcalls hconclude content hlen hstored hok
  have hinv : ∀ calls', RegistryInvariant hash config (pre ++ calls') (afterCalls hash
      (afterCalls hash (StorageManager.new config storageBackends disk) pre) calls') := by
    intro calls'
    rw [← afterCalls_append]
    exact registryInvariant_afterCalls hash config storageBackends disk (pre ++ calls')
  have hreach : c.reaches config = true := by
    by_contra hnot
    rw [← (hinv seg).sameConfig, ← afterCalls_append] at hnot
    exact (performCall_of_not_reaches hash hnot).2.1 hok
  rw [afterCalls_append] at hok
  obtain ⟨first, w', hfirst, hmade, hsound, hwriter, heffect⟩ :=
    performer_of_reaches hash (hinv seg) hreach
  obtain ⟨first', hfirst', hstore, hsize, hchunk⟩ := hcond (pre ++ seg) c post hcalls hreach
  obtain rfl : first = first' := Option.some.inj (hfirst.symm.trans hfirst')
  have hpath : w'.filePath = config.localBaseDir ++ "/" ++ c.key := by
    rw [hmade.filePath, StorageCall.path, if_pos hstore, key_of_firstOn hfirst]
  have hsize' : w'.fileSize = content.length := hmade.fileSize.trans (hsize.trans hlen)
  rw [← hchunk, ← hmade.chunkSize] at hstored
  -- the chunks of the version are on the disk when the file is concluded
  have hpresent : w'.state = .writingChunks 0 → Present w' content
      (afterCalls hash (afterCalls hash (StorageManager.new config storageBackends disk) pre)
        seg).disk 0 := by
    intro hstate i _ hi
    rw [w'.writingChunk_length, hsize'] at hi
    obtain ⟨pre', d, post', hseg, hblock, hokd⟩ := hstored.blocks i hi
    have hget : (afterCalls hash (afterCalls hash
        (StorageManager.new config storageBackends disk) pre) seg).fileWriters.get c.key =
        some w' := by
      obtain ⟨w, hw⟩ := registered_of_ok hash hseg hokd hinv
      rw [key_of_storesBlock hblock] at hw
      rcases hwriter with hregistered | ⟨habsent, -⟩
      · exact hregistered
      · rw [hw] at habsent
        cases habsent
    have hfirsts : ∀ calls rest, seg = calls ++ rest → ∀ first',
        firstOn config (pre ++ calls) c.key = some first' → first' = first := by
      rintro calls' rest rfl first' hfirst'
      rw [← List.append_assoc, List.append_assoc, firstOn_append, hfirst', Option.some_or] at hfirst
      exact Option.some.inj hfirst
    exact chunksHeld_of_stored hash hinv hmade hfirsts hsize' hget hstored seg []
      (List.append_nil seg).symm w' hget hstate i hi ⟨pre', d, post', hseg, hblock, hokd⟩
  rw [afterCalls_append, afterCalls_singleton, afterCalls_append, heffect.disk]
  rw [heffect.ok] at hok
  cases c with
  | store data request fileSize chunkSize outcomes => cases hconclude
  | conclude request fileSize chunkSize outcomes =>
      obtain ⟨result, hpc⟩ := consolidate_ends w' (afterCalls hash (afterCalls hash
        (StorageManager.new config storageBackends disk) pre) seg).disk outcomes.file
      simp only [useWriter, hpc] at hok ⊢
      obtain rfl : result = .ok () := Except.ok.inj hok
      have hstate := state_of_consolidate_ok hpc
      have hcontent := consolidate_content hsize'.symm hstate (hsound hstate) (hpresent hstate) hpc
      rw [hpath] at hcontent
      exact hcontent

/-- **Each call goes to the writer it asks for, and stored versions arrive, exactly when
every call has the sizes of the first call on its key, and that one stores.** -/
theorem writers_agree_iff_firstStored (config : GrizolConfig) (storageBackends : List String)
    (disk : FileStore) (calls : List StorageCall) :
    (Agreement hash (StorageManager.new config storageBackends disk) calls ∧
        Delivery hash (StorageManager.new config storageBackends disk) calls) ↔
      FirstStored config calls := by
  constructor
  · rintro ⟨hagree, -⟩
    exact (agreement_iff_firstStored hash storageBackends disk calls).mp hagree
  · intro hcond
    exact ⟨(agreement_iff_firstStored hash storageBackends disk calls).mpr hcond,
      delivery_of_firstStored hash hcond⟩

end Registry

/-! ## A file that changed its size -/

/-- A manager without a backend, before any call. -/
def exampleManager : StorageManager :=
  StorageManager.new ⟨⟨Vector.replicate 32 0⟩, "base", .localRemote, none, ""⟩ [] AssocMap.empty

/-- A request of two bytes of one file. -/
def exampleRequest (offset : Int64) : Request :=
  { folder := "folder", name := "name", offset := offset, size := 2 }

/-- The second block of a file of two blocks is stored. -/
def storeOld : StorageCall := .store [3, 4] (exampleRequest 2) 4 2 ⟨.ok, fun _ => .ok⟩

/-- Then its only block, after it shrank. -/
def storeNew : StorageCall := .store [5, 6] (exampleRequest 0) 2 2 ⟨.ok, fun _ => .ok⟩

/-- A consolidation, with no block stored before it. -/
def concludeNew : StorageCall := .conclude (exampleRequest 0) 2 2 ⟨.ok, fun _ => .ok⟩

/-- The new block of a file that shrank goes to the writer of the old size, and the file
that is concluded ends with the old block. -/
theorem shrunkFile_not_agreed :
    ¬ Agreement (fun _ _ _ => 0) exampleManager [storeOld, storeNew, concludeNew] ∧
    ¬ Delivery (fun _ _ _ => 0) exampleManager [storeOld, storeNew, concludeNew] := by
  constructor
  · intro hagree
    have hwriter : (performedBy (fun _ _ _ => 0)
        (afterCalls (fun _ _ _ => 0) exampleManager [storeOld]) storeNew).map
          FileWriter.fileSize = some 4 := by decide
    obtain ⟨w, hw, hfour⟩ := Option.map_eq_some_iff.mp hwriter
    obtain ⟨-, hsize, -⟩ := hagree [storeOld] storeNew [concludeNew] rfl w hw
    rw [hfour] at hsize
    exact absurd hsize (by decide)
  · intro hdelivery
    have hsplit : ∀ pre c post, [storeNew] = pre ++ c :: post → pre = [] ∧ c = storeNew := by
      intro pre c post h
      rw [← List.nil_append [storeNew]] at h
      obtain ⟨hpre, hc⟩ | ⟨post', hnil⟩ := split_concat h
      · exact ⟨hpre, hc⟩
      · simp at hnil
    have hstored : StoredVersion (fun _ _ _ => 0)
        (afterCalls (fun _ _ _ => 0) exampleManager [storeOld]) [storeNew] concludeNew.key
        [5, 6] 2 := by
      refine ⟨?_, ?_, ?_⟩
      · intro i hi
        obtain rfl : i = 0 := by
          have hone : chunkCount 2 2 = 1 := rfl
          have hlt : i < chunkCount 2 2 := hi
          omega
        exact ⟨[], storeNew, [], rfl, ⟨rfl, rfl, rfl, rfl, rfl⟩, by decide⟩
      · intro pre c post h _
        obtain ⟨rfl, rfl⟩ := hsplit pre c post h
        exact ⟨rfl, fun _ => ⟨0, rfl, rfl, rfl, rfl, rfl⟩⟩
      · intro pre c post h hkey
        obtain ⟨rfl, rfl⟩ := hsplit pre c post h
        exact absurd rfl hkey
    have hcontent := hdelivery [storeOld] [storeNew] concludeNew [] rfl rfl [5, 6] rfl hstored
      (by decide)
    exact absurd hcontent (by decide)

end Grizol.Analysis

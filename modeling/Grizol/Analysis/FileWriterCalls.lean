import Grizol.Interface.StorageCalls

/-!
# Single calls of the file writer

What a call of `write_chunk` or `consolidate` that is not interleaved with another
has done when it returns, whatever the outcomes of its file operations: which files
it may have touched, and what they hold when it returned `Ok`.
-/

set_option autoImplicit false

namespace Grizol.Analysis

open Grizol.Library Grizol.Model Grizol.Interface

/-- Two states of the writer of one file. -/
structure SameWriter (w w' : FileWriter) : Prop where
  filePath : w'.filePath = w.filePath
  fileSize : w'.fileSize = w.fileSize
  chunkSize : w'.chunkSize = w.chunkSize
  suffix : w'.suffix = w.suffix

/-- A writer is the same as itself. -/
theorem SameWriter.refl (w : FileWriter) : SameWriter w w := ⟨rfl, rfl, rfl, rfl⟩

/-- What is the same twice is the same. -/
theorem SameWriter.trans {w w' w'' : FileWriter} (h : SameWriter w w') (h' : SameWriter w' w'') :
    SameWriter w w'' :=
  ⟨h'.filePath.trans h.filePath, h'.fileSize.trans h.fileSize, h'.chunkSize.trans h.chunkSize,
    h'.suffix.trans h.suffix⟩

/-- It has as many chunks. -/
theorem SameWriter.length {w w' : FileWriter} (h : SameWriter w w') :
    w'.writingChunk.length = w.writingChunk.length := by
  rw [w'.writingChunk_length, w.writingChunk_length, h.fileSize, h.chunkSize]

/-- And the same files for them. -/
theorem SameWriter.chunkPath {w w' : FileWriter} (h : SameWriter w w') (i : ℕ) :
    w'.chunkPath i = w.chunkPath i := by
  simp only [FileWriter.chunkPath, h.filePath, h.suffix]

/-- And so uses the same paths. -/
theorem SameWriter.uses {w w' : FileWriter} (h : SameWriter w w') (path : String) :
    Uses w' path ↔ Uses w path := by
  simp only [Uses, h.filePath, h.chunkPath]

/-- A writer that was just made. -/
theorem new_spec {hash : String → ℕ → ℕ → UInt64} {filePath : String} {fileSize chunkSize : ℕ}
    {w : FileWriter} (h : FileWriter.new hash filePath fileSize chunkSize = .ok w) :
    w.filePath = filePath ∧ w.fileSize = fileSize ∧ w.chunkSize = chunkSize ∧
      w.state = .writingChunks 0 ∧ w.writingChunk.all (fun flag => !flag) = true := by
  simp only [FileWriter.new, Rust.bind_eq_ok] at h
  obtain ⟨_, _, _, _, _, _, h⟩ := h
  split_ifs at h
  obtain rfl := Except.ok.inj h
  exact ⟨rfl, rfl, rfl, rfl, by simp⟩

/-! ## `write_chunk` -/

section Write

variable (data : Bytes) (offset : ℕ)

/-- From one point of a call to a later one: the writer is that of the same file, and only
files of chunks were touched. -/
structure WriteFrame (s s' : FileWriter × FileStore × FileWriter.WritePc) : Prop where
  same : SameWriter s.1 s'.1
  files : ∀ path, (∀ i, path ≠ s.1.chunkPath i) → s'.2.1.get path = s.2.1.get path

/-- A step of `write_chunk` touches no file but those of the chunks. -/
theorem writeStep_frame (w : FileWriter) (files : FileStore) (outcome : Outcome)
    (pc : FileWriter.WritePc) :
    WriteFrame (w, files, pc) (w.writeStep files data offset outcome pc) := by
  have hsame : SameWriter w w := SameWriter.refl w
  have hstate : ∀ st, SameWriter w (w.setState st) := fun _ => ⟨rfl, rfl, rfl, rfl⟩
  have hflag : ∀ i b, SameWriter w (w.setWriting i b) := fun _ _ => ⟨rfl, rfl, rfl, rfl⟩
  have hinsert : ∀ i content path, (∀ i, path ≠ w.chunkPath i) →
      (files.insert (w.chunkPath i) content).get path = files.get path :=
    fun i content path h => AssocMap.get_insert_of_ne _ _ (h i)
  have hupdate : ∀ i f path, (∀ i, path ≠ w.chunkPath i) →
      (FileStore.update files (w.chunkPath i) f).get path = files.get path := by
    intro i f path h
    rw [FileStore.get_update, if_neg (h i)]
  cases pc with
  | check => exact ⟨hsame, fun _ _ => rfl⟩
  | openEmpty =>
      cases outcome with
      | ok => exact ⟨hsame, hinsert 0 []⟩
      | fails n => exact ⟨hsame, fun _ _ => rfl⟩
  | enter =>
      simp only [FileWriter.writeStep]
      split
      · exact ⟨hsame, fun _ _ => rfl⟩
      · exact ⟨hstate _, fun _ _ => rfl⟩
  | acquire =>
      simp only [FileWriter.writeStep, FileWriter.compareExchange]
      split_ifs
      · exact ⟨hsame, fun _ _ => rfl⟩
      · exact ⟨hflag _ _, fun _ _ => rfl⟩
  | openChunk =>
      cases outcome with
      | ok => exact ⟨hsame, hinsert _ []⟩
      | fails n => exact ⟨hflag _ _, fun _ _ => rfl⟩
  | setLen =>
      cases outcome with
      | ok => exact ⟨hsame, hupdate _ _⟩
      | fails n => exact ⟨hsame, fun _ _ => rfl⟩
  | writeAll =>
      cases outcome with
      | ok => exact ⟨hsame, hupdate _ _⟩
      | fails n => exact ⟨hsame, hupdate _ _⟩
  | syncAll =>
      cases outcome with
      | ok => exact ⟨hsame, fun _ _ => rfl⟩
      | fails n => exact ⟨hsame, fun _ _ => rfl⟩
  | release => exact ⟨hflag _ _, fun _ _ => rfl⟩
  | leave =>
      simp only [FileWriter.writeStep]
      split
      · exact ⟨hsame, fun _ _ => rfl⟩
      · exact ⟨hstate _, fun _ _ => rfl⟩
      · exact ⟨hsame, fun _ _ => rfl⟩
  | returned r => exact ⟨hsame, fun _ _ => rfl⟩
  | panicked f => exact ⟨hsame, fun _ _ => rfl⟩

/-- Two steps of a write leave what each does. -/
theorem WriteFrame.trans {s s' s'' : FileWriter × FileStore × FileWriter.WritePc}
    (h : WriteFrame s s') (h' : WriteFrame s' s'') : WriteFrame s s'' := by
  refine ⟨h.same.trans h'.same, ?_⟩
  intro path hpath
  have hpath' : ∀ i, path ≠ s'.1.chunkPath i := by
    intro i
    rw [h.same.chunkPath]
    exact hpath i
  exact (h'.files path hpath').trans (h.files path hpath)

/-- So does a whole call. -/
theorem writeChunk_frame (w : FileWriter) (files : FileStore) (outcomes : ℕ → Outcome) :
    WriteFrame (w, files, .check) (w.writeChunk files data offset outcomes) := by
  apply Transition.runFor_rel WriteFrame
  · intro s
    exact ⟨SameWriter.refl _, fun _ _ => rfl⟩
  · intro s s' s''
    exact WriteFrame.trans
  · rintro outcome ⟨w, files, pc⟩
    exact writeStep_frame data offset w files outcome pc

/-- Whether a call has counted itself in the state of the writer. -/
def inside : FileWriter.WritePc → ℕ
  | .check | .openEmpty | .enter | .returned _ | .panicked _ => 0
  | .acquire | .openChunk | .setLen | .writeAll | .syncAll | .release | .leave => 1

/-- A step leaves the state of the writer `Consolidating` if it was, and never counts fewer
calls than are there. -/
theorem writeStep_count {w : FileWriter} {files : FileStore} {outcome : Outcome}
    {pc : FileWriter.WritePc} {n : ℕ}
    (h : (w.writeStep files data offset outcome pc).1.state = .writingChunks n) :
    ∃ m, w.state = .writingChunks m ∧
      m + inside (w.writeStep files data offset outcome pc).2.2 ≤ n + inside pc := by
  cases pc with
  | check =>
      refine ⟨n, h, ?_⟩
      simp only [FileWriter.writeStep, FileWriter.checkChunk]
      split_ifs <;> simp [inside]
  | enter =>
      simp only [FileWriter.writeStep] at h ⊢
      split at h
      · rename_i hstate
        rw [hstate] at h
        cases h
      · rename_i m hstate
        have hn : m + 1 = n := by simpa using h
        simp only [hstate, inside]
        exact ⟨m, rfl, by omega⟩
  | acquire =>
      simp only [FileWriter.writeStep, FileWriter.compareExchange] at h ⊢
      split_ifs at h ⊢
      · exact ⟨n, h, Nat.le_refl _⟩
      · exact ⟨n, h, Nat.le_refl _⟩
  | leave =>
      simp only [FileWriter.writeStep] at h ⊢
      split at h
      · exact ⟨n, h, by simp [inside]⟩
      · rename_i m hstate
        have hn : m = n := by simpa using h
        simp only [hstate, inside]
        exact ⟨m + 1, rfl, by omega⟩
      · rename_i hstate
        rw [hstate] at h
        cases h
  | openEmpty | openChunk | setLen | writeAll | syncAll =>
      cases outcome with
      | ok => exact ⟨n, h, Nat.le_refl _⟩
      | fails k => exact ⟨n, h, by simp [FileWriter.writeStep, inside]⟩
  | release | returned r | panicked f => exact ⟨n, h, Nat.le_refl _⟩

/-- A call on its own does not leave fewer calls counted. -/
theorem writeChunk_count {w : FileWriter} {files : FileStore} {outcomes : ℕ → Outcome} {n : ℕ}
    (h : (w.writeChunk files data offset outcomes).1.state = .writingChunks n) :
    ∃ m, m ≤ n ∧ w.state = .writingChunks m := by
  have hrun : ∀ n, (w.writeChunk files data offset outcomes).1.state = .writingChunks n →
      ∃ m, w.state = .writingChunks m ∧
        m + inside (w.writeChunk files data offset outcomes).2.2 ≤ n + inside .check := by
    apply Transition.runFor_rel (R := fun s s' : FileWriter × FileStore × FileWriter.WritePc =>
      ∀ n, s'.1.state = .writingChunks n →
        ∃ m, s.1.state = .writingChunks m ∧ m + inside s'.2.2 ≤ n + inside s.2.2)
    · intro s n h
      exact ⟨n, h, Nat.le_refl _⟩
    · intro s s' s'' hfirst hsecond n h
      obtain ⟨m', hm', hle'⟩ := hsecond n h
      obtain ⟨m, hm, hle⟩ := hfirst m' hm'
      exact ⟨m, hm, by omega⟩
    · rintro outcome ⟨w, files, pc⟩ n h
      exact writeStep_count data offset h
  obtain ⟨m, hm, hle⟩ := hrun n h
  refine ⟨m, ?_, hm⟩
  simp only [inside] at hle
  omega

/-- The steps a call still takes at most. -/
def writeStepsLeft : FileWriter.WritePc → ℕ
  | .check => 9
  | .enter => 8
  | .acquire => 7
  | .openChunk => 6
  | .setLen => 5
  | .writeAll => 4
  | .syncAll => 3
  | .release => 2
  | .openEmpty | .leave => 1
  | .returned _ | .panicked _ => 0

/-- A step of a write leaves fewer steps. -/
theorem writeStep_stepsLeft (w : FileWriter) (files : FileStore) (outcome : Outcome)
    (pc : FileWriter.WritePc) :
    writeStepsLeft (w.writeStep files data offset outcome pc).2.2 ≤ writeStepsLeft pc - 1 := by
  cases pc with
  | check =>
      simp only [FileWriter.writeStep, FileWriter.checkChunk]
      split_ifs <;> simp [writeStepsLeft]
  | enter | leave =>
      simp only [FileWriter.writeStep]
      split <;> simp [writeStepsLeft]
  | acquire =>
      simp only [FileWriter.writeStep, FileWriter.compareExchange]
      split_ifs <;> simp [writeStepsLeft]
  | openEmpty | openChunk | setLen | writeAll | syncAll =>
      cases outcome <;> simp [FileWriter.writeStep, writeStepsLeft]
  | release | returned r | panicked f => simp [FileWriter.writeStep, writeStepsLeft]

/-- A call on its own comes to an end. -/
theorem writeChunk_ends (w : FileWriter) (files : FileStore) (outcomes : ℕ → Outcome) :
    writeStepsLeft (w.writeChunk files data offset outcomes).2.2 = 0 := by
  apply Transition.runFor_measure
    (fun s : FileWriter × FileStore × FileWriter.WritePc => writeStepsLeft s.2.2)
  · rintro outcome ⟨w, files, pc⟩
    exact writeStep_stepsLeft data offset w files outcome pc
  · simp [writeStepsLeft]

/-- What the arguments of `write_chunk` must satisfy. -/
structure GoodChunk (w : FileWriter) : Prop where
  aligned : offset % w.chunkSize = 0
  inside : offset < w.fileSize
  length : data.length = w.chunkSize ∨
    data.length < w.chunkSize ∧ offset = w.fileSize / w.chunkSize * w.chunkSize

/-- One file holds `content`, the others are as they were. -/
def HoldsOnly (files₀ files : FileStore) (path : String) (content : Bytes) : Prop :=
  ∀ path', files.get path' = if path' = path then some content else files₀.get path'

/-- Changing the file changes its content. -/
theorem HoldsOnly.update {files₀ files : FileStore} {path : String} {content : Bytes}
    (h : HoldsOnly files₀ files path content) (f : Bytes → Bytes) :
    HoldsOnly files₀ (FileStore.update files path f) path (f content) := by
  intro path'
  rw [FileStore.get_update, h path']
  split_ifs <;> rfl

/-- Where a call that finds its chunk free stands: what it has written, and what it has
to give back. -/
def WriteProgress (w₀ : FileWriter) (files₀ : FileStore) (n : ℕ) (w : FileWriter)
    (files : FileStore) : FileWriter.WritePc → Prop :=
  let chunk := w₀.chunkPath (offset / w₀.chunkSize)
  let counted := w₀.setState (.writingChunks (n + 1))
  let held := counted.setWriting (offset / w₀.chunkSize) true
  fun pc => match pc with
  | .check => w = w₀ ∧ files = files₀
  | .openEmpty => w = w₀ ∧ files = files₀ ∧ w₀.fileSize = 0
  | .enter => w = w₀ ∧ files = files₀ ∧ GoodChunk data offset w₀
  | .acquire => w = counted ∧ files = files₀ ∧ GoodChunk data offset w₀
  | .openChunk => w = held ∧ files = files₀ ∧ GoodChunk data offset w₀
  | .setLen => w = held ∧ HoldsOnly files₀ files chunk [] ∧ GoodChunk data offset w₀
  | .writeAll => w = held ∧
      HoldsOnly files₀ files chunk (FileStore.resize [] data.length) ∧ GoodChunk data offset w₀
  | .syncAll | .release => w = held ∧ HoldsOnly files₀ files chunk data ∧ GoodChunk data offset w₀
  | .leave => w = counted ∧ HoldsOnly files₀ files chunk data ∧ GoodChunk data offset w₀
  | .returned (.ok _) => w = w₀ ∧
      (w₀.fileSize = 0 ∨ HoldsOnly files₀ files chunk data ∧ GoodChunk data offset w₀)
  | .returned (.error _) => w = w₀ ∧ files = files₀ ∨ w.state = .writingChunks (n + 1)
  | .panicked _ => False

/-- The last state counts. -/
theorem setState_setState (w : FileWriter) (st st' : FileWriterState) :
    (w.setState st).setState st' = w.setState st' := rfl

/-- Setting the state it has changes nothing. -/
theorem setState_self {w : FileWriter} {st : FileWriterState} (h : w.state = st) :
    w.setState st = w := by
  subst h
  rfl

/-- Giving a flag back that was free restores the writer. -/
theorem setWriting_release {w : FileWriter} {i : ℕ} (h : w.writingChunk.getD i false = false) :
    (w.setWriting i true).setWriting i false = w := by
  have hlist : (w.writingChunk.set i true).set i false = w.writingChunk := by
    rw [List.set_set]
    apply List.ext_getElem (List.length_set ..)
    intro j hj hj'
    rw [List.getElem_set]
    split_ifs with hij
    · subst hij
      simpa [List.getD, hj'] using h.symm
    · rfl
  simp only [FileWriter.setWriting, hlist]

variable {data offset}

/-- A step from where `WriteProgress` says a call stands leads to such a place. -/
theorem writeProgress_step {w₀ : FileWriter} {files₀ : FileStore} {n : ℕ}
    (hstate : w₀.state = .writingChunks n)
    (hfree : w₀.writingChunk.getD (offset / w₀.chunkSize) false = false)
    {w : FileWriter} {files : FileStore} {pc : FileWriter.WritePc} (outcome : Outcome)
    (h : WriteProgress data offset w₀ files₀ n w files pc) :
    WriteProgress data offset w₀ files₀ n (w.writeStep files data offset outcome pc).1
      (w.writeStep files data offset outcome pc).2.1
      (w.writeStep files data offset outcome pc).2.2 := by
  cases pc with
  | check =>
      obtain ⟨rfl, rfl⟩ := h
      simp only [FileWriter.writeStep, FileWriter.checkChunk]
      split_ifs with hempty haligned hinside hlength
      · exact ⟨rfl, rfl, hempty.2⟩
      · exact Or.inl ⟨rfl, rfl⟩
      · exact Or.inl ⟨rfl, rfl⟩
      · exact Or.inl ⟨rfl, rfl⟩
      · refine ⟨rfl, rfl, ⟨not_not.mp haligned, Nat.not_le.mp hinside, ?_⟩⟩
        by_contra hnot
        exact hlength ⟨fun heq => hnot (Or.inl heq), fun hlt => hnot (Or.inr hlt)⟩
  | openEmpty =>
      obtain ⟨rfl, rfl, hzero⟩ := h
      cases outcome with
      | ok => exact ⟨rfl, Or.inl hzero⟩
      | fails k => exact Or.inl ⟨rfl, rfl⟩
  | enter =>
      obtain ⟨rfl, rfl, hgood⟩ := h
      simp only [FileWriter.writeStep, hstate]
      exact ⟨rfl, rfl, hgood⟩
  | acquire =>
      obtain ⟨rfl, rfl, hgood⟩ := h
      simp only [FileWriter.writeStep, FileWriter.compareExchange, FileWriter.setState_chunkSize,
        FileWriter.setState_writingChunk, hfree]
      exact ⟨rfl, rfl, hgood⟩
  | openChunk =>
      obtain ⟨rfl, rfl, hgood⟩ := h
      cases outcome with
      | ok => exact ⟨rfl, fun path => AssocMap.get_insert _ _ _ _, hgood⟩
      | fails k => exact Or.inr rfl
  | setLen =>
      obtain ⟨rfl, hfiles, hgood⟩ := h
      cases outcome with
      | ok => exact ⟨rfl, hfiles.update (FileStore.resize · data.length), hgood⟩
      | fails k => exact Or.inr rfl
  | writeAll =>
      obtain ⟨rfl, hfiles, hgood⟩ := h
      cases outcome with
      | ok =>
          refine ⟨rfl, ?_, hgood⟩
          have hwritten := hfiles.update (FileStore.writeAt · 0 data)
          rwa [FileStore.writeAt_zero_of_length_le (by simp)] at hwritten
      | fails k => exact Or.inr rfl
  | syncAll =>
      obtain ⟨rfl, hfiles, hgood⟩ := h
      cases outcome with
      | ok => exact ⟨rfl, hfiles, hgood⟩
      | fails k => exact Or.inr rfl
  | release =>
      obtain ⟨rfl, hfiles, hgood⟩ := h
      exact ⟨setWriting_release hfree, hfiles, hgood⟩
  | leave =>
      obtain ⟨rfl, hfiles, hgood⟩ := h
      simp only [FileWriter.writeStep, FileWriter.setState_state]
      exact ⟨by rw [setState_setState, setState_self hstate], Or.inr ⟨hfiles, hgood⟩⟩
  | returned r => exact h
  | panicked f => exact h.elim

variable (data offset) in
/-- What a call that found its chunk free leaves behind. -/
theorem writeChunk_progress {w : FileWriter} {n : ℕ} (hstate : w.state = .writingChunks n)
    (hfree : w.writingChunk.getD (offset / w.chunkSize) false = false) (files : FileStore)
    (outcomes : ℕ → Outcome) :
    WriteProgress data offset w files n (w.writeChunk files data offset outcomes).1
      (w.writeChunk files data offset outcomes).2.1
      (w.writeChunk files data offset outcomes).2.2 := by
  apply Transition.runFor_invariant (fun s : FileWriter × FileStore × FileWriter.WritePc =>
    WriteProgress data offset w files n s.1 s.2.1 s.2.2)
  · rintro outcome ⟨w', files', pc⟩ h
    exact writeProgress_step hstate hfree outcome h
  · exact ⟨rfl, rfl⟩

end Write

/-! ## `consolidate` -/

section Consolidate

/-- From one point of a call to a later one: the writer is that of the same file, and only
its files were touched. -/
structure ConsolidateFrame (s s' : FileWriter × FileStore × FileWriter.ConsolidatePc) : Prop where
  same : SameWriter s.1 s'.1
  files : ∀ path, ¬ Uses s.1 path → s'.2.1.get path = s.2.1.get path

/-- A step of `consolidate` touches no file but those of the writer. -/
theorem consolidateStep_frame (w : FileWriter) (files : FileStore) (outcome : Outcome)
    (pc : FileWriter.ConsolidatePc) :
    ConsolidateFrame (w, files, pc) (w.consolidateStep files outcome pc) := by
  have hsame : SameWriter w w := SameWriter.refl w
  have hstate : ∀ st, SameWriter w (w.setState st) := fun _ => ⟨rfl, rfl, rfl, rfl⟩
  have hfile : ∀ path, ¬ Uses w path → path ≠ w.filePath := fun path h heq => h (Or.inl heq)
  have hchunk : ∀ i path, ¬ Uses w path → path ≠ w.chunkPath i :=
    fun i path h heq => h (Or.inr ⟨i, heq⟩)
  have hupdate : ∀ f path, ¬ Uses w path →
      (FileStore.update files w.filePath f).get path = files.get path := by
    intro f path h
    rw [FileStore.get_update, if_neg (hfile path h)]
  cases pc with
  | enter =>
      simp only [FileWriter.consolidateStep]
      split
      · exact ⟨hsame, fun _ _ => rfl⟩
      · exact ⟨hstate _, fun _ _ => rfl⟩
      · exact ⟨hsame, fun _ _ => rfl⟩
  | checkFlags =>
      simp only [FileWriter.consolidateStep]
      split_ifs
      · exact ⟨hsame, fun _ _ => rfl⟩
      · exact ⟨hsame, fun _ _ => rfl⟩
  | openTarget =>
      cases outcome with
      | ok => exact ⟨hsame, fun path h => AssocMap.get_insert_of_ne _ _ (hfile path h)⟩
      | fails n => exact ⟨hsame, fun _ _ => rfl⟩
  | openChunk i =>
      simp only [FileWriter.consolidateStep]
      split
      · exact ⟨hsame, fun _ _ => rfl⟩
      · exact ⟨hsame, fun _ _ => rfl⟩
  | readChunk i | seek i buf | syncAll i =>
      cases outcome with
      | ok => exact ⟨hsame, fun _ _ => rfl⟩
      | fails n => exact ⟨hsame, fun _ _ => rfl⟩
  | writeAll i buf =>
      cases outcome with
      | ok => exact ⟨hsame, hupdate _⟩
      | fails n => exact ⟨hsame, hupdate _⟩
  | removeChunk i =>
      simp only [FileWriter.consolidateStep]
      split
      · exact ⟨hsame, fun path h => AssocMap.get_erase_of_ne _ (hchunk i path h)⟩
      · exact ⟨hsame, fun _ _ => rfl⟩
  | leave => exact ⟨hstate _, fun _ _ => rfl⟩
  | returned r => exact ⟨hsame, fun _ _ => rfl⟩

/-- Two steps of a consolidation leave what each does. -/
theorem ConsolidateFrame.trans {s s' s'' : FileWriter × FileStore × FileWriter.ConsolidatePc}
    (h : ConsolidateFrame s s') (h' : ConsolidateFrame s' s'') : ConsolidateFrame s s'' := by
  refine ⟨h.same.trans h'.same, ?_⟩
  intro path hpath
  have hpath' : ¬ Uses s'.1 path := by rwa [h.same.uses]
  exact (h'.files path hpath').trans (h.files path hpath)

/-- So does a whole call. -/
theorem consolidate_frame (w : FileWriter) (files : FileStore) (outcomes : ℕ → Outcome) :
    ConsolidateFrame (w, files, .enter) (w.consolidate files outcomes) := by
  apply Transition.runFor_rel ConsolidateFrame
  · intro s
    exact ⟨SameWriter.refl _, fun _ _ => rfl⟩
  · intro s s' s''
    exact ConsolidateFrame.trans
  · rintro outcome ⟨w, files, pc⟩
    exact consolidateStep_frame w files outcome pc

/-- Between its two lock sections `consolidate` keeps the writer `Consolidating`, and
changes nothing else of it. -/
def ConsolidateState (w₀ w : FileWriter) : FileWriter.ConsolidatePc → Prop
  | .enter => w = w₀
  | .returned (.ok _) => w₀.state = .writingChunks 0 ∧ w = w₀
  | .returned (.error _) => w = w₀ ∨ w₀.state = .writingChunks 0 ∧ w = w₀.setState .consolidating
  | _ => w₀.state = .writingChunks 0 ∧ w = w₀.setState .consolidating

/-- A step keeps the state of the writer as its point demands. -/
theorem consolidateState_step {w₀ w : FileWriter} {files : FileStore}
    {pc : FileWriter.ConsolidatePc} (outcome : Outcome) (h : ConsolidateState w₀ w pc) :
    ConsolidateState w₀ (w.consolidateStep files outcome pc).1
      (w.consolidateStep files outcome pc).2.2 := by
  have hnext : ∀ i, ConsolidateState w₀ w (.openChunk i) →
      ConsolidateState w₀ w (w.nextChunk i) := by
    intro i hbusy
    simp only [FileWriter.nextChunk]
    split_ifs
    · exact hbusy
    · exact hbusy
  cases pc with
  | enter =>
      simp only [ConsolidateState] at h
      subst h
      simp only [FileWriter.consolidateStep]
      split
      · exact Or.inl rfl
      · rename_i hstate
        exact ⟨hstate, rfl⟩
      · exact Or.inl rfl
  | checkFlags =>
      simp only [FileWriter.consolidateStep]
      split_ifs
      · exact h
      · exact h
  | openTarget =>
      cases outcome with
      | ok => exact hnext 0 h
      | fails n => exact Or.inr h
  | openChunk i =>
      simp only [FileWriter.consolidateStep]
      split
      · exact h
      · exact Or.inr h
  | readChunk i | seek i buf | writeAll i buf | syncAll i =>
      cases outcome with
      | ok => exact h
      | fails n => exact Or.inr h
  | removeChunk i =>
      simp only [FileWriter.consolidateStep]
      split
      · exact hnext (i + 1) h
      · exact Or.inr h
  | leave =>
      obtain ⟨hstate, rfl⟩ := h
      exact ⟨hstate, setState_self hstate⟩
  | returned r => exact h

/-- And so does a whole call. -/
theorem consolidateState_run (w : FileWriter) (files : FileStore) (outcomes : ℕ → Outcome) :
    ConsolidateState w (w.consolidate files outcomes).1 (w.consolidate files outcomes).2.2 := by
  apply Transition.runFor_invariant (fun s : FileWriter × FileStore × FileWriter.ConsolidatePc =>
    ConsolidateState w s.1 s.2.2)
  · rintro outcome ⟨w', files', pc⟩ h
    exact consolidateState_step outcome h
  · rfl

/-- A call on its own gives the writer back as it was, or leaves it `Consolidating`. -/
theorem consolidate_state (w : FileWriter) (files : FileStore) (outcomes : ℕ → Outcome) :
    (w.consolidate files outcomes).1 = w ∨
      w.state = .writingChunks 0 ∧
        (w.consolidate files outcomes).1 = w.setState .consolidating := by
  have hrun := consolidateState_run w files outcomes
  unfold ConsolidateState at hrun
  split at hrun
  · exact Or.inl hrun
  · exact Or.inl hrun.2
  · exact hrun
  · exact Or.inr hrun

/-- A writer with calls counted, or left `Consolidating`, is not consolidated. -/
theorem state_of_consolidate_ok {w : FileWriter} {files : FileStore} {outcomes : ℕ → Outcome}
    (hok : (w.consolidate files outcomes).2.2 = .returned (.ok ())) :
    w.state = .writingChunks 0 := by
  have hrun := consolidateState_run w files outcomes
  rw [hok] at hrun
  exact hrun.1

/-- The steps a call on a writer of `n` chunks still takes at most. -/
def consolidateStepsLeft (n : ℕ) : FileWriter.ConsolidatePc → ℕ
  | .enter => 4 + 6 * n
  | .checkFlags => 3 + 6 * n
  | .openTarget => 2 + 6 * n
  | .openChunk i => 7 + 6 * (n - (i + 1))
  | .readChunk i => 6 + 6 * (n - (i + 1))
  | .seek i _ => 5 + 6 * (n - (i + 1))
  | .writeAll i _ => 4 + 6 * (n - (i + 1))
  | .syncAll i => 3 + 6 * (n - (i + 1))
  | .removeChunk i => 2 + 6 * (n - (i + 1))
  | .leave => 1
  | .returned _ => 0

/-- A step of a consolidation leaves fewer steps. -/
theorem consolidateStep_stepsLeft (w : FileWriter) (files : FileStore) (outcome : Outcome)
    (pc : FileWriter.ConsolidatePc) :
    consolidateStepsLeft w.writingChunk.length (w.consolidateStep files outcome pc).2.2 ≤
      consolidateStepsLeft w.writingChunk.length pc - 1 := by
  cases pc with
  | enter =>
      simp only [FileWriter.consolidateStep]
      split
      · exact Nat.zero_le _
      · simp [consolidateStepsLeft]
      · exact Nat.zero_le _
  | checkFlags =>
      simp only [FileWriter.consolidateStep]
      split_ifs
      · simp [consolidateStepsLeft]
      · simp only [consolidateStepsLeft]
        omega
  | openTarget =>
      cases outcome with
      | ok =>
          simp only [FileWriter.consolidateStep, FileWriter.nextChunk]
          split_ifs <;> simp only [consolidateStepsLeft] <;> omega
      | fails n => simp [FileWriter.consolidateStep, consolidateStepsLeft]
  | openChunk i =>
      simp only [FileWriter.consolidateStep]
      split <;> simp [consolidateStepsLeft]
  | readChunk i | seek i buf | writeAll i buf | syncAll i =>
      cases outcome with
      | ok =>
          simp only [FileWriter.consolidateStep, consolidateStepsLeft]
          omega
      | fails n => simp [FileWriter.consolidateStep, consolidateStepsLeft]
  | removeChunk i =>
      simp only [FileWriter.consolidateStep, FileWriter.nextChunk]
      split
      · split_ifs <;> simp only [consolidateStepsLeft] <;> omega
      · simp [consolidateStepsLeft]
  | leave | returned r => simp [FileWriter.consolidateStep, consolidateStepsLeft]

/-- A call on its own comes to an end. -/
theorem consolidate_ends (w : FileWriter) (files : FileStore) (outcomes : ℕ → Outcome) :
    ∃ result, (w.consolidate files outcomes).2.2 = .returned result := by
  have hzero : consolidateStepsLeft w.writingChunk.length
      (w.consolidate files outcomes).2.2 = 0 := by
    rw [← (consolidate_frame w files outcomes).same.length]
    apply Transition.runFor_measure
      (fun s : FileWriter × FileStore × FileWriter.ConsolidatePc =>
        consolidateStepsLeft s.1.writingChunk.length s.2.2)
    · rintro outcome ⟨w, files, pc⟩
      have hlen := (consolidateStep_frame w files outcome pc).same.length
      simp only [hlen]
      exact consolidateStep_stepsLeft w files outcome pc
    · exact Nat.le_refl _
  cases hpc : (w.consolidate files outcomes).2.2 with
  | returned result => exact ⟨result, rfl⟩
  | enter | checkFlags | openTarget | openChunk i | readChunk i | seek i buf | writeAll i buf
  | syncAll i | removeChunk i | leave =>
      rw [hpc] at hzero
      simp [consolidateStepsLeft] at hzero

/-- The chunk files from the `i`-th on hold their pieces of the content. -/
def Present (w : FileWriter) (content : Bytes) (files : FileStore) (i : ℕ) : Prop :=
  ∀ j, i ≤ j → j < w.writingChunk.length →
    files.get (w.chunkPath j) = some (chunkAt w.chunkSize content j)

/-- Where a call stands that found all chunks of `content`: the file holds the chunks
that were appended, and those still to come are there. -/
def ConsolidateProgress (w₀ : FileWriter) (content : Bytes) (w : FileWriter) (files : FileStore) :
    FileWriter.ConsolidatePc → Prop :=
  let busy := w₀.setState .consolidating
  let target i := files.get w₀.filePath = some (content.take (i * w₀.chunkSize))
  fun pc => match pc with
  | .enter => w = w₀ ∧ Present w₀ content files 0
  | .checkFlags | .openTarget => w = busy ∧ Present w₀ content files 0
  | .openChunk i | .readChunk i =>
      w = busy ∧ i < w₀.writingChunk.length ∧ target i ∧ Present w₀ content files i
  | .seek i buf | .writeAll i buf =>
      w = busy ∧ i < w₀.writingChunk.length ∧ target i ∧ Present w₀ content files i ∧
        buf = chunkAt w₀.chunkSize content i
  | .syncAll i | .removeChunk i =>
      w = busy ∧ i < w₀.writingChunk.length ∧ target (i + 1) ∧ Present w₀ content files (i + 1)
  | .leave => w = busy ∧ files.get w₀.filePath = some content
  | .returned (.ok _) => files.get w₀.filePath = some content
  | .returned (.error _) => True

/-- The chunks that are there stay there when other files change. -/
theorem Present.of_eq {w : FileWriter} {content : Bytes} {files files' : FileStore} {i k : ℕ}
    (h : Present w content files i) (hik : i ≤ k)
    (heq : ∀ j, k ≤ j → files'.get (w.chunkPath j) = files.get (w.chunkPath j)) :
    Present w content files' k := by
  intro j hj hlt
  rw [heq j hj]
  exact h j (Nat.le_trans hik hj) hlt

/-- At the head of the loop the chunks before the counter have been appended. -/
theorem consolidateProgress_nextChunk {w₀ : FileWriter} {content : Bytes} {files : FileStore}
    {i : ℕ} (hlen : content.length = w₀.fileSize)
    (htarget : files.get w₀.filePath = some (content.take (i * w₀.chunkSize)))
    (hpresent : Present w₀ content files i) (hi : i ≤ w₀.writingChunk.length) :
    ConsolidateProgress w₀ content (w₀.setState .consolidating) files
      ((w₀.setState .consolidating).nextChunk i) := by
  by_cases hlt : i < w₀.writingChunk.length
  · have hnext : (w₀.setState .consolidating).nextChunk i = .openChunk i := if_pos hlt
    rw [hnext]
    exact ⟨rfl, hlt, htarget, hpresent⟩
  · have hnext : (w₀.setState .consolidating).nextChunk i = .leave := if_neg hlt
    rw [hnext]
    refine ⟨rfl, ?_⟩
    have hall : content.length ≤ i * w₀.chunkSize := by
      have hcover := le_chunkCount_mul w₀.fileSize w₀.chunkSize_pos
      have heq : i = chunkCount w₀.fileSize w₀.chunkSize := by
        rw [← w₀.writingChunk_length]
        omega
      rwa [hlen, heq]
    rw [htarget, List.take_of_length_le hall]

/-- The position of a chunk of the writer is inside the content. -/
theorem chunk_inside {w : FileWriter} {i : ℕ} (h : i < w.writingChunk.length) :
    i * w.chunkSize < w.fileSize := by
  rw [w.writingChunk_length] at h
  exact (lt_chunkCount_iff w.chunkSize_pos).mp h

/-- A step copies what it should. -/
theorem consolidateProgress_step {w₀ : FileWriter} {content : Bytes}
    (hlen : content.length = w₀.fileSize) (hstate : w₀.state = .writingChunks 0)
    (hfree : w₀.writingChunk.all (fun flag => !flag) = true) {w : FileWriter} {files : FileStore}
    {pc : FileWriter.ConsolidatePc} (outcome : Outcome)
    (h : ConsolidateProgress w₀ content w files pc) :
    ConsolidateProgress w₀ content (w.consolidateStep files outcome pc).1
      (w.consolidateStep files outcome pc).2.1 (w.consolidateStep files outcome pc).2.2 := by
  cases pc with
  | enter =>
      obtain ⟨rfl, hpresent⟩ := h
      simp only [FileWriter.consolidateStep, hstate]
      exact ⟨rfl, hpresent⟩
  | checkFlags =>
      obtain ⟨rfl, hpresent⟩ := h
      have hstep : (w₀.setState .consolidating).consolidateStep files outcome .checkFlags =
          (w₀.setState .consolidating, files, .openTarget) := if_pos hfree
      rw [hstep]
      exact ⟨rfl, hpresent⟩
  | openTarget =>
      obtain ⟨rfl, hpresent⟩ := h
      cases outcome with
      | ok =>
          apply consolidateProgress_nextChunk hlen
          · rw [Nat.zero_mul, List.take_zero]
            exact AssocMap.get_insert_self _ _ _
          · apply hpresent.of_eq (Nat.le_refl 0)
            intro j _
            exact AssocMap.get_insert_of_ne _ _ (w₀.chunkPath_ne_filePath j)
          · exact Nat.zero_le _
      | fails n => trivial
  | openChunk i =>
      obtain ⟨rfl, hi, htarget, hpresent⟩ := h
      simp only [FileWriter.consolidateStep]
      split
      · exact ⟨rfl, hi, htarget, hpresent⟩
      · trivial
  | readChunk i =>
      obtain ⟨rfl, hi, htarget, hpresent⟩ := h
      cases outcome with
      | ok =>
          refine ⟨rfl, hi, htarget, hpresent, ?_⟩
          rw [FileWriter.chunkPath_setState, hpresent i (Nat.le_refl i) hi, Option.getD_some]
      | fails n => trivial
  | seek i buf =>
      obtain ⟨rfl, hi, htarget, hpresent, hbuf⟩ := h
      cases outcome with
      | ok => exact ⟨rfl, hi, htarget, hpresent, hbuf⟩
      | fails n => trivial
  | writeAll i buf =>
      obtain ⟨rfl, hi, htarget, hpresent, rfl⟩ := h
      cases outcome with
      | ok =>
          refine ⟨rfl, hi, ?_, ?_⟩
          · have hinside : i * w₀.chunkSize ≤ content.length := by
              rw [hlen]
              exact Nat.le_of_lt (chunk_inside hi)
            simp only [FileWriter.consolidateStep, FileStore.get_update,
              FileWriter.setState_filePath, FileWriter.setState_chunkSize, if_pos, htarget,
              Option.map_some]
            exact congrArg some (writeAt_chunkAt hinside)
          · apply hpresent.of_eq (Nat.le_succ i)
            intro j _
            simp only [FileWriter.consolidateStep, FileStore.get_update,
              FileWriter.setState_filePath, if_neg (w₀.chunkPath_ne_filePath j)]
      | fails n => trivial
  | syncAll i =>
      obtain ⟨rfl, hi, htarget, hpresent⟩ := h
      cases outcome with
      | ok => exact ⟨rfl, hi, htarget, hpresent⟩
      | fails n => trivial
  | removeChunk i =>
      obtain ⟨rfl, hi, htarget, hpresent⟩ := h
      simp only [FileWriter.consolidateStep]
      split
      · apply consolidateProgress_nextChunk hlen
        · rw [FileWriter.chunkPath_setState,
            AssocMap.get_erase_of_ne _ (Ne.symm (w₀.chunkPath_ne_filePath i))]
          exact htarget
        · apply hpresent.of_eq (Nat.le_refl _)
          intro j hj
          have hne : w₀.chunkPath j ≠ w₀.chunkPath i := by
            intro heq
            have hji := w₀.chunkPath_inj heq
            omega
          exact AssocMap.get_erase_of_ne _ hne
        · exact hi
      · trivial
  | leave =>
      obtain ⟨rfl, htarget⟩ := h
      exact htarget
  | returned r => exact h

/-- **`consolidate` builds the file.** When every chunk file holds its piece of `content`
and no chunk is being written, a call that returns `Ok` leaves `content` in the file. -/
theorem consolidate_content {w : FileWriter} {files : FileStore} {content : Bytes}
    (hlen : content.length = w.fileSize) (hstate : w.state = .writingChunks 0)
    (hfree : w.writingChunk.all (fun flag => !flag) = true) (hpresent : Present w content files 0)
    {outcomes : ℕ → Outcome} (hok : (w.consolidate files outcomes).2.2 = .returned (.ok ())) :
    (w.consolidate files outcomes).2.1.get w.filePath = some content := by
  have hrun : ConsolidateProgress w content (w.consolidate files outcomes).1
      (w.consolidate files outcomes).2.1 (w.consolidate files outcomes).2.2 := by
    apply Transition.runFor_invariant (fun s : FileWriter × FileStore × FileWriter.ConsolidatePc =>
      ConsolidateProgress w content s.1 s.2.1 s.2.2)
    · rintro outcome ⟨w', files', pc⟩ h
      exact consolidateProgress_step hlen hstate hfree outcome h
    · exact ⟨rfl, hpresent⟩
  rw [hok] at hrun
  exact hrun

end Consolidate

end Grizol.Analysis

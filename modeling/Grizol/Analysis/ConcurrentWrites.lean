import Grizol.Analysis.WriterExclusion

/-!
# Concurrent writes

The chunks of a file written by one call each, in any order of the steps of the calls,
when no file operation fails. No call gets in the way of another: the counter is the
number of calls inside, and a call alone writes the file of its chunk. So every call
returns `Ok` after a number of steps, and then a consolidation builds the file.
-/

set_option autoImplicit false

namespace Grizol.Analysis

open Grizol.Library Grizol.Model Grizol.Interface

/-! ## The invariant of the writes -/

section Invariant

/-- What the file of its chunk holds while a call writes it. -/
def written (data : Bytes) : FileWriter.WritePc → Option Bytes
  | .setLen => some []
  | .writeAll => some (FileStore.resize [] data.length)
  | .syncAll | .release | .leave | .returned _ => some data
  | _ => none

/-- A call that has not failed. -/
def UnderWay : FileWriter.WritePc → Prop
  | .openEmpty | .panicked _ | .returned (.error _) => False
  | _ => True

/-- A write that is under way goes its proper way. -/
theorem Proper.of_underWay {pc : FileWriter.WritePc} (h : UnderWay pc) (data : Bytes)
    (offset : ℕ) : Proper (.write data offset pc) := by
  constructor
  · rintro rfl
    exact h
  · rintro fault rfl
    exact h

variable {ι : Type} [Fintype ι]

/-- The calls `pc` write chunks of the writer `w₀`, one each; `w` and `files` are what they
made of the writer and the files so far. -/
structure WritesInvariant (w₀ : FileWriter) (data : ι → Bytes) (offset : ι → ℕ)
    (pc : ι → FileWriter.WritePc) (w : FileWriter) (files : FileStore) : Prop where
  same : SameWriter w₀ w
  state : w.state = .writingChunks (∑ i, inside (pc i))
  flags : ∀ chunkPos, w.writingChunk.getD chunkPos false = true →
    ∃ i, holdsFlag (pc i) ∧ offset i / w₀.chunkSize = chunkPos
  files : ∀ i content, written (data i) (pc i) = some content →
    files.get (w₀.chunkPath (offset i / w₀.chunkSize)) = some content
  underWay : ∀ i, UnderWay (pc i)

/-- The pieces of the file are good arguments. -/
theorem goodChunk_of_piece {w : FileWriter} {data : Bytes} {i : ℕ}
    (hi : i < chunkCount w.fileSize w.chunkSize)
    (hdata : data.length = min w.chunkSize (w.fileSize - i * w.chunkSize)) :
    GoodChunk data (i * w.chunkSize) w := by
  have hpos := w.chunkSize_pos
  have hinside : i * w.chunkSize < w.fileSize := (lt_chunkCount_iff hpos).mp hi
  refine ⟨Nat.mul_mod_left _ _, hinside, ?_⟩
  by_cases hfull : w.chunkSize ≤ w.fileSize - i * w.chunkSize
  · exact Or.inl (by omega)
  · have hlast : w.fileSize / w.chunkSize = i := by
      apply Nat.div_eq_of_lt_le (Nat.le_of_lt hinside)
      rw [Nat.succ_mul]
      omega
    refine Or.inr ⟨by omega, ?_⟩
    rw [hlast]

/-- Arguments that are good pass the checks. -/
theorem checkChunk_of_good {w : FileWriter} {data : Bytes} {offset : ℕ}
    (h : GoodChunk data offset w) : w.checkChunk data offset = .enter := by
  have hinside := h.inside
  have hnotEmpty : ¬ (offset = 0 ∧ w.fileSize = 0) := fun hempty => by omega
  have haligned : ¬ offset % w.chunkSize ≠ 0 := fun hne => hne h.aligned
  have hlength : ¬ (data.length ≠ w.chunkSize ∧
      ¬ (data.length < w.chunkSize ∧ offset = w.fileSize / w.chunkSize * w.chunkSize)) := by
    rintro ⟨hne, hnot⟩
    rcases h.length with heq | hlast
    · exact hne heq
    · exact hnot hlast
  unfold FileWriter.checkChunk
  rw [if_neg hnotEmpty, if_neg haligned, if_neg (Nat.not_le.mpr hinside)]
  dsimp only
  rw [if_neg hlength]

/-- A chunk fits the same writer in another state. -/
theorem GoodChunk.of_same {w w' : FileWriter} {data : Bytes} {offset : ℕ}
    (h : GoodChunk data offset w) (hsame : SameWriter w w') : GoodChunk data offset w' := by
  refine ⟨?_, ?_, ?_⟩
  · rw [hsame.chunkSize]
    exact h.aligned
  · rw [hsame.fileSize]
    exact h.inside
  · rw [hsame.chunkSize, hsame.fileSize]
    exact h.length

/-- A step that succeeds is one of a call under way, writes the file of its chunk, and leaves
every other file alone. -/
theorem writeStep_ok {w : FileWriter} {files : FileStore} {data : Bytes} {offset n : ℕ}
    {pc : FileWriter.WritePc} (hgood : GoodChunk data offset w) (hway : UnderWay pc)
    (hstate : w.state = .writingChunks n) (hinside : inside pc ≤ n)
    (hwritten : ∀ content, written data pc = some content →
      files.get (w.chunkPath (offset / w.chunkSize)) = some content) :
    UnderWay (w.writeStep files data offset .ok pc).2.2 ∧
    (∀ content, written data (w.writeStep files data offset .ok pc).2.2 = some content →
      (w.writeStep files data offset .ok pc).2.1.get (w.chunkPath (offset / w.chunkSize)) =
        some content) ∧
    (∀ path, path ≠ w.chunkPath (offset / w.chunkSize) →
      (w.writeStep files data offset .ok pc).2.1.get path = files.get path) := by
  cases pc with
  | check =>
      simp only [FileWriter.writeStep, checkChunk_of_good hgood]
      exact ⟨trivial, fun _ h => (by cases h), fun _ _ => trivial⟩
  | openEmpty => exact hway.elim
  | enter =>
      simp only [FileWriter.writeStep, hstate]
      exact ⟨trivial, fun _ h => (by cases h), fun _ _ => trivial⟩
  | acquire =>
      simp only [FileWriter.writeStep, FileWriter.compareExchange]
      split_ifs
      · exact ⟨trivial, fun _ h => (by cases h), fun _ _ => rfl⟩
      · exact ⟨trivial, fun _ h => (by cases h), fun _ _ => rfl⟩
  | openChunk =>
      refine ⟨trivial, ?_, ?_⟩
      · intro content hcontent
        rw [← hcontent]
        exact AssocMap.get_insert_self _ _ _
      · intro path hpath
        exact AssocMap.get_insert_of_ne _ _ hpath
  | setLen =>
      refine ⟨trivial, ?_, ?_⟩
      · intro content hcontent
        rw [← hcontent]
        simp only [FileWriter.writeStep, FileStore.get_update, if_pos, hwritten [] rfl]
        rfl
      · intro path hpath
        simp only [FileWriter.writeStep, FileStore.get_update, if_neg hpath]
  | writeAll =>
      refine ⟨trivial, ?_, ?_⟩
      · intro content hcontent
        rw [← hcontent]
        simp only [FileWriter.writeStep, FileStore.get_update, if_pos, hwritten _ rfl,
          Option.map_some, written]
        rw [FileStore.writeAt_zero_of_length_le (by simp)]
      · intro path hpath
        simp only [FileWriter.writeStep, FileStore.get_update, if_neg hpath]
  | syncAll | release => exact ⟨trivial, hwritten, fun _ _ => rfl⟩
  | leave =>
      cases n with
      | zero => exact absurd hinside (by simp [inside])
      | succ n =>
          simp only [FileWriter.writeStep, hstate]
          exact ⟨trivial, hwritten, fun _ _ => trivial⟩
  | returned result =>
      cases result with
      | ok _ => exact ⟨trivial, hwritten, fun _ _ => rfl⟩
      | error e => exact hway.elim
  | panicked fault => exact hway.elim

variable [DecidableEq ι] {w₀ w : FileWriter} {data : ι → Bytes} {offset : ι → ℕ}
  {pc : ι → FileWriter.WritePc} {files : FileStore}

/-- The invariant is kept by a step of one of the calls. -/
theorem writesInvariant_step (hgood : ∀ i, GoodChunk (data i) (offset i) w₀)
    (hinj : ∀ i j, offset i / w₀.chunkSize = offset j / w₀.chunkSize → i = j)
    (h : WritesInvariant w₀ data offset pc w files) (i : ι) :
    WritesInvariant w₀ data offset
      (Function.update pc i (w.writeStep files (data i) (offset i) .ok (pc i)).2.2)
      (w.writeStep files (data i) (offset i) .ok (pc i)).1
      (w.writeStep files (data i) (offset i) .ok (pc i)).2.1 := by
  have hle : inside (pc i) ≤ ∑ j, inside (pc j) :=
    Finset.single_le_sum_of_canonicallyOrdered (f := fun j => inside (pc j)) (Finset.mem_univ i)
  have hsize : 0 < w.fileSize := Nat.lt_of_le_of_lt (Nat.zero_le _) ((hgood i).of_same h.same).inside
  obtain ⟨-, n', hstate', -, hcount, hflags⟩ := writeStep_writing files .ok h.state hsize
    (Proper.of_underWay (h.underWay i) (data i) (offset i)) hle
  have hpath : w.chunkPath (offset i / w.chunkSize) = w₀.chunkPath (offset i / w₀.chunkSize) := by
    rw [h.same.chunkPath, h.same.chunkSize]
  obtain ⟨hway, hwritten, hothers⟩ := writeStep_ok ((hgood i).of_same h.same) (h.underWay i)
    h.state hle (by rw [hpath]; exact h.files i)
  rw [hpath] at hwritten hothers
  have hcount := hcount rfl
  refine ⟨h.same.trans (writeStep_frame (data i) (offset i) w files .ok (pc i)).same, ?_, ?_, ?_, ?_⟩
  · have hsum := Processes.sum_update pc i
      (w.writeStep files (data i) (offset i) .ok (pc i)).2.2 inside
    rw [hstate', FileWriterState.writingChunks.injEq]
    omega
  · intro chunkPos hset
    rcases hflags chunkPos hset with ⟨hheld, hpos⟩ | ⟨hset, hother⟩
    · refine ⟨i, ?_, ?_⟩
      · rw [Function.update_self]
        exact hheld
      · rw [← hpos, h.same.chunkSize]
    · obtain ⟨j, hheld, hpos⟩ := h.flags chunkPos hset
      have hji : j ≠ i := by
        rintro rfl
        rcases hother with hnot | hlt
        · exact hnot ⟨hheld, by rw [h.same.chunkSize]; exact hpos⟩
        · omega
      refine ⟨j, ?_, hpos⟩
      rw [Function.update_of_ne hji]
      exact hheld
  · intro j content hcontent
    by_cases hji : j = i
    · subst hji
      rw [Function.update_self] at hcontent
      exact hwritten content hcontent
    · rw [Function.update_of_ne hji] at hcontent
      rw [hothers]
      · exact h.files j content hcontent
      · intro heq
        exact hji (hinj j i (w₀.chunkPath_inj heq))
  · intro j
    by_cases hji : j = i
    · subst hji
      rw [Function.update_self]
      exact hway
    · rw [Function.update_of_ne hji]
      exact h.underWay j

end Invariant

/-! ## The consolidation -/

section Consolidation

variable {w₀ w : FileWriter} {content : Bytes} {files : FileStore}

/-- The files of the chunks while they are appended: those before the counter are gone, the
others are there. The call has not failed. -/
def ChunksGone (w₀ : FileWriter) (content : Bytes) (files : FileStore) :
    FileWriter.ConsolidatePc → Prop :=
  let gone i := ∀ j < i, files.get (w₀.chunkPath j) = none
  fun pc => match pc with
  | .enter | .checkFlags | .openTarget => Present w₀ content files 0
  | .openChunk i | .readChunk i | .seek i _ | .writeAll i _ | .syncAll i | .removeChunk i =>
      i < w₀.writingChunk.length ∧ gone i ∧ Present w₀ content files i
  | .leave | .returned (.ok _) => gone w₀.writingChunk.length
  | .returned (.error _) => False

/-- The chunk that was copied last is gone as well. -/
theorem chunksGone_nextChunk {i : ℕ} (hi : i ≤ w₀.writingChunk.length)
    (hgone : ∀ j < i, files.get (w₀.chunkPath j) = none) (hpresent : Present w₀ content files i)
    (hsame : w.writingChunk.length = w₀.writingChunk.length) :
    ChunksGone w₀ content files (w.nextChunk i) := by
  unfold FileWriter.nextChunk
  rw [hsame]
  split_ifs with hlt
  · exact ⟨hlt, hgone, hpresent⟩
  · obtain rfl : i = w₀.writingChunk.length := by omega
    exact hgone

/-- In each step the copied chunks are gone. -/
theorem chunksGone_step (hstate : w₀.state = .writingChunks 0)
    (hfree : w₀.writingChunk.all (fun flag => !flag) = true) {pc : FileWriter.ConsolidatePc}
    (hprogress : ConsolidateProgress w₀ content w files pc) (h : ChunksGone w₀ content files pc) :
    ChunksGone w₀ content (w.consolidateStep files .ok pc).2.1
      (w.consolidateStep files .ok pc).2.2 := by
  cases pc with
  | enter =>
      obtain ⟨rfl, -⟩ := hprogress
      simp only [FileWriter.consolidateStep, hstate]
      exact h
  | checkFlags =>
      obtain ⟨rfl, -⟩ := hprogress
      have hstep : (w₀.setState .consolidating).consolidateStep files .ok .checkFlags =
          (w₀.setState .consolidating, files, .openTarget) := if_pos hfree
      rw [hstep]
      exact h
  | openTarget =>
      obtain ⟨rfl, -⟩ := hprogress
      apply chunksGone_nextChunk (Nat.zero_le _)
      · intro j hj
        exact absurd hj (Nat.not_lt_zero j)
      · apply h.of_eq (Nat.le_refl 0)
        intro j _
        exact AssocMap.get_insert_of_ne _ _ (w₀.chunkPath_ne_filePath j)
      · rfl
  | openChunk i =>
      obtain ⟨rfl, hi, -⟩ := hprogress
      simp only [FileWriter.consolidateStep, FileWriter.chunkPath_setState,
        h.2.2 i (Nat.le_refl i) hi]
      exact h
  | readChunk i | seek i buf | syncAll i => exact h
  | writeAll i buf =>
      obtain ⟨rfl, -⟩ := hprogress
      obtain ⟨hi, hgone, hpresent⟩ := h
      have hchunks : ∀ j, (FileStore.update files w₀.filePath
          (FileStore.writeAt · (i * w₀.chunkSize) buf)).get (w₀.chunkPath j) =
          files.get (w₀.chunkPath j) := by
        intro j
        rw [FileStore.get_update, if_neg (w₀.chunkPath_ne_filePath j)]
      refine ⟨hi, ?_, hpresent.of_eq (Nat.le_refl i) fun j _ => hchunks j⟩
      intro j hj
      rw [← hgone j hj]
      exact hchunks j
  | removeChunk i =>
      obtain ⟨rfl, hi, -⟩ := hprogress
      obtain ⟨-, hgone, hpresent⟩ := h
      simp only [FileWriter.consolidateStep, FileWriter.chunkPath_setState,
        hpresent i (Nat.le_refl i) hi]
      apply chunksGone_nextChunk hi
      · intro j hj
        rw [AssocMap.get_erase]
        split_ifs with heq
        · rfl
        · apply hgone
          rcases Nat.lt_succ_iff_lt_or_eq.mp hj with hlt | rfl
          · exact hlt
          · exact absurd rfl heq
      · apply hpresent.of_eq (Nat.le_succ i)
        intro j hj
        apply AssocMap.get_erase_of_ne
        intro heq
        have hji := w₀.chunkPath_inj heq
        omega
      · rfl
  | leave =>
      obtain ⟨rfl, -⟩ := hprogress
      exact h
  | returned result => exact h

/-- A consolidation that finds every chunk, and whose file operations succeed, returns `Ok`
and leaves the content and no chunk. -/
theorem consolidate_ok (hlen : content.length = w.fileSize) (hstate : w.state = .writingChunks 0)
    (hfree : w.writingChunk.all (fun flag => !flag) = true) (hpresent : Present w content files 0) :
    (w.consolidate files fun _ => .ok).2.2 = .returned (.ok ()) ∧
    (w.consolidate files fun _ => .ok).2.1.get w.filePath = some content ∧
    ∀ i < w.writingChunk.length,
      (w.consolidate files fun _ => .ok).2.1.get (w.chunkPath i) = none := by
  have hrun : ConsolidateProgress w content (w.consolidate files fun _ => .ok).1
      (w.consolidate files fun _ => .ok).2.1 (w.consolidate files fun _ => .ok).2.2 ∧
      ChunksGone w content (w.consolidate files fun _ => .ok).2.1
        (w.consolidate files fun _ => .ok).2.2 := by
    apply Transition.runFor_invariant_of_answers
      (fun s : FileWriter × FileStore × FileWriter.ConsolidatePc =>
        ConsolidateProgress w content s.1 s.2.1 s.2.2 ∧ ChunksGone w content s.2.1 s.2.2)
      (fun _ => Eq.refl Outcome.ok)
    · rintro outcome ⟨w', files', pc⟩ rfl ⟨hprogress, hgone⟩
      exact ⟨consolidateProgress_step hlen hstate hfree .ok hprogress,
        chunksGone_step hstate hfree hprogress hgone⟩
    · exact ⟨⟨rfl, hpresent⟩, hpresent⟩
  obtain ⟨result, hend⟩ := consolidate_ends w files fun _ => .ok
  rw [hend] at hrun ⊢
  cases result with
  | error e => exact hrun.2.elim
  | ok _ => exact ⟨rfl, hrun.1, hrun.2⟩

end Consolidation

/-! ## Every order of the writes -/

section Runs

variable {ι : Type} [Fintype ι] [DecidableEq ι] {w₀ : FileWriter} {data : ι → Bytes}
  {offset : ι → ℕ} {s s' : Processes ι WriterCall SharedWriter} {t : Turn ι Outcome}

/-- The calls write one chunk each. -/
def WritingAll (w₀ : FileWriter) (data : ι → Bytes) (offset : ι → ℕ)
    (s : Processes ι WriterCall SharedWriter) : Prop :=
  ∃ pc, (∀ i, s.process i = .write (data i) (offset i) (pc i)) ∧
    WritesInvariant w₀ data offset pc s.shared.writer s.shared.files

/-- The steps a writing call still takes at most. -/
def callStepsLeft : WriterCall → ℕ
  | .write _ _ pc => writeStepsLeft pc
  | .consolidate _ _ => 0

/-- In each turn every chunk is written, or on its way. -/
theorem writingAll_step (hgood : ∀ i, GoodChunk (data i) (offset i) w₀)
    (hinj : ∀ i j, offset i / w₀.chunkSize = offset j / w₀.chunkSize → i = j)
    (h : WritingAll w₀ data offset s) (hok : t.outcome = .ok)
    (hstep : Processes.step WriterCall.act s t = some s') :
    WritingAll w₀ data offset s' ∧
      callStepsLeft (s'.process t.process) ≤ callStepsLeft (s.process t.process) - 1 := by
  obtain ⟨pc, hcalls, hinv⟩ := h
  have hself := Processes.step_self hstep
  rw [hcalls, hok, WriterCall.act, Prod.mk.injEq] at hself
  obtain ⟨hprocess, hshared⟩ := hself
  refine ⟨⟨Function.update pc t.process (s.shared.writer.writeStep s.shared.files
    (data t.process) (offset t.process) .ok (pc t.process)).2.2, ?_, ?_⟩, ?_⟩
  · intro i
    by_cases hi : i = t.process
    · subst hi
      rw [hprocess, Function.update_self]
    · rw [Processes.step_other hstep hi, Function.update_of_ne hi]
      exact hcalls i
  · rw [hshared]
    exact writesInvariant_step hgood hinj hinv t.process
  · rw [hprocess, hcalls]
    exact writeStep_stepsLeft _ _ _ _ _ _

omit [DecidableEq ι] in
/-- A writer nobody uses, before the writes. -/
theorem writingAll_start (files : FileStore) (hstate : w₀.state = .writingChunks 0)
    (hfree : w₀.writingChunk.all (fun flag => !flag) = true) (data : ι → Bytes)
    (offset : ι → ℕ) :
    WritingAll w₀ data offset ⟨⟨w₀, files⟩, fun i => .write (data i) (offset i) .check⟩ := by
  refine ⟨fun _ => .check, fun _ => rfl, SameWriter.refl w₀, ?_, ?_, fun _ _ h => (by cases h),
    fun _ => trivial⟩
  · rw [hstate]
    simp [inside]
  · intro chunkPos hset
    rw [all_free_iff.mp hfree chunkPos] at hset
    cases hset

omit [DecidableEq ι] in
/-- When every call returned, the writer is free and the files of the chunks hold them. -/
theorem written_of_writesInvariant {pc : ι → FileWriter.WritePc} {w : FileWriter}
    {files : FileStore} (h : WritesInvariant w₀ data offset pc w files)
    (hdone : ∀ i, pc i = .returned (.ok ())) :
    w.state = .writingChunks 0 ∧ w.writingChunk.all (fun flag => !flag) = true ∧
      ∀ i, files.get (w₀.chunkPath (offset i / w₀.chunkSize)) = some (data i) := by
  refine ⟨?_, ?_, ?_⟩
  · rw [h.state]
    simp [hdone, inside]
  · rw [all_free_iff]
    intro chunkPos
    by_contra hset
    obtain ⟨i, hheld, -⟩ := h.flags chunkPos (by simpa using hset)
    rw [hdone i] at hheld
    exact hheld
  · intro i
    apply h.files
    rw [hdone i]
    rfl

end Runs

/-- **Chunks arrive in any order.** The chunks of a file are written by one call each, whose
steps take turns in any order, and no file operation fails. No call fails, each returns
after at most nine turns, and a consolidation after they all returned builds the file. -/
theorem consolidated_of_run {hash : String → ℕ → ℕ → UInt64} {filePath : String}
    {fileSize chunkSize : ℕ} {w : FileWriter}
    (hnew : FileWriter.new hash filePath fileSize chunkSize = .ok w)
    {data : Fin (chunkCount fileSize chunkSize) → Bytes}
    (hdata : ∀ i : Fin (chunkCount fileSize chunkSize),
      (data i).length = min chunkSize (fileSize - i * chunkSize))
    {files : FileStore} {turns : List (Turn (Fin (chunkCount fileSize chunkSize)) Outcome)}
    (hok : ∀ t ∈ turns, t.outcome = .ok)
    {s : Processes (Fin (chunkCount fileSize chunkSize)) WriterCall SharedWriter}
    (h : Transition.run (Processes.step WriterCall.act)
      ⟨⟨w, files⟩, fun i => .write (data i) (i * chunkSize) .check⟩ turns = some s) :
    (∀ i, ¬ (s.process i).Failed) ∧
    (∀ i, 9 ≤ Processes.turns i turns → (s.process i).Written) ∧
    ((∀ i, (s.process i).Written) →
      (s.shared.writer.consolidate s.shared.files fun _ => .ok).2.2 = .returned (.ok ()) ∧
      Consolidated w (List.ofFn data)
        (s.shared.writer.consolidate s.shared.files fun _ => .ok).2.1) := by
  obtain ⟨-, rfl, rfl, hstate, hfree⟩ := new_spec hnew
  have hgood : ∀ i : Fin (chunkCount w.fileSize w.chunkSize),
      GoodChunk (data i) (i * w.chunkSize) w := fun i => goodChunk_of_piece i.isLt (hdata i)
  have hinj : ∀ i j : Fin (chunkCount w.fileSize w.chunkSize),
      i * w.chunkSize / w.chunkSize = j * w.chunkSize / w.chunkSize → i = j := by
    intro i j hij
    rw [Nat.mul_div_cancel _ w.chunkSize_pos, Nat.mul_div_cancel _ w.chunkSize_pos] at hij
    exact Fin.ext hij
  have hmeets : Transition.Meets (Processes.step WriterCall.act) (fun _ t => t.outcome = .ok)
      ⟨⟨w, files⟩, fun i => .write (data i) (i * w.chunkSize) .check⟩ turns :=
    Transition.meets_of_forall_mem hok _
  have hstart := writingAll_start files hstate hfree data fun i => i * w.chunkSize
  obtain ⟨pc, hcalls, hinv⟩ : WritingAll w data (fun i => i * w.chunkSize) s :=
    Transition.invariant_run_of_meets _ hstart
      (fun s t s' hinv ht hstep => (writingAll_step hgood hinj hinv ht hstep).1) hmeets h
  refine ⟨?_, ?_, ?_⟩
  · rintro i ⟨d, o, ⟨e, hfailed⟩ | ⟨fault, hfailed⟩⟩
    all_goals
      have hway := hinv.underWay i
      rw [hcalls, WriterCall.write.injEq] at hfailed
      rw [hfailed.2.2] at hway
      exact hway
  · intro i hturns
    have hleft := Processes.measure_le_of_run callStepsLeft hstart
      (fun s t s' hinv ht hstep => (writingAll_step hgood hinj hinv ht hstep).1)
      (fun s t s' hinv ht hstep => (writingAll_step hgood hinj hinv ht hstep).2) hmeets h i
    have hzero : writeStepsLeft (pc i) = 0 := by
      rw [hcalls] at hleft
      have hnone : (9 : ℕ) - Processes.turns i turns = 0 := by omega
      exact Nat.le_zero.mp (Nat.le_trans hleft (Nat.le_of_eq hnone))
    refine ⟨data i, i * w.chunkSize, ?_⟩
    rw [hcalls, WriterCall.write.injEq]
    refine ⟨rfl, rfl, ?_⟩
    have hway := hinv.underWay i
    cases hpc : pc i with
    | returned result =>
        rw [hpc] at hway
        cases result with
        | ok _ => rfl
        | error e => exact hway.elim
    | panicked fault =>
        rw [hpc] at hway
        exact hway.elim
    | check | openEmpty | enter | acquire | openChunk | setLen | writeAll | syncAll | release
    | leave =>
        rw [hpc] at hzero
        cases hzero
  · intro hdone
    have hreturned : ∀ i, pc i = .returned (.ok ()) := by
      intro i
      obtain ⟨d, o, hwritten⟩ := hdone i
      rw [hcalls, WriterCall.write.injEq] at hwritten
      exact hwritten.2.2
    obtain ⟨hstate', hfree', hfiles⟩ := written_of_writesInvariant hinv hreturned
    have hpieces : ArePieces w.fileSize w.chunkSize (List.ofFn data) := by
      intro i hi
      rw [List.getElem_ofFn]
      exact hdata _
    have hlength : (List.ofFn data).flatten.length = w.fileSize := by
      have hcover := le_chunkCount_mul w.fileSize w.chunkSize_pos
      rw [length_flatten_pieces hpieces, List.length_ofFn]
      omega
    have hpresent : Present s.shared.writer (List.ofFn data).flatten s.shared.files 0 := by
      intro i _ hi
      rw [hinv.same.length, w.writingChunk_length] at hi
      have hfile := hfiles ⟨i, hi⟩
      rw [Nat.mul_div_cancel _ w.chunkSize_pos] at hfile
      rw [hinv.same.chunkPath, hfile, hinv.same.chunkSize,
        chunkAt_flatten_pieces hpieces i (by rw [List.length_ofFn]; exact hi), List.getElem_ofFn]
    obtain ⟨hend, hcontent, hgone⟩ := consolidate_ok
      (hlength.trans hinv.same.fileSize.symm) hstate' hfree' hpresent
    refine ⟨hend, ?_, hlength, ?_⟩
    · rw [← hinv.same.filePath]
      exact hcontent
    · intro i hi
      rw [← hinv.same.chunkPath]
      exact hgone i (by rw [hinv.same.length]; exact hi)

/-- A file of a full chunk and a short one, the short one begun first. -/
theorem consolidated_of_run_two : ∃ w s,
    FileWriter.new (fun _ _ _ => 0) "f" 3 2 = .ok w ∧
    Transition.run (Processes.step WriterCall.act)
      ⟨⟨w, .empty⟩, fun i : Fin (chunkCount 3 2) =>
        .write (if i.val = 0 then [1, 2] else [3]) (i * 2) .check⟩
      ((List.replicate 4 (1 : Fin 2) ++ List.replicate 9 0 ++ List.replicate 5 1).map (⟨·, .ok⟩)) =
        some s ∧
    Consolidated w [[1, 2], [3]] (s.shared.writer.consolidate s.shared.files fun _ => .ok).2.1 := by
  obtain ⟨w, hnew⟩ : ∃ w, FileWriter.new (fun _ _ _ => 0) "f" 3 2 = .ok w := ⟨_, rfl⟩
  obtain ⟨s, hrun⟩ : ∃ s, Transition.run (Processes.step WriterCall.act)
      ⟨⟨w, .empty⟩, fun i : Fin (chunkCount 3 2) =>
        .write (if i.val = 0 then [1, 2] else [3]) (i * 2) .check⟩
      ((List.replicate 4 (1 : Fin 2) ++ List.replicate 9 0 ++ List.replicate 5 1).map (⟨·, .ok⟩)) =
        some s := ⟨_, rfl⟩
  obtain ⟨-, hwritten, hconsolidated⟩ :=
    consolidated_of_run hnew (by decide) (by decide) hrun
  have hturns : ∀ i : Fin 2, 9 ≤ Processes.turns i
      ((List.replicate 4 (1 : Fin 2) ++ List.replicate 9 0 ++ List.replicate 5 1).map
        ((⟨·, .ok⟩) : Fin 2 → Turn (Fin 2) Outcome)) := by
    decide
  exact ⟨w, s, hnew, hrun, (hconsolidated fun i => hwritten i (hturns i)).2⟩

end Grizol.Analysis

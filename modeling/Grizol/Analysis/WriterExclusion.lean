import Grizol.Interface.WriterRecovery
import Grizol.Analysis.FileWriterCalls

/-!
# Writers and consolidators

The mutex is released while a call does its file operations, so exclusion rests on the
counter. It never falls below the number of calls that are counted; a call that fails
leaves it above that number for good, and then no consolidation begins any more. A
flag that is set belongs to a call that will clear it, or to one that failed. So when
the counter is zero no flag is set, and the check of the flags never skips the copy.
-/

set_option autoImplicit false

namespace Grizol.Analysis

open Grizol.Library Grizol.Model Grizol.Interface

/-! ## Calls and what they hold -/

section Calls

/-- A call that is counted, as a number. -/
def counted : WriterCall → ℕ
  | .write _ _ pc => inside pc
  | .consolidate _ _ => 0

/-- A call between acquiring and releasing the flag of its chunk. -/
def holdsFlag : FileWriter.WritePc → Prop
  | .openChunk | .setLen | .writeAll | .syncAll | .release => True
  | _ => False

/-- The call holds the flag of this chunk. -/
def Holds (chunkSize : ℕ) (c : WriterCall) (chunkPos : ℕ) : Prop :=
  match c with
  | .write _ offset pc => holdsFlag pc ∧ offset / chunkSize = chunkPos
  | .consolidate _ _ => False

/-- A call that writes is counted. -/
theorem counted_of_writing {c : WriterCall} (h : c.Writing) : counted c = 1 := by
  cases c with
  | write data offset pc => cases pc <;> first | rfl | exact h.elim
  | consolidate pc found => exact h.elim

/-- A call that holds a flag is inside. -/
theorem inside_of_holdsFlag {pc : FileWriter.WritePc} (h : holdsFlag pc) : inside pc = 1 := by
  cases pc <;> first | rfl | exact h.elim

/-- A call that neither creates the chunk of an empty file nor panicked. -/
def Proper : WriterCall → Prop
  | .write _ _ pc => pc ≠ .openEmpty ∧ ∀ fault, pc ≠ .panicked fault
  | .consolidate _ _ => True

end Calls

/-! ## The copy -/

section Copy

variable {w : FileWriter} {found files : FileStore}

/-- Where a consolidation stands: the chunks before its counter have been copied and were
there, the others are as it found them. -/
def CopyProgress (w : FileWriter) (found files : FileStore) : FileWriter.ConsolidatePc → Prop :=
  let rest i := ∀ j, i ≤ j → files.get (w.chunkPath j) = found.get (w.chunkPath j)
  let copied i := (∀ j < i, (found.get (w.chunkPath j)).isSome = true) ∧
    files.get w.filePath = some (joined w found i)
  fun pc => match pc with
  | .enter | .returned _ => True
  | .checkFlags | .openTarget => rest 0
  | .openChunk i => i < w.writingChunk.length ∧ rest i ∧ copied i
  | .readChunk i => i < w.writingChunk.length ∧ rest i ∧ copied i ∧
      (found.get (w.chunkPath i)).isSome = true
  | .seek i buf | .writeAll i buf => i < w.writingChunk.length ∧ rest i ∧ copied i ∧
      found.get (w.chunkPath i) = some buf
  | .syncAll i | .removeChunk i => i < w.writingChunk.length ∧ rest (i + 1) ∧ copied (i + 1)
  | .leave => copied w.writingChunk.length

/-- One chunk more. -/
theorem joined_succ (w : FileWriter) (found : FileStore) (i : ℕ) :
    joined w found (i + 1) = FileStore.writeAt (joined w found i) (i * w.chunkSize)
      ((found.get (w.chunkPath i)).getD []) := by
  rw [joined, List.range_succ, List.foldl_append]
  rfl

/-- The head of the loop. -/
theorem copyProgress_nextChunk {i : ℕ} (hi : i ≤ w.writingChunk.length)
    (hrest : ∀ j, i ≤ j → files.get (w.chunkPath j) = found.get (w.chunkPath j))
    (hfound : ∀ j < i, (found.get (w.chunkPath j)).isSome = true)
    (htarget : files.get w.filePath = some (joined w found i)) :
    CopyProgress w found files (w.nextChunk i) := by
  unfold FileWriter.nextChunk
  split_ifs with hlt
  · exact ⟨hlt, hrest, hfound, htarget⟩
  · obtain rfl : i = w.writingChunk.length := by omega
    exact ⟨hfound, htarget⟩

/-- A step of a consolidation that found no flag set copies, and changes the writer only
when it returns. -/
theorem copyProgress_step (hfree : w.writingChunk.all (fun flag => !flag) = true)
    {pc : FileWriter.ConsolidatePc} (outcome : Outcome) (hpc : pc ≠ .enter)
    (h : CopyProgress w found files pc) :
    CopyProgress w found (w.consolidateStep files outcome pc).2.1
        (w.consolidateStep files outcome pc).2.2 ∧
      ((w.consolidateStep files outcome pc).1 = w ∨ pc = .leave) := by
  cases pc with
  | enter => exact absurd rfl hpc
  | checkFlags =>
      have hstep : w.consolidateStep files outcome .checkFlags = (w, files, .openTarget) :=
        if_pos hfree
      rw [hstep]
      exact ⟨h, Or.inl rfl⟩
  | openTarget =>
      cases outcome with
      | ok =>
          refine ⟨?_, Or.inl rfl⟩
          apply copyProgress_nextChunk (Nat.zero_le _)
          · intro j hj
            rw [← h j hj]
            exact AssocMap.get_insert_of_ne _ _ (w.chunkPath_ne_filePath j)
          · intro j hj
            exact absurd hj (Nat.not_lt_zero j)
          · exact AssocMap.get_insert_self _ _ _
      | fails n => exact ⟨trivial, Or.inl rfl⟩
  | openChunk i =>
      obtain ⟨hi, hrest, hfound, htarget⟩ := h
      simp only [FileWriter.consolidateStep]
      split
      · rename_i content _ hget
        refine ⟨⟨hi, hrest, ⟨hfound, htarget⟩, ?_⟩, Or.inl rfl⟩
        rw [← hrest i (Nat.le_refl i), hget]
        rfl
      · exact ⟨trivial, Or.inl rfl⟩
  | readChunk i =>
      obtain ⟨hi, hrest, hcopied, hsome⟩ := h
      cases outcome with
      | ok =>
          refine ⟨⟨hi, hrest, hcopied, ?_⟩, Or.inl rfl⟩
          rw [hrest i (Nat.le_refl i)]
          exact (Option.some_get hsome).symm ▸ rfl
      | fails n => exact ⟨trivial, Or.inl rfl⟩
  | seek i buf =>
      cases outcome with
      | ok => exact ⟨h, Or.inl rfl⟩
      | fails n => exact ⟨trivial, Or.inl rfl⟩
  | writeAll i buf =>
      obtain ⟨hi, hrest, ⟨hfound, htarget⟩, hbuf⟩ := h
      cases outcome with
      | ok =>
          refine ⟨⟨hi, ?_, ?_, ?_⟩, Or.inl rfl⟩
          · intro j hj
            rw [← hrest j (by omega)]
            simp only [FileWriter.consolidateStep, FileStore.get_update,
              if_neg (w.chunkPath_ne_filePath j)]
          · intro j hj
            rcases Nat.lt_succ_iff_lt_or_eq.mp hj with hlt | rfl
            · exact hfound j hlt
            · rw [hbuf]
              rfl
          · simp only [FileWriter.consolidateStep, FileStore.get_update, if_pos, htarget,
              Option.map_some]
            rw [joined_succ, hbuf, Option.getD_some]
      | fails n => exact ⟨trivial, Or.inl rfl⟩
  | syncAll i =>
      cases outcome with
      | ok => exact ⟨h, Or.inl rfl⟩
      | fails n => exact ⟨trivial, Or.inl rfl⟩
  | removeChunk i =>
      obtain ⟨hi, hrest, hfound, htarget⟩ := h
      simp only [FileWriter.consolidateStep]
      split
      · refine ⟨?_, Or.inl rfl⟩
        apply copyProgress_nextChunk hi
        · intro j hj
          rw [← hrest j hj]
          apply AssocMap.get_erase_of_ne
          intro heq
          have hji := w.chunkPath_inj heq
          omega
        · exact hfound
        · rw [AssocMap.get_erase_of_ne _ (Ne.symm (w.chunkPath_ne_filePath i))]
          exact htarget
      · exact ⟨trivial, Or.inl rfl⟩
  | leave => exact ⟨trivial, Or.inr rfl⟩
  | returned r => exact ⟨trivial, Or.inl rfl⟩

end Copy

/-! ## The invariant -/

section Invariant

variable {ι : Type} [Fintype ι] [DecidableEq ι]
  {s s' : Processes ι WriterCall SharedWriter} {t : Turn ι Outcome}

/-- While chunks may be written: nobody consolidates, every call inside is counted, and a
flag that is set belongs to one of them unless more are counted than are there. -/
structure WritingPhase (s : Processes ι WriterCall SharedWriter) (n : ℕ) : Prop where
  noneConsolidating : ∀ i, ¬ (s.process i).Consolidating
  counted_le : ∑ i, counted (s.process i) ≤ n
  flags : ∀ chunkPos, s.shared.writer.writingChunk.getD chunkPos false = true →
    (∃ i, Holds s.shared.writer.chunkSize (s.process i) chunkPos) ∨
      ∑ i, counted (s.process i) < n

/-- While a call consolidates, or after one that failed. -/
structure ConsolidatingPhase (s : Processes ι WriterCall SharedWriter) : Prop where
  noneCounted : ∑ i, counted (s.process i) = 0
  free : s.shared.writer.writingChunk.all (fun flag => !flag) = true
  single : ∀ i j, (s.process i).Consolidating → (s.process j).Consolidating → i = j
  copies : ∀ i pc found, s.process i = .consolidate pc found →
    CopyProgress s.shared.writer found s.shared.files pc

/-- What the state of the writer says about the calls. -/
structure ExclusionInvariant (s : Processes ι WriterCall SharedWriter) : Prop where
  size : 0 < s.shared.writer.fileSize
  proper : ∀ i, Proper (s.process i)
  writing : ∀ n, s.shared.writer.state = .writingChunks n → WritingPhase s n
  consolidating : s.shared.writer.state = .consolidating → ConsolidatingPhase s

/-- A list of flags none of which is set. -/
theorem all_free_iff {flags : List Bool} :
    flags.all (fun flag => !flag) = true ↔ ∀ i, flags.getD i false = false := by
  constructor
  · intro h i
    rw [List.all_eq_true] at h
    rw [List.getD_eq_getElem?_getD]
    cases hget : flags[i]? with
    | none => rfl
    | some flag => simpa using h flag (List.mem_of_getElem? hget)
  · intro h
    rw [List.all_eq_true]
    intro flag hmem
    obtain ⟨i, hi, rfl⟩ := List.mem_iff_getElem.mp hmem
    have hfree := h i
    rw [List.getD_eq_getElem?_getD, List.getElem?_eq_getElem hi, Option.getD_some] at hfree
    simp [hfree]

omit [DecidableEq ι] in
/-- A call that is not counted has not entered. -/
theorem counted_eq_zero (h : ∑ i, counted (s.process i) = 0) (i : ι) :
    counted (s.process i) = 0 :=
  (Finset.sum_eq_zero_iff.mp h) i (Finset.mem_univ i)

/-- A flag that is set afterwards was set before, or just now. -/
theorem getD_set_true {flags : List Bool} {i j : ℕ}
    (h : (flags.set i true).getD j false = true) : i = j ∨ flags.getD j false = true := by
  rw [List.getD_eq_getElem?_getD, List.getElem?_set] at h
  split_ifs at h with hij hi
  · exact Or.inl hij
  · exact Or.inl hij
  · exact Or.inr (by rwa [List.getD_eq_getElem?_getD])

/-- One that is set afterwards was not just cleared. -/
theorem getD_set_false {flags : List Bool} {i j : ℕ}
    (h : (flags.set i false).getD j false = true) : i ≠ j ∧ flags.getD j false = true := by
  rw [List.getD_eq_getElem?_getD, List.getElem?_set] at h
  split_ifs at h with hij hi
  · cases h
  · cases h
  · exact ⟨hij, by rwa [List.getD_eq_getElem?_getD]⟩

/-- What a turn leaves behind. -/
def leaks (outcome : Outcome) (c : WriterCall) (s : SharedWriter) : ℕ :=
  (!c.opSucceeds outcome s).toNat

/-- A chunk that is refused is not counted. -/
theorem inside_checkChunk (w : FileWriter) (data : Bytes) (offset : ℕ) :
    inside (w.checkChunk data offset) = 0 := by
  simp only [FileWriter.checkChunk]
  split_ifs <;> rfl

/-- A write in the writing phase puts one to the counter, takes it back or leaves it. -/
theorem writeStep_account {s : SharedWriter} (data : Bytes) (offset : ℕ) {pc : FileWriter.WritePc} {n : ℕ} (outcome : Outcome)
    (hstate : s.writer.state = .writingChunks n) (hinside : inside pc ≤ n) :
    ∃ n', (s.writer.writeStep s.files data offset outcome pc).1.state = .writingChunks n' ∧
      n' + inside pc = n + inside (s.writer.writeStep s.files data offset outcome pc).2.2 +
        leaks outcome (.write data offset pc) s ∧
      ∀ chunkPos,
        (s.writer.writeStep s.files data offset outcome pc).1.writingChunk.getD chunkPos false =
          true →
        (holdsFlag (s.writer.writeStep s.files data offset outcome pc).2.2 ∧
          offset / s.writer.chunkSize = chunkPos) ∨
        s.writer.writingChunk.getD chunkPos false = true ∧
          (¬ (holdsFlag pc ∧ offset / s.writer.chunkSize = chunkPos) ∨
            0 < leaks outcome (.write data offset pc) s) := by
  cases pc with
  | check =>
      have hinside' := inside_checkChunk s.writer data offset
      refine ⟨n, hstate, ?_, fun chunkPos hset => Or.inr ⟨hset, Or.inl fun h => h.1⟩⟩
      simp only [FileWriter.writeStep, hinside']
      rfl
  | openEmpty =>
      cases outcome with
      | ok => exact ⟨n, hstate, rfl, fun chunkPos hset => Or.inr ⟨hset, Or.inl fun h => h.1⟩⟩
      | fails k => exact ⟨n, hstate, rfl, fun chunkPos hset => Or.inr ⟨hset, Or.inl fun h => h.1⟩⟩
  | enter =>
      simp only [FileWriter.writeStep, hstate]
      exact ⟨n + 1, rfl, rfl, fun chunkPos hset => Or.inr ⟨hset, Or.inl fun h => h.1⟩⟩
  | acquire =>
      simp only [FileWriter.writeStep, FileWriter.compareExchange]
      split_ifs with hflag
      · exact ⟨n, hstate, rfl, fun chunkPos hset => Or.inr ⟨hset, Or.inl fun h => h.1⟩⟩
      · refine ⟨n, hstate, rfl, fun chunkPos hset => ?_⟩
        rcases getD_set_true hset with heq | hset
        · exact Or.inl ⟨trivial, heq⟩
        · exact Or.inr ⟨hset, Or.inl fun h => h.1⟩
  | openChunk =>
      cases outcome with
      | ok =>
          refine ⟨n, hstate, rfl, fun chunkPos hset => ?_⟩
          by_cases hpos : offset / s.writer.chunkSize = chunkPos
          · exact Or.inl ⟨trivial, hpos⟩
          · exact Or.inr ⟨hset, Or.inl fun h => hpos h.2⟩
      | fails k =>
          refine ⟨n, hstate, rfl, fun chunkPos hset => ?_⟩
          obtain ⟨hne, hset⟩ := getD_set_false hset
          exact Or.inr ⟨hset, Or.inl fun h => hne h.2⟩
  | setLen | writeAll | syncAll =>
      cases outcome with
      | ok =>
          refine ⟨n, hstate, rfl, fun chunkPos hset => ?_⟩
          by_cases hpos : offset / s.writer.chunkSize = chunkPos
          · exact Or.inl ⟨trivial, hpos⟩
          · exact Or.inr ⟨hset, Or.inl fun h => hpos h.2⟩
      | fails k =>
          refine ⟨n, hstate, rfl, fun chunkPos hset => ?_⟩
          exact Or.inr ⟨hset, Or.inr Nat.one_pos⟩
  | release =>
      refine ⟨n, hstate, rfl, fun chunkPos hset => ?_⟩
      obtain ⟨hne, hset⟩ := getD_set_false hset
      exact Or.inr ⟨hset, Or.inl fun h => hne h.2⟩
  | leave =>
      cases n with
      | zero => exact absurd hinside (by simp [inside])
      | succ n =>
          simp only [FileWriter.writeStep, hstate]
          exact ⟨n, rfl, rfl, fun chunkPos hset => Or.inr ⟨hset, Or.inl fun h => h.1⟩⟩
  | returned r => exact ⟨n, hstate, rfl, fun chunkPos hset => Or.inr ⟨hset, Or.inl fun h => h.1⟩⟩
  | panicked fault => exact ⟨n, hstate, rfl, fun chunkPos hset => Or.inr ⟨hset, Or.inl fun h => h.1⟩⟩

/-- The checks do not count a call, and a writer of a file that is not empty has no chunk of an
empty one to create. -/
theorem writeStep_proper {w : FileWriter} {data : Bytes} {offset n : ℕ} {pc : FileWriter.WritePc}
    (files : FileStore) (outcome : Outcome) (hstate : w.state = .writingChunks n)
    (hsize : 0 < w.fileSize) (hproper : Proper (.write data offset pc)) (hinside : inside pc ≤ n) :
    Proper (.write data offset (w.writeStep files data offset outcome pc).2.2) := by
  cases pc with
  | check =>
      have hnotEmpty : ¬ (offset = 0 ∧ w.fileSize = 0) := fun h => by omega
      simp only [FileWriter.writeStep, FileWriter.checkChunk, if_neg hnotEmpty]
      split_ifs <;> simp [Proper]
  | openEmpty => exact absurd rfl hproper.1
  | enter =>
      simp only [FileWriter.writeStep, hstate]
      simp [Proper]
  | acquire =>
      simp only [FileWriter.writeStep, FileWriter.compareExchange]
      split_ifs <;> simp [Proper]
  | openChunk | setLen | writeAll | syncAll =>
      cases outcome <;> simp [FileWriter.writeStep, Proper]
  | release => simp [FileWriter.writeStep, Proper]
  | leave =>
      cases n with
      | zero => exact absurd hinside (by simp [inside])
      | succ n =>
          simp only [FileWriter.writeStep, hstate]
          simp [Proper]
  | returned r => exact hproper
  | panicked fault => exact absurd rfl (hproper.2 fault)

/-- What a step of `write_chunk` does while chunks may be written. A call that fails inside
stays counted. -/
theorem writeStep_writing {w : FileWriter} {data : Bytes} {offset n : ℕ}
    {pc : FileWriter.WritePc} (files : FileStore) (outcome : Outcome) (hstate : w.state = .writingChunks n)
    (hsize : 0 < w.fileSize) (hproper : Proper (.write data offset pc)) (hinside : inside pc ≤ n) :
    Proper (.write data offset (w.writeStep files data offset outcome pc).2.2) ∧
    ∃ n', (w.writeStep files data offset outcome pc).1.state = .writingChunks n' ∧
      n + inside (w.writeStep files data offset outcome pc).2.2 ≤ n' + inside pc ∧
      (outcome = .ok → n' + inside pc = n + inside (w.writeStep files data offset outcome pc).2.2) ∧
      ∀ chunkPos, (w.writeStep files data offset outcome pc).1.writingChunk.getD chunkPos false =
          true →
        (holdsFlag (w.writeStep files data offset outcome pc).2.2 ∧
          offset / w.chunkSize = chunkPos) ∨
        w.writingChunk.getD chunkPos false = true ∧
          (¬ (holdsFlag pc ∧ offset / w.chunkSize = chunkPos) ∨
            n + inside (w.writeStep files data offset outcome pc).2.2 < n' + inside pc) := by
  obtain ⟨n', hstate', hcount, hflags⟩ :=
    writeStep_account (s := ⟨w, files⟩) data offset outcome hstate hinside
  dsimp only at hstate' hcount hflags
  refine ⟨writeStep_proper files outcome hstate hsize hproper hinside, n', hstate', by omega, ?_, ?_⟩
  · rintro rfl
    have hnone : leaks .ok (.write data offset pc) ⟨w, files⟩ = 0 := by
      cases pc <;> rfl
    omega
  · intro chunkPos hset
    refine (hflags chunkPos hset).imp id (And.imp id (Or.imp id fun hleaks => ?_))
    omega

/-- What a step of `write_chunk` does while a call consolidates: nothing to the writer or
the files. -/
theorem writeStep_consolidating {w : FileWriter} {data : Bytes} {offset : ℕ}
    {pc : FileWriter.WritePc} (files : FileStore) (outcome : Outcome) (hstate : w.state = .consolidating)
    (hsize : 0 < w.fileSize) (hproper : Proper (.write data offset pc)) (houtside : inside pc = 0) :
    (w.writeStep files data offset outcome pc).1 = w ∧
      (w.writeStep files data offset outcome pc).2.1 = files ∧
      Proper (.write data offset (w.writeStep files data offset outcome pc).2.2) ∧
      inside (w.writeStep files data offset outcome pc).2.2 = 0 := by
  cases pc with
  | check =>
      have hnotEmpty : ¬ (offset = 0 ∧ w.fileSize = 0) := fun h => by omega
      simp only [FileWriter.writeStep, FileWriter.checkChunk, if_neg hnotEmpty]
      refine ⟨trivial, trivial, ?_, ?_⟩
      · split_ifs <;> simp [Proper]
      · split_ifs <;> rfl
  | openEmpty => exact absurd rfl hproper.1
  | enter =>
      simp only [FileWriter.writeStep, hstate]
      refine ⟨trivial, trivial, ?_, ?_⟩
      · simp [Proper]
      · rfl
  | returned r => exact ⟨rfl, rfl, hproper, rfl⟩
  | panicked fault => exact absurd rfl (hproper.2 fault)
  | acquire | openChunk | setLen | writeAll | syncAll | release | leave => cases houtside

/-- A turn in the writing phase stays in it when it counts no fewer calls and the flags it
sets are its own; `n` calls were counted before and `n'` after. -/
theorem writingPhase_step {n n' : ℕ} (h : WritingPhase s n)
    (hstep : Processes.step WriterCall.act s t = some s')
    (hsize : s'.shared.writer.chunkSize = s.shared.writer.chunkSize)
    (hphase : ¬ (s'.process t.process).Consolidating)
    (hcount : n + counted (s'.process t.process) ≤ n' + counted (s.process t.process))
    (hflags : ∀ chunkPos, s'.shared.writer.writingChunk.getD chunkPos false = true →
      Holds s.shared.writer.chunkSize (s'.process t.process) chunkPos ∨
      s.shared.writer.writingChunk.getD chunkPos false = true ∧
        (¬ Holds s.shared.writer.chunkSize (s.process t.process) chunkPos ∨
          n + counted (s'.process t.process) < n' + counted (s.process t.process))) :
    WritingPhase s' n' := by
  have hsum := Processes.sum_step hstep counted
  have hbefore := h.counted_le
  refine ⟨?_, by omega, ?_⟩
  · intro i
    by_cases hi : i = t.process
    · rw [hi]
      exact hphase
    · rw [Processes.step_other hstep hi]
      exact h.noneConsolidating i
  · intro chunkPos hset
    rw [hsize]
    rcases hflags chunkPos hset with hheld | ⟨hset, hother⟩
    · exact Or.inl ⟨t.process, hheld⟩
    · rcases h.flags chunkPos hset with ⟨i, hi⟩ | hlt
      · by_cases hti : i = t.process
        · subst hti
          rcases hother with hnot | hmore
          · exact absurd hi hnot
          · exact Or.inr (by omega)
        · refine Or.inl ⟨i, ?_⟩
          rw [Processes.step_other hstep hti]
          exact hi
      · exact Or.inr (by omega)

/-- A turn that leaves the writer and the files as they are keeps the consolidating phase. -/
theorem consolidatingPhase_of_unchanged (h : ConsolidatingPhase s)
    (hstep : Processes.step WriterCall.act s t = some s') (hshared : s'.shared = s.shared)
    (hcounted : counted (s'.process t.process) = 0)
    (houtside : ¬ (s'.process t.process).Consolidating)
    (hcopy : ∀ pc found, s'.process t.process = .consolidate pc found →
      CopyProgress s.shared.writer found s.shared.files pc) : ConsolidatingPhase s' := by
  have hsum := Processes.sum_step hstep counted
  have hbefore := h.noneCounted
  have hinside : ∀ i, (s'.process i).Consolidating → i ≠ t.process ∧
      (s.process i).Consolidating := by
    intro i hi
    by_cases hti : i = t.process
    · rw [hti] at hi
      exact absurd hi houtside
    · rw [Processes.step_other hstep hti] at hi
      exact ⟨hti, hi⟩
  refine ⟨by omega, ?_, ?_, ?_⟩
  · rw [hshared]
    exact h.free
  · intro i j hi hj
    exact h.single i j (hinside i hi).2 (hinside j hj).2
  · intro i pc found hi
    rw [hshared]
    by_cases hti : i = t.process
    · rw [hti] at hi
      exact hcopy pc found hi
    · rw [Processes.step_other hstep hti] at hi
      exact h.copies i pc found hi

omit [Fintype ι] in
/-- What holds of every call and of the one whose turn it was holds of every call after. -/
theorem forall_process {P : WriterCall → Prop} (hstep : Processes.step WriterCall.act s t = some s')
    (hall : ∀ i, P (s.process i)) (hturn : P (s'.process t.process)) : ∀ i, P (s'.process i) := by
  intro i
  by_cases hi : i = t.process
  · rw [hi]
    exact hturn
  · rw [Processes.step_other hstep hi]
    exact hall i

/-- The turn of a writing call. -/
theorem exclusionInvariant_write (h : ExclusionInvariant s)
    (hstep : Processes.step WriterCall.act s t = some s') {data : Bytes} {offset : ℕ}
    {pc : FileWriter.WritePc} (hcall : s.process t.process = .write data offset pc) :
    ExclusionInvariant s' := by
  have hself := Processes.step_self hstep
  rw [hcall, WriterCall.act, Prod.mk.injEq] at hself
  obtain ⟨hprocess, hshared⟩ := hself
  have hsame := (writeStep_frame data offset s.shared.writer s.shared.files t.outcome pc).same
  have hproper := h.proper t.process
  rw [hcall] at hproper
  have hcounted : counted (s.process t.process) = inside pc := by rw [hcall]; rfl
  have hcounted' : counted (s'.process t.process) =
      inside (s.shared.writer.writeStep s.shared.files data offset t.outcome pc).2.2 := by
    rw [hprocess]
    rfl
  have hsize : 0 < s'.shared.writer.fileSize := by
    rw [hshared, hsame.fileSize]
    exact h.size
  cases hstate : s.shared.writer.state with
  | writingChunks n =>
      have hphase := h.writing n hstate
      have hinside : inside pc ≤ n := by
        have hle := Processes.le_sum s counted t.process
        rw [hcounted] at hle
        exact Nat.le_trans hle hphase.counted_le
      obtain ⟨hproper', n', hstate', hcount, -, hflags⟩ :=
        writeStep_writing s.shared.files t.outcome hstate h.size hproper hinside
      refine ⟨hsize, forall_process hstep h.proper (by rw [hprocess]; exact hproper'), ?_, ?_⟩
      · intro n'' hn''
        obtain rfl : n' = n'' := by
          rw [hshared, hstate'] at hn''
          exact FileWriterState.writingChunks.inj hn''
        apply writingPhase_step hphase hstep
        · rw [hshared]
          exact hsame.chunkSize
        · rw [hprocess]
          exact id
        · rw [hcounted, hcounted']
          exact hcount
        · intro chunkPos hset
          rw [hshared] at hset
          rw [hcounted, hcounted', hprocess, hcall]
          exact hflags chunkPos hset
      · intro hconsolidating
        rw [hshared, hstate'] at hconsolidating
        cases hconsolidating
  | consolidating =>
      have hphase := h.consolidating hstate
      have houtside : inside pc = 0 := by
        rw [← hcounted]
        exact counted_eq_zero hphase.noneCounted t.process
      obtain ⟨hwriter, hfiles, hproper', hinside⟩ :=
        writeStep_consolidating s.shared.files t.outcome hstate h.size hproper houtside
      rw [hwriter, hfiles] at hshared
      refine ⟨hsize, forall_process hstep h.proper (by rw [hprocess]; exact hproper'), ?_, ?_⟩
      · intro n hn
        rw [hshared, hstate] at hn
        cases hn
      · intro _
        apply consolidatingPhase_of_unchanged hphase hstep hshared
        · rw [hcounted', hinside]
        · rw [hprocess]
          exact id
        · intro pc' found hpc'
          rw [hprocess] at hpc'
          cases hpc'

/-- A consolidating call that leaves the writer and the files as they are. -/
theorem writingPhase_of_unchanged {n : ℕ} (h : WritingPhase s n)
    (hstep : Processes.step WriterCall.act s t = some s') (hshared : s'.shared = s.shared)
    (hcounted : counted (s.process t.process) = 0) (hcounted' : counted (s'.process t.process) = 0)
    (houtside : ¬ (s'.process t.process).Consolidating)
    (hfree : ∀ chunkPos, ¬ Holds s.shared.writer.chunkSize (s.process t.process) chunkPos) :
    WritingPhase s' n := by
  apply writingPhase_step h hstep
  · rw [hshared]
  · exact houtside
  · rw [hcounted, hcounted']
  · intro chunkPos hset
    rw [hshared] at hset
    exact Or.inr ⟨hset, Or.inl (hfree chunkPos)⟩

/-- A consolidation that finds no call counted begins the consolidating phase. -/
theorem consolidatingPhase_of_enter (h : WritingPhase s 0)
    (hstep : Processes.step WriterCall.act s t = some s')
    (hwriter : s'.shared.writer = s.shared.writer.setState .consolidating)
    (hturn : s'.process t.process = .consolidate .checkFlags s'.shared.files)
    (hbefore : counted (s.process t.process) = 0) : ConsolidatingPhase s' := by
  have hsum := Processes.sum_step hstep counted
  have hcounted : counted (s'.process t.process) = 0 := by
    rw [hturn]
    rfl
  have hnone : ∑ i, counted (s.process i) = 0 := Nat.le_zero.mp h.counted_le
  have hothers : ∀ i, (s'.process i).Consolidating → i = t.process := by
    intro i hi
    by_contra hti
    rw [Processes.step_other hstep hti] at hi
    exact h.noneConsolidating i hi
  refine ⟨by omega, ?_, ?_, ?_⟩
  · rw [hwriter, FileWriter.setState_writingChunk, all_free_iff]
    intro chunkPos
    by_contra hset
    rcases h.flags chunkPos (by simpa using hset) with ⟨i, hi⟩ | hlt
    · -- whoever holds the flag is counted
      have hzero := counted_eq_zero hnone i
      cases hcall : s.process i with
      | write data offset pc =>
          rw [hcall] at hi hzero
          have hone := inside_of_holdsFlag hi.1
          simp only [counted] at hzero
          omega
      | consolidate pc found =>
          rw [hcall] at hi
          exact hi.elim
    · omega
  · intro i j hi hj
    exact (hothers i hi).trans (hothers j hj).symm
  · intro i pc found hi
    by_cases hti : i = t.process
    · rw [hti, hturn, WriterCall.consolidate.injEq] at hi
      obtain ⟨rfl, rfl⟩ := hi
      intro j _
      rfl
    · rw [Processes.step_other hstep hti] at hi
      have houtside := h.noneConsolidating i
      rw [hi] at houtside
      cases pc <;> first | trivial | exact absurd trivial houtside

/-- A consolidation in the consolidating phase goes on with its copy, or returns and ends the
phase. -/
theorem consolidatingPhase_of_copy (h : ConsolidatingPhase s)
    (hstep : Processes.step WriterCall.act s t = some s') {pc pc' : FileWriter.ConsolidatePc}
    {found : FileStore} (hcall : s.process t.process = .consolidate pc found)
    (hinside : (s.process t.process).Consolidating) (hturn : s'.process t.process =
      .consolidate pc' found) (hwriter : s'.shared.writer = s.shared.writer)
    (hcopy : CopyProgress s.shared.writer found s'.shared.files pc') : ConsolidatingPhase s' := by
  have hsum := Processes.sum_step hstep counted
  have hbefore := h.noneCounted
  have hcounted : counted (s.process t.process) = 0 := by rw [hcall]; rfl
  have hcounted' : counted (s'.process t.process) = 0 := by rw [hturn]; rfl
  have hothers : ∀ i, (s'.process i).Consolidating → i = t.process := by
    intro i hi
    by_contra hti
    rw [Processes.step_other hstep hti] at hi
    exact hti (h.single i t.process hi hinside)
  refine ⟨by omega, ?_, ?_, ?_⟩
  · rw [hwriter]
    exact h.free
  · intro i j hi hj
    exact (hothers i hi).trans (hothers j hj).symm
  · intro i pc₁ found₁ hi
    rw [hwriter]
    by_cases hti : i = t.process
    · rw [hti, hturn, WriterCall.consolidate.injEq] at hi
      obtain ⟨rfl, rfl⟩ := hi
      exact hcopy
    · rw [Processes.step_other hstep hti] at hi
      have houtside : ¬ (s.process i).Consolidating :=
        fun hi' => hti (h.single i t.process hi' hinside)
      rw [hi] at houtside
      cases pc₁ <;> first | trivial | exact absurd trivial houtside

/-- The turn of a consolidating call. -/
theorem exclusionInvariant_consolidate (h : ExclusionInvariant s)
    (hstep : Processes.step WriterCall.act s t = some s') {pc : FileWriter.ConsolidatePc}
    {found : FileStore} (hcall : s.process t.process = .consolidate pc found) :
    ExclusionInvariant s' := by
  have hself := Processes.step_self hstep
  rw [hcall, WriterCall.act, Prod.mk.injEq] at hself
  obtain ⟨hprocess, hshared⟩ := hself
  have hsame := (consolidateStep_frame s.shared.writer s.shared.files t.outcome pc).same
  have hcounted : counted (s.process t.process) = 0 := by rw [hcall]; rfl
  have hcounted' : counted (s'.process t.process) = 0 := by rw [hprocess]; rfl
  have hsize : 0 < s'.shared.writer.fileSize := by
    rw [hshared, hsame.fileSize]
    exact h.size
  have hproper : ∀ i, Proper (s'.process i) :=
    forall_process hstep h.proper (by rw [hprocess]; trivial)
  have hfree : ∀ chunkPos, ¬ Holds s.shared.writer.chunkSize (s.process t.process) chunkPos := by
    intro chunkPos
    rw [hcall]
    exact id
  -- a call that is not in its phase changes nothing unless it enters
  have hunchanged : ∀ result, s.shared.writer.consolidateStep s.shared.files t.outcome pc =
      (s.shared.writer, s.shared.files, .returned result) → ExclusionInvariant s' := by
    intro result hresult
    rw [hresult] at hshared hprocess
    refine ⟨hsize, hproper, ?_, ?_⟩
    · intro n hn
      apply writingPhase_of_unchanged (h.writing n (by rwa [hshared] at hn)) hstep hshared hcounted
        hcounted' _ hfree
      rw [hprocess]
      exact id
    · intro hconsolidating
      apply consolidatingPhase_of_unchanged (h.consolidating (by rwa [hshared] at hconsolidating))
        hstep hshared hcounted'
      · rw [hprocess]
        exact id
      · intro pc' found' hpc'
        rw [hprocess, WriterCall.consolidate.injEq] at hpc'
        rw [← hpc'.1]
        trivial
  cases hstate : s.shared.writer.state with
  | writingChunks n =>
      have hphase := h.writing n hstate
      have houtside := hphase.noneConsolidating t.process
      rw [hcall] at houtside
      cases pc with
      | returned result => exact hunchanged result rfl
      | enter =>
          cases n with
          | succ n =>
              apply hunchanged
              simp only [FileWriter.consolidateStep, hstate]
              rfl
          | zero =>
              simp only [FileWriter.consolidateStep, hstate] at hshared hprocess
              refine ⟨hsize, hproper, ?_, ?_⟩
              · intro n hn
                rw [hshared] at hn
                cases hn
              · intro _
                apply consolidatingPhase_of_enter hphase hstep
                · rw [hshared]
                · rw [hprocess, hshared, if_true]
                · exact hcounted
      | checkFlags | openTarget | openChunk i | readChunk i | seek i buf | writeAll i buf
      | syncAll i | removeChunk i | leave => exact absurd trivial houtside
  | consolidating =>
      have hphase := h.consolidating hstate
      by_cases hinside : (s.process t.process).Consolidating
      · have hnotEnter : pc ≠ .enter := by
          rintro rfl
          rw [hcall] at hinside
          exact hinside
        obtain ⟨hcopy, hwriter⟩ := copyProgress_step hphase.free t.outcome hnotEnter
          (hphase.copies t.process pc found hcall)
        rw [if_neg hnotEnter] at hprocess
        rcases hwriter with hwriter | rfl
        · rw [hwriter] at hshared
          refine ⟨hsize, hproper, ?_, ?_⟩
          · intro n hn
            rw [hshared, hstate] at hn
            cases hn
          · intro _
            apply consolidatingPhase_of_copy hphase hstep hcall hinside hprocess
            · rw [hshared]
            · rw [hshared]
              exact hcopy
        · simp only [FileWriter.consolidateStep] at hshared hprocess
          refine ⟨hsize, hproper, ?_, ?_⟩
          · intro n hn
            obtain rfl : 0 = n := by
              rw [hshared] at hn
              exact FileWriterState.writingChunks.inj hn
            have hsum := Processes.sum_step hstep counted
            have hbefore := hphase.noneCounted
            refine ⟨?_, by omega, ?_⟩
            · intro i hi
              by_cases hti : i = t.process
              · rw [hti, hprocess] at hi
                exact hi
              · rw [Processes.step_other hstep hti] at hi
                exact hti (hphase.single i t.process hi hinside)
            · intro chunkPos hset
              rw [hshared, FileWriter.setState_writingChunk,
                all_free_iff.mp hphase.free chunkPos] at hset
              cases hset
          · intro hconsolidating
            rw [hshared] at hconsolidating
            cases hconsolidating
      · rw [hcall] at hinside
        cases pc with
        | returned result => exact hunchanged result rfl
        | enter =>
            apply hunchanged
            simp only [FileWriter.consolidateStep, hstate]
            rfl
        | checkFlags | openTarget | openChunk i | readChunk i | seek i buf | writeAll i buf
        | syncAll i | removeChunk i | leave => exact absurd trivial hinside

/-- Every turn keeps the invariant. -/
theorem exclusionInvariant_step (h : ExclusionInvariant s)
    (hstep : Processes.step WriterCall.act s t = some s') : ExclusionInvariant s' := by
  cases hcall : s.process t.process with
  | write data offset pc => exact exclusionInvariant_write h hstep hcall
  | consolidate pc found => exact exclusionInvariant_consolidate h hstep hcall

omit [DecidableEq ι] in
/-- What the invariant says about every state. -/
theorem exclusive_of_exclusionInvariant (h : ExclusionInvariant s) : Exclusive s := by
  have hphase : ∀ i, (s.process i).Consolidating → ConsolidatingPhase s := by
    intro i hi
    cases hstate : s.shared.writer.state with
    | writingChunks n => exact absurd hi ((h.writing n hstate).noneConsolidating i)
    | consolidating => exact h.consolidating hstate
  refine ⟨?_, ?_, ?_, ?_, ?_, ?_⟩
  · intro i j hi hj
    have hone := counted_of_writing hi
    have hzero := counted_eq_zero (hphase j hj).noneCounted i
    omega
  · intro i j hi hj
    exact (hphase i hi).single i j hi hj
  · intro i data offset hi
    have hone : counted (s.process i) = 1 := by rw [hi]; rfl
    have hsum := Processes.le_sum s counted i
    cases hstate : s.shared.writer.state with
    | writingChunks n =>
        have hle := (h.writing n hstate).counted_le
        refine ⟨n - 1, ?_⟩
        rw [FileWriterState.writingChunks.injEq]
        omega
    | consolidating =>
        have hzero := (h.consolidating hstate).noneCounted
        omega
  · intro i data offset fault hi
    have hproper := h.proper i
    rw [hi] at hproper
    exact hproper.2 fault rfl
  · intro i hi
    exact (hphase i hi).free
  · intro i found hi
    have hinside : (s.process i).Consolidating := by
      rw [hi]
      trivial
    exact (hphase i hinside).copies i .leave found hi

end Invariant

/-- A state in which no call has begun. -/
theorem exclusionInvariant_fresh {ι : Type} [Fintype ι]
    {s : Processes ι WriterCall SharedWriter} (hsize : 0 < s.shared.writer.fileSize)
    (hstate : s.shared.writer.state = .writingChunks 0)
    (hfree : s.shared.writer.writingChunk.all (fun flag => !flag) = true)
    (hfresh : ∀ i, (s.process i).Fresh) : ExclusionInvariant s := by
  have houtside : ∀ i, counted (s.process i) = 0 ∧ Proper (s.process i) ∧
      ¬ (s.process i).Consolidating := by
    intro i
    have hi := hfresh i
    cases hcall : s.process i with
    | write data offset pc =>
        rw [hcall] at hi
        obtain rfl := hi
        exact ⟨rfl, by simp [Proper], id⟩
    | consolidate pc found =>
        rw [hcall] at hi
        obtain rfl := hi
        exact ⟨rfl, trivial, id⟩
  have hnone : ∑ i, counted (s.process i) = 0 :=
    Finset.sum_eq_zero fun i _ => (houtside i).1
  refine ⟨hsize, fun i => (houtside i).2.1, ?_, ?_⟩
  · intro n hn
    rw [hstate] at hn
    obtain rfl := FileWriterState.writingChunks.inj hn
    refine ⟨fun i => (houtside i).2.2, Nat.le_of_eq hnone, ?_⟩
    intro chunkPos hset
    rw [all_free_iff.mp hfree chunkPos] at hset
    cases hset
  · intro hconsolidating
    rw [hstate] at hconsolidating
    cases hconsolidating

/-- **Writers and consolidators exclude each other.** In every state that calls on a new
writer of a file that is not empty reach, in any order of their steps and whatever their
file operations end with. -/
theorem exclusive_of_run {ι : Type} [Fintype ι] [DecidableEq ι]
    {hash : String → ℕ → ℕ → UInt64} {filePath : String} {fileSize chunkSize : ℕ} {w : FileWriter}
    (hnew : FileWriter.new hash filePath fileSize chunkSize = .ok w) (hsize : 0 < fileSize)
    {s₀ s : Processes ι WriterCall SharedWriter} (hwriter : s₀.shared.writer = w)
    (hfresh : ∀ i, (s₀.process i).Fresh) {turns : List (Turn ι Outcome)}
    (h : Transition.run (Processes.step WriterCall.act) s₀ turns = some s) : Exclusive s := by
  obtain ⟨-, hsizes, -, hstate, hfree⟩ := new_spec hnew
  apply exclusive_of_exclusionInvariant
  apply Transition.invariant_run ExclusionInvariant _ _ h
  · apply exclusionInvariant_fresh
    · rw [hwriter, hsizes]
      exact hsize
    · rw [hwriter, hstate]
    · rw [hwriter, hfree]
    · exact hfresh
  · intro s t s' hinv hstep
    exact exclusionInvariant_step hinv hstep

/-- A consolidation is refused while a chunk is written, another one copies it afterwards. -/
theorem exclusive_of_run_two : ∃ w s,
    FileWriter.new (fun _ _ _ => 0) "f" 2 2 = .ok w ∧
    Transition.run (Processes.step WriterCall.act)
      ⟨⟨w, .empty⟩, fun i : Fin 3 =>
        if i = 0 then .write [1, 2] 0 .check else .consolidate .enter .empty⟩
      ((List.replicate 5 0 ++ [1] ++ List.replicate 4 0 ++ List.replicate 9 (2 : Fin 3)).map
        (⟨·, .ok⟩)) = some s ∧ Exclusive s := by
  obtain ⟨w, hnew⟩ : ∃ w, FileWriter.new (fun _ _ _ => 0) "f" 2 2 = .ok w := ⟨_, rfl⟩
  obtain ⟨s, hrun⟩ : ∃ s, Transition.run (Processes.step WriterCall.act)
      ⟨⟨w, .empty⟩, fun i : Fin 3 =>
        if i = 0 then .write [1, 2] 0 .check else .consolidate .enter .empty⟩
      ((List.replicate 5 0 ++ [1] ++ List.replicate 4 0 ++ List.replicate 9 (2 : Fin 3)).map
        (⟨·, .ok⟩)) = some s := ⟨_, rfl⟩
  refine ⟨w, s, hnew, hrun, exclusive_of_run hnew (by decide) rfl ?_ hrun⟩
  intro i
  dsimp only
  split_ifs
  · rfl
  · rfl

end Grizol.Analysis

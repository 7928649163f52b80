import Grizol.Analysis.WriterExclusion
import Grizol.Interface.FailedConsolidation

/-!
# What a consolidation leaves when it fails

At every point of a consolidation the files are known from those it found: the chunks
copied so far are in the file and their own files are gone (`CopiedFiles`). So what is
lost by a failure can be read off the operation that fails.
-/

set_option autoImplicit false

namespace Grizol.Analysis

open Grizol.Library Grizol.Model Grizol.Interface

section Copying

variable {w : FileWriter} {found files : FileStore}

/-- The file holds a content, and the files of the first `i` chunks are gone. -/
def CopiedFiles (w : FileWriter) (found files : FileStore) (i : ℕ) (content : Bytes) : Prop :=
  ∀ path, files.get path =
    if path = w.filePath then some content
    else if ∃ j < i, path = w.chunkPath j then none
    else found.get path

/-- The file, the files of the chunks, and how far the copy has come. -/
structure CopiedTo (w : FileWriter) (found files : FileStore) (removed copied : ℕ) : Prop where
  files : CopiedFiles w found files removed (joined w found copied)
  there : ∀ j < copied, (found.get (w.chunkPath j)).isSome = true

/-- Where a consolidation stands. -/
def CopyState (w : FileWriter) (found files : FileStore) : FileWriter.ConsolidatePc → Prop
  | .enter | .checkFlags | .openTarget => files = found
  | .openChunk i => i < w.writingChunk.length ∧ CopiedTo w found files i i
  | .readChunk i => i < w.writingChunk.length ∧ CopiedTo w found files i i ∧
      (found.get (w.chunkPath i)).isSome = true
  | .seek i buf | .writeAll i buf => i < w.writingChunk.length ∧ CopiedTo w found files i i ∧
      found.get (w.chunkPath i) = some buf
  | .syncAll i | .removeChunk i => i < w.writingChunk.length ∧ CopiedTo w found files i (i + 1)
  | .leave | .returned (.ok _) =>
      (w.writingChunk.all (fun flag => !flag) = true →
        CopiedTo w found files w.writingChunk.length w.writingChunk.length)
  | .returned (.error _) => True

/-- The file holds what was copied. -/
theorem CopiedFiles.target {i : ℕ} {content : Bytes} (h : CopiedFiles w found files i content) :
    files.get w.filePath = some content := by
  rw [h, if_pos rfl]

/-- The files of the chunks still to come are as they were found. -/
theorem CopiedFiles.chunk {i j : ℕ} {content : Bytes} (h : CopiedFiles w found files i content)
    (hij : i ≤ j) : files.get (w.chunkPath j) = found.get (w.chunkPath j) := by
  rw [h, if_neg (w.chunkPath_ne_filePath j), if_neg]
  rintro ⟨k, hk, heq⟩
  have hjk := w.chunkPath_inj heq
  omega

/-- The files of the others are gone. -/
theorem CopiedFiles.gone {i j : ℕ} {content : Bytes} (h : CopiedFiles w found files i content)
    (hji : j < i) : files.get (w.chunkPath j) = none := by
  rw [h, if_neg (w.chunkPath_ne_filePath j), if_pos ⟨j, hji, rfl⟩]

/-- A change of the file changes only that. -/
theorem CopiedFiles.update {i : ℕ} {content : Bytes} (h : CopiedFiles w found files i content)
    (f : Bytes → Bytes) : CopiedFiles w found (FileStore.update files w.filePath f) i (f content) := by
  intro path
  rw [FileStore.get_update, h path]
  split_ifs <;> rfl

/-- A chunk that is removed was copied. -/
theorem CopiedFiles.erase {i : ℕ} {content : Bytes} (h : CopiedFiles w found files i content) :
    CopiedFiles w found (files.erase (w.chunkPath i)) (i + 1) content := by
  intro path
  rw [AssocMap.get_erase]
  by_cases hpath : path = w.chunkPath i
  · rw [if_pos hpath, if_neg (hpath ▸ w.chunkPath_ne_filePath i),
      if_pos ⟨i, Nat.lt_succ_self i, hpath⟩]
  · rw [if_neg hpath, h path]
    refine if_congr Iff.rfl rfl (if_congr ?_ rfl rfl)
    constructor
    · rintro ⟨j, hj, heq⟩
      exact ⟨j, Nat.lt_succ_of_lt hj, heq⟩
    · rintro ⟨j, hj, rfl⟩
      rcases Nat.lt_succ_iff_lt_or_eq.mp hj with hlt | rfl
      · exact ⟨j, hlt, rfl⟩
      · exact absurd rfl hpath

/-- Opening the file truncates it and touches no chunk. -/
theorem copiedTo_opened : CopiedTo w found (found.insert w.filePath []) 0 0 where
  files := by
    intro path
    rw [AssocMap.get_insert]
    refine if_congr Iff.rfl rfl ?_
    rw [if_neg]
    rintro ⟨j, hj, -⟩
    exact absurd hj (Nat.not_lt_zero j)
  there j hj := absurd hj (Nat.not_lt_zero j)

/-- A chunk that was read is appended. -/
theorem CopiedTo.write {i : ℕ} {buf : Bytes} (h : CopiedTo w found files i i)
    (hbuf : found.get (w.chunkPath i) = some buf) :
    CopiedTo w found (FileStore.update files w.filePath
      (FileStore.writeAt · (i * w.chunkSize) buf)) i (i + 1) where
  files := by
    have hwritten := h.files.update (FileStore.writeAt · (i * w.chunkSize) buf)
    have hjoined := joined_succ w found i
    rw [hbuf, Option.getD_some] at hjoined
    rw [hjoined]
    exact hwritten
  there j hj := by
    rcases Nat.lt_succ_iff_lt_or_eq.mp hj with hlt | rfl
    · exact h.there j hlt
    · rw [hbuf]
      rfl

/-- The head of the loop. -/
theorem copyState_nextChunk {i : ℕ} (hi : i ≤ w.writingChunk.length)
    (h : CopiedTo w found files i i) :
    CopyState w found files ((w.setState .consolidating).nextChunk i) := by
  have hnext : (w.setState .consolidating).nextChunk i =
      if i < w.writingChunk.length then .openChunk i else .leave := rfl
  rw [hnext]
  split_ifs with hlt
  · exact ⟨hlt, h⟩
  · obtain rfl : i = w.writingChunk.length := by omega
    exact fun _ => h

/-- **Every step of a consolidation keeps to the copy**: what it leaves is known from what it
found. -/
theorem copyState_step {w' : FileWriter} {pc : FileWriter.ConsolidatePc} (outcome : Outcome)
    (hw : ConsolidateState w w' pc) (h : CopyState w found files pc) :
    CopyState w found (w'.consolidateStep files outcome pc).2.1
      (w'.consolidateStep files outcome pc).2.2 := by
  cases pc with
  | enter =>
      obtain rfl : w' = w := hw
      simp only [FileWriter.consolidateStep]
      split
      · trivial
      · exact h
      · trivial
  | returned result => exact h
  | checkFlags =>
      obtain ⟨-, rfl⟩ := hw
      by_cases hfree : w.writingChunk.all (fun flag => !flag) = true
      · have hstep : (w.setState .consolidating).consolidateStep files outcome .checkFlags =
            (w.setState .consolidating, files, .openTarget) := if_pos hfree
        rw [hstep]
        exact h
      · have hstep : (w.setState .consolidating).consolidateStep files outcome .checkFlags =
            (w.setState .consolidating, files, .leave) := if_neg hfree
        rw [hstep]
        exact fun hfree' => absurd hfree' hfree
  | openTarget =>
      obtain ⟨-, rfl⟩ := hw
      obtain rfl : files = found := h
      cases outcome with
      | ok => exact copyState_nextChunk (Nat.zero_le _) copiedTo_opened
      | fails n => trivial
  | openChunk i =>
      obtain ⟨-, rfl⟩ := hw
      obtain ⟨hi, hcopied⟩ := h
      simp only [FileWriter.consolidateStep, FileWriter.chunkPath_setState,
        hcopied.files.chunk (Nat.le_refl i)]
      split
      · rename_i content _ hget
        exact ⟨hi, hcopied, by rw [hget]; rfl⟩
      · trivial
  | readChunk i =>
      obtain ⟨-, rfl⟩ := hw
      obtain ⟨hi, hcopied, hthere⟩ := h
      cases outcome with
      | ok =>
          refine ⟨hi, hcopied, ?_⟩
          rw [FileWriter.chunkPath_setState, hcopied.files.chunk (Nat.le_refl i)]
          exact (Option.some_get hthere).symm ▸ rfl
      | fails n => trivial
  | seek i buf =>
      cases outcome with
      | ok => exact h
      | fails n => trivial
  | writeAll i buf =>
      obtain ⟨-, rfl⟩ := hw
      obtain ⟨hi, hcopied, hbuf⟩ := h
      cases outcome with
      | ok => exact ⟨hi, hcopied.write hbuf⟩
      | fails n => trivial
  | syncAll i =>
      cases outcome with
      | ok => exact h
      | fails n => trivial
  | removeChunk i =>
      obtain ⟨-, rfl⟩ := hw
      obtain ⟨hi, hcopied⟩ := h
      simp only [FileWriter.consolidateStep, FileWriter.chunkPath_setState]
      split
      · exact copyState_nextChunk hi ⟨hcopied.files.erase, hcopied.there⟩
      · trivial
  | leave => exact h

/-- What the operation that fails leaves in the file and of the chunks. -/
theorem files_of_failure {w' : FileWriter} {pc : FileWriter.ConsolidatePc} {outcome : Outcome}
    {e : IoError} (hw : ConsolidateState w w' pc) (h : CopyState w found files pc)
    (hfails : (w'.consolidateStep files outcome pc).2.2 = .returned (.error e))
    (hpc : ∀ result, pc ≠ .returned result) :
    (copiedAt w found outcome pc = none ∧ (w'.consolidateStep files outcome pc).2.1 = found) ∨
      ∃ content, copiedAt w found outcome pc = some content ∧
        CopiedFiles w found (w'.consolidateStep files outcome pc).2.1 (removedAt pc) content ∧
        removedAt pc < w.writingChunk.length ∧
        ∀ j < removedAt pc, (found.get (w.chunkPath j)).isSome = true := by
  cases pc with
  | enter =>
      obtain rfl : files = found := h
      refine Or.inl ⟨rfl, ?_⟩
      simp only [FileWriter.consolidateStep]
      split <;> rfl
  | checkFlags =>
      simp only [FileWriter.consolidateStep] at hfails
      split_ifs at hfails
  | openTarget =>
      obtain rfl : files = found := h
      cases outcome with
      | ok =>
          simp only [FileWriter.consolidateStep, FileWriter.nextChunk] at hfails
          split_ifs at hfails
      | fails n => exact Or.inl ⟨rfl, rfl⟩
  | openChunk i =>
      obtain ⟨hi, hcopied⟩ := h
      refine Or.inr ⟨_, rfl, ?_, hi, hcopied.there⟩
      simp only [FileWriter.consolidateStep]
      split
      · exact hcopied.files
      · exact hcopied.files
  | readChunk i | seek i buf =>
      obtain ⟨hi, hcopied, -⟩ := h
      refine Or.inr ⟨_, rfl, ?_, hi, hcopied.there⟩
      cases outcome with
      | ok => exact hcopied.files
      | fails n => exact hcopied.files
  | writeAll i buf =>
      obtain ⟨-, rfl⟩ := hw
      obtain ⟨hi, hcopied, hbuf⟩ := h
      cases outcome with
      | ok => cases hfails
      | fails n =>
          exact Or.inr ⟨_, rfl,
            hcopied.files.update (FileStore.writeAt · (i * w.chunkSize) (buf.take n)),
            hi, hcopied.there⟩
  | syncAll i =>
      obtain ⟨hi, hcopied⟩ := h
      refine Or.inr ⟨_, rfl, ?_, hi, fun j hj => hcopied.there j (Nat.lt_succ_of_lt hj)⟩
      cases outcome with
      | ok => exact hcopied.files
      | fails n => exact hcopied.files
  | removeChunk i =>
      obtain ⟨hi, hcopied⟩ := h
      refine Or.inr ⟨_, rfl, ?_, hi, fun j hj => hcopied.there j (Nat.lt_succ_of_lt hj)⟩
      cases outcome with
      | fails n => exact hcopied.files
      | ok =>
          cases hget : files.get (w'.chunkPath i) with
          | none =>
              simp only [FileWriter.consolidateStep, hget]
              exact hcopied.files
          | some content =>
              simp only [FileWriter.consolidateStep, hget, FileWriter.nextChunk] at hfails
              split_ifs at hfails
  | leave => cases hfails
  | returned result => exact absurd rfl (hpc result)

/-- **What is lost by a failure**: nothing exactly when the operation fails harmlessly. -/
theorem dataKept_iff_of_failure {w' : FileWriter} {pc : FileWriter.ConsolidatePc}
    {outcome : Outcome} {e : IoError} (hw : ConsolidateState w w' pc)
    (h : CopyState w found files pc)
    (hfails : (w'.consolidateStep files outcome pc).2.2 = .returned (.error e))
    (hpc : ∀ result, pc ≠ .returned result) :
    DataKept w found (w'.consolidateStep files outcome pc).2.1 ↔
      FailsHarmlessly w found outcome pc := by
  rcases files_of_failure hw h hfails hpc with
    ⟨hnone, hfiles⟩ | ⟨content, hsome, hfiles, hinside, hthere⟩
  · rw [hfiles]
    constructor
    · intro _ content hcontent
      rw [hnone] at hcontent
      cases hcontent
    · intro _
      refine ⟨Or.inl fun _ _ _ => id, ?_⟩
      rintro ⟨content, hcontent, hlength⟩
      exact ⟨content, hcontent, hlength.ge⟩
  · have hkept : ChunksKept w found (w'.consolidateStep files outcome pc).2.1 ↔
        removedAt pc = 0 := by
      constructor
      · intro hkept
        by_contra hsomeGone
        have hpos : 0 < removedAt pc := Nat.pos_of_ne_zero hsomeGone
        obtain ⟨first, hfirst⟩ := Option.isSome_iff_exists.mp (hthere 0 hpos)
        have hgone := hfiles.gone hpos
        rw [hkept 0 (Nat.lt_trans hpos hinside) first hfirst] at hgone
        cases hgone
      · intro hzero i _ chunk hchunk
        rw [hfiles.chunk (hzero ▸ Nat.zero_le i)]
        exact hchunk
    have hholds : HoldsAll w found (w'.consolidateStep files outcome pc).2.1 ↔
        AllChunks w found ∧ content = joined w found w.writingChunk.length := by
      rw [HoldsAll, hfiles.target, Option.some.injEq]
    constructor
    · intro hkeeps content' hcontent'
      obtain rfl : content = content' := Option.some.inj (hsome.symm.trans hcontent')
      refine ⟨hkeeps.chunks.imp hkept.mp hholds.mp, fun hbefore => ?_⟩
      obtain ⟨content', hcontent', hsize⟩ := hkeeps.target hbefore
      rw [hfiles.target] at hcontent'
      exact Option.some.inj hcontent' ▸ hsize
    · intro hharmless
      obtain ⟨hchunks, hsize⟩ := hharmless content hsome
      exact ⟨hchunks.imp hkept.mpr hholds.mpr, fun hbefore =>
        ⟨content, hfiles.target, hsize hbefore⟩⟩

end Copying

/-- A call that has returned takes no further steps. -/
theorem runFor_returned (w : FileWriter) (files : FileStore) (result : Except IoError Unit)
    (outcomes : ℕ → Outcome) (n : ℕ) :
    Transition.runFor (fun outcome (s : FileWriter × FileStore × FileWriter.ConsolidatePc) =>
      s.1.consolidateStep s.2.1 outcome s.2.2) outcomes n (w, files, .returned result) =
        (w, files, .returned result) := by
  apply Transition.runFor_invariant (· = (w, files, FileWriter.ConsolidatePc.returned result))
  · rintro outcome s rfl
    rfl
  · rfl

/-- At every point of a call on its own the files are known from those it found. -/
theorem copyState_runFor (w : FileWriter) (files : FileStore) (outcomes : ℕ → Outcome) (n : ℕ) :
    let s := Transition.runFor (fun outcome s => s.1.consolidateStep s.2.1 outcome s.2.2) outcomes n
      (w, files, FileWriter.ConsolidatePc.enter)
    ConsolidateState w s.1 s.2.2 ∧ CopyState w files s.2.1 s.2.2 := by
  apply Transition.runFor_invariant (fun s : FileWriter × FileStore × FileWriter.ConsolidatePc =>
    ConsolidateState w s.1 s.2.2 ∧ CopyState w files s.2.1 s.2.2)
  · rintro outcome ⟨w', files', pc⟩ ⟨hw, hcopy⟩
    exact ⟨consolidateState_step outcome hw, copyState_step outcome hw hcopy⟩
  · exact ⟨rfl, rfl⟩

/-- **When a failed consolidation loses nothing.** A consolidation that returns an error failed
at one of its operations, whichever files it found. The chunks are then kept and a complete
file is not left shorter if and only if the operation fails harmlessly: before the file is
opened, or with no chunk removed or all of them copied and not less in the file than it was
complete with. -/
theorem dataKept_iff {w : FileWriter} {files : FileStore} {outcomes : ℕ → Outcome} {e : IoError}
    (herror : (w.consolidate files outcomes).2.2 = .returned (.error e)) :
    ∃ pc outcome, FailsAt w files outcomes pc outcome ∧
      (DataKept w files (w.consolidate files outcomes).2.1 ↔
        FailsHarmlessly w files outcome pc) := by
  obtain ⟨k, m, hcount, hbefore, result, hreturns⟩ := Transition.exists_step_of_runFor
    (p := fun s : FileWriter × FileStore × FileWriter.ConsolidatePc =>
      ∃ result, s.2.2 = .returned result) (4 + 6 * w.writingChunk.length)
    (s := (w, files, FileWriter.ConsolidatePc.enter)) (by simp) ⟨_, herror⟩
  have hrun := @Transition.runFor_add _ _ (fun outcome
    (s : FileWriter × FileStore × FileWriter.ConsolidatePc) =>
      s.1.consolidateStep s.2.1 outcome s.2.2) outcomes k (m + 1)
    (w, files, FileWriter.ConsolidatePc.enter)
  have hstate := copyState_runFor w files (fun j => outcomes (j + (m + 1))) k
  cases hat : Transition.runFor (fun outcome
      (s : FileWriter × FileStore × FileWriter.ConsolidatePc) =>
        s.1.consolidateStep s.2.1 outcome s.2.2) (fun j => outcomes (j + (m + 1))) k
      (w, files, FileWriter.ConsolidatePc.enter) with
  | mk w' rest =>
      obtain ⟨files', pc⟩ := rest
      rw [hat] at hbefore hreturns hstate hrun
      -- after the step that returns nothing changes any more
      have hend : w.consolidate files outcomes = w'.consolidateStep files' (outcomes m) pc := by
        have htotal : 4 + 6 * w.writingChunk.length = k + (m + 1) := by omega
        rw [FileWriter.consolidate, htotal, hrun, Transition.runFor]
        dsimp only at hreturns ⊢
        cases hstep : w'.consolidateStep files' (outcomes m) pc with
        | mk w'' rest =>
            obtain ⟨files'', pc'⟩ := rest
            rw [hstep] at hreturns
            obtain rfl : pc' = .returned result := hreturns
            exact runFor_returned w'' files'' result outcomes m
      rw [hend] at herror ⊢
      have hpc : ∀ result, pc ≠ .returned result := fun result heq => hbefore ⟨result, heq⟩
      exact ⟨pc, outcomes m, ⟨k, m, w', files', e, hcount, rfl, hat, hpc, herror⟩,
        dataKept_iff_of_failure hstate.1 hstate.2 herror hpc⟩

section Example

/-- The files of two chunks, and none for the whole. -/
def bothChunks : FileStore :=
  (AssocMap.empty.insert "f.part_0.0" [1, 2]).insert "f.part_1.0" [3]

/-- Only the seventh step fails, the write of the first chunk, after one byte. -/
def firstWriteFails (m : ℕ) : Outcome := if m = 9 then .fails 1 else .ok

/-- Witness: the consolidation fails with the file opened and a part of the first chunk in it,
and nothing is lost. -/
theorem dataKept_iff_firstWrite : ∃ w e,
    FileWriter.new (fun _ _ _ => 0) "f" 3 2 = .ok w ∧
    (w.consolidate bothChunks firstWriteFails).2.2 = .returned (.error e) ∧
    (w.consolidate bothChunks firstWriteFails).2.1.get "f" = some [1] ∧
    (∃ pc outcome, FailsAt w bothChunks firstWriteFails pc outcome ∧
      (DataKept w bothChunks (w.consolidate bothChunks firstWriteFails).2.1 ↔
        FailsHarmlessly w bothChunks outcome pc)) ∧
    DataKept w bothChunks (w.consolidate bothChunks firstWriteFails).2.1 := by
  have hnew : FileWriter.new (fun _ _ _ => 0) "f" 3 2 = .ok _ := rfl
  refine ⟨_, _, hnew, rfl, rfl, dataKept_iff rfl, Or.inl ?_, ?_⟩
  · intro i hi content hcontent
    match i, hi with
    | 0, _ | 1, _ => exact hcontent
  · rintro ⟨content, hcontent, -⟩
    cases hcontent

/-- The first of two chunks, and no second, over a complete file. -/
def secondMissing : FileStore := (AssocMap.empty.insert "f" [9, 9, 9]).insert "f.part_0.0" [1, 2]

/-- With the second chunk missing the consolidation fails after it has put the first into the
file, which was complete, and has removed it. -/
theorem secondMissing_lost : ∃ w e,
    FileWriter.new (fun _ _ _ => 0) "f" 3 2 = .ok w ∧
    (w.consolidate secondMissing fun _ => .ok).2.2 = .returned (.error e) ∧
    ¬ DataKept w secondMissing (w.consolidate secondMissing fun _ => .ok).2.1 := by
  have hnew : FileWriter.new (fun _ _ _ => 0) "f" 3 2 = .ok _ := rfl
  refine ⟨_, _, hnew, rfl, fun h => ?_⟩
  obtain ⟨content, hcontent, hsize⟩ := h.target ⟨[9, 9, 9], by decide +kernel, rfl⟩
  obtain rfl : [1, 2] = content := Option.some.inj hcontent
  exact absurd hsize (by decide)

end Example

end Grizol.Analysis

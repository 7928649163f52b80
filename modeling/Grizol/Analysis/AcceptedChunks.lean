import Grizol.Analysis.ConcurrentWrites
import Grizol.Analysis.FailedConsolidation
import Grizol.Interface.AcceptedChunks

/-!
# Which chunks `write_chunk` accepts

The checks of `write_chunk` decide alone whether a call returns `Ok` when its file operations
succeed: an aligned offset inside the file, with a full chunk anywhere or any shorter one at
`last_offset`. That is too much at the last position of a file whose size is no multiple of
`chunk_size`, and right everywhere else.
-/

set_option autoImplicit false

namespace Grizol.Analysis

open Grizol.Library Grizol.Model Grizol.Interface

/-! ## One call -/

section Call

variable {w : FileWriter} {files : FileStore} {c : Chunk} {n : ℕ}

/-- A call under way, as `write_chunk` on its own goes through it. -/
structure CallUnderWay (w : FileWriter) (c : Chunk)
    (s : FileWriter × FileStore × FileWriter.WritePc) : Prop where
  same : SameWriter w s.1
  state : ∃ n, s.1.state = .writingChunks n ∧ inside s.2.2 ≤ n
  underWay : UnderWay s.2.2
  written : ∀ content, written c.data s.2.2 = some content →
    s.2.1.get (s.1.chunkPath (c.offset / s.1.chunkSize)) = some content

/-- A step of an accepted call keeps it under way. -/
theorem callUnderWay_step (hgood : GoodChunk c.data c.offset w)
    {s : FileWriter × FileStore × FileWriter.WritePc} (h : CallUnderWay w c s) :
    CallUnderWay w c (s.1.writeStep s.2.1 c.data c.offset .ok s.2.2) := by
  obtain ⟨n, hstate, hinside⟩ := h.state
  have hsize : 0 < s.1.fileSize := by
    rw [h.same.fileSize]
    exact Nat.lt_of_le_of_lt (Nat.zero_le _) hgood.inside
  have hsame := (writeStep_frame c.data c.offset s.1 s.2.1 .ok s.2.2).same
  obtain ⟨-, n', hstate', hcount, -, -⟩ := writeStep_writing s.2.1 .ok hstate hsize
    (Proper.of_underWay h.underWay c.data c.offset) hinside
  obtain ⟨hway, hwritten, -⟩ := writeStep_ok (hgood.of_same h.same) h.underWay hstate hinside
    h.written
  refine ⟨h.same.trans hsame, ⟨n', hstate', by omega⟩, hway, ?_⟩
  intro content hcontent
  rw [hsame.chunkPath, hsame.chunkSize]
  exact hwritten content hcontent

/-- Good arguments are accepted. -/
theorem accepted_of_good (hstate : w.state = .writingChunks n)
    (hgood : GoodChunk c.data c.offset w) : c.Accepted w files := by
  have hrun : CallUnderWay w c (w.writeChunk files c.data c.offset fun _ => .ok) := by
    apply Transition.runFor_invariant_of_answers (CallUnderWay w c) (fun _ => Eq.refl Outcome.ok)
    · rintro outcome s rfl h
      exact callUnderWay_step hgood h
    · exact ⟨SameWriter.refl w, ⟨n, hstate, Nat.zero_le n⟩, trivial, fun _ h => (by cases h)⟩
  have hends := writeChunk_ends c.data c.offset w files fun _ => .ok
  have hway := hrun.underWay
  unfold Chunk.Accepted
  cases hpc : (w.writeChunk files c.data c.offset fun _ => .ok).2.2 with
  | returned result =>
      rw [hpc] at hway
      cases result with
      | ok _ => rfl
      | error e => exact hway.elim
  | panicked fault =>
      rw [hpc] at hway
      exact hway.elim
  | check | openEmpty | enter | acquire | openChunk | setLen | writeAll | syncAll | release
  | leave =>
      rw [hpc] at hends
      cases hends

/-- The checks refuse all other arguments. -/
theorem checkChunk_cases (w : FileWriter) (data : Bytes) (offset : ℕ) (hsize : 0 < w.fileSize) :
    GoodChunk data offset w ∨ ∃ e, w.checkChunk data offset = .returned (.error e) := by
  have hnotEmpty : ¬ (offset = 0 ∧ w.fileSize = 0) := fun h => by omega
  simp only [FileWriter.checkChunk, if_neg hnotEmpty]
  split_ifs with haligned hinside hlength
  · exact Or.inr ⟨_, rfl⟩
  · exact Or.inr ⟨_, rfl⟩
  · exact Or.inr ⟨_, rfl⟩
  · refine Or.inl ⟨not_not.mp haligned, Nat.not_le.mp hinside, ?_⟩
    by_contra hnot
    exact hlength ⟨fun heq => hnot (Or.inl heq), fun hlt => hnot (Or.inr hlt)⟩

/-- **What is accepted**: an aligned offset inside the file, with a full chunk, or with a shorter
one at the last offset. -/
theorem accepted_iff_good (hstate : w.state = .writingChunks n) (hsize : 0 < w.fileSize) :
    c.Accepted w files ↔ GoodChunk c.data c.offset w := by
  constructor
  · intro haccepted
    rcases checkChunk_cases w c.data c.offset hsize with hgood | ⟨e, hrefused⟩
    · exact hgood
    · have hstays : (w.writeChunk files c.data c.offset fun _ => .ok).2.2 =
          .returned (.error e) := by
        rw [FileWriter.writeChunk, Transition.runFor]
        have hfirst : w.writeStep files c.data c.offset .ok .check =
            (w, files, .returned (.error e)) := by rw [FileWriter.writeStep, hrefused]
        rw [hfirst]
        apply Transition.runFor_invariant
          (fun s : FileWriter × FileStore × FileWriter.WritePc => s.2.2 = .returned (.error e))
        · intro outcome s h
          rw [h]
          rfl
        · rfl
      rw [Chunk.Accepted, hstays] at haccepted
      cases haccepted
  · exact accepted_of_good hstate

end Call

/-! ## The pieces of a file -/

section Pieces

variable {w : FileWriter} {c : Chunk}

/-- The last offset is that of the last position, if it is inside the file. -/
theorem lastOffset_le (w : FileWriter) :
    w.fileSize / w.chunkSize * w.chunkSize ≤ w.fileSize ∧
      w.fileSize < w.fileSize / w.chunkSize * w.chunkSize + w.chunkSize := by
  have hdiv := Nat.div_add_mod' w.fileSize w.chunkSize
  have hmod := Nat.mod_lt w.fileSize w.chunkSize_pos
  omega

/-- Before the last offset a chunk is full. -/
theorem full_of_ne_lastOffset {offset : ℕ} (haligned : offset % w.chunkSize = 0)
    (hinside : offset < w.fileSize) (hlast : offset ≠ w.fileSize / w.chunkSize * w.chunkSize) :
    offset + w.chunkSize ≤ w.fileSize := by
  obtain ⟨hle, -⟩ := lastOffset_le w
  have hoffset := Nat.div_add_mod' offset w.chunkSize
  have hpos := w.chunkSize_pos
  have hindex : offset / w.chunkSize < w.fileSize / w.chunkSize := by
    apply Nat.lt_of_le_of_ne (Nat.div_le_div_right (Nat.le_of_lt hinside))
    intro heq
    rw [← heq] at hlast
    omega
  have hnext : (offset / w.chunkSize + 1) * w.chunkSize ≤
      w.fileSize / w.chunkSize * w.chunkSize := Nat.mul_le_mul_right _ hindex
  rw [Nat.succ_mul] at hnext
  omega

/-- **Where the checks are right.** -/
theorem good_iff_wellFormed_iff :
    (GoodChunk c.data c.offset w ↔ c.WellFormed w.fileSize w.chunkSize) ↔
      c.FitsLast w.fileSize w.chunkSize := by
  obtain ⟨hle, hlt⟩ := lastOffset_le w
  constructor
  · intro h hlast hinside hlength
    have haligned : c.offset % w.chunkSize = 0 := by
      rw [hlast]
      exact Nat.mul_mod_left _ _
    have hgood : GoodChunk c.data c.offset w :=
      ⟨haligned, hinside, (Nat.lt_or_eq_of_le hlength).symm.imp id fun hshort => ⟨hshort, hlast⟩⟩
    have hpiece := (h.mp hgood).length
    omega
  · intro hfits
    constructor
    · intro hgood
      refine ⟨hgood.aligned, hgood.inside, ?_⟩
      by_cases hlast : c.offset = w.fileSize / w.chunkSize * w.chunkSize
      · have hlength : c.data.length ≤ w.chunkSize := by
          rcases hgood.length with heq | hshort
          · exact heq.le
          · exact hshort.1.le
        have hfit := hfits hlast hgood.inside hlength
        omega
      · have hfull := full_of_ne_lastOffset hgood.aligned hgood.inside hlast
        rcases hgood.length with heq | hshort
        · omega
        · exact absurd hshort.2 hlast
    · intro hpiece
      refine ⟨hpiece.aligned, hpiece.inside, ?_⟩
      have hlength := hpiece.length
      by_cases hlast : c.offset = w.fileSize / w.chunkSize * w.chunkSize
      · have hshort : c.data.length < w.chunkSize := by omega
        exact Or.inr ⟨hshort, hlast⟩
      · have hfull := full_of_ne_lastOffset hpiece.aligned hpiece.inside hlast
        left
        omega

end Pieces

/-! ## The consolidation of what was accepted -/

section Building

variable {w : FileWriter} {found files : FileStore}

/-- A consolidation that finds a file for every chunk does not fail where its operations
succeed. -/
theorem not_error_step {w' : FileWriter} {pc : FileWriter.ConsolidatePc}
    (hstate : w.state = .writingChunks 0) (hthere : AllChunks w found)
    (hw : ConsolidateState w w' pc) (hcopy : CopyState w found files pc)
    (h : ∀ e, pc ≠ .returned (.error e)) (e : IoError) :
    (w'.consolidateStep files .ok pc).2.2 ≠ .returned (.error e) := by
  have hnext : ∀ (w : FileWriter) i, w.nextChunk i ≠ .returned (.error e) := by
    intro w i
    unfold FileWriter.nextChunk
    split_ifs <;> simp
  cases pc with
  | enter =>
      obtain rfl : w' = w := hw
      simp [FileWriter.consolidateStep, hstate]
  | checkFlags =>
      simp only [FileWriter.consolidateStep]
      split_ifs <;> simp
  | openTarget => exact hnext _ 0
  | openChunk i =>
      obtain ⟨-, rfl⟩ := hw
      obtain ⟨hi, hcopied⟩ := hcopy
      obtain ⟨content, hcontent⟩ := Option.isSome_iff_exists.mp (hthere i hi)
      simp [FileWriter.consolidateStep, hcopied.files.chunk (Nat.le_refl i), hcontent]
  | readChunk i | seek i buf | writeAll i buf | syncAll i => simp [FileWriter.consolidateStep]
  | removeChunk i =>
      obtain ⟨-, rfl⟩ := hw
      obtain ⟨hi, hcopied⟩ := hcopy
      obtain ⟨content, hcontent⟩ := Option.isSome_iff_exists.mp (hthere i hi)
      simp only [FileWriter.consolidateStep, FileWriter.chunkPath_setState,
        hcopied.files.chunk (Nat.le_refl i), hcontent]
      exact hnext _ (i + 1)
  | leave => simp [FileWriter.consolidateStep]
  | returned result => exact h e

/-- **A consolidation joins what it finds**, if there is a file for every chunk. -/
theorem consolidate_joins (hstate : w.state = .writingChunks 0)
    (hfree : w.writingChunk.all (fun flag => !flag) = true) (hthere : AllChunks w files) :
    (w.consolidate files fun _ => .ok).2.2 = .returned (.ok ()) ∧
      (w.consolidate files fun _ => .ok).2.1.get w.filePath =
        some (joined w files w.writingChunk.length) := by
  have hrun : ConsolidateState w (w.consolidate files fun _ => .ok).1
        (w.consolidate files fun _ => .ok).2.2 ∧
      CopyState w files (w.consolidate files fun _ => .ok).2.1
        (w.consolidate files fun _ => .ok).2.2 ∧
      ∀ e, (w.consolidate files fun _ => .ok).2.2 ≠ .returned (.error e) := by
    apply Transition.runFor_invariant_of_answers
      (fun s : FileWriter × FileStore × FileWriter.ConsolidatePc =>
        ConsolidateState w s.1 s.2.2 ∧ CopyState w files s.2.1 s.2.2 ∧
          ∀ e, s.2.2 ≠ .returned (.error e)) (fun _ => Eq.refl Outcome.ok)
    · rintro outcome ⟨w', files', pc⟩ rfl ⟨hw, hcopy, hok⟩
      exact ⟨consolidateState_step .ok hw, copyState_step .ok hw hcopy,
        not_error_step hstate hthere hw hcopy hok⟩
    · exact ⟨rfl, rfl, by simp⟩
  obtain ⟨result, hend⟩ := consolidate_ends w files fun _ => .ok
  rw [hend] at hrun ⊢
  obtain ⟨-, hcopy, hok⟩ := hrun
  cases result with
  | error e => exact absurd rfl (hok e)
  | ok _ => exact ⟨rfl, (hcopy hfree).files.target⟩

/-- The first chunks together, when each has the length of its piece. -/
theorem length_joined (hpieces : ∀ i < w.writingChunk.length, ∃ data,
    files.get (w.chunkPath i) = some data ∧
      data.length = min w.chunkSize (w.fileSize - i * w.chunkSize)) {i : ℕ}
    (hi : i ≤ w.writingChunk.length) :
    (joined w files i).length = min w.fileSize (i * w.chunkSize) := by
  induction i with
  | zero => simp [joined]
  | succ i ih =>
      have hlt : i < w.writingChunk.length := hi
      obtain ⟨data, hdata, hlength⟩ := hpieces i hlt
      have hbefore := ih (Nat.le_of_lt hlt)
      have hinside := chunk_inside hlt
      have hat : i * w.chunkSize = (joined w files i).length := by omega
      rw [joined_succ, hdata, Option.getD_some, hat, FileStore.writeAt_length, List.length_append,
        hlength, hbefore, Nat.succ_mul]
      omega

/-- The files of the chunks after calls that were accepted: each holds the data of a call for
its position. -/
theorem writeChunks_files (hstate : w.state = .writingChunks 0)
    (hfree : w.writingChunk.all (fun flag => !flag) = true) (chunks : List Chunk) :
    ∀ {files : FileStore}, (∀ c ∈ chunks, GoodChunk c.data c.offset w) →
      (writeChunks chunks w files).1 = w ∧
      ∀ i, (∃ c ∈ chunks, c.offset / w.chunkSize = i ∧
          (writeChunks chunks w files).2.get (w.chunkPath i) = some c.data) ∨
        (∀ c ∈ chunks, c.offset / w.chunkSize ≠ i) ∧
          (writeChunks chunks w files).2.get (w.chunkPath i) = files.get (w.chunkPath i) := by
  induction chunks with
  | nil =>
      intro files _
      exact ⟨rfl, fun i => Or.inr ⟨by simp, rfl⟩⟩
  | cons c chunks ih =>
      intro files hgood
      obtain ⟨hc, hchunks⟩ := List.forall_mem_cons.mp hgood
      have haccepted : c.Accepted w files := accepted_of_good hstate hc
      have hwrites := writeChunk_progress c.data c.offset hstate
        (all_free_iff.mp hfree (c.offset / w.chunkSize)) files fun _ => .ok
      rw [Chunk.Accepted] at haccepted
      rw [haccepted] at hwrites
      obtain ⟨hsame, hempty | ⟨hholds, -⟩⟩ := hwrites
      · have hinside := hc.inside
        omega
      obtain ⟨hwriter, hfiles⟩ := @ih (w.writeChunk files c.data c.offset fun _ => .ok).2.1 hchunks
      have hrest : writeChunks (c :: chunks) w files =
          writeChunks chunks w (w.writeChunk files c.data c.offset fun _ => .ok).2.1 := by
        rw [writeChunks]
        dsimp only
        rw [hsame]
      rw [hrest]
      refine ⟨hwriter, fun i => ?_⟩
      rcases hfiles i with ⟨d, hd, hpos, hget⟩ | ⟨hnone, hget⟩
      · exact Or.inl ⟨d, List.mem_cons_of_mem c hd, hpos, hget⟩
      · rw [hget, hholds]
        by_cases hi : c.offset / w.chunkSize = i
        · refine Or.inl ⟨c, List.mem_cons_self, hi, ?_⟩
          rw [if_pos (by rw [hi])]
        · refine Or.inr ⟨List.forall_mem_cons.mpr ⟨hi, hnone⟩, ?_⟩
          rw [if_neg fun heq => hi (w.chunkPath_inj heq).symm]

/-- Chunks that are pieces of the file and cover it build it. -/
theorem buildsFile_of_wellFormed {chunks : List Chunk} (hstate : w.state = .writingChunks 0)
    (hfree : w.writingChunk.all (fun flag => !flag) = true)
    (hgood : ∀ c ∈ chunks, GoodChunk c.data c.offset w)
    (hpieces : ∀ c ∈ chunks, c.WellFormed w.fileSize w.chunkSize)
    (hcover : Cover w.fileSize w.chunkSize chunks) :
    BuildsFile (writeChunks chunks w files).1 (writeChunks chunks w files).2 := by
  obtain ⟨hwriter, hfiles⟩ := @writeChunks_files w hstate hfree chunks files hgood
  rw [hwriter]
  have hwritten : ∀ i < w.writingChunk.length, ∃ data,
      (writeChunks chunks w files).2.get (w.chunkPath i) = some data ∧
        data.length = min w.chunkSize (w.fileSize - i * w.chunkSize) := by
    intro i hi
    rw [w.writingChunk_length] at hi
    rcases hfiles i with ⟨c, hc, hpos, hget⟩ | ⟨hnone, -⟩
    · have hpiece := hpieces c hc
      have hoffset := Nat.div_add_mod' c.offset w.chunkSize
      rw [hpos, hpiece.aligned, Nat.add_zero] at hoffset
      exact ⟨c.data, hget, by rw [hpiece.length, hoffset]⟩
    · obtain ⟨c, hc, hoffset⟩ := hcover i hi
      exact absurd (by rw [hoffset, Nat.mul_div_cancel _ w.chunkSize_pos]) (hnone c hc)
  have hthere : AllChunks w (writeChunks chunks w files).2 := by
    intro i hi
    obtain ⟨data, hdata, -⟩ := hwritten i hi
    rw [hdata]
    rfl
  obtain ⟨hok, hcontent⟩ := consolidate_joins hstate hfree hthere
  refine ⟨hok, _, hcontent, ?_⟩
  have hcovered := le_chunkCount_mul w.fileSize w.chunkSize_pos
  rw [length_joined hwritten (Nat.le_refl _), w.writingChunk_length]
  omega

end Building

/-- There is a flag for every chunk. -/
theorem length_idleChunks (fileSize chunkSize : ℕ) :
    (List.replicate (chunkCount fileSize chunkSize) false).length = chunkCount fileSize chunkSize :=
  List.length_replicate

/-- A writer of a file nobody has begun to write. -/
def idleWriter (fileSize chunkSize : ℕ) (h : 0 < chunkSize) : FileWriter where
  filePath := "f"
  fileSize := fileSize
  chunkSize := chunkSize
  writingChunk := List.replicate (chunkCount fileSize chunkSize) false
  suffix := "0"
  state := .writingChunks 0
  chunkSize_pos := h
  writingChunk_length := length_idleChunks fileSize chunkSize

/-- **When exactly the well-formed chunks are accepted**, and those that cover the file build it:
when each that is for the shorter last position, and not longer than a chunk, has what is left
of the file. -/
theorem acceptsWellFormed_iff {fileSize chunkSize : ℕ} (hsize : 0 < fileSize)
    (hchunk : 0 < chunkSize) (chunks : List Chunk) :
    AcceptsWellFormed fileSize chunkSize chunks ↔ ∀ c ∈ chunks, c.FitsLast fileSize chunkSize := by
  constructor
  · intro h c hc
    have haccepts := h.accepts c hc (idleWriter fileSize chunkSize hchunk) .empty 0 rfl rfl rfl
    rw [accepted_iff_good rfl hsize] at haccepts
    exact (@good_iff_wellFormed_iff (idleWriter fileSize chunkSize hchunk) c).mp haccepts
  · intro hfits
    refine ⟨?_, ?_⟩
    · rintro c hc w files n rfl rfl hstate
      rw [accepted_iff_good hstate hsize]
      exact good_iff_wellFormed_iff.mpr (hfits c hc)
    · rintro w files rfl rfl hstate hfree haccepted hcover
      have hgood : ∀ c ∈ chunks, GoodChunk c.data c.offset w := fun c hc =>
        (accepted_iff_good hstate hsize).mp (haccepted c hc)
      exact buildsFile_of_wellFormed hstate hfree hgood
        (fun c hc => (good_iff_wellFormed_iff.mpr (hfits c hc)).mp (hgood c hc)) hcover

section Example

/-- A full chunk and the byte that is left. -/
theorem acceptsWellFormed_iff_pieces : AcceptsWellFormed 3 2 [⟨[1, 2], 0⟩, ⟨[3], 2⟩] := by
  refine (acceptsWellFormed_iff (by decide) (by decide) _).mpr ?_
  simp [Chunk.FitsLast]

/-- Two bytes are accepted where one is left. -/
theorem overlongLast_accepted : ¬ AcceptsWellFormed 3 2 [⟨[1, 2], 0⟩, ⟨[3, 4], 2⟩] := by
  intro h
  have hwellFormed := (h.accepts ⟨[3, 4], 2⟩ (by simp) (idleWriter 3 2 Nat.zero_lt_two) .empty 0 rfl
    rfl rfl).mp rfl
  exact absurd hwellFormed.length (by decide)

end Example

end Grizol.Analysis

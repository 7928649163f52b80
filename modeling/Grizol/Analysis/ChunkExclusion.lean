import Grizol.Analysis.FileWriterCalls
import Grizol.Interface.ChunkExclusion

/-!
# The flag of a chunk turns nobody away

`compare_exchange(false, true)` answers `Err(true)` when the flag is set, and `write_chunk`
looks for `Ok(true)`, which it never answers. So a call that finds the flag of its chunk
taken goes on, and calls are apart only where none arrives while another is there.
-/

set_option autoImplicit false

namespace Grizol.Analysis

open Grizol.Library Grizol.Model Grizol.Interface

section Steps

variable {w : FileWriter} {files : FileStore} {data : Bytes} {offset : ℕ}

/-- The call is at the file of its chunk. -/
def atChunk : FileWriter.WritePc → Prop
  | .openChunk | .setLen | .writeAll | .syncAll => True
  | _ => False

/-- A write is at the file of its chunk at these points. -/
theorem writesChunk_iff {chunkSize chunkPos : ℕ} {pc : FileWriter.WritePc} :
    (WriterCall.write data offset pc).WritesChunk chunkSize chunkPos ↔
      atChunk pc ∧ offset / chunkSize = chunkPos := by
  cases pc <;> simp [WriterCall.WritesChunk, atChunk]

/-- It arrives when it asks for the flag. -/
theorem arrives_iff {chunkSize chunkPos : ℕ} {pc : FileWriter.WritePc} :
    (WriterCall.write data offset pc).Arrives chunkSize chunkPos ↔
      pc = .acquire ∧ offset / chunkSize = chunkPos := by
  cases pc <;> simp [WriterCall.Arrives]

/-- A call that has not begun is at no file. -/
theorem not_writesChunk_of_fresh {c : WriterCall} (h : c.Fresh) {chunkSize chunkPos : ℕ} :
    ¬ c.WritesChunk chunkSize chunkPos := by
  cases c with
  | write data offset pc =>
      obtain rfl := h
      exact id
  | consolidate pc found => exact id

/-- **Whether the flag is taken or not**, a call that asks for it goes on to the file. -/
theorem writeStep_acquire (w : FileWriter) (files : FileStore) (data : Bytes) (offset : ℕ)
    (outcome : Outcome) :
    (w.writeStep files data offset outcome .acquire).2.2 = .openChunk := by
  simp only [FileWriter.writeStep, FileWriter.compareExchange]
  split_ifs
  · rfl
  · rfl

/-- A call gets to the file of its chunk by asking for the flag. -/
theorem atChunk_of_writeStep {pc : FileWriter.WritePc} {outcome : Outcome}
    (h : atChunk (w.writeStep files data offset outcome pc).2.2) :
    atChunk pc ∨ pc = .acquire := by
  cases pc with
  | openChunk | setLen | writeAll | syncAll => exact Or.inl trivial
  | acquire => exact Or.inr rfl
  | check =>
      simp only [FileWriter.writeStep, FileWriter.checkChunk] at h
      split_ifs at h <;> exact h.elim
  | enter | leave =>
      simp only [FileWriter.writeStep] at h
      split at h <;> exact h.elim
  | openEmpty => cases outcome <;> exact h.elim
  | release | returned result | panicked fault => exact h.elim

end Steps

section Turns

variable {ι : Type} [DecidableEq ι] {s s' : Processes ι WriterCall SharedWriter}
  {t : Turn ι Outcome}

/-- A turn leaves the size of the chunks. -/
theorem chunkSize_step (hstep : Processes.step WriterCall.act s t = some s') :
    s'.shared.writer.chunkSize = s.shared.writer.chunkSize := by
  have hself := Processes.step_self hstep
  cases hcall : s.process t.process with
  | write data offset pc =>
      rw [hcall, WriterCall.act, Prod.mk.injEq] at hself
      rw [hself.2]
      exact (writeStep_frame data offset s.shared.writer s.shared.files t.outcome pc).same.chunkSize
  | consolidate pc found =>
      rw [hcall, WriterCall.act, Prod.mk.injEq] at hself
      rw [hself.2]
      exact (consolidateStep_frame s.shared.writer s.shared.files t.outcome pc).same.chunkSize

/-- After its turn a call is at the file of a chunk only if it was there or has arrived. -/
theorem writesChunk_of_step (hstep : Processes.step WriterCall.act s t = some s') {chunkPos : ℕ}
    (h : (s'.process t.process).WritesChunk s.shared.writer.chunkSize chunkPos) :
    (s.process t.process).WritesChunk s.shared.writer.chunkSize chunkPos ∨
      (s.process t.process).Arrives s.shared.writer.chunkSize chunkPos := by
  have hself := Processes.step_self hstep
  cases hcall : s.process t.process with
  | write data offset pc =>
      rw [hcall, WriterCall.act, Prod.mk.injEq] at hself
      rw [hself.1, writesChunk_iff] at h
      rw [writesChunk_iff, arrives_iff]
      rcases atChunk_of_writeStep h.1 with hthere | harrives
      · exact Or.inl ⟨hthere, h.2⟩
      · exact Or.inr ⟨harrives, h.2⟩
  | consolidate pc found =>
      rw [hcall, WriterCall.act, Prod.mk.injEq] at hself
      rw [hself.1] at h
      exact h.elim

/-- A call that arrives gets there. -/
theorem writesChunk_of_arrives (hstep : Processes.step WriterCall.act s t = some s') {chunkPos : ℕ}
    (h : (s.process t.process).Arrives s.shared.writer.chunkSize chunkPos) :
    (s'.process t.process).WritesChunk s.shared.writer.chunkSize chunkPos := by
  have hself := Processes.step_self hstep
  cases hcall : s.process t.process with
  | write data offset pc =>
      rw [hcall, arrives_iff] at h
      obtain ⟨rfl, hpos⟩ := h
      rw [hcall, WriterCall.act, Prod.mk.injEq] at hself
      rw [hself.1, writesChunk_iff]
      have hgoes := writeStep_acquire s.shared.writer s.shared.files data offset t.outcome
      exact ⟨hgoes ▸ trivial, hpos⟩
  | consolidate pc found =>
      rw [hcall] at h
      exact h.elim

/-- **One turn**: the calls stay apart exactly when none arrives where another is. -/
theorem oneAtATime_iff (hexclusive : ExclusiveChunks s)
    (hstep : Processes.step WriterCall.act s t = some s') :
    OneAtATime s t s' ↔ FindsChunkFree s t := by
  have hsize := chunkSize_step hstep
  constructor
  · intro h i chunkPos hi hthere harrives
    have hother : (s'.process i).WritesChunk s'.shared.writer.chunkSize chunkPos := by
      rw [Processes.step_other hstep hi, hsize]
      exact hthere
    have hself : (s'.process t.process).WritesChunk s'.shared.writer.chunkSize chunkPos := by
      rw [hsize]
      exact writesChunk_of_arrives hstep harrives
    exact hi (h.exclusive i t.process chunkPos hother hself)
  · intro h
    have happart : ∀ i chunkPos, i ≠ t.process →
        (s'.process i).WritesChunk s.shared.writer.chunkSize chunkPos →
        ¬ (s'.process t.process).WritesChunk s.shared.writer.chunkSize chunkPos := by
      intro i chunkPos hi hthere hself
      rw [Processes.step_other hstep hi] at hthere
      rcases writesChunk_of_step hstep hself with hwas | harrives
      · exact hi (hexclusive i t.process chunkPos hthere hwas)
      · exact h i chunkPos hi hthere harrives
    refine ⟨?_, ?_⟩
    · intro i j chunkPos hi hj
      rw [hsize] at hi hj
      by_cases hit : i = t.process
      · by_contra hij
        exact happart j chunkPos (fun hjt => hij (hit.trans hjt.symm)) hj (hit ▸ hi)
      · by_cases hjt : j = t.process
        · exact absurd (hjt ▸ hj) (happart i chunkPos hit hi)
        · rw [Processes.step_other hstep hit] at hi
          rw [Processes.step_other hstep hjt] at hj
          exact hexclusive i j chunkPos hi hj
    · intro i chunkPos hi hthere harrives
      exact absurd harrives (h i chunkPos hi hthere)

/-- A call that takes its turns while no other is at the file of a chunk finds its chunk free. -/
theorem findsChunkFree_of_alone {i : ι} {turns : List (Turn ι Outcome)}
    (hturns : ∀ t ∈ turns, t.process = i) : ∀ {s : Processes ι WriterCall SharedWriter},
      (∀ j, j ≠ i → ∀ chunkSize chunkPos, ¬ (s.process j).WritesChunk chunkSize chunkPos) →
        Transition.Meets (Processes.step WriterCall.act) FindsChunkFree s turns := by
  induction turns with
  | nil =>
      intro s _
      trivial
  | cons t turns ih =>
      intro s hothers
      obtain ⟨hfirst, hrest⟩ := List.forall_mem_cons.mp hturns
      refine ⟨?_, fun s' hstep => ih hrest fun j hj => ?_⟩
      · intro j chunkPos hj hthere
        exact absurd hthere (hothers j (hfirst ▸ hj) _ _)
      · rw [Processes.step_other hstep (hfirst ▸ hj)]
        exact hothers j hj

end Turns

/-- **When calls on one chunk are apart.** Along a run of calls on any writer, in any order of
their turns and whatever their file operations end with, at most one call at a time is at the
file of a chunk and a second one is turned away, if and only if no call arrives at a chunk
while another is at its file. -/
theorem oneAtATime_iff_of_run {ι : Type} [DecidableEq ι]
    {s₀ : Processes ι WriterCall SharedWriter} (hfresh : ∀ i, (s₀.process i).Fresh)
    (turns : List (Turn ι Outcome)) :
    Transition.Along (Processes.step WriterCall.act) OneAtATime s₀ turns ↔
      Transition.Meets (Processes.step WriterCall.act) FindsChunkFree s₀ turns := by
  apply Transition.along_iff_meets ExclusiveChunks
  · intro s t
    exact ⟨_, rfl⟩
  · intro s t s' hexclusive hstep
    exact oneAtATime_iff hexclusive hstep
  · intro s t s' hexclusive hfree hstep
    exact ((oneAtATime_iff hexclusive hstep).mpr hfree).exclusive
  · intro i j chunkPos hi
    exact absurd hi (not_writesChunk_of_fresh (hfresh i))

section Example

/-- Two calls with data for the same chunk. -/
def sameChunkCalls (w : FileWriter) : Processes (Fin 2) WriterCall SharedWriter :=
  ⟨⟨w, .empty⟩, fun i => .write (if i.val = 0 then [1, 2] else [3, 4]) 0 .check⟩

/-- Neither call has begun. -/
theorem fresh_sameChunkCalls (w : FileWriter) (i : Fin 2) :
    ((sameChunkCalls w).process i).Fresh := rfl

/-- The first call takes its turns until it has returned, then the second. -/
def inTurn {ι : Type} (first second : ι) : List (Turn ι Outcome) :=
  List.replicate 9 ⟨first, .ok⟩ ++ List.replicate 9 ⟨second, .ok⟩

/-- Witness: one after the other they are apart, and both return. -/
theorem oneAtATime_iff_of_run_inTurn : ∃ w s,
    FileWriter.new (fun _ _ _ => 0) "f" 2 2 = .ok w ∧
    Transition.run (Processes.step WriterCall.act) (sameChunkCalls w) (inTurn 0 1) = some s ∧
    (∀ i, ∃ data, s.process i = .write data 0 (.returned (.ok ()))) ∧
    Transition.Along (Processes.step WriterCall.act) OneAtATime (sameChunkCalls w) (inTurn 0 1) ∧
    Transition.Meets (Processes.step WriterCall.act) FindsChunkFree (sameChunkCalls w)
      (inTurn 0 1) := by
  have hnew : FileWriter.new (fun _ _ _ => 0) "f" 2 2 = .ok _ := rfl
  have hmeets : ∀ w, FileWriter.new (fun _ _ _ => 0) "f" 2 2 = .ok w →
      Transition.Meets (Processes.step WriterCall.act) FindsChunkFree (sameChunkCalls w)
        (inTurn 0 1) := by
    intro w hw
    obtain rfl := Except.ok.inj (hnew.symm.trans hw)
    refine Transition.meets_append.mpr ⟨?_, fun s' hs' => ?_⟩
    · apply findsChunkFree_of_alone (i := 0)
      · intro t ht
        rw [List.eq_of_mem_replicate ht]
      · intro j _ _ _
        exact not_writesChunk_of_fresh (fresh_sameChunkCalls _ j)
    · apply findsChunkFree_of_alone (i := 1)
      · intro t ht
        rw [List.eq_of_mem_replicate ht]
      · intro j hj _ _ hthere
        obtain rfl : j = 0 := by omega
        obtain rfl := Option.some.inj hs'
        exact hthere
  refine ⟨_, _, hnew, rfl, ?_, ?_, hmeets _ hnew⟩
  · intro i
    match i with
    | 0 | 1 => exact ⟨_, rfl⟩
  · exact (oneAtATime_iff_of_run (fresh_sameChunkCalls _) _).mpr (hmeets _ hnew)

/-- The second call asks for the flag while the first is about to write, and is not turned
away: both are at the file of the chunk. -/
theorem sameChunk_not_oneAtATime : ∃ w,
    FileWriter.new (fun _ _ _ => 0) "f" 2 2 = .ok w ∧
    ¬ Transition.Along (Processes.step WriterCall.act) OneAtATime (sameChunkCalls w)
      (List.replicate 5 ⟨0, .ok⟩ ++ List.replicate 2 ⟨1, .ok⟩ ++ [⟨1, .ok⟩]) := by
  have hnew : FileWriter.new (fun _ _ _ => 0) "f" 2 2 = .ok _ := rfl
  refine ⟨_, hnew, fun h => ?_⟩
  have hlast := Transition.rel_of_along_concat h rfl rfl
  exact absurd (hlast.exclusive 0 1 0 rfl rfl) (by decide)

end Example

end Grizol.Analysis

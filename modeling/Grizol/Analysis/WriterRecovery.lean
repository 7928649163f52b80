import Grizol.Interface.WriterRecovery
import Grizol.Analysis.WriterExclusion

/-!
# What failed calls leave behind

The state of a writer is an account of its calls: a call of `write_chunk` adds one to the
counter and takes it back, a call of `consolidate` sets `Consolidating` and takes it back.
A call that leaves through an error after that takes nothing back. So at any time the
account is what the calls in flight have put there and one for every failed operation, and
the writer recovers exactly when there was none.
-/

set_option autoImplicit false

namespace Grizol.Analysis

open Grizol.Library Grizol.Model Grizol.Interface

/-! ## Steps -/

section Steps

/-- What the state of a writer says was put there. -/
def charge : FileWriterState → ℕ
  | .writingChunks n => n
  | .consolidating => 1

/-- What a consolidating call has put there. -/
def entered : FileWriter.ConsolidatePc → ℕ
  | .enter | .returned _ => 0
  | _ => 1

/-- What a call has put there, and will take back. -/
def claimed : WriterCall → ℕ
  | .write _ _ pc => inside pc
  | .consolidate pc _ => entered pc

variable {s : SharedWriter} (data : Bytes) (offset : ℕ) (found : FileStore)

/-- While a call consolidates, a write that is not counted is refused. -/
theorem writeStep_refused {pc : FileWriter.WritePc} (outcome : Outcome)
    (hstate : s.writer.state = .consolidating) (houtside : inside pc = 0) :
    (s.writer.writeStep s.files data offset outcome pc).1 = s.writer ∧
      inside (s.writer.writeStep s.files data offset outcome pc).2.2 = 0 ∧
      leaks outcome (.write data offset pc) s = 0 := by
  cases pc with
  | check =>
      exact ⟨rfl, inside_checkChunk s.writer data offset, rfl⟩
  | openEmpty => cases outcome <;> exact ⟨rfl, rfl, rfl⟩
  | enter =>
      simp only [FileWriter.writeStep, hstate]
      exact ⟨trivial, rfl, rfl⟩
  | returned r => exact ⟨rfl, rfl, rfl⟩
  | panicked fault => exact ⟨rfl, rfl, rfl⟩
  | acquire | openChunk | setLen | writeAll | syncAll | release | leave => cases houtside

/-- A consolidation that goes on is still entered. -/
theorem entered_nextChunk (w : FileWriter) (i : ℕ) : entered (w.nextChunk i) = 1 := by
  unfold FileWriter.nextChunk
  split_ifs <;> rfl

/-- A consolidation sets the state and takes it back, or leaves it. -/
theorem consolidateStep_account {pc : FileWriter.ConsolidatePc} (outcome : Outcome)
    (hinside : entered pc = 1 → s.writer.state = .consolidating) :
    charge (s.writer.consolidateStep s.files outcome pc).1.state + entered pc =
        charge s.writer.state +
          entered (s.writer.consolidateStep s.files outcome pc).2.2 +
          leaks outcome (.consolidate pc found) s ∧
      (s.writer.consolidateStep s.files outcome pc).1.writingChunk = s.writer.writingChunk ∧
      (entered (s.writer.consolidateStep s.files outcome pc).2.2 = 1 →
        (s.writer.consolidateStep s.files outcome pc).1.state = .consolidating) := by
  cases pc with
  | enter =>
      simp only [FileWriter.consolidateStep]
      split
      · exact ⟨rfl, rfl, fun h => by cases h⟩
      · rename_i hstate
        rw [hstate]
        exact ⟨rfl, rfl, fun _ => rfl⟩
      · exact ⟨rfl, rfl, fun h => by cases h⟩
  | checkFlags =>
      simp only [FileWriter.consolidateStep]
      split_ifs
      · exact ⟨rfl, rfl, fun _ => hinside rfl⟩
      · exact ⟨rfl, rfl, fun _ => hinside rfl⟩
  | openTarget =>
      cases outcome with
      | ok =>
          simp only [FileWriter.consolidateStep, entered_nextChunk]
          exact ⟨rfl, trivial, fun _ => hinside rfl⟩
      | fails k => exact ⟨rfl, rfl, fun h => by cases h⟩
  | openChunk i | removeChunk i =>
      simp only [FileWriter.consolidateStep, leaks, WriterCall.opSucceeds, AssocMap.contains]
      cases hget : s.files.get (s.writer.chunkPath i) with
      | none => cases outcome <;> exact ⟨rfl, rfl, fun h => by cases h⟩
      | some content =>
          cases outcome with
          | ok =>
              simp only [entered_nextChunk]
              exact ⟨rfl, trivial, fun _ => hinside rfl⟩
          | fails k => exact ⟨rfl, rfl, fun h => by cases h⟩
  | readChunk i | seek i buf | writeAll i buf | syncAll i =>
      cases outcome with
      | ok => exact ⟨rfl, rfl, fun _ => hinside rfl⟩
      | fails k => exact ⟨rfl, rfl, fun h => by cases h⟩
  | leave =>
      rw [hinside rfl]
      exact ⟨rfl, rfl, fun h => by cases h⟩
  | returned r => exact ⟨rfl, rfl, fun h => by cases h⟩

/-- Between the two phases nothing is put there. -/
theorem consolidateStep_phase (w : FileWriter) (files : FileStore) (outcome : Outcome)
    (pc : FileWriter.ConsolidatePc) :
    (w.consolidateStep files outcome pc).1.state = w.state ∨ charge w.state = 0 ∨
      charge (w.consolidateStep files outcome pc).1.state = 0 := by
  cases pc with
  | enter =>
      simp only [FileWriter.consolidateStep]
      split
      · exact Or.inl rfl
      · rename_i hstate
        exact Or.inr (Or.inl (by rw [hstate]; rfl))
      · exact Or.inl rfl
  | checkFlags =>
      simp only [FileWriter.consolidateStep]
      split_ifs
      · exact Or.inl rfl
      · exact Or.inl rfl
  | openChunk i | removeChunk i =>
      simp only [FileWriter.consolidateStep]
      split
      · exact Or.inl rfl
      · exact Or.inl rfl
  | openTarget | readChunk i | seek i buf | writeAll i buf | syncAll i =>
      cases outcome with
      | ok => exact Or.inl rfl
      | fails k => exact Or.inl rfl
  | leave => exact Or.inr (Or.inr rfl)
  | returned r => exact Or.inl rfl

end Steps

/-! ## The account -/

section Accounting

variable {ι : Type} [Fintype ι] [DecidableEq ι]
  {s s' : Processes ι WriterCall SharedWriter} {t : Turn ι Outcome} {leaked : ℕ}

/-- A call that has put something there is in the phase of its kind. -/
def Fits (state : FileWriterState) : WriterCall → Prop
  | .write _ _ pc => inside pc = 1 → state ≠ .consolidating
  | .consolidate pc _ => entered pc = 1 → state = .consolidating

/-- **The state is an account of the calls.** It says what the calls have put there, and what
those that failed have left. -/
structure Account (s : Processes ι WriterCall SharedWriter) (leaked : ℕ) : Prop where
  balance : charge s.shared.writer.state = ∑ i, claimed (s.process i) + leaked
  fits : ∀ i, Fits s.shared.writer.state (s.process i)
  flags : ∀ chunkPos, s.shared.writer.writingChunk.getD chunkPos false = true →
    (∃ i, Holds s.shared.writer.chunkSize (s.process i) chunkPos) ∨ 0 < leaked

/-- A call is counted once or not at all. -/
theorem inside_eq_zero_or_one (pc : FileWriter.WritePc) : inside pc = 0 ∨ inside pc = 1 := by
  cases pc <;> simp [inside]

/-- A call that claims nothing fits any state. -/
theorem fits_of_claimed {c : WriterCall} (state : FileWriterState) (h : claimed c = 0) :
    Fits state c := by
  cases c with
  | write data offset pc =>
      intro hone
      exact absurd (h.symm.trans hone) Nat.zero_ne_one
  | consolidate pc found =>
      intro hone
      exact absurd (h.symm.trans hone) Nat.zero_ne_one

/-- In the same phase a call fits as before. -/
theorem fits_congr {state state' : FileWriterState} {c : WriterCall}
    (h : state' = .consolidating ↔ state = .consolidating) (hfits : Fits state c) :
    Fits state' c := by
  cases c with
  | write data offset pc => exact fun hone hstate => hfits hone (h.mp hstate)
  | consolidate pc found => exact fun hone => h.mpr (hfits hone)

/-- A turn keeps the account when what it puts there is its own. -/
theorem account_turn (h : Account s leaked) (hstep : Processes.step WriterCall.act s t = some s')
    {loss : ℕ}
    (hbalance : charge s'.shared.writer.state + claimed (s.process t.process) =
      charge s.shared.writer.state + claimed (s'.process t.process) + loss)
    (hphase : (s'.shared.writer.state = .consolidating ↔ s.shared.writer.state = .consolidating) ∨
      charge s.shared.writer.state = 0 ∨ charge s'.shared.writer.state = 0)
    (hfits : Fits s'.shared.writer.state (s'.process t.process))
    (hsize : s'.shared.writer.chunkSize = s.shared.writer.chunkSize)
    (hflags : ∀ chunkPos, s'.shared.writer.writingChunk.getD chunkPos false = true →
      Holds s.shared.writer.chunkSize (s'.process t.process) chunkPos ∨
      s.shared.writer.writingChunk.getD chunkPos false = true ∧
        (¬ Holds s.shared.writer.chunkSize (s.process t.process) chunkPos ∨ 0 < loss)) :
    Account s' (leaked + loss) := by
  have hsum := Processes.sum_step hstep claimed
  have hbefore := h.balance
  refine ⟨by omega, ?_, ?_⟩
  · intro i
    by_cases hi : i = t.process
    · rw [hi]
      exact hfits
    · have hle := Processes.le_sum s claimed i
      have hle' := Processes.le_sum s' claimed i
      have hother := h.fits i
      rw [Processes.step_other hstep hi] at hle' ⊢
      rcases hphase with hsame | hzero | hzero
      · exact fits_congr hsame hother
      · exact fits_of_claimed _ (by omega)
      · exact fits_of_claimed _ (by omega)
  · intro chunkPos hset
    rw [hsize]
    rcases hflags chunkPos hset with hheld | ⟨hset, hother⟩
    · exact Or.inl ⟨t.process, hheld⟩
    · rcases h.flags chunkPos hset with ⟨i, hi⟩ | hleaked
      · by_cases hti : i = t.process
        · subst hti
          rcases hother with hnot | hloss
          · exact absurd hi hnot
          · exact Or.inr (by omega)
        · refine Or.inl ⟨i, ?_⟩
          rw [Processes.step_other hstep hti]
          exact hi
      · exact Or.inr (by omega)

/-- The turn of a writing call. -/
theorem account_write (h : Account s leaked)
    (hstep : Processes.step WriterCall.act s t = some s') {data : Bytes} {offset : ℕ}
    {pc : FileWriter.WritePc} (hcall : s.process t.process = .write data offset pc) :
    Account s' (leaked + leaks t.outcome (s.process t.process) s.shared) := by
  have hself := Processes.step_self hstep
  rw [hcall, WriterCall.act, Prod.mk.injEq] at hself
  obtain ⟨hprocess, hshared⟩ := hself
  have hsame := (writeStep_frame data offset s.shared.writer s.shared.files t.outcome pc).same
  have hsize : s'.shared.writer.chunkSize = s.shared.writer.chunkSize := by
    rw [hshared]
    exact hsame.chunkSize
  have hclaimed : claimed (s.process t.process) = inside pc := by rw [hcall]; rfl
  have hle := Processes.le_sum s claimed t.process
  have hbalance := h.balance
  have hfits := h.fits t.process
  rw [hcall] at hfits
  cases hstate : s.shared.writer.state with
  | writingChunks n =>
      rw [hstate] at hbalance
      have hinside : inside pc ≤ n := by
        simp only [charge] at hbalance
        omega
      obtain ⟨n', hstate', hcount, hflags⟩ :=
        writeStep_account data offset t.outcome hstate hinside
      apply account_turn h hstep
      · rw [hclaimed, hprocess, hshared, hstate, hstate', hcall]
        exact hcount
      · left
        rw [hshared, hstate, hstate']
        exact ⟨fun h => (by cases h), fun h => (by cases h)⟩
      · rw [hprocess, hshared, hstate']
        exact fun _ h => by cases h
      · exact hsize
      · intro chunkPos hset
        rw [hshared] at hset
        rw [hprocess, hcall]
        exact hflags chunkPos hset
  | consolidating =>
      have houtside : inside pc = 0 :=
        (inside_eq_zero_or_one pc).resolve_right fun hone => hfits hone hstate
      obtain ⟨hwriter, hinside', hleaks⟩ :=
        writeStep_refused data offset t.outcome hstate houtside
      have hwriter' : s'.shared.writer = s.shared.writer := by
        rw [hshared]
        exact hwriter
      apply account_turn h hstep
      · rw [hclaimed, hprocess, hwriter', hcall, hleaks, houtside]
        exact congrArg (charge s.shared.writer.state + ·) hinside'.symm
      · rw [hwriter']
        exact Or.inl Iff.rfl
      · rw [hprocess]
        exact fits_of_claimed _ hinside'
      · exact hsize
      · intro chunkPos hset
        rw [hwriter'] at hset
        refine Or.inr ⟨hset, Or.inl ?_⟩
        rw [hcall]
        rintro ⟨hholds, -⟩
        exact absurd (houtside.symm.trans (inside_of_holdsFlag hholds)) Nat.zero_ne_one

/-- The turn of a consolidating call. -/
theorem account_consolidate (h : Account s leaked)
    (hstep : Processes.step WriterCall.act s t = some s') {pc : FileWriter.ConsolidatePc}
    {found : FileStore} (hcall : s.process t.process = .consolidate pc found) :
    Account s' (leaked + leaks t.outcome (s.process t.process) s.shared) := by
  have hself := Processes.step_self hstep
  rw [hcall, WriterCall.act, Prod.mk.injEq] at hself
  obtain ⟨hprocess, hshared⟩ := hself
  have hsame := (consolidateStep_frame s.shared.writer s.shared.files t.outcome pc).same
  have hfits := h.fits t.process
  rw [hcall] at hfits
  obtain ⟨hbalance, hchunks, hentered⟩ :=
    consolidateStep_account found t.outcome hfits
  apply account_turn h hstep
  · rw [hprocess, hshared, hcall]
    exact hbalance
  · rcases consolidateStep_phase s.shared.writer s.shared.files t.outcome pc with heq | hzero | hzero
    · left
      rw [hshared, heq]
    · exact Or.inr (Or.inl hzero)
    · right
      right
      rw [hshared]
      exact hzero
  · rw [hprocess, hshared]
    exact hentered
  · rw [hshared]
    exact hsame.chunkSize
  · intro chunkPos hset
    rw [hshared] at hset
    refine Or.inr ⟨hchunks ▸ hset, Or.inl ?_⟩
    rw [hcall]
    exact id

/-- Every turn keeps the account; one whose operation fails leaves something behind. -/
theorem account_step (h : Account s leaked)
    (hstep : Processes.step WriterCall.act s t = some s') :
    Account s' (leaked + leaks t.outcome (s.process t.process) s.shared) := by
  cases hcall : s.process t.process with
  | write data offset pc => exact hcall ▸ account_write h hstep hcall
  | consolidate pc found => exact hcall ▸ account_consolidate h hstep hcall

omit [DecidableEq ι] in
/-- Before the calls there is nothing. -/
theorem account_fresh (hstate : s.shared.writer.state = .writingChunks 0)
    (hfree : s.shared.writer.writingChunk.all (fun flag => !flag) = true)
    (hfresh : ∀ i, (s.process i).Fresh) : Account s 0 := by
  have hclaimed : ∀ i, claimed (s.process i) = 0 := by
    intro i
    have hi := hfresh i
    cases hcall : s.process i with
    | write data offset pc =>
        rw [hcall] at hi
        obtain rfl := hi
        rfl
    | consolidate pc found =>
        rw [hcall] at hi
        obtain rfl := hi
        rfl
  refine ⟨?_, fun i => fits_of_claimed _ (hclaimed i), ?_⟩
  · rw [hstate, Finset.sum_eq_zero fun i _ => hclaimed i]
    rfl
  · intro chunkPos hset
    rw [all_free_iff.mp hfree chunkPos] at hset
    cases hset

/-- Only a call in flight has put something there. -/
theorem claimed_of_not_inFlight {c : WriterCall} (h : ¬ c.InFlight) : claimed c = 0 := by
  cases c with
  | write data offset pc => cases pc <;> first | rfl | exact absurd trivial h
  | consolidate pc found => cases pc <;> first | rfl | exact absurd trivial h

/-- And only one in flight holds a flag. -/
theorem inFlight_of_holds {c : WriterCall} {chunkSize chunkPos : ℕ}
    (h : Holds chunkSize c chunkPos) : c.InFlight := by
  by_contra hnot
  have hzero := claimed_of_not_inFlight hnot
  cases c with
  | write data offset pc =>
      exact absurd (hzero.symm.trans (inside_of_holdsFlag h.1)) Nat.zero_ne_one
  | consolidate pc found => exact h

/-- A writer that counts no call and has no flag set accepts the next call. -/
theorem recovered_of_free {w : FileWriter} (hstate : w.state = .writingChunks 0)
    (hfree : w.writingChunk.all (fun flag => !flag) = true) : Recovered w := by
  refine ⟨hstate, hfree, ?_, ?_⟩
  · intro files data offset outcome
    simp only [FileWriter.writeStep, hstate]
  · intro files outcome
    simp only [FileWriter.consolidateStep, hstate]

omit [DecidableEq ι] in
/-- When no call is in flight the writer has recovered if nothing was left behind. -/
theorem recovered_iff_of_account (h : Account s leaked) (hidle : ∀ i, ¬ (s.process i).InFlight) :
    Recovered s.shared.writer ↔ leaked = 0 := by
  have hbalance := h.balance
  rw [Finset.sum_eq_zero fun i _ => claimed_of_not_inFlight (hidle i), Nat.zero_add] at hbalance
  constructor
  · intro hrecovered
    rw [hrecovered.state] at hbalance
    exact hbalance.symm
  · rintro rfl
    have hstate : s.shared.writer.state = .writingChunks 0 := by
      cases hstate : s.shared.writer.state with
      | writingChunks n =>
          rw [hstate] at hbalance
          exact congrArg FileWriterState.writingChunks hbalance
      | consolidating =>
          rw [hstate] at hbalance
          exact absurd hbalance Nat.one_ne_zero
    apply recovered_of_free hstate
    refine all_free_iff.mpr fun chunkPos => ?_
    by_contra hset
    rcases h.flags chunkPos (by simpa using hset) with ⟨i, hi⟩ | hlt
    · exact hidle i (inFlight_of_holds hi)
    · exact absurd hlt (Nat.lt_irrefl 0)

end Accounting

/-- **When a writer recovers.** In any run of calls on a new writer, in any order of their
steps, whenever no call is in flight the writer is as it was at first, and open to later calls,
if and only if no file operation has failed that a call made after it had changed the state. -/
theorem recovered_iff_of_run {ι : Type} [Fintype ι] [DecidableEq ι]
    {hash : String → ℕ → ℕ → UInt64} {filePath : String} {fileSize chunkSize : ℕ} {w : FileWriter}
    (hnew : FileWriter.new hash filePath fileSize chunkSize = .ok w)
    {s₀ s : Processes ι WriterCall SharedWriter} (hwriter : s₀.shared.writer = w)
    (hfresh : ∀ i, (s₀.process i).Fresh) {turns : List (Turn ι Outcome)}
    (h : Transition.run (Processes.step WriterCall.act) s₀ turns = some s)
    (hidle : ∀ i, ¬ (s.process i).InFlight) :
    Recovered s.shared.writer ↔
      Transition.Meets (Processes.step WriterCall.act) OpSucceeds s₀ turns := by
  obtain ⟨-, -, -, hstate, hfree⟩ := new_spec hnew
  have haccount : ∃ leaked, Account s leaked ∧ (leaked = 0 ↔
      Transition.Meets (Processes.step WriterCall.act) OpSucceeds s₀ turns) := by
    refine Transition.run_induction (motive := fun turns s => ∃ leaked, Account s leaked ∧
      (leaked = 0 ↔ Transition.Meets (Processes.step WriterCall.act) OpSucceeds s₀ turns)) ?_ ?_ h
    · refine ⟨0, account_fresh ?_ ?_ hfresh, iff_of_true rfl trivial⟩
      · rw [hwriter, hstate]
      · rw [hwriter, hfree]
    · intro turns s t s' hrun ⟨leaked, hleaked, hiff⟩ hstep
      refine ⟨_, account_step hleaked hstep, ?_⟩
      have hturn : leaks t.outcome (s.process t.process) s.shared = 0 ↔ OpSucceeds s t := by
        unfold leaks OpSucceeds
        cases (s.process t.process).opSucceeds t.outcome s.shared <;> simp
      rw [Nat.add_eq_zero_iff, hiff, hturn, Transition.meets_concat hrun]
  obtain ⟨leaked, hleaked, hiff⟩ := haccount
  exact (recovered_iff_of_account hleaked hidle).trans hiff

/-! ## A write that fails -/

section Example

/-- A writer of a file of one chunk, and two calls: one writes the chunk, the other
consolidates. -/
def chunkCalls (w : FileWriter) : Processes (Fin 2) WriterCall SharedWriter :=
  ⟨⟨w, .empty⟩, fun i => if i = 0 then .write [1, 2] 0 .check else .consolidate .enter .empty⟩

/-- The turns of both, one after the other. -/
def allSucceedTurns : List (Turn (Fin 2) Outcome) :=
  (List.replicate 9 (0 : Fin 2) ++ List.replicate 10 1).map (⟨·, .ok⟩)

/-- The turns of the first call, until its `set_len` fails. -/
def failedWrite : List (Turn (Fin 2) Outcome) :=
  List.replicate 4 ⟨0, .ok⟩ ++ [⟨0, .fails 0⟩]

/-- Neither call has begun. -/
theorem fresh_chunkCalls (w : FileWriter) (i : Fin 2) : ((chunkCalls w).process i).Fresh := by
  unfold chunkCalls
  dsimp only
  split_ifs
  · rfl
  · rfl

/-- Both calls return, and the writer has recovered, for nothing has failed. -/
theorem recovered_iff_of_run_both : ∃ w s,
    FileWriter.new (fun _ _ _ => 0) "f" 2 2 = .ok w ∧
    Transition.run (Processes.step WriterCall.act) (chunkCalls w) allSucceedTurns = some s ∧
    Recovered s.shared.writer ∧
    Transition.Meets (Processes.step WriterCall.act) OpSucceeds (chunkCalls w)
      allSucceedTurns := by
  have hnew : FileWriter.new (fun _ _ _ => 0) "f" 2 2 = .ok _ := rfl
  refine ⟨_, _, hnew, rfl, ?_⟩
  exact ⟨recovered_of_free rfl rfl, (recovered_iff_of_run hnew rfl (fresh_chunkCalls _) rfl
    (Fin.forall_fin_two.mpr ⟨id, id⟩)).mp (recovered_of_free rfl rfl)⟩

/-- A write whose `set_len` fails leaves itself counted and its flag set. -/
theorem failedWrite_not_recovered :
    ¬ ∀ (w : FileWriter) (s : Processes (Fin 2) WriterCall SharedWriter),
      FileWriter.new (fun _ _ _ => 0) "f" 2 2 = .ok w →
      Transition.run (Processes.step WriterCall.act) (chunkCalls w) failedWrite = some s →
      (∀ i, ¬ (s.process i).InFlight) → Recovered s.shared.writer := by
  intro hall
  have hrecovered := hall _ _ rfl rfl (Fin.forall_fin_two.mpr ⟨id, id⟩)
  exact absurd (FileWriterState.writingChunks.inj hrecovered.state) Nat.one_ne_zero

end Example

end Grizol.Analysis

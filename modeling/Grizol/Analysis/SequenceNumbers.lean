import Grizol.Analysis.AcceptedFiles
import Grizol.Interface.IndexIntake

/-!
# The numbers files are written with

`next_sequence_id` counts on from the greatest number in the table, which it looks up
once. As long as no row is above the counter (`SequencesBelow`) the numbers it gives to a
list of files are new, and each file that is otherwise accepted goes in.
-/

set_option autoImplicit false

namespace Grizol.Analysis

open Grizol.Library
open Grizol.Model Grizol.Model.Syncthing Grizol.Interface

/-! ## The counter -/

/-- No row has a number above the counter. -/
def SequencesBelow (db : Database) (counter : Option Int64) : Prop :=
  ∀ n, counter = some n → ∀ k r, db.bepFileInfo.get k = some r → r.sequence.toInt ≤ n.toInt

/-- The greatest number is not below any. -/
theorem le_foldl_maxSequence (xs : List Int64) (m : Option Int64) :
    (∀ y, m = some y → ∃ n, xs.foldl
      (fun m x => some (match m with | some y => if y < x then x else y | none => x)) m = some n ∧
        y.toInt ≤ n.toInt) ∧
    ∀ x ∈ xs, ∃ n, xs.foldl
      (fun m x => some (match m with | some y => if y < x then x else y | none => x)) m = some n ∧
        x.toInt ≤ n.toInt := by
  induction xs generalizing m with
  | nil =>
      refine ⟨?_, by simp⟩
      rintro y rfl
      exact ⟨y, rfl, le_rfl⟩
  | cons x xs ih =>
      rw [List.foldl_cons]
      obtain ⟨hfirst, hrest⟩ := ih (some (match m with
        | some y => if y < x then x else y
        | none => x))
      obtain ⟨n, hn, hle⟩ := hfirst _ rfl
      have hx : x.toInt ≤ n.toInt := by
        refine le_trans ?_ hle
        cases m with
        | none => exact le_rfl
        | some y =>
            dsimp only
            split_ifs with hlt
            · exact le_rfl
            · rw [Int64.lt_iff_toInt_lt] at hlt
              exact not_lt.mp hlt
      constructor
      · rintro y rfl
        refine ⟨n, hn, le_trans ?_ hle⟩
        dsimp only
        split_ifs with hlt
        · exact (Int64.lt_iff_toInt_lt.mp hlt).le
        · exact le_rfl
      · intro x' hx'
        rcases List.mem_cons.mp hx' with rfl | hmem
        · exact ⟨n, hn, hx⟩
        · exact hrest x' hmem

/-- `MAX(sequence)` is not below the number of any row. -/
theorem le_maxSequence {db : Database} {k : FileKey} {r : FileRow}
    (h : db.bepFileInfo.get k = some r) :
    ∃ n, BepState.maxSequence db = some n ∧ r.sequence.toInt ≤ n.toInt :=
  (le_foldl_maxSequence _ none).2 r.sequence
    (List.mem_map_of_mem (AssocMap.mem_values_iff.mpr ⟨k, h⟩))

variable {s : BepState}

/-- The number given out last is not below that of any row. -/
theorem le_lastSequence (hbelow : SequencesBelow s.db s.sequence) {k : FileKey} {r : FileRow}
    (h : s.db.bepFileInfo.get k = some r) :
    ∃ n, lastSequence s = some n ∧ r.sequence.toInt ≤ n.toInt := by
  rw [lastSequence]
  cases hsequence : s.sequence with
  | none => exact le_maxSequence h
  | some n => exact ⟨n, rfl, hbelow n hsequence k r h⟩

/-- The next number, where it does not overflow. -/
theorem toInt_of_ne_max {n : Int64} (h : n ≠ Int64.maxValue) : (n + 1).toInt = n.toInt + 1 := by
  have hlt := n.toInt_lt
  have hle := n.le_toInt
  have hne : n.toInt ≠ 2 ^ 63 - 1 := by
    intro heq
    apply h
    apply Int64.toInt_inj.mp
    rw [heq]
    rfl
  rw [Int64.toInt_add, Int.bmod_eq_of_le]
  · rfl
  · show -((2 ^ 64 : ℕ) / 2 : ℤ) ≤ n.toInt + 1
    omega
  · show n.toInt + 1 < ((2 ^ 64 : ℕ) + 1) / 2
    omega

/-- The next number comes after the last one, and takes one of those that are left. -/
theorem nextSequence_eq_some {m : Int64} (h : nextSequence s = some m) :
    (∀ l, lastSequence s = some l → l.toInt < m.toInt) ∧
      sequencesAfter (lastSequence s) = sequencesAfter (some m) + 1 := by
  have hnext : nextSequence s = match lastSequence s with
      | some n => if n = Int64.maxValue then none else some (n + 1)
      | none => some 1 := rfl
  rw [hnext] at h
  have hlt := m.toInt_lt
  cases hlast : lastSequence s with
  | none =>
      rw [hlast] at h
      obtain rfl := Option.some.inj h
      exact ⟨by simp, rfl⟩
  | some l =>
      rw [hlast] at h
      dsimp only at h
      split_ifs at h with hmax
      obtain rfl := Option.some.inj h
      have hadd := toInt_of_ne_max hmax
      refine ⟨?_, ?_⟩
      · rintro l' hl'
        obtain rfl := Option.some.inj hl'
        omega
      · rw [sequencesAfter, sequencesAfter]
        omega

/-- Without a next number none is left. -/
theorem nextSequence_eq_none (h : nextSequence s = none) :
    sequencesAfter (lastSequence s) = 0 := by
  have hnext : nextSequence s = match lastSequence s with
      | some n => if n = Int64.maxValue then none else some (n + 1)
      | none => some 1 := rfl
  rw [hnext] at h
  cases hlast : lastSequence s with
  | none =>
      rw [hlast] at h
      cases h
  | some l =>
      rw [hlast] at h
      dsimp only at h
      split_ifs at h with hmax
      rw [hmax]
      rfl

/-- The next number is not below that of any row. -/
theorem sequencesBelow_next (hbelow : SequencesBelow s.db s.sequence) {m : Int64}
    (hnext : nextSequence s = some m) : SequencesBelow s.db (some m) := by
  rintro n hn k r hr
  obtain rfl := Option.some.inj hn
  obtain ⟨l, hl, hle⟩ := le_lastSequence hbelow hr
  have hlt := (nextSequence_eq_some hnext).1 l hl
  omega

/-- Nor is the greatest one. -/
theorem sequencesBelow_max (db : Database) : SequencesBelow db (some Int64.maxValue) := by
  rintro n hn k r -
  obtain rfl := Option.some.inj hn
  have hlt := r.sequence.toInt_lt
  show r.sequence.toInt ≤ 2 ^ 63 - 1
  omega

/-! ## The numbers of a list of files -/

/-- The files of a list with new numbers, which the counter `n` has come to. -/
structure Numbering (s : BepState) (files : List FileInfo) (n : Option Int64)
    (numbered : List FileInfo) : Prop where
  assigned : List.Forall₂ Numbered files numbered
  after : ∀ f ∈ numbered, ∀ l, lastSequence s = some l → l.toInt < f.sequence.toInt
  upTo : ∀ f ∈ numbered, ∃ m, n = some m ∧ f.sequence.toInt ≤ m.toInt
  distinct : numbered.Pairwise fun f g => f.sequence ≠ g.sequence
  counter : files = [] ∧ n = s.sequence ∨ ∃ m, n = some m ∧
    (∀ l, lastSequence s = some l → l.toInt ≤ m.toInt) ∧
      sequencesAfter (lastSequence s) = files.length + sequencesAfter (some m)

/-- Files that are numbered. -/
theorem numbering_of_assignSequences {files numbered : List FileInfo} :
    ∀ {s s' : BepState}, (BepState.assignSequences files).run s = .ok numbered s' →
      ∃ n, s' = { s with sequence := n } ∧ Numbering s files n numbered := by
  induction files generalizing numbered with
  | nil =>
      intro s s' h
      obtain ⟨rfl, rfl⟩ := EStateM.Result.ok.inj h
      exact ⟨s.sequence, rfl, List.Forall₂.nil, by simp, by simp, List.Pairwise.nil,
        Or.inl ⟨rfl, rfl⟩⟩
  | cons file files ih =>
      intro s s' h
      rw [BepState.assignSequences] at h
      obtain ⟨m, s₁, hfirst, h⟩ := RustM.run_bind_eq_ok.mp h
      obtain ⟨rest, s₂, hrest, h⟩ := RustM.run_bind_eq_ok.mp h
      obtain ⟨rfl, rfl⟩ := EStateM.Result.ok.inj h
      obtain ⟨hnext, rfl⟩ : nextSequence s = some m ∧ s₁ = { s with sequence := some m } := by
        rw [nextSequenceId_counter] at hfirst
        cases hnext : nextSequence s with
        | none =>
            rw [hnext] at hfirst
            cases hfirst
        | some m' =>
            rw [hnext] at hfirst
            obtain ⟨rfl, rfl⟩ := EStateM.Result.ok.inj hfirst
            exact ⟨rfl, rfl⟩
      obtain ⟨hafter, hleft⟩ := nextSequence_eq_some hnext
      obtain ⟨n, rfl, hnumbered, hafter₁, hupTo, hdistinct, hcounter⟩ := ih hrest
      -- the counter is at `m`, or beyond it
      obtain ⟨m', hm', hle, hleft'⟩ : ∃ m', n = some m' ∧ m.toInt ≤ m'.toInt ∧
          sequencesAfter (some m) = files.length + sequencesAfter (some m') := by
        rcases hcounter with ⟨rfl, rfl⟩ | ⟨m', hm', hle, hleft'⟩
        · exact ⟨m, rfl, le_rfl, by simp⟩
        · exact ⟨m', hm', hle m rfl, hleft'⟩
      refine ⟨n, rfl, List.Forall₂.cons ⟨m, rfl⟩ hnumbered, ?_, ?_, ?_, Or.inr ⟨m', hm', ?_, ?_⟩⟩
      · rintro f hf l hl
        rcases List.mem_cons.mp hf with rfl | hf
        · exact hafter l hl
        · exact (hafter l hl).trans (hafter₁ f hf m rfl)
      · rintro f hf
        rcases List.mem_cons.mp hf with rfl | hf
        · exact ⟨m', hm', hle⟩
        · exact hupTo f hf
      · refine List.pairwise_cons.mpr ⟨?_, hdistinct⟩
        intro f hf heq
        have hlt := hafter₁ f hf m rfl
        rw [← heq] at hlt
        exact lt_irrefl _ hlt
      · intro l hl
        exact (hafter l hl).le.trans hle
      · rw [hleft, hleft', List.length_cons]
        omega

/-- Where the numbers run out the counter is at the greatest one. -/
theorem assignSequences_eq_error {files : List FileInfo} {e : Fault} :
    ∀ {s s' : BepState}, (BepState.assignSequences files).run s = .error e s' →
      sequencesAfter (lastSequence s) < files.length ∧
        s' = { s with sequence := some Int64.maxValue } := by
  induction files with
  | nil =>
      intro s s' h
      cases h
  | cons file files ih =>
      intro s s' h
      have hrun := nextSequenceId_counter s
      rw [BepState.assignSequences, EStateM.run_bind] at h
      rw [List.length_cons]
      cases hnext : nextSequence s with
      | none =>
          rw [hnext] at hrun
          rw [hrun] at h
          obtain ⟨-, rfl⟩ := EStateM.Result.error.inj h
          refine ⟨?_, rfl⟩
          rw [nextSequence_eq_none hnext]
          omega
      | some m =>
          rw [hnext] at hrun
          rw [hrun] at h
          dsimp only at h
          rw [EStateM.run_bind] at h
          obtain ⟨-, hleft⟩ := nextSequence_eq_some hnext
          cases hrest : (BepState.assignSequences files).run { s with sequence := some m } with
          | ok numbered s₁ =>
              rw [hrest] at h
              cases h
          | error e' s₁ =>
              rw [hrest] at h
              obtain ⟨rfl, rfl⟩ := EStateM.Result.error.inj h
              obtain ⟨hless, rfl⟩ := ih hrest
              refine ⟨?_, rfl⟩
              rw [hleft]
              exact Nat.succ_lt_succ hless

/-- Numbers are given out as long as there are any left; what the counter has come to is not
below any row. -/
theorem assignSequences_numbering (files : List FileInfo) {s : BepState} :
    (∃ numbered n, (BepState.assignSequences files).run s =
        .ok numbered { s with sequence := n } ∧ Numbering s files n numbered) ∨
      ∃ e n, sequencesAfter (lastSequence s) < files.length ∧
        (BepState.assignSequences files).run s = .error e { s with sequence := n } ∧
        SequencesBelow s.db n := by
  cases hrun : (BepState.assignSequences files).run s with
  | ok numbered s' =>
      obtain ⟨n, rfl, hnumbering⟩ := numbering_of_assignSequences hrun
      exact Or.inl ⟨numbered, n, rfl, hnumbering⟩
  | error e s' =>
      obtain ⟨hless, rfl⟩ := assignSequences_eq_error hrun
      exact Or.inr ⟨e, some Int64.maxValue, hless, rfl, sequencesBelow_max s.db⟩

namespace Numbering

variable {files numbered : List FileInfo} {n : Option Int64}

/-- No row has one of the numbers. -/
theorem fresh (h : Numbering s files n numbered) (hbelow : SequencesBelow s.db s.sequence) :
    ∀ f ∈ numbered, ∀ k r, s.db.bepFileInfo.get k = some r → r.sequence ≠ f.sequence := by
  intro f hf k r hr heq
  obtain ⟨l, hl, hle⟩ := le_lastSequence hbelow hr
  have hlt := h.after f hf l hl
  rw [heq] at hle
  omega

/-- The counter is not below the rows that were there and those that have the numbers. -/
theorem below (h : Numbering s files n numbered) (hbelow : SequencesBelow s.db s.sequence)
    {tx : Database} (hrows : ∀ k r, tx.bepFileInfo.get k = some r →
      s.db.bepFileInfo.get k = some r ∨ ∃ f ∈ numbered, r.sequence = f.sequence) :
    SequencesBelow tx n := by
  intro m hm k r hr
  rcases hrows k r hr with hold | ⟨f, hf, heq⟩
  · rcases h.counter with ⟨-, hn⟩ | ⟨m', hm', hle, -⟩
    · exact hbelow m (hn.symm.trans hm) k r hold
    · rw [hm] at hm'
      obtain rfl := Option.some.inj hm'
      obtain ⟨l, hl, hrow⟩ := le_lastSequence hbelow hold
      exact hrow.trans (hle l hl)
  · obtain ⟨m', hm', hle⟩ := h.upTo f hf
    rw [hm] at hm'
    obtain rfl := Option.some.inj hm'
    rw [heq]
    exact hle

end Numbering

end Grizol.Analysis

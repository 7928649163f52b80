import Mathlib.Algebra.Order.BigOperators.Group.Finset
import Mathlib.Data.Fintype.Basic
import Grizol.Library.Transition

/-!
# Processes over a shared state

Processes with a local state each take turns on one shared state; `act` is what a turn
does, told the outcome of whatever it asks its surroundings. The order of the turns is
any one, so what holds after every run holds whatever the scheduler does. A measure
that every turn of a process decreases is used up after as many turns
(`measure_le_of_run`).
-/

set_option autoImplicit false

namespace Grizol.Library

/-- Processes `ι` with local states `ℓ` over a shared state `σ`. -/
structure Processes (ι ℓ σ : Type) where
  shared : σ
  process : ι → ℓ

/-- The turn of one process. -/
structure Turn (ι ε : Type) where
  process : ι
  outcome : ε

namespace Processes

open Transition

variable {ι ℓ σ ε : Type} [DecidableEq ι] (act : ε → ℓ → σ → ℓ × σ)

/-- One turn; it is always possible. -/
def step (s : Processes ι ℓ σ) (t : Turn ι ε) : Option (Processes ι ℓ σ) :=
  let (process, shared) := act t.outcome (s.process t.process) s.shared
  some { shared := shared, process := Function.update s.process t.process process }

variable {act}

/-- A step is always possible; only the process whose turn it is moves. -/
theorem step_eq_some {s s' : Processes ι ℓ σ} {t : Turn ι ε} :
    step act s t = some s' ↔
      s' = { shared := (act t.outcome (s.process t.process) s.shared).2
             process := Function.update s.process t.process
               (act t.outcome (s.process t.process) s.shared).1 } := by
  rw [step, Option.some.injEq, eq_comm]

/-- The process whose turn it is has acted. -/
theorem step_self {s s' : Processes ι ℓ σ} {t : Turn ι ε} (h : step act s t = some s') :
    (s'.process t.process, s'.shared) = act t.outcome (s.process t.process) s.shared := by
  rw [step_eq_some.mp h]
  simp

/-- The others have not. -/
theorem step_other {s s' : Processes ι ℓ σ} {t : Turn ι ε} (h : step act s t = some s') {i : ι}
    (hi : i ≠ t.process) : s'.process i = s.process i := by
  rw [step_eq_some.mp h]
  exact Function.update_of_ne hi _ _

/-- The number of turns of a process. -/
def turns (i : ι) (ts : List (Turn ι ε)) : ℕ := ts.countP fun t => t.process = i

/-- One more turn counts for its process. -/
theorem turns_concat (i : ι) (ts : List (Turn ι ε)) (t : Turn ι ε) :
    turns i (ts ++ [t]) = turns i ts + if t.process = i then 1 else 0 := by
  simp [turns, List.countP_append, List.countP_singleton]

/-- **Every turn of a process brings it closer to its end.** The measure may lean on an
invariant and on a condition that the turns of the run meet. -/
theorem measure_le_of_run (measure : ℓ → ℕ) {Inv : Processes ι ℓ σ → Prop}
    {cond : Processes ι ℓ σ → Turn ι ε → Prop} {s₀ s : Processes ι ℓ σ}
    {ts : List (Turn ι ε)} (h₀ : Inv s₀)
    (hstep : ∀ s t s', Inv s → cond s t → step act s t = some s' → Inv s')
    (hmeasure : ∀ s t s', Inv s → cond s t → step act s t = some s' →
      measure (s'.process t.process) ≤ measure (s.process t.process) - 1)
    (hmeets : Meets (step act) cond s₀ ts) (h : run (step act) s₀ ts = some s) (i : ι) :
    measure (s.process i) ≤ measure (s₀.process i) - turns i ts := by
  revert hmeets
  refine run_induction (motive := fun ts s => Meets (step act) cond s₀ ts →
    measure (s.process i) ≤ measure (s₀.process i) - turns i ts) (fun _ => Nat.le_refl _) ?_ h
  intro ts s t s' hts ih ht hmeets
  obtain ⟨hfirst, hlast⟩ := meets_append.mp hmeets
  have hinv : Inv s := invariant_run_of_meets Inv h₀ hstep hfirst hts
  have hbefore := ih hfirst
  rw [turns_concat]
  by_cases hi : t.process = i
  · subst hi
    have hless := hmeasure s t s' hinv (hlast s hts).1 ht
    rw [if_pos rfl]
    omega
  · rw [if_neg hi, Nat.add_zero, step_other ht (Ne.symm hi)]
    exact hbefore

omit [DecidableEq ι] in
/-- What one process adds to a sum. -/
theorem le_sum [Fintype ι] (s : Processes ι ℓ σ) (f : ℓ → ℕ) (i : ι) :
    f (s.process i) ≤ ∑ j, f (s.process j) :=
  Finset.single_le_sum_of_canonicallyOrdered (f := fun j => f (s.process j)) (Finset.mem_univ i)

/-- A sum over the processes changes by what one of them changes. -/
theorem sum_update [Fintype ι] (p : ι → ℓ) (i : ι) (a : ℓ) (f : ℓ → ℕ) :
    (∑ j, f (Function.update p i a j)) + f (p i) = (∑ j, f (p j)) + f a := by
  have hrest : ∑ j ∈ Finset.univ.erase i, f (Function.update p i a j) =
      ∑ j ∈ Finset.univ.erase i, f (p j) := by
    apply Finset.sum_congr rfl
    intro j hj
    rw [Function.update_of_ne (Finset.ne_of_mem_erase hj)]
  rw [← Finset.add_sum_erase _ _ (Finset.mem_univ i), Function.update_self, hrest,
    ← Finset.add_sum_erase (a := i) _ (fun j => f (p j)) (Finset.mem_univ i)]
  omega

/-- A sum over all processes changes by what the one that moves changes. -/
theorem sum_step [Fintype ι] {s s' : Processes ι ℓ σ} {t : Turn ι ε}
    (h : step act s t = some s') (f : ℓ → ℕ) :
    (∑ i, f (s'.process i)) + f (s.process t.process) =
      (∑ i, f (s.process i)) + f (s'.process t.process) := by
  obtain rfl := step_eq_some.mp h
  dsimp only
  rw [Function.update_self]
  exact sum_update s.process t.process _ f

end Processes

end Grizol.Library

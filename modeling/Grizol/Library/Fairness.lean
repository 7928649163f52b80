import Mathlib.Order.Filter.AtTopBot.Basic
import Mathlib.Order.WellFounded
import Grizol.Library.Transition

/-!
# Runs without end

What a system does infinitely often, and what it does from some step on. An action is a
set of events; a run is fair to it if it is taken again and again when it is possible again and
again, and weakly fair if that is so when it is possible all the time. An action that lowers a
measure is taken finitely often; a run that is fair to it comes to a point after which it is
not possible any more, and one that is weakly fair to it always comes to one where it is not.
-/

set_option autoImplicit false

namespace Grizol.Library.Fairness

open Filter

variable {σ ε : Type} (step : σ → ε → Option σ)

/-- A run that never ends. -/
def Runs (s : ℕ → σ) (e : ℕ → ε) : Prop := ∀ n, step (s n) (e n) = some (s (n + 1))

/-- One of the events of the action is possible. -/
def Enabled (action : Set ε) (s : σ) : Prop := ∃ e ∈ action, (step s e).isSome = true

/-- An action that is possible again and again is taken again and again. -/
def FairTo (action : Set ε) (s : ℕ → σ) (e : ℕ → ε) : Prop :=
  (∃ᶠ n in atTop, Enabled step action (s n)) → ∃ᶠ n in atTop, e n ∈ action

/-- An action that is possible from some step on is taken again and again. -/
def WeaklyFairTo (action : Set ε) (s : ℕ → σ) (e : ℕ → ε) : Prop :=
  (∀ᶠ n in atTop, Enabled step action (s n)) → ∃ᶠ n in atTop, e n ∈ action

variable {step} {s : ℕ → σ} {e : ℕ → ε}

/-- Every state of it is reached. -/
theorem Runs.reaches (h : Runs step s e) (n : ℕ) :
    Transition.run step (s 0) ((List.range n).map e) = some (s n) := by
  induction n with
  | zero => rfl
  | succ n ih =>
      rw [List.range_succ, List.map_append, List.map_singleton]
      exact Transition.run_concat.mpr ⟨s n, ih, h n⟩

/-- A run that ends where one without end begins goes on as that one. -/
theorem Runs.after {es : List ε} {s₀ s₁ : σ} (h : Transition.run step s₀ es = some s₁)
    (hs : Runs step s e) (hstart : s 0 = s₁) :
    ∃ (t : ℕ → σ) (f : ℕ → ε), Runs step t f ∧
      (∀ n ≤ es.length, Transition.run step s₀ (es.take n) = some (t n)) ∧
      ∀ n, t (es.length + n) = s n := by
  induction es generalizing s₀ with
  | nil =>
      obtain rfl : s₀ = s₁ := by simpa using h
      refine ⟨s, e, hs, fun n hn => ?_, fun n => by rw [List.length_nil, Nat.zero_add]⟩
      rw [Nat.le_zero.mp hn, hstart]
      rfl
  | cons e₁ es ih =>
      obtain ⟨s₂, he, hrest⟩ := Option.bind_eq_some_iff.mp h
      obtain ⟨t, f, hruns, htake, hafter⟩ := ih hrest
      have hfirst : s₂ = t 0 := Option.some.inj (htake 0 (Nat.zero_le _))
      refine ⟨fun n => n.casesOn s₀ t, fun n => n.casesOn e₁ f, fun n => ?_, fun n hn => ?_,
        fun n => ?_⟩
      · cases n with
        | zero => exact he.trans (congrArg some hfirst)
        | succ n => exact hruns n
      · cases n with
        | zero => rfl
        | succ n =>
            rw [List.take_succ_cons, Transition.run_cons, he]
            exact htake n (Nat.le_of_succ_le_succ hn)
      · rw [List.length_cons, Nat.succ_add]
        exact hafter n

/-- An action that lowers a measure, which nothing raises, is not taken from some step on. -/
theorem eventually_notMem_of_measure {α : Type} [Preorder α] [WellFoundedLT α] {action : Set ε}
    (measure : ℕ → α) (start : ℕ) (hle : ∀ n, start ≤ n → measure (n + 1) ≤ measure n)
    (hlt : ∀ n, start ≤ n → e n ∈ action → measure (n + 1) < measure n) :
    ∀ᶠ n in atTop, e n ∉ action := by
  obtain ⟨least, ⟨m, hm, rfl⟩, hleast⟩ := wellFounded_lt.has_min
    (measure '' Set.Ici start) ⟨_, Set.mem_image_of_mem _ Set.self_mem_Ici⟩
  have hbelow : ∀ n, m ≤ n → measure n ≤ measure m := by
    intro n hn
    induction n, hn using Nat.le_induction with
    | base => exact le_rfl
    | succ n hn ih => exact (hle n (le_trans hm hn)).trans ih
  filter_upwards [eventually_ge_atTop m] with n hn hmem
  have hafter : start ≤ n := le_trans hm hn
  refine hleast _ ⟨n + 1, le_trans hafter n.le_succ, rfl⟩ ?_
  exact (hlt n hafter hmem).trans_le (hbelow n hn)

/-- Nothing is asked of a run where the action is possible finitely often. -/
theorem FairTo.of_eventually {action : Set ε}
    (h : ∀ᶠ n in atTop, ¬ Enabled step action (s n)) : FairTo step action s e :=
  fun henabled => absurd h (not_eventually.mpr (henabled.mono fun _ => not_not_intro))

/-- What is strongly fair is weakly fair. -/
theorem FairTo.weakly {action : Set ε} (h : FairTo step action s e) :
    WeaklyFairTo step action s e :=
  fun henabled => h henabled.frequently

/-- What is fair to an action that is taken finitely often makes it impossible. -/
theorem FairTo.eventually_not_enabled {action : Set ε} (h : FairTo step action s e)
    (hnever : ∀ᶠ n in atTop, e n ∉ action) : ∀ᶠ n in atTop, ¬ Enabled step action (s n) := by
  rw [← not_frequently]
  exact fun henabled => h henabled hnever

end Grizol.Library.Fairness

import Mathlib.Data.List.Basic
import Mathlib.Data.List.Perm.Basic

/-!
# Reading a list in pages

A reader asks for one page after the other, each from the position where the page before
ended. The list may come in another order for each page. Whatever the sizes of the pages,
everything is collected once if and only if the page that is read as the `k`-th, counted
from zero, finds the order of the first from position `k` on (`pages_perm_iff`).
-/

set_option autoImplicit false

namespace Grizol.Library

/-- Lists that are permutations of each other from every position on are equal. -/
theorem eq_of_drop_perm {α : Type} (a : List α) : ∀ {b : List α},
    (∀ n, (a.drop n).Perm (b.drop n)) → a = b := by
  induction a with
  | nil => exact fun h => (h 0).nil_eq
  | cons x xs ih =>
      intro b h
      cases b with
      | nil => exact (h 0).eq_nil
      | cons y ys =>
          have htail : xs = ys := ih fun n => h (n + 1)
          have hall : ([x] ++ xs).Perm ([y] ++ xs) := by
            rw [htail]
            exact htail ▸ h 0
          rw [List.perm_append_right_iff, List.singleton_perm_singleton] at hall
          rw [hall, htail]

/-- What is collected from the `k`-th page on, which begins at position `pos`. -/
inductive Pages {α : Type} (order : ℕ → List α) : ℕ → ℕ → List α → Prop
  | done {k pos : ℕ} : (order k).length ≤ pos → Pages order k pos []
  | page {k pos size : ℕ} {rest : List α} : 0 < size → pos + size ≤ (order k).length →
      Pages order (k + 1) (pos + size) rest →
        Pages order k pos (((order k).drop pos).take size ++ rest)

namespace Pages

variable {α : Type} {order : ℕ → List α}

/-- When every page finds the order of the first from its number on, the rest of the list is
collected. -/
theorem eq_drop (hsame : ∀ k, (order k).drop k = (order 0).drop k) {k pos : ℕ} {collected : List α}
    (h : Pages order k pos collected) : k ≤ pos → collected = (order 0).drop pos := by
  have hdrop : ∀ {k pos}, k ≤ pos → (order k).drop pos = (order 0).drop pos := by
    intro k pos hle
    have hfrom := congrArg (List.drop (pos - k)) (hsame k)
    rwa [List.drop_drop, List.drop_drop, Nat.add_sub_cancel' hle] at hfrom
  induction h with
  | done hend =>
      intro hle
      rw [← hdrop hle, List.drop_eq_nil_of_le hend]
  | @page k pos size rest hsize _ _ ih =>
      intro hle
      rw [ih (by omega), hdrop hle, ← List.drop_drop, List.take_append_drop]

/-- A page that finds the order of the first is reached from the first by pages of one element
and a last one. -/
theorem from_first (k : ℕ) : ∀ {pos : ℕ} {collected : List α},
    (∀ j, j < k → (order j).drop j = (order 0).drop j) →
      (∀ j, (order j).length = (order 0).length) → (k = 0 → pos = 0) → k ≤ pos →
        pos ≤ (order 0).length → Pages order k pos collected →
          Pages order 0 0 ((order 0).take pos ++ collected) := by
  induction k with
  | zero =>
      intro pos collected _ _ hzero _ _ h
      obtain rfl := hzero rfl
      exact h
  | succ k ih =>
      intro pos collected hbefore hlength _ hle hend h
      have hpage : Pages order k k (((order k).drop k).take (pos - k) ++ collected) := by
        have hsum : k + (pos - k) = pos := Nat.add_sub_cancel' (by omega)
        refine .page (by omega) ?_ ?_
        · rw [hsum, hlength]
          exact hend
        · rw [hsum]
          exact h
      have hfirst := ih (fun j hj => hbefore j (by omega)) hlength (fun hzero => hzero) (Nat.le_refl k)
        (by omega) hpage
      rw [hbefore k (Nat.lt_succ_self k), ← List.append_assoc] at hfirst
      have hjoin : (order 0).take pos = (order 0).take k ++ ((order 0).drop k).take (pos - k) := by
        rw [← List.take_add, Nat.add_sub_cancel' (by omega)]
      rwa [hjoin]

end Pages

/-- **When everything is collected once, whatever the sizes of the pages.** -/
theorem pages_perm_iff {α : Type} {order : ℕ → List α}
    (hlength : ∀ k, (order k).length = (order 0).length) :
    (∀ collected, Pages order 0 0 collected → collected.Perm (order 0)) ↔
      ∀ k, (order k).drop k = (order 0).drop k := by
  constructor
  · intro h k
    induction k using Nat.strongRecOn with
    | ind k ih =>
        by_cases hzero : k = 0
        · rw [hzero]
        refine eq_of_drop_perm _ fun n => ?_
        rw [List.drop_drop, List.drop_drop]
        have hsize := hlength k
        have hnext := hlength (k + 1)
        by_cases hend : (order 0).length ≤ k + n
        · rw [List.drop_eq_nil_of_le (by omega), List.drop_eq_nil_of_le hend]
        -- the pages before end at this position, and this one takes all that is left
        have hlast : Pages order k (k + n) ((order k).drop (k + n)) := by
          have hpage := @Pages.page α order k (k + n) ((order 0).length - (k + n)) []
            (by omega) (by omega) (.done (by omega))
          rwa [List.append_nil, List.take_of_length_le (by rw [List.length_drop]; omega)] at hpage
        have hall := h _ (hlast.from_first k ih hlength (fun hk => absurd hk hzero) (by omega)
          (by omega))
        have hparts : ((order 0).take (k + n) ++ (order k).drop (k + n)).Perm
            ((order 0).take (k + n) ++ (order 0).drop (k + n)) := by
          rw [List.take_append_drop]
          exact hall
        exact (List.perm_append_left_iff _).mp hparts
  · intro hsame collected hpages
    have hall := hpages.eq_drop hsame (Nat.le_refl _)
    rw [hall, List.drop_zero]

end Grizol.Library

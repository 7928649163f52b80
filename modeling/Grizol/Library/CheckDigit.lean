import Mathlib.Algebra.Group.Basic
import Mathlib.Data.List.Basic

/-!
# Weighted check sums

The check sum of a text adds up its symbols in a group, each with the weight of its position.
A text with another symbol at a position has another sum where the weight tells the two
apart (`checkSum_set_ne`), and so has one with two neighbours exchanged where their weights do
not come out the same either way (`checkSum_exchange_ne`).
-/

set_option autoImplicit false

namespace Grizol.Library

variable {α G : Type} [AddCommGroup G]

/-- The sum of a text that begins at position `i`. -/
def checkSum (weight : ℕ → α → G) : ℕ → List α → G
  | _, [] => 0
  | i, x :: xs => weight i x + checkSum weight (i + 1) xs

variable {weight : ℕ → α → G} {x y : α}

/-- The sum over two parts, the second weighted from where the first ends. -/
theorem checkSum_append (xs ys : List α) : ∀ i,
    checkSum weight i (xs ++ ys) = checkSum weight i xs + checkSum weight (i + xs.length) ys := by
  induction xs with
  | nil =>
      intro i
      rw [List.nil_append, checkSum, zero_add, List.length_nil, Nat.add_zero]
  | cons x xs ih =>
      intro i
      have hposition : i + 1 + xs.length = i + (x :: xs).length := by
        rw [List.length_cons]
        omega
      rw [List.cons_append, checkSum, checkSum, ih, hposition]
      exact (add_assoc _ _ _).symm

/-- One symbol is replaced: its weight goes, and that of the new one comes. -/
theorem checkSum_set (y : α) (xs : List α) : ∀ {n : ℕ} (i : ℕ), xs[n]? = some x →
    checkSum weight i (xs.set n y) + weight (i + n) x =
      checkSum weight i xs + weight (i + n) y := by
  induction xs with
  | nil =>
      intro n i hx
      cases hx
  | cons z xs ih =>
      intro n i hx
      cases n with
      | zero =>
          obtain rfl : z = x := Option.some.inj hx
          rw [List.set_cons_zero, checkSum, checkSum, Nat.add_zero, add_right_comm,
            add_comm (weight i y)]
          exact add_right_comm _ _ _
      | succ n =>
          have hrest := ih (i + 1) hx
          rw [Nat.add_right_comm i 1 n, Nat.add_assoc i n 1] at hrest
          rw [List.set_cons_succ, checkSum, checkSum, add_assoc, hrest, add_assoc]

/-- **A replaced symbol shows**, where the weight tells the two apart. -/
theorem checkSum_set_ne {xs : List α} {n i : ℕ} (hx : xs[n]? = some x)
    (hne : weight (i + n) y ≠ weight (i + n) x) :
    checkSum weight i (xs.set n y) ≠ checkSum weight i xs := by
  intro heq
  have hset : checkSum weight i (xs.set n y) + weight (i + n) x = _ := checkSum_set y xs i hx
  rw [heq] at hset
  exact hne (add_left_cancel hset).symm

/-- **Exchanged neighbours show**, where their weights do not come out the same either way. -/
theorem checkSum_exchange_ne {xs : List α} {n i : ℕ} (hx : xs[n]? = some x)
    (hy : xs[n + 1]? = some y)
    (hne : weight (i + n) x + weight (i + (n + 1)) y ≠
      weight (i + n) y + weight (i + (n + 1)) x) :
    checkSum weight i ((xs.set n y).set (n + 1) x) ≠ checkSum weight i xs := by
  intro heq
  have hy' : (xs.set n y)[n + 1]? = some y := by
    rw [List.getElem?_set_ne (Nat.ne_of_lt (Nat.lt_succ_self n)), hy]
  have hfirst : checkSum weight i (xs.set n y) + weight (i + n) x = _ := checkSum_set y xs i hx
  have hsecond : checkSum weight i ((xs.set n y).set (n + 1) x) + weight (i + (n + 1)) y = _ :=
    checkSum_set x (xs.set n y) i hy'
  rw [heq] at hsecond
  refine hne (@add_left_cancel _ _ _ (checkSum weight i xs) _ _ ?_)
  calc checkSum weight i xs + (weight (i + n) x + weight (i + (n + 1)) y)
      = checkSum weight i xs + weight (i + (n + 1)) y + weight (i + n) x := by
        rw [add_comm (weight (i + n) x), add_assoc]
    _ = checkSum weight i (xs.set n y) + weight (i + (n + 1)) x + weight (i + n) x := by
        rw [hsecond]
    _ = checkSum weight i (xs.set n y) + weight (i + n) x + weight (i + (n + 1)) x := by
        rw [add_right_comm]
    _ = checkSum weight i xs + (weight (i + n) y + weight (i + (n + 1)) x) := by
        rw [hfirst, add_assoc]

end Grizol.Library

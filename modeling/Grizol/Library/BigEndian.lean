import Mathlib.Data.List.Induction
import Mathlib.Data.Nat.ModEq
import Mathlib.Tactic.Ring

/-!
# Big-endian integers in byte strings

`toBe k n` is `n.to_be_bytes()` for an integer of `k` bytes and `ofBe` is
`from_be_bytes`, read through the natural number the bytes spell.
-/

set_option autoImplicit false

namespace Grizol.Library

/-- The low `k` bytes of `n`, most significant first. -/
def toBe : ℕ → ℕ → List UInt8
  | 0, _ => []
  | k + 1, n => toBe k (n / 256) ++ [UInt8.ofNat (n % 256)]

/-- The number that big-endian bytes spell. -/
def ofBe (bytes : List UInt8) : ℕ :=
  bytes.foldl (fun acc b => acc * 256 + b.toNat) 0

/-- A number has as many bytes as asked for. -/
@[simp] theorem toBe_length (k n : ℕ) : (toBe k n).length = k := by
  induction k generalizing n with
  | zero => rfl
  | succ k ih => simp [toBe, ih]

/-- No bytes are zero. -/
@[simp] theorem ofBe_nil : ofBe [] = 0 := rfl

/-- The last byte is the least significant one. -/
theorem ofBe_append_singleton (bytes : List UInt8) (b : UInt8) :
    ofBe (bytes ++ [b]) = ofBe bytes * 256 + b.toNat := by
  simp [ofBe, List.foldl_append]

/-- Reading back what was written gives the number modulo the width. -/
theorem ofBe_toBe (k n : ℕ) : ofBe (toBe k n) = n % 256 ^ k := by
  induction k generalizing n with
  | zero => simp [toBe, Nat.mod_one]
  | succ k ih =>
      have hbyte : (UInt8.ofNat (n % 256)).toNat = n % 256 := by simp
      rw [toBe, ofBe_append_singleton, ih, hbyte, pow_succ, mul_comm (256 ^ k) 256, Nat.mod_mul]
      ring

/-- A number that fits the width is read back unchanged. -/
theorem ofBe_toBe_of_lt {k n : ℕ} (h : n < 256 ^ k) : ofBe (toBe k n) = n := by
  rw [ofBe_toBe, Nat.mod_eq_of_lt h]

end Grizol.Library

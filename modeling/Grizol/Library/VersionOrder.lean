import Mathlib.Order.Lattice

/-!
# Vectors compared by their greatest entries

Version vectors are functions from ids to values, and the one with the pointwise greater
values is the newer. `byGreatest` looks at one greatest entry of each instead. It can
only be right where that order follows the greatest entries (`orders_byGreatest_iff`).
-/

set_option autoImplicit false

namespace Grizol.Library.VersionOrder

variable {ι ν : Type} [LinearOrder ν]

/-- No entry is greater than that of `i`. -/
def Greatest (f : ι → ν) (i : ι) : Prop := ∀ j, f j ≤ f i

/-- The answer is that of the pointwise order; `none` stands for two vectors neither of
which is above the other. -/
structure Orders (f g : ι → ν) (answer : Option Ordering) : Prop where
  less : answer = some .lt ↔ f < g
  greater : answer = some .gt ↔ g < f
  equal : answer = some .eq ↔ f = g
  neither : answer = none ↔ ¬ f ≤ g ∧ ¬ g ≤ f

/-- The comparison of the entry `x` of `i` with the entry `y` of `j`. -/
def byGreatest [DecidableEq ι] (i : ι) (x : ν) (j : ι) (y : ν) : Option Ordering :=
  if x < y then some .lt
  else if y < x then some .gt
  else if i = j then some .eq
  else none

variable {f g : ι → ν} {i j : ι}

/-- A vector that is below another has no greater entry. -/
theorem Greatest.le_of_le (hj : Greatest g j) (h : f ≤ g) : f i ≤ g j :=
  (h i).trans (hj i)

/-- There are four answers, and one of them is right. -/
theorem orders_cases (f g : ι → ν) :
    f < g ∨ g < f ∨ f = g ∨ ¬ f ≤ g ∧ ¬ g ≤ f := by
  by_cases hfg : f ≤ g
  · by_cases hgf : g ≤ f
    · exact Or.inr (Or.inr (Or.inl (le_antisymm hfg hgf)))
    · exact Or.inl (lt_of_le_not_ge hfg hgf)
  · by_cases hgf : g ≤ f
    · exact Or.inr (Or.inl (lt_of_le_not_ge hgf hfg))
    · exact Or.inr (Or.inr (Or.inr ⟨hfg, hgf⟩))

/-- The smaller function comes first. -/
theorem Orders.of_lt (h : f < g) : Orders f g (some .lt) := by
  refine ⟨by simp [h], ?_, ?_, ?_⟩
  · simp [h.not_gt]
  · simp [h.ne]
  · simp [h.le]

/-- The greater function comes last. -/
theorem Orders.of_gt (h : g < f) : Orders f g (some .gt) := by
  refine ⟨?_, by simp [h], ?_, ?_⟩
  · simp [h.not_gt]
  · simp [h.ne']
  · simp [h.le]

/-- Equal functions are equal. -/
theorem Orders.of_eq (h : f = g) : Orders f g (some .eq) := by
  subst h
  refine ⟨?_, ?_, by simp, ?_⟩ <;> simp

/-- Functions that are not comparable have no order. -/
theorem Orders.of_neither (hfg : ¬ f ≤ g) (hgf : ¬ g ≤ f) : Orders f g none := by
  refine ⟨?_, ?_, ?_, by simp [hfg, hgf]⟩
  · simpa using fun h : f < g => hfg h.le
  · simpa using fun h : g < f => hgf h.le
  · simpa using fun h : f = g => hfg h.le

/-- **When the greatest entries decide.** The answer they give is that of the pointwise
order if and only if equal vectors have the same greatest entry, a vector that is below
the other has another greatest value, and two vectors neither of which is below the other
have the same greatest value, at different ids. -/
theorem orders_byGreatest_iff [DecidableEq ι] (hi : Greatest f i) (hj : Greatest g j) :
    Orders f g (byGreatest i (f i) j (g j)) ↔
      (f = g → i = j) ∧ (f < g ∨ g < f → f i ≠ g j) ∧
        (¬ f ≤ g → ¬ g ≤ f → f i = g j ∧ i ≠ j) := by
  unfold byGreatest
  constructor
  · intro h
    split_ifs at h with hlt hgt hid
    · have hless := h.less.mp rfl
      exact ⟨fun heq => absurd heq hless.ne, fun _ => hlt.ne, fun hfg => absurd hless.le hfg⟩
    · have hless := h.greater.mp rfl
      exact ⟨fun heq => absurd heq.symm hless.ne, fun _ => hgt.ne',
        fun _ hgf => absurd hless.le hgf⟩
    · have heq := h.equal.mp rfl
      refine ⟨fun _ => hid, ?_, fun hfg => absurd heq.le hfg⟩
      rintro (hless | hless)
      · exact absurd heq hless.ne
      · exact absurd heq.symm hless.ne
    · obtain ⟨hfg, hgf⟩ := h.neither.mp rfl
      refine ⟨fun heq => absurd heq.le hfg, ?_, ?_⟩
      · rintro (hless | hless)
        · exact absurd hless.le hfg
        · exact absurd hless.le hgf
      · exact fun _ _ => ⟨le_antisymm (not_lt.mp hgt) (not_lt.mp hlt), hid⟩
  · rintro ⟨hsame, hbelow, hapart⟩
    rcases orders_cases f g with hless | hless | heq | ⟨hfg, hgf⟩
    · have hlt : f i < g j := lt_of_le_of_ne (hj.le_of_le hless.le) (hbelow (Or.inl hless))
      rw [if_pos hlt]
      exact .of_lt hless
    · have hgt : g j < f i :=
        lt_of_le_of_ne (hi.le_of_le hless.le) (hbelow (Or.inr hless)).symm
      rw [if_neg hgt.not_gt, if_pos hgt]
      exact .of_gt hless
    · obtain rfl := hsame heq
      rw [heq, if_neg (lt_irrefl _), if_neg (lt_irrefl _), if_pos rfl]
      exact .of_eq rfl
    · obtain ⟨htop, hid⟩ := hapart hfg hgf
      rw [htop, if_neg (lt_irrefl _), if_neg (lt_irrefl _), if_neg hid]
      exact .of_neither hfg hgf

end Grizol.Library.VersionOrder

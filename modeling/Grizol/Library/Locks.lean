import Mathlib.Logic.Function.Basic

/-!
# Locks and their holders

A table of locks says who holds each of them; every party holds one lock at most. A party that
moves gives back the lock it held and takes the one it holds then, which must have been its
own or free. So the table keeps naming the holders, and a lock is handed on through a state
in which it is free.
-/

set_option autoImplicit false

namespace Grizol.Library.Locks

variable {L I : Type}

/-- The table names exactly the holders. -/
def Names (locks : L → Option I) (held : I → Option L) : Prop :=
  ∀ l i, locks l = some i ↔ held i = some l

/-- **No two parties hold one lock.** -/
theorem Names.unique {locks : L → Option I} {held : I → Option L} (h : Names locks held) {i j : I}
    {l : L} (hi : held i = some l) (hj : held j = some l) : i = j :=
  Option.some.inj (((h l i).mpr hi).symm.trans ((h l j).mpr hj))

variable [DecidableEq L]

/-- The table after a move of a party, from one lock to another. -/
def handOver (locks : L → Option I) (i : I) (before after : Option L) : L → Option I :=
  let released :=
    match before with
    | some l => Function.update locks l none
    | none => locks
  match after with
  | some l => Function.update released l (some i)
  | none => released

variable {locks : L → Option I} {held held' : I → Option L} {i j : I} {l : L}

/-- A lock that was held and is not any more is free. -/
theorem handOver_before {after : Option L} (hafter : after ≠ some l) :
    handOver locks i (some l) after l = none := by
  unfold handOver
  cases after with
  | none => exact Function.update_self _ _ _
  | some l' =>
      have hne : l ≠ l' := fun heq => hafter (congrArg some heq.symm)
      exact (Function.update_of_ne hne _ _).trans (Function.update_self _ _ _)

/-- A lock that is held from now on is taken. -/
theorem handOver_after (before : Option L) : handOver locks i before (some l) l = some i :=
  Function.update_self _ _ _

/-- The other locks stay as they are. -/
theorem handOver_other {before after : Option L} (hbefore : before ≠ some l)
    (hafter : after ≠ some l) : handOver locks i before after l = locks l := by
  have hreleased : (match before with
      | some l => Function.update locks l none
      | none => locks) l = locks l := by
    cases before with
    | none => rfl
    | some l' => exact Function.update_of_ne (fun heq => hbefore (congrArg some heq.symm)) _ _
  unfold handOver
  cases after with
  | none => exact hreleased
  | some l' =>
      exact (Function.update_of_ne (fun heq => hafter (congrArg some heq.symm)) _ _).trans hreleased

/-- **The table keeps naming the holders**, if a party takes a lock only that is its own or
free. -/
theorem Names.handOver (h : Names locks held)
    (htakes : ∀ l, held' i = some l → held i = some l ∨ locks l = none)
    (hothers : ∀ j, j ≠ i → held' j = held j) :
    Names (handOver locks i (held i) (held' i)) held' := by
  intro l j
  by_cases hafter : held' i = some l
  · rw [hafter, handOver_after]
    constructor
    · rintro ⟨⟩
      exact hafter
    · intro hj
      by_contra hne
      have hji : j ≠ i := fun heq => hne (congrArg some heq.symm)
      rw [hothers j hji] at hj
      -- the lock was not free, so it was the party's own
      have hlocks := (h l j).mpr hj
      rcases htakes l hafter with hown | hfree
      · exact hji (h.unique hj hown)
      · rw [hfree] at hlocks
        cases hlocks
  · by_cases hbefore : held i = some l
    · rw [hbefore, handOver_before hafter]
      constructor
      · rintro ⟨⟩
      · intro hj
        have hji : j ≠ i := by
          rintro rfl
          exact hafter hj
        exact absurd (h.unique (hothers j hji ▸ hj) hbefore) hji
    · rw [handOver_other hbefore hafter]
      by_cases hji : j = i
      · subst hji
        exact ⟨fun hl => absurd ((h l j).mp hl) hbefore, fun hj => absurd hj hafter⟩
      · rw [hothers j hji]
        exact h l j

/-- A lock that is not free after a move is still with its holder. -/
theorem Names.stays (h : Names locks held) {after : Option L}
    (htakes : ∀ l, after = some l → held i = some l ∨ locks l = none) (hl : locks l = some j)
    (hheld : Locks.handOver locks i (held i) after l ≠ none) :
    Locks.handOver locks i (held i) after l = some j := by
  by_cases hafter : after = some l
  · rw [hafter, handOver_after]
    rcases htakes l hafter with hown | hfree
    · exact congrArg some (h.unique hown ((h l j).mp hl))
    · rw [hfree] at hl
      cases hl
  · by_cases hbefore : held i = some l
    · rw [hbefore] at hheld
      exact absurd (handOver_before hafter) hheld
    · rw [handOver_other hbefore hafter, hl]

end Grizol.Library.Locks

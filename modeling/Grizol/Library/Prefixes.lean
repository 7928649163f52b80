import Mathlib.Data.List.Infix
import Mathlib.Data.Set.Insert

/-!
# Sets of paths that hold what is above each

A path is a list, and above it are its prefixes. A set is `Closed` up to some given
paths when it holds, but for those, all that is above its members. Adding paths that
come with what is above them keeps a set closed, and so does moving a path with
nothing below it to a place that has all above it.
-/

set_option autoImplicit false

namespace Grizol.Library.Prefixes

variable {α : Type}

/-- What is above a path of the set is in the set, or given. -/
def Closed (given S : Set (List α)) : Prop := ∀ p ∈ S, ∀ q, q <+: p → q ∈ S ∪ given

/-- No other path of the set is below this one. -/
def Leaf (S : Set (List α)) (a : List α) : Prop := ∀ p ∈ S, a <+: p → p = a

variable {given S T : Set (List α)} {a b : List α}

/-- More may be given. -/
theorem Closed.mono {given' : Set (List α)} (h : Closed given S) (hsub : given ⊆ given') :
    Closed given' S :=
  fun p hp q hq => (h p hp q hq).imp_right fun hgiven => hsub hgiven

/-- Paths are added with what is above them. -/
theorem Closed.union (h : Closed given S)
    (hT : ∀ p ∈ T, ∀ q, q <+: p → q ∈ S ∪ T ∪ given) : Closed given (S ∪ T) := by
  rintro p (hp | hp) q hq
  · rcases h p hp q hq with hS | hgiven
    · exact Or.inl (Or.inl hS)
    · exact Or.inr hgiven
  · exact hT p hp q hq

/-- A path with nothing below it is taken away. -/
theorem Closed.erase (h : Closed given S) (ha : Leaf S a) : Closed given (S \ {a}) := by
  rintro p ⟨hp, hne⟩ q hq
  rcases h p hp q hq with hS | hgiven
  · refine Or.inl ⟨hS, ?_⟩
    rintro rfl
    exact hne (ha p hp hq)
  · exact Or.inr hgiven

/-- It goes to another place, which may have been waited for. -/
theorem Closed.move (h : Closed (insert b given) S) (ha : Leaf S a)
    (hb : ∀ q, q <+: b → q ≠ b → q ∈ S \ {a} ∪ given) : Closed given (insert b (S \ {a})) := by
  rintro p (rfl | hp) q hq
  · by_cases hqp : q = p
    · exact Or.inl (Or.inl hqp)
    · rcases hb q hq hqp with hS | hgiven
      · exact Or.inl (Or.inr hS)
      · exact Or.inr hgiven
  · rcases h.erase ha p hp q hq with hS | rfl | hgiven
    · exact Or.inl (Or.inr hS)
    · exact Or.inl (Or.inl rfl)
    · exact Or.inr hgiven

/-- What no path of the set waits for need not be given. -/
theorem Closed.drop {awaited : Set (List α)} (h : Closed (awaited ∪ given) S)
    (hdrop : ∀ p ∈ S, ∀ q ∈ awaited, q <+: p → q ∈ S ∪ given) : Closed given S := by
  intro p hp q hq
  rcases h p hp q hq with hS | hawaited | hgiven
  · exact Or.inl hS
  · exact hdrop p hp q hawaited hq
  · exact Or.inr hgiven

end Grizol.Library.Prefixes

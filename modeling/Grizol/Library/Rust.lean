import Mathlib.Algebra.Ring.Nat
import Mathlib.Data.List.Basic

/-!
# Rust computations

A computation that may panic returns a value or the `Fault` that stopped it.
`Rust` is the pure case; `RustM` threads a state that survives the panic, as the
state behind an asynchronous lock does: the task dies, the fields already written
stay written.

The primitives below are the partial operations of the language (`unwrap`,
indexing, slicing, checked arithmetic, `assert!`), each with the lemma that says
when it returns. Arithmetic that overflows panics, as in a build that checks for it;
a release build without the checks wraps around instead. Sequence numbers at the end of
`i64` and more than `i32` has ids for are where this is seen.
-/

set_option autoImplicit false

namespace Grizol.Library

/-- Why a computation did not return a value. `divergence` stands for a loop that
has not ended when its bound is used up. -/
inductive Fault where
  | unwrap
  | expect (message : String)
  | index
  | overflow
  | divideByZero
  | assertion
  | explicit (message : String)
  | divergence
  deriving DecidableEq, Repr

/-- A pure computation that may panic. -/
abbrev Rust (α : Type) := Except Fault α

/-- A computation on a state `σ` that may panic and keeps the state it reached. -/
abbrev RustM (σ α : Type) := EStateM Fault σ α

namespace Rust

/-- What returned a value goes on with it. -/
@[simp] theorem ok_bind {α β : Type} (a : α) (f : α → Rust β) :
    (Except.ok a : Rust α) >>= f = f a := rfl

/-- What panicked stays so. -/
@[simp] theorem error_bind {α β : Type} (e : Fault) (f : α → Rust β) :
    (Except.error e : Rust α) >>= f = Except.error e := rfl

/-- A value is what returned it. -/
@[simp] theorem pure_eq_ok {α : Type} (a : α) : (pure a : Rust α) = Except.ok a := rfl

/-- A fault is what panicked with it. -/
@[simp] theorem throw_eq_error {α : Type} (e : Fault) :
    (throw e : Rust α) = Except.error e := rfl

/-- A sequence returns exactly when its first half returns and its second half
returns on that value. -/
theorem bind_eq_ok {α β : Type} {x : Rust α} {f : α → Rust β} {b : β} :
    x >>= f = Except.ok b ↔ ∃ a, x = Except.ok a ∧ f a = Except.ok b := by
  cases x <;> simp

/-- A fault that neither half of a sequence ends in. -/
theorem bind_ne_error {α β : Type} {x : Rust α} {f : α → Rust β} {e : Fault}
    (hx : x ≠ Except.error e) (hf : ∀ a, x = Except.ok a → f a ≠ Except.error e) :
    x >>= f ≠ Except.error e := by
  cases x with
  | ok a => exact hf a rfl
  | error e' =>
      rw [error_bind]
      exact fun h => hx (congrArg Except.error (Except.error.inj h))

/-- `Option::unwrap`. -/
def unwrap {α : Type} : Option α → Rust α
  | some a => .ok a
  | none => .error .unwrap

/-- `Option::expect` and `Result::expect`. -/
def expect {α : Type} (message : String) : Option α → Rust α
  | some a => .ok a
  | none => .error (.expect message)

/-- There is something to unwrap. -/
@[simp] theorem unwrap_some {α : Type} (a : α) : unwrap (some a) = .ok a := rfl

/-- `unwrap` returns only what there is. -/
theorem unwrap_eq_ok {α : Type} {o : Option α} {a : α} : unwrap o = .ok a ↔ o = some a := by
  cases o <;> simp [unwrap]

/-- There is what is expected. -/
@[simp] theorem expect_some {α : Type} (m : String) (a : α) : expect m (some a) = .ok a := rfl

/-- `assert!`. -/
def assert (p : Prop) [Decidable p] : Rust Unit :=
  if p then .ok () else .error .assertion

/-- An assertion that holds does nothing. -/
@[simp] theorem assert_of {p : Prop} [Decidable p] (h : p) : assert p = .ok () := if_pos h

/-- Unsigned subtraction. -/
def sub (a b : ℕ) : Rust ℕ :=
  if b ≤ a then .ok (a - b) else .error .overflow

/-- A difference that is not negative. -/
@[simp] theorem sub_of_le {a b : ℕ} (h : b ≤ a) : sub a b = .ok (a - b) := if_pos h

/-- Addition on an unsigned integer of `w` bits. -/
def add (w a b : ℕ) : Rust ℕ :=
  if a + b < 2 ^ w then .ok (a + b) else .error .overflow

/-- A sum that fits in its width. -/
@[simp] theorem add_of_lt {w a b : ℕ} (h : a + b < 2 ^ w) : add w a b = .ok (a + b) := if_pos h

/-- A sum that was computed is the sum. -/
theorem add_eq_ok {w a b c : ℕ} (h : add w a b = .ok c) : a + b = c := by
  rw [add] at h
  split_ifs at h
  exact Except.ok.inj h

/-- Unsigned division. -/
def div (a b : ℕ) : Rust ℕ :=
  if b = 0 then .error .divideByZero else .ok (a / b)

/-- A quotient by a positive number. -/
@[simp] theorem div_of_pos {a b : ℕ} (h : 0 < b) : div a b = .ok (a / b) :=
  if_neg (by omega)

/-- `try_into().unwrap()` to an unsigned integer of `w` bits. -/
def tryInto (w n : ℕ) : Rust ℕ :=
  if n < 2 ^ w then .ok n else .error .unwrap

/-- A number that fits in its width. -/
@[simp] theorem tryInto_of_lt {w n : ℕ} (h : n < 2 ^ w) : tryInto w n = .ok n := if_pos h

/-- The slice `l[i..j]`. -/
def slice {α : Type} (l : List α) (i j : ℕ) : Rust (List α) :=
  if i ≤ j ∧ j ≤ l.length then .ok ((l.take j).drop i) else .error .index

/-- A slice within the bounds. -/
@[simp] theorem slice_of_le {α : Type} {l : List α} {i j : ℕ} (h : i ≤ j ∧ j ≤ l.length) :
    slice l i j = .ok ((l.take j).drop i) := if_pos h

/-- The element `l[i]`. -/
def index {α : Type} (l : List α) (i : ℕ) : Rust α :=
  match l[i]? with
  | some a => .ok a
  | none => .error .index

/-- An index is read only within the bounds. -/
theorem index_eq_ok {α : Type} {l : List α} {i : ℕ} {a : α} :
    index l i = .ok a ↔ l[i]? = some a := by
  rw [index]
  cases l[i]? <;> simp

/-- The assignment `l[i] = a`. -/
def assign {α : Type} (l : List α) (i : ℕ) (a : α) : Rust (List α) :=
  if i < l.length then .ok (l.set i a) else .error .index

/-- `l[i..j].copy_from_slice(source)`. -/
def copyFromSlice {α : Type} (l : List α) (i j : ℕ) (source : List α) : Rust (List α) :=
  if i ≤ j ∧ j ≤ l.length then
    if source.length = j - i then .ok (l.take i ++ source ++ l.drop j)
    else .error (.explicit "copy_from_slice: source slice length does not match destination")
  else .error .index

/-- A slice between two parts. -/
theorem slice_middle {α : Type} {a b c : List α} {i j : ℕ} (hi : a.length = i)
    (hj : a.length + b.length = j) : slice (a ++ b ++ c) i j = .ok b := by
  have hab : (a ++ b).length = j := by rw [List.length_append, hj]
  rw [slice_of_le ⟨by omega, by rw [List.length_append]; omega⟩, ← hab, List.take_left, ← hi,
    List.drop_left]

/-- The item behind a part of known length. -/
theorem index_middle {α : Type} {a b : List α} {x : α} {i : ℕ} (hi : a.length = i) :
    index (a ++ x :: b) i = .ok x := by
  subst hi
  simp [index]

/-- An assignment behind a part of known length. -/
theorem assign_middle {α : Type} {a b : List α} {x y : α} {i : ℕ} (hi : a.length = i) :
    assign (a ++ x :: b) i y = .ok (a ++ y :: b) := by
  subst hi
  simp [assign]

/-- A copy over a part in the middle, of the same length. -/
theorem copyFromSlice_middle {α : Type} {a b c source : List α} {i j : ℕ} (hi : a.length = i)
    (hj : a.length + b.length = j) (hlen : source.length = b.length) :
    copyFromSlice (a ++ b ++ c) i j source = .ok (a ++ source ++ c) := by
  have hab : (a ++ b).length = j := by rw [List.length_append, hj]
  have hle : i ≤ j ∧ j ≤ (a ++ b ++ c).length := ⟨by omega, by rw [List.length_append]; omega⟩
  rw [copyFromSlice, if_pos hle, if_pos (by omega), ← hab, List.drop_left, ← hi,
    List.append_assoc a b c, List.take_left]

end Rust

namespace RustM

variable {σ α β : Type}

/-- A pure computation run on a state, which it leaves as it is. -/
def lift (x : Rust α) : RustM σ α := fun s =>
  match x with
  | .ok a => .ok a s
  | .error e => .error e s

instance : MonadLift (Except Fault) (EStateM Fault σ) := ⟨lift⟩

/-- A pure computation that returned leaves the state. -/
@[simp] theorem run_lift_ok (a : α) (s : σ) :
    EStateM.run (liftM (Except.ok a : Except Fault α) : EStateM Fault σ α) s = .ok a s := rfl

/-- A pure computation that panicked leaves the state too. -/
@[simp] theorem run_lift_error (e : Fault) (s : σ) :
    EStateM.run (liftM (Except.error e : Except Fault α) : EStateM Fault σ α) s =
      .error e s := rfl

/-- A pure computation that returned leaves the state. -/
theorem run_lift_eq_ok {x : Rust α} {s s' : σ} {a : α} :
    EStateM.run (liftM x : EStateM Fault σ α) s = .ok a s' ↔ x = .ok a ∧ s' = s := by
  cases x with
  | error e =>
      rw [run_lift_error]
      simp
  | ok b =>
      rw [run_lift_ok, EStateM.Result.ok.injEq, Except.ok.injEq]
      exact and_congr_right fun _ => eq_comm

/-- Reading the state leaves it. -/
@[simp] theorem run_getThe (s : σ) :
    EStateM.run (getThe σ : EStateM Fault σ σ) s = .ok s s := rfl

/-- A function of the result leaves the state. -/
@[simp] theorem run_map (f : α → β) (x : RustM σ α) (s : σ) :
    EStateM.run (f <$> x) s =
      match EStateM.run x s with
      | .ok a s => .ok (f a) s
      | .error e s => .error e s := by
  rw [map_eq_pure_bind, EStateM.run_bind]
  cases EStateM.run x s <;> rfl

/-- The state a run ends in, whether it returned or panicked. -/
def endState : EStateM.Result Fault σ α → σ
  | .ok _ s => s
  | .error _ s => s

/-- The state behind a computation that returned. -/
@[simp] theorem endState_ok (a : α) (s : σ) : endState (.ok a s) = s := rfl

/-- The state behind one that panicked. -/
@[simp] theorem endState_error (e : Fault) (s : σ) :
    endState (.error e s : EStateM.Result Fault σ α) = s := rfl

/-- A pure computation leaves the state, whether it panics or not. -/
@[simp] theorem endState_lift (x : Rust α) (s : σ) :
    endState (EStateM.run (liftM x : EStateM Fault σ α) s) = s := by
  cases x <;> rfl

/-- A sequence returns exactly when its first half returns and its second half
returns from the state then reached. -/
theorem run_bind_eq_ok {x : RustM σ α} {f : α → RustM σ β} {s s' : σ} {b : β} :
    EStateM.run (x >>= f) s = .ok b s' ↔
      ∃ a s₁, EStateM.run x s = .ok a s₁ ∧ EStateM.run (f a) s₁ = .ok b s' := by
  rw [EStateM.run_bind]
  cases EStateM.run x s <;> simp

/-- What a run returned and the state it left, where it returned. -/
def returned : EStateM.Result Fault σ α → Option (α × σ)
  | .ok a s => some (a, s)
  | .error _ _ => none

/-- What was returned, with the state then. -/
theorem returned_eq_some {r : EStateM.Result Fault σ α} {a : α} {s : σ} :
    returned r = some (a, s) ↔ r = .ok a s := by
  cases r with
  | ok b s₁ => simp [returned]
  | error e s₁ => simp [returned]

/-- A sequence ends where its first half panicked, or where its second half ends. -/
theorem endState_bind {x : RustM σ α} {f : α → RustM σ β} {s s' : σ}
    (h : endState (EStateM.run (x >>= f) s) = s') :
    endState (EStateM.run x s) = s' ∨
      ∃ a s₁, EStateM.run x s = .ok a s₁ ∧ endState (EStateM.run (f a) s₁) = s' := by
  rw [EStateM.run_bind] at h
  cases hrun : EStateM.run x s with
  | ok a s₁ =>
      rw [hrun] at h
      exact Or.inr ⟨a, s₁, rfl, h⟩
  | error e s₁ =>
      rw [hrun] at h
      exact Or.inl h

/-- What is returned in the end leaves the state as it is. -/
@[simp] theorem endState_bind_pure (x : RustM σ α) (f : α → β) (s : σ) :
    endState (EStateM.run (x >>= fun a => pure (f a)) s) = endState (EStateM.run x s) := by
  rw [EStateM.run_bind]
  cases EStateM.run x s <;> rfl

/-- A preorder that both halves climb, the second from wherever the first returns. -/
theorem endState_bind_rel (R : σ → σ → Prop) (htrans : ∀ {s s' s''}, R s s' → R s' s'' → R s s'')
    {x : RustM σ α} {f : α → RustM σ β} {s : σ} (hx : R s (endState (EStateM.run x s)))
    (hf : ∀ a s₁, EStateM.run x s = .ok a s₁ → R s₁ (endState (EStateM.run (f a) s₁))) :
    R s (endState (EStateM.run (x >>= f) s)) := by
  rw [EStateM.run_bind]
  cases hrun : EStateM.run x s with
  | ok a s₁ =>
      rw [hrun] at hx
      exact htrans hx (hf a s₁ hrun)
  | error e s₁ =>
      rw [hrun] at hx
      exact hx

/-- An invariant that both halves keep, the second from wherever the first returns. -/
theorem endState_bind_inv (Inv : σ → Prop) {x : RustM σ α} {f : α → RustM σ β} {s : σ}
    (hx : Inv (endState (EStateM.run x s)))
    (hf : ∀ a s₁, EStateM.run x s = .ok a s₁ → Inv s₁ → Inv (endState (EStateM.run (f a) s₁))) :
    Inv (endState (EStateM.run (x >>= f) s)) := by
  refine endState_bind_rel (fun _ s' => Inv s') (fun _ h => h) hx fun a s₁ hrun => ?_
  rw [hrun] at hx
  exact hf a s₁ hrun hx

/-- What a computation does to a part of the state that no step of it changes. -/
theorem endState_bind_eq {γ : Type} (part : σ → γ) {x : RustM σ α} {f : α → RustM σ β} {s : σ}
    (hx : part (endState (EStateM.run x s)) = part s)
    (hf : ∀ a s₁, EStateM.run x s = .ok a s₁ →
      part (endState (EStateM.run (f a) s₁)) = part s₁) :
    part (endState (EStateM.run (x >>= f) s)) = part s := by
  have hbind : endState (EStateM.run (x >>= f) s) = endState (EStateM.run (x >>= f) s) := rfl
  rcases endState_bind hbind with herror | ⟨a, s₁, hrun, hend⟩
  · rw [← herror, hx]
  · rw [← hend, hf a s₁ hrun, ← hx, hrun, endState_ok]

/-- The computation does not end in the fault when it is run from the state. -/
def Avoids (e : Fault) (x : RustM σ α) (s : σ) : Prop := ∀ s', EStateM.run x s ≠ .error e s'

variable {e : Fault} {x : RustM σ α} {s : σ}

/-- What returns does not panic. -/
theorem avoids_of_ok {a : α} {s' : σ} (h : EStateM.run x s = .ok a s') : Avoids e x s := by
  intro s'' herror
  rw [h] at herror
  cases herror

/-- What panics with another fault does not panic with this one. -/
theorem avoids_of_ne {e' : Fault} {s' : σ} (h : EStateM.run x s = .error e' s') (hne : e' ≠ e) :
    Avoids e x s := by
  intro s'' herror
  rw [h] at herror
  exact hne (EStateM.Result.error.inj herror).1

/-- A pure computation avoids a fault that it is not. -/
theorem avoids_lift {y : Rust α} (h : y ≠ .error e) :
    Avoids e (liftM y : EStateM Fault σ α) s := by
  cases y with
  | ok a => exact avoids_of_ok (run_lift_ok a s)
  | error e' => exact avoids_of_ne (run_lift_error e' s) fun he => h (congrArg Except.error he)

/-- A sequence avoids a fault that its halves avoid, the second from wherever the first returns. -/
theorem avoids_bind {f : α → RustM σ β} (hx : Avoids e x s)
    (hf : ∀ a s₁, EStateM.run x s = .ok a s₁ → Avoids e (f a) s₁) : Avoids e (x >>= f) s := by
  intro s' herror
  rw [EStateM.run_bind] at herror
  cases hrun : EStateM.run x s with
  | ok a s₁ =>
      rw [hrun] at herror
      exact hf a s₁ hrun s' herror
  | error e' s₁ =>
      rw [hrun] at herror
      dsimp only at herror
      obtain ⟨rfl, -⟩ := EStateM.Result.error.inj herror
      exact hx s₁ hrun

end RustM

end Grizol.Library

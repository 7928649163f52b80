import Mathlib.Data.List.Induction
import Mathlib.Data.List.Infix

/-!
# Runs of transition systems

A system is a state, a set of events and a step that is `none` where the event is
not possible. `run` takes one event after the other; `Meets` says that every event
of a run is taken in a state where a condition holds.

What a single step preserves is carried to whole runs by `run_induction`, which
also gives the history, and by its two instances `invariant_run` and
`invariant_run_of_meets`.

A machine that asks its surroundings something at every step is run for a number of
steps by `runFor`; a measure that every step decreases says how many are enough.
-/

set_option autoImplicit false

namespace Grizol.Library.Transition

variable {σ ε : Type} (step : σ → ε → Option σ)

/-- The state after a sequence of events. -/
def run : σ → List ε → Option σ
  | s, [] => some s
  | s, e :: es => (step s e).bind fun s' => run s' es

/-- Every event of the run is taken in a state where the condition on it holds. -/
def Meets (cond : σ → ε → Prop) : σ → List ε → Prop
  | _, [] => True
  | s, e :: es => cond s e ∧ ∀ s', step s e = some s' → Meets cond s' es

/-- A run of no events. -/
@[simp] theorem run_nil (s : σ) : run step s [] = some s := rfl

/-- A run is its first step and the run after it. -/
@[simp] theorem run_cons (s : σ) (e : ε) (es : List ε) :
    run step s (e :: es) = (step s e).bind fun s' => run step s' es := rfl

variable {step}

/-- A run is a run of its first part and then one of the rest. -/
theorem run_append {s s' : σ} {es fs : List ε} :
    run step s (es ++ fs) = some s' ↔
      ∃ s₁, run step s es = some s₁ ∧ run step s₁ fs = some s' := by
  induction es generalizing s with
  | nil => simp
  | cons e es ih =>
      simp only [List.cons_append, run_cons, Option.bind_eq_some_iff, ih]
      constructor
      · rintro ⟨s₂, he, s₁, hes, hfs⟩
        exact ⟨s₁, ⟨s₂, he, hes⟩, hfs⟩
      · rintro ⟨s₁, ⟨s₂, he, hes⟩, hfs⟩
        exact ⟨s₂, he, s₁, hes, hfs⟩

/-- The last step of a run. -/
theorem run_concat {s s' : σ} {es : List ε} {e : ε} :
    run step s (es ++ [e]) = some s' ↔
      ∃ s₁, run step s es = some s₁ ∧ step s₁ e = some s' := by
  rw [run_append]
  simp

/-- The induction on a run, its events the newest last. -/
theorem run_induction {s₀ : σ} {motive : List ε → σ → Prop} (nil : motive [] s₀)
    (concat : ∀ es s e s', run step s₀ es = some s → motive es s → step s e = some s' →
      motive (es ++ [e]) s')
    {es : List ε} {s : σ} (h : run step s₀ es = some s) : motive es s := by
  induction es using List.reverseRecOn generalizing s with
  | nil =>
      obtain rfl : s₀ = s := by simpa using h
      exact nil
  | append_singleton es e ih =>
      obtain ⟨s₁, hes, he⟩ := run_concat.mp h
      exact concat es s₁ e s hes (ih hes) he

variable (step) in
/-- What the steps of a run hand out, in order. -/
def collect {β : Type} (out : σ → ε → List β) : σ → List ε → List β
  | _, [] => []
  | s, e :: es =>
      out s e ++
        match step s e with
        | some s' => collect out s' es
        | none => []

/-- The last step hands out the last. -/
theorem collect_concat {β : Type} {out : σ → ε → List β} {s₀ s s' : σ} {es : List ε} {e : ε}
    (h : run step s₀ es = some s) (he : step s e = some s') :
    collect step out s₀ (es ++ [e]) = collect step out s₀ es ++ out s e := by
  induction es generalizing s₀ with
  | nil =>
      obtain rfl : s₀ = s := by simpa using h
      simp [collect, he]
  | cons e₁ es ih =>
      obtain ⟨s₁, h₁, hrest⟩ := Option.bind_eq_some_iff.mp h
      simp only [List.cons_append, collect, h₁, ih hrest, List.append_assoc]

/-- What a run hands out in its first part, and then in the rest. -/
theorem collect_append {β : Type} {out : σ → ε → List β} {s s₁ : σ} {es fs : List ε}
    (h : run step s es = some s₁) :
    collect step out s (es ++ fs) = collect step out s es ++ collect step out s₁ fs := by
  induction es generalizing s with
  | nil =>
      obtain rfl : s = s₁ := by simpa using h
      rfl
  | cons e es ih =>
      obtain ⟨s₂, he, hrest⟩ := Option.bind_eq_some_iff.mp h
      simp only [List.cons_append, collect, he, ih hrest, List.append_assoc]

/-- Whatever a run hands out, one of its steps does. -/
theorem exists_step_of_mem_collect {β : Type} {out : σ → ε → List β} {b : β} {es : List ε}
    {s : σ} (hb : b ∈ collect step out s es) :
    ∃ es₁ e es₂ s₁, es = es₁ ++ e :: es₂ ∧ run step s es₁ = some s₁ ∧ b ∈ out s₁ e := by
  induction es generalizing s with
  | nil => cases hb
  | cons e es ih =>
      rcases List.mem_append.mp hb with hb | hb
      · exact ⟨[], e, es, s, rfl, rfl, hb⟩
      · cases he : step s e with
        | none =>
            rw [he] at hb
            cases hb
        | some s₂ =>
            rw [he] at hb
            obtain ⟨es₁, e', es₂, s₁, rfl, hrun, hb⟩ := ih hb
            refine ⟨e :: es₁, e', es₂, s₁, rfl, ?_, hb⟩
            rw [run_cons, he]
            exact hrun

/-- A part of what is handed out. -/
theorem filterMap_collect {β γ : Type} (out : σ → ε → List β) (f : β → Option γ) (s : σ)
    (es : List ε) :
    (collect step out s es).filterMap f =
      collect step (fun s e => (out s e).filterMap f) s es := by
  induction es generalizing s with
  | nil => rfl
  | cons e es ih =>
      rw [collect, collect, List.filterMap_append]
      cases step s e with
      | none => rfl
      | some s' => exact congrArg _ (ih s')

variable (step) in
/-- An account that is kept of a run, beside its states. -/
def account {η : Type} (record : η → σ → ε → σ → η) : η → σ → List ε → η
  | h, _, [] => h
  | h, s, e :: es =>
      match step s e with
      | some s' => account record (record h s e s') s' es
      | none => h

/-- The last step is recorded last. -/
theorem account_concat {η : Type} {record : η → σ → ε → σ → η} {es : List ε} {e : ε} {s₁ s₂ : σ}
    (he : step s₁ e = some s₂) :
    ∀ {s : σ} {h : η}, run step s es = some s₁ →
      account step record h s (es ++ [e]) = record (account step record h s es) s₁ e s₂ := by
  induction es with
  | nil =>
      intro s h hrun
      obtain rfl : s = s₁ := by simpa using hrun
      simp [account, he]
  | cons e' es ih =>
      intro s h hrun
      obtain ⟨s', he', hrest⟩ := Option.bind_eq_some_iff.mp hrun
      simp only [List.cons_append, account, he']
      exact ih hrest

/-- An account that each step makes what the state after it shows is what the last one shows. -/
theorem account_of_run {η : Type} {record : η → σ → ε → σ → η} {shown : σ → η}
    (hstep : ∀ s e s', step s e = some s' → record (shown s) s e s' = shown s') {es : List ε}
    {s s' : σ} (h : run step s es = some s') : account step record (shown s) s es = shown s' := by
  induction es generalizing s with
  | nil =>
      obtain rfl : s = s' := by simpa using h
      rfl
  | cons e es ih =>
      obtain ⟨s₁, he, hrest⟩ := Option.bind_eq_some_iff.mp h
      rw [account, he]
      dsimp only
      rw [hstep s e s₁ he]
      exact ih hrest

/-- What holds at the start and is preserved by every step holds after every run. -/
theorem invariant_run (Inv : σ → Prop) {s₀ s : σ} {es : List ε} (h₀ : Inv s₀)
    (hstep : ∀ s e s', Inv s → step s e = some s' → Inv s')
    (h : run step s₀ es = some s) : Inv s :=
  run_induction (motive := fun _ s => Inv s) h₀
    (fun _ s e s' _ hs he => hstep s e s' hs he) h

variable {cond : σ → ε → Prop}

/-- A run meets a condition if its first part does, and the rest does from where that ends. -/
theorem meets_append {s : σ} {es fs : List ε} :
    Meets step cond s (es ++ fs) ↔
      Meets step cond s es ∧ ∀ s', run step s es = some s' → Meets step cond s' fs := by
  induction es generalizing s with
  | nil => simp [Meets]
  | cons e es ih =>
      simp only [List.cons_append, Meets, ih, run_cons, Option.bind_eq_some_iff]
      constructor
      · rintro ⟨hcond, hrest⟩
        refine ⟨⟨hcond, fun s₁ h₁ => (hrest s₁ h₁).1⟩, ?_⟩
        rintro s' ⟨s₁, h₁, h'⟩
        exact (hrest s₁ h₁).2 s' h'
      · rintro ⟨⟨hcond, hes⟩, hfs⟩
        exact ⟨hcond, fun s₁ h₁ => ⟨hes s₁ h₁, fun s' h' => hfs s' ⟨s₁, h₁, h'⟩⟩⟩

/-- The last event of a run meets the condition too. -/
theorem meets_concat {s s' : σ} {es : List ε} {e : ε} (h : run step s es = some s') :
    Meets step cond s (es ++ [e]) ↔ Meets step cond s es ∧ cond s' e := by
  rw [meets_append]
  refine and_congr_right fun _ => ⟨fun hlast => (hlast s' h).1, fun hcond s'' h'' => ?_⟩
  obtain rfl := Option.some.inj (h.symm.trans h'')
  exact ⟨hcond, fun _ _ => trivial⟩

/-- The same for an invariant that a step preserves when it meets a condition. -/
theorem invariant_run_of_meets (Inv : σ → Prop) {s₀ s : σ} {es : List ε} (h₀ : Inv s₀)
    (hstep : ∀ s e s', Inv s → cond s e → step s e = some s' → Inv s')
    (hmeets : Meets step cond s₀ es) (h : run step s₀ es = some s) : Inv s := by
  revert hmeets
  refine run_induction (motive := fun es s => Meets step cond s₀ es → Inv s) (fun _ => h₀) ?_ h
  intro es s e s' hes ih he hmeets
  obtain ⟨hfirst, hlast⟩ := meets_append.mp hmeets
  exact hstep s e s' (ih hfirst) (hlast s hes).1 he

/-- A condition that the events of the run meet in every state. -/
theorem meets_of_forall {es : List ε} (h : ∀ e ∈ es, ∀ s, cond s e) :
    ∀ s : σ, Meets step cond s es := by
  induction es with
  | nil =>
      intro s
      trivial
  | cons e es ih =>
      intro s
      exact ⟨h e List.mem_cons_self s, fun s' _ => ih (fun e' he' =>
        h e' (List.mem_cons_of_mem _ he')) s'⟩

/-- A condition that an invariant gives. -/
theorem meets_of_invariant (Inv : σ → Prop) {p : ε → Prop}
    (hcond : ∀ s e, Inv s → p e → cond s e)
    (hstep : ∀ s e s', Inv s → p e → step s e = some s' → Inv s') {es : List ε}
    (hes : ∀ e ∈ es, p e) : ∀ {s : σ}, Inv s → Meets step cond s es := by
  induction es with
  | nil =>
      intro s _
      trivial
  | cons e es ih =>
      intro s hs
      have he := hes e List.mem_cons_self
      exact ⟨hcond s e hs he, fun s' hnext => ih (fun e' he' => hes e' (List.mem_cons_of_mem _ he'))
        (hstep s e s' hs he hnext)⟩

/-- A condition on the events alone. -/
theorem meets_of_forall_mem {p : ε → Prop} {es : List ε} (h : ∀ e ∈ es, p e) (s : σ) :
    Meets step (fun _ e => p e) s es :=
  meets_of_forall (fun e he _ => h e he) s

/-- A run that meets two conditions meets both at once. -/
theorem meets_and {cond' : σ → ε → Prop} {s : σ} {es : List ε} (h : Meets step cond s es)
    (h' : Meets step cond' s es) : Meets step (fun s e => cond s e ∧ cond' s e) s es := by
  induction es generalizing s with
  | nil => trivial
  | cons e es ih => exact ⟨⟨h.1, h'.1⟩, fun s' he => ih (h.2 s' he) (h'.2 s' he)⟩

/-- Whether a run meets a condition is found by taking its steps. -/
instance decidableMeets [∀ s e, Decidable (cond s e)] :
    ∀ (s : σ) (es : List ε), Decidable (Meets step cond s es)
  | _, [] => isTrue trivial
  | s, e :: es =>
      match hnext : step s e with
      | none => decidable_of_iff (cond s e) ⟨fun h => ⟨h, fun s' hs' => by simp [hnext] at hs'⟩,
          And.left⟩
      | some s' =>
          have := decidableMeets s' es
          decidable_of_iff (cond s e ∧ Meets step cond s' es)
            (and_congr_right fun _ => ⟨fun h s'' hs'' => by
              obtain rfl := Option.some.inj (hnext.symm.trans hs'')
              exact h, fun h => h s' hnext⟩)

/-- Every step of the run relates the state before it, the event and the state after. -/
def Along (step : σ → ε → Option σ) (rel : σ → ε → σ → Prop) : σ → List ε → Prop
  | _, [] => True
  | s, e :: es => ∀ s', step s e = some s' → rel s e s' ∧ Along step rel s' es

/-- What a step does when it meets a condition is done all along a run that meets it. -/
theorem along_of_meets {rel : σ → ε → σ → Prop}
    (hstep : ∀ s e s', cond s e → step s e = some s' → rel s e s') {s : σ} {es : List ε}
    (hmeets : Meets step cond s es) : Along step rel s es := by
  induction es generalizing s with
  | nil => trivial
  | cons e es ih =>
      intro s' he
      exact ⟨hstep s e s' hmeets.1 he, ih (hmeets.2 s' he)⟩

/-- The same where what a step does leans on an invariant. -/
theorem along_of_invariant (Inv : σ → Prop) {rel : σ → ε → σ → Prop}
    (hstep : ∀ s e s', Inv s → cond s e → step s e = some s' → Inv s' ∧ rel s e s') {s : σ}
    {es : List ε} (h₀ : Inv s) (hmeets : Meets step cond s es) : Along step rel s es := by
  induction es generalizing s with
  | nil => trivial
  | cons e es ih =>
      intro s' he
      obtain ⟨hinv, hrel⟩ := hstep s e s' h₀ hmeets.1 he
      exact ⟨hrel, ih hinv (hmeets.2 s' he)⟩

/-- The last step of a run along which a relation holds. -/
theorem rel_of_along_concat {rel : σ → ε → σ → Prop} {s s₁ s₂ : σ} {es : List ε} {e : ε}
    (h : Along step rel s (es ++ [e])) (hes : run step s es = some s₁)
    (he : step s₁ e = some s₂) : rel s₁ e s₂ := by
  induction es generalizing s with
  | nil =>
      obtain rfl := Option.some.inj hes
      exact (h s₂ he).1
  | cons e' es ih =>
      obtain ⟨s', he', hes⟩ := Option.bind_eq_some_iff.mp hes
      exact ih (h s' he').2 hes

/-- Where a relation holds of exactly the steps that meet a condition, it holds along exactly
the runs that meet it; what it leans on may be lost by a step that does not. -/
theorem along_iff_meets_of_run (Inv : σ → Prop) {rel : σ → ε → σ → Prop}
    (hrel : ∀ s e s', Inv s → step s e = some s' → (rel s e s' ↔ cond s e))
    (hkeeps : ∀ s e s', Inv s → cond s e → step s e = some s' → Inv s') {es : List ε} {s s' : σ}
    (h₀ : Inv s) (hrun : run step s es = some s') : Along step rel s es ↔ Meets step cond s es := by
  induction es generalizing s with
  | nil => exact Iff.rfl
  | cons e es ih =>
      obtain ⟨s₂, he, hrest⟩ := Option.bind_eq_some_iff.mp hrun
      have hthen : ∀ s₁, step s e = some s₁ → run step s₁ es = some s' := by
        intro s₁ h₁
        obtain rfl := Option.some.inj (he.symm.trans h₁)
        exact hrest
      constructor
      · intro h
        have hcond : cond s e := (hrel s e s₂ h₀ he).mp (h s₂ he).1
        refine ⟨hcond, fun s₁ h₁ => ?_⟩
        exact (ih (hkeeps s e s₁ h₀ hcond h₁) (hthen s₁ h₁)).mp (h s₁ h₁).2
      · rintro ⟨hcond, hmeets⟩ s₁ h₁
        exact ⟨(hrel s e s₁ h₀ h₁).mpr hcond,
          (ih (hkeeps s e s₁ h₀ hcond h₁) (hthen s₁ h₁)).mpr (hmeets s₁ h₁)⟩

/-- Where every event is possible, every sequence of them is a run. -/
theorem exists_run (hpossible : ∀ s e, ∃ s', step s e = some s') (es : List ε) :
    ∀ s, ∃ s', run step s es = some s' := by
  induction es with
  | nil => exact fun s => ⟨s, rfl⟩
  | cons e es ih =>
      intro s
      obtain ⟨s₁, he⟩ := hpossible s e
      obtain ⟨s', hrest⟩ := ih s₁
      exact ⟨s', Option.bind_eq_some_iff.mpr ⟨s₁, he, hrest⟩⟩

/-- The same for a system where every event is possible. -/
theorem along_iff_meets (Inv : σ → Prop) {rel : σ → ε → σ → Prop}
    (hpossible : ∀ s e, ∃ s', step s e = some s')
    (hrel : ∀ s e s', Inv s → step s e = some s' → (rel s e s' ↔ cond s e))
    (hkeeps : ∀ s e s', Inv s → cond s e → step s e = some s' → Inv s') {es : List ε} {s : σ}
    (h₀ : Inv s) : Along step rel s es ↔ Meets step cond s es := by
  obtain ⟨s', hrun⟩ := exists_run hpossible es s
  exact along_iff_meets_of_run Inv hrel hkeeps h₀ hrun

/-! ## Machines that ask -/

section RunFor

variable {σ α : Type} {step : α → σ → σ} {answers : ℕ → α}

/-- A number of steps; `answers n` is what the step that leaves `n` more is told. -/
def runFor (step : α → σ → σ) (answers : ℕ → α) : ℕ → σ → σ
  | 0, s => s
  | n + 1, s => runFor step answers n (step (answers n) s)

/-- What every step preserves that is told such an answer holds at the end. -/
theorem runFor_invariant_of_answers (Inv : σ → Prop) {cond : α → Prop}
    (hanswers : ∀ n, cond (answers n)) (hstep : ∀ a s, cond a → Inv s → Inv (step a s)) (n : ℕ) :
    ∀ {s : σ}, Inv s → Inv (runFor step answers n s) := by
  induction n with
  | zero =>
      intro s h
      exact h
  | succ n ih =>
      intro s h
      exact ih (hstep (answers n) s (hanswers n) h)

/-- What every step preserves holds at the end. -/
theorem runFor_invariant (Inv : σ → Prop) (hstep : ∀ a s, Inv s → Inv (step a s)) (n : ℕ) {s : σ}
    (h : Inv s) : Inv (runFor step answers n s) :=
  @runFor_invariant_of_answers _ _ _ _ Inv (fun _ => True) (fun _ => trivial)
    (fun a s _ => hstep a s) n s h

/-- A preorder that every step climbs relates the start to the end. -/
theorem runFor_rel (R : σ → σ → Prop) (hrefl : ∀ s, R s s)
    (htrans : ∀ {s s' s''}, R s s' → R s' s'' → R s s'') (hstep : ∀ a s, R s (step a s))
    (n : ℕ) (s : σ) : R s (runFor step answers n s) :=
  runFor_invariant (R s) (fun a _ h => htrans h (hstep a _)) n (hrefl s)

/-- A number of steps, and then some more. -/
theorem runFor_add (n m : ℕ) : ∀ s : σ, runFor step answers (n + m) s =
    runFor step answers m (runFor step (fun k => answers (k + m)) n s) := by
  induction n with
  | zero =>
      intro s
      rw [Nat.zero_add]
      rfl
  | succ n ih =>
      intro s
      rw [Nat.add_right_comm]
      exact ih (step (answers (n + m)) s)

/-- What holds at the end and not at the start begins to hold at one of the steps. -/
theorem exists_step_of_runFor {p : σ → Prop} (n : ℕ) : ∀ {s : σ}, ¬ p s →
    p (runFor step answers n s) →
      ∃ k m, k + 1 + m = n ∧ ¬ p (runFor step (fun j => answers (j + (m + 1))) k s) ∧
        p (step (answers m) (runFor step (fun j => answers (j + (m + 1))) k s)) := by
  induction n with
  | zero =>
      intro s hstart hend
      exact absurd hend hstart
  | succ n ih =>
      intro s hstart hend
      by_cases hfirst : p (step (answers n) s)
      · exact ⟨0, n, by omega, hstart, hfirst⟩
      · obtain ⟨k, m, rfl, hbefore, hafter⟩ := ih hfirst hend
        have hcount : k + (m + 1) = k + 1 + m := by omega
        refine ⟨k + 1, m, by omega, ?_, ?_⟩
        · rw [runFor, hcount]
          exact hbefore
        · rw [runFor, hcount]
          exact hafter

/-- A measure that every step decreases is zero after as many steps. -/
theorem runFor_measure (measure : σ → ℕ) (hstep : ∀ a s, measure (step a s) ≤ measure s - 1)
    (n : ℕ) : ∀ {s : σ}, measure s ≤ n → measure (runFor step answers n s) = 0 := by
  induction n with
  | zero =>
      intro s h
      exact Nat.le_zero.mp h
  | succ n ih =>
      intro s h
      have hless := hstep (answers n) s
      exact ih (by omega)

end RunFor

end Grizol.Library.Transition

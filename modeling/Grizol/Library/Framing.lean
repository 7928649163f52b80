import Mathlib.Data.List.Basic
import Mathlib.Tactic.Common

/-!
# Framed streams

A `Framing` describes a stream of frames read in phases: what bytes determine the
length of the first frame, what a complete frame decodes to (and which phase
follows it), and what is already required of a frame that is still incomplete.
`Framing.read` is the one-pass reader: it returns the values of the complete
frames, the phase reached and the bytes of the unfinished last frame, or `none`
when something complete does not decode.

The rules a resumable reader is proved against are `read_of_incomplete` (nothing
complete yet), `read_of_complete` (the bytes at hand are exactly one frame),
`accepts_of_read` (what a readable continuation says about the first part of a frame)
and `read_append` (reading in parts).
-/

set_option autoImplicit false

namespace Grizol.Library

/-- A stream of frames over bytes `β`, read in phases `σ`, with values `α`. -/
structure Framing (σ β α : Type) where
  /-- The length of the first frame, once the bytes at hand determine it. -/
  frameLen : σ → List β → Option ℕ
  /-- The value of a complete frame and the phase after it. -/
  decode : σ → List β → Option (α × σ)
  /-- What is required of the bytes of an incomplete frame. -/
  accepts : σ → List β → Bool
  frameLen_pos : ∀ {s l n}, frameLen s l = some n → 0 < n
  frameLen_append : ∀ {s l n} (x : List β), frameLen s l = some n → frameLen s (l ++ x) = some n
  frameLen_take : ∀ {s l n}, frameLen s l = some n → n ≤ l.length →
    frameLen s (l.take n) = some n
  accepts_of_decode : ∀ {s l x r}, decode s (l ++ x) = some r → accepts s l = true
  accepts_of_append : ∀ {s l x}, accepts s (l ++ x) = true → accepts s l = true

namespace Framing

variable {σ β α : Type} (F : Framing σ β α)

/-- The first frame and what follows it, when the frame is complete. -/
def cut (s : σ) (l : List β) : Option (List β × List β) :=
  match F.frameLen s l with
  | some n => if n ≤ l.length then some (l.take n, l.drop n) else none
  | none => none

/-- `read` with a bound on the number of frames. -/
def readUpTo : ℕ → σ → List β → Option (List α × σ × List β)
  | 0, s, l => some ([], s, l)
  | k + 1, s, l =>
      match F.cut s l with
      | none => if F.accepts s l then some ([], s, l) else none
      | some (frame, rest) => do
          let (a, s') ← F.decode s frame
          let (as, s'', pending) ← readUpTo k s' rest
          some (a :: as, s'', pending)

/-- The one-pass reader: the values of the complete frames, the phase reached and
the bytes of the unfinished last frame. -/
def read (s : σ) (l : List β) : Option (List α × σ × List β) :=
  F.readUpTo (l.length + 1) s l

variable {F}

/-- A complete frame is cut off exactly when its length is known and available. -/
theorem cut_eq_some_iff {s : σ} {l frame rest : List β} :
    F.cut s l = some (frame, rest) ↔
      ∃ n, F.frameLen s l = some n ∧ n ≤ l.length ∧ l.take n = frame ∧ l.drop n = rest := by
  unfold cut
  cases F.frameLen s l with
  | none => simp
  | some n => by_cases h : n ≤ l.length <;> simp [h]

/-- No complete frame: its length is unknown or not yet reached. -/
theorem cut_eq_none_iff {s : σ} {l : List β} :
    F.cut s l = none ↔ ∀ n, F.frameLen s l = some n → l.length < n := by
  unfold cut
  cases F.frameLen s l with
  | none => simp
  | some n =>
      by_cases h : n ≤ l.length
      · simp [h]
      · simp [h]; omega

/-- What follows a complete frame is shorter than the stream. -/
theorem length_rest_lt {s : σ} {l frame rest : List β} (h : F.cut s l = some (frame, rest)) :
    rest.length < l.length := by
  obtain ⟨n, hn, hle, -, rfl⟩ := cut_eq_some_iff.mp h
  have hpos := F.frameLen_pos hn
  rw [List.length_drop]
  omega

/-- Every bound above the length of the stream reads the same. -/
theorem readUpTo_eq_read (k : ℕ) (s : σ) (l : List β) (h : l.length < k) :
    F.readUpTo k s l = F.read s l := by
  have hboth : ∀ (j k : ℕ) (s : σ) (l : List β), l.length < j → l.length < k →
      F.readUpTo j s l = F.readUpTo k s l := by
    intro j
    induction j with
    | zero => intro k s l hj; omega
    | succ j ih =>
        intro k s l hj hk
        obtain ⟨k, rfl⟩ : ∃ m, k = m + 1 := ⟨k - 1, by omega⟩
        simp only [readUpTo]
        cases hc : F.cut s l with
        | none => rfl
        | some fr =>
            obtain ⟨frame, rest⟩ := fr
            have hlt := length_rest_lt hc
            simp only
            cases F.decode s frame with
            | none => rfl
            | some r =>
                obtain ⟨a, s'⟩ := r
                simp [ih k s' rest (by omega) (by omega)]
  exact hboth k (l.length + 1) s l h (by omega)

/-- Reading a stream whose first frame is incomplete yields nothing. -/
theorem read_of_incomplete {s : σ} {l : List β} (h : F.cut s l = none) :
    F.read s l = if F.accepts s l then some ([], s, l) else none := by
  simp only [read, readUpTo, h]

/-- Reading a stream that starts with a complete frame decodes it and goes on in
the phase that follows. -/
theorem read_of_cut {s : σ} {l frame rest : List β} (h : F.cut s l = some (frame, rest)) :
    F.read s l = (do
      let (a, s') ← F.decode s frame
      let (as, s'', pending) ← F.read s' rest
      some (a :: as, s'', pending)) := by
  have hlt := length_rest_lt h
  rw [read, readUpTo, h]
  simp only
  cases F.decode s frame with
  | none => rfl
  | some r =>
      obtain ⟨a, s'⟩ := r
      simp [readUpTo_eq_read _ s' rest hlt]

/-- The same rule when the frame is given first: its own bytes determine a length
that is theirs. -/
theorem read_of_complete {s : σ} {frame : List β} (rest : List β)
    (h : F.frameLen s frame = some frame.length) :
    F.read s (frame ++ rest) = (do
      let (a, s') ← F.decode s frame
      let (as, s'', pending) ← F.read s' rest
      some (a :: as, s'', pending)) := by
  apply read_of_cut
  rw [cut_eq_some_iff]
  exact ⟨frame.length, F.frameLen_append rest h, by simp, by simp, by simp⟩

/-- The bytes of a frame that does not reach past its end and can be continued to a
readable stream meet the requirement on incomplete frames. -/
theorem accepts_of_read {s : σ} {l x : List β}
    (hwithin : ∀ n, F.frameLen s l = some n → l.length ≤ n)
    (h : (F.read s (l ++ x)).isSome = true) : F.accepts s l = true := by
  cases hc : F.cut s (l ++ x) with
  | none =>
      rw [read_of_incomplete hc] at h
      by_cases ha : F.accepts s (l ++ x) = true
      · exact F.accepts_of_append ha
      · simp [ha] at h
  | some fr =>
      obtain ⟨frame, rest⟩ := fr
      obtain ⟨n, hn, hle, hframe, -⟩ := cut_eq_some_iff.mp hc
      -- the bytes at hand are a first part of the complete frame
      have hlen : l.length ≤ n := by
        by_contra hlt
        have htake := F.frameLen_take hn hle
        rw [List.take_append_of_le_length (by omega)] at htake
        have hl : F.frameLen s l = some n := by
          simpa using F.frameLen_append (l.drop n) htake
        exact hlt (hwithin n hl)
      rw [read_of_cut hc] at h
      cases hd : F.decode s frame with
      | none => simp [hd] at h
      | some r =>
          have hsplit : l ++ x.take (n - l.length) = frame := by
            rw [← hframe, List.take_append, List.take_of_length_le hlen]
          exact F.accepts_of_decode (hsplit ▸ hd)

/-- Induction along the frames of a stream. -/
theorem read_induction {P : σ → List β → Prop}
    (incomplete : ∀ s l, F.cut s l = none → P s l)
    (complete : ∀ s l frame rest, F.cut s l = some (frame, rest) → (∀ s', P s' rest) → P s l)
    (s : σ) (l : List β) : P s l := by
  have hbounded : ∀ (k : ℕ) (s : σ) (l : List β), l.length < k → P s l := by
    intro k
    induction k with
    | zero => intro s l hk; omega
    | succ k ih =>
        intro s l hk
        cases hc : F.cut s l with
        | none => exact incomplete s l hc
        | some fr =>
            obtain ⟨frame, rest⟩ := fr
            have hlt := length_rest_lt hc
            exact complete s l frame rest hc fun s' => ih s' rest (by omega)
  exact hbounded (l.length + 1) s l (by omega)

/-- A complete frame is cut off the same way whatever follows. -/
theorem cut_append {s : σ} {l frame rest : List β} (x : List β)
    (h : F.cut s l = some (frame, rest)) : F.cut s (l ++ x) = some (frame, rest ++ x) := by
  obtain ⟨n, hn, hle, rfl, rfl⟩ := cut_eq_some_iff.mp h
  refine cut_eq_some_iff.mpr ⟨n, F.frameLen_append x hn, ?_, ?_, ?_⟩
  · rw [List.length_append]
    omega
  · exact List.take_append_of_le_length hle
  · exact List.drop_append_of_le_length hle

/-- What is left unread is an accepted part of a frame. -/
theorem unfinished_of_read {s s' : σ} {l pending : List β} {as : List α}
    (h : F.read s l = some (as, s', pending)) :
    F.cut s' pending = none ∧ F.accepts s' pending = true := by
  induction s, l using F.read_induction generalizing as with
  | incomplete s l hc =>
      rw [read_of_incomplete hc] at h
      split at h
      · obtain ⟨rfl, rfl, rfl⟩ : [] = as ∧ s = s' ∧ l = pending := by simpa using h
        exact ⟨hc, by assumption⟩
      · cases h
  | complete s l frame rest hc ih =>
      rw [read_of_cut hc] at h
      cases hd : F.decode s frame with
      | none => simp [hd] at h
      | some r =>
          obtain ⟨a, s₁⟩ := r
          simp only [hd, Option.bind_eq_bind, Option.bind_some, Option.bind_eq_some_iff] at h
          obtain ⟨⟨tail, s₂, pending₂⟩, htail, heq⟩ := h
          obtain ⟨-, rfl, rfl⟩ : a :: tail = as ∧ s₂ = s' ∧ pending₂ = pending := by
            simpa using heq
          exact ih s₁ htail

/-- **A stream may be read in parts.** Reading on from the phase and the unfinished
frame of the first part is reading the whole. -/
theorem read_append (s : σ) (l x : List β) :
    F.read s (l ++ x) =
      (F.read s l).bind fun r =>
        (F.read r.2.1 (r.2.2 ++ x)).map fun q => (r.1 ++ q.1, q.2) := by
  induction s, l using F.read_induction with
  | incomplete s l hc =>
      rw [read_of_incomplete hc]
      by_cases ha : F.accepts s l = true
      · simp [ha]
      · have hnone : F.read s (l ++ x) = none := by
          by_contra hsome
          have hisSome := Option.isSome_iff_ne_none.mpr hsome
          exact ha (accepts_of_read (fun n hn => Nat.le_of_lt (cut_eq_none_iff.mp hc n hn)) hisSome)
        simp [ha, hnone]
  | complete s l frame rest hc ih =>
      rw [read_of_cut hc, read_of_cut (cut_append x hc)]
      cases hd : F.decode s frame with
      | none => rfl
      | some r =>
          obtain ⟨a, s'⟩ := r
          simp only [Option.bind_eq_bind, Option.bind_some, ih s']
          cases hr : F.read s' rest with
          | none => rfl
          | some q =>
              obtain ⟨as, s'', pending⟩ := q
              simp only [Option.bind_some]
              cases F.read s'' (pending ++ x) <;> rfl

/-- What was read was read in two parts. -/
theorem read_append_eq_some {s s' : σ} {l x pending : List β} {as : List α}
    (h : F.read s (l ++ x) = some (as, s', pending)) :
    ∃ as₁ s₁ p as₂, F.read s l = some (as₁, s₁, p) ∧
      F.read s₁ (p ++ x) = some (as₂, s', pending) ∧ as = as₁ ++ as₂ := by
  rw [read_append, Option.bind_eq_some_iff] at h
  obtain ⟨⟨as₁, s₁, p⟩, hfirst, h⟩ := h
  obtain ⟨⟨as₂, s₂, p₂⟩, hrest, heq⟩ := Option.map_eq_some_iff.mp h
  obtain ⟨rfl, rfl, rfl⟩ : as₁ ++ as₂ = as ∧ s₂ = s' ∧ p₂ = pending := by simpa using heq
  exact ⟨as₁, s₁, p, as₂, hfirst, hrest, rfl⟩

/-- Complete frames hold no values only if there are none. -/
theorem read_eq_nil {s s' : σ} {l : List β} (h : F.read s l = some ([], s', [])) : l = [] := by
  cases hc : F.cut s l with
  | none =>
      rw [read_of_incomplete hc] at h
      split at h
      · exact (Prod.mk.inj (Prod.mk.inj (Option.some.inj h)).2).2
      · cases h
  | some fr =>
      obtain ⟨frame, rest⟩ := fr
      rw [read_of_cut hc] at h
      simp [Option.bind_eq_some_iff] at h

end Framing

end Grizol.Library

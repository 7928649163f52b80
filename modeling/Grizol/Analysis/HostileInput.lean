import Grizol.Analysis.StreamReading

/-!
# Bytes of any kind

The parser's functions answer with a `Result`, but most of what a peer can get wrong is
met by an `unwrap`. Every stream is read by the checked reading of `HostileInput`, and
the calls on it return exactly when that reading meets no failing frame: however the
bytes are cut into buffers, and without any other panic (no slice out of range but that
of a short LZ4 body, no subtraction below zero, no assertion).
-/

set_option autoImplicit false

namespace Grizol.Analysis

open Grizol.Library Grizol.Interface
open Grizol.Model Grizol.Model.Syncthing

variable (codec : Codec)

/-- The calls on a sequence of buffers return exactly when the checked reading of the
unfinished frame and of all their bytes meets no failing frame. The induction is on the
buffers; the reading goes on where that of the first buffer stopped. -/
theorem feedUntilErr_stateOf (bufs : List Bytes) :
    ∀ (phase : BepAuthStatus) (s : Bytes), (wireFormat codec).cut phase s = none →
      (wireFormat codec).accepts phase s = true →
      ((∃ results, (stateOf codec phase s).feedUntilErr codec bufs = .ok results) ↔
        ((checkedFormat codec).read (some phase) (s ++ bufs.flatten)).isSome = true) := by
  induction bufs with
  | nil =>
      intro phase s hcut hacc
      have hcut' : (checkedFormat codec).cut (some phase) s = none := hcut
      have hread : (checkedFormat codec).read (some phase) s = some ([], some phase, s) := by
        rw [Framing.read_of_incomplete hcut']
        exact if_pos hacc
      rw [List.flatten_nil, List.append_nil, hread]
      exact iff_of_true ⟨[], rfl⟩ rfl
  | cons buf bufs ih =>
      intro phase s hcut hacc
      have hloop := parseLoop_stateOf codec buf buf.length phase s 0 [] (by omega)
        (Nat.zero_le _) hcut hacc
      rw [List.drop_zero] at hloop
      rw [List.flatten_cons, ← List.append_assoc, Framing.read_append]
      unfold BepDataParser.feedUntilErr BepDataParser.parseIncomingData
      cases hread : (checkedFormat codec).read (some phase) (s ++ buf) with
      | none =>
          rw [hread] at hloop
          obtain ⟨fault, hfault⟩ := hloop
          simp [hfault]
      | some r =>
          obtain ⟨outcomes, phase', pending⟩ := r
          rw [hread] at hloop
          cases phase' with
          | none =>
              obtain ⟨p, e, herror⟩ := hloop
              simp [herror, read_refused]
          | some phase' =>
              obtain ⟨messages, -, hok⟩ := hloop
              obtain ⟨hcut', hacc'⟩ := Framing.unfinished_of_read hread
              have hrest := ih phase' pending hcut' hacc'
              simp only [hok, Rust.ok_bind, Option.bind_some, Option.isSome_map, ← hrest,
                Rust.pure_eq_ok]
              constructor
              · rintro ⟨results, hresults⟩
                obtain ⟨rest, hrun, -⟩ := Rust.bind_eq_ok.mp hresults
                exact ⟨rest, hrun⟩
              · rintro ⟨rest, hrun⟩
                exact ⟨_, by rw [hrun]; rfl⟩

/-- **The parser survives exactly the tolerated streams.** Whatever bytes are handed to
a fresh parser, in whatever buffers, every call up to and including the first that
returns an error returns if and only if the stream is tolerated. -/
theorem feedUntilErr_returns_iff (bufs : List Bytes) :
    (∃ results, BepDataParser.new.feedUntilErr codec bufs = .ok results) ↔
      Tolerated codec bufs.flatten := by
  rw [new_eq_stateOf codec]
  exact feedUntilErr_stateOf codec bufs .preHello [] (cut_nil codec .preHello) rfl

/-- A Hello frame whose one byte is no field. -/
def malformedHello : Bytes := [0x2e, 0xa7, 0xd9, 0x0b, 0, 1, 0xff]

/-- A hello whose body is malformed is a panic. -/
theorem malformedHello_panics :
    ¬ ∀ bufs : List Bytes,
      ∃ results, BepDataParser.new.feedUntilErr shortMessages bufs = .ok results := by
  intro hreturns
  obtain ⟨results, hresults⟩ := hreturns [malformedHello]
  have hpanics : BepDataParser.new.feedUntilErr shortMessages [malformedHello] =
      .error .unwrap := by decide +kernel
  rw [hpanics] at hresults
  cases hresults

end Grizol.Analysis

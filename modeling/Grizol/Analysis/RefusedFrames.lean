import Grizol.Analysis.StreamReading
import Grizol.Interface.RefusedFrames

/-!
# What a refused frame takes with it

The loop over a buffer keeps the messages it has completed in a vector of its own, and
returns an error without them. So the messages that came in the same buffer as the last
byte of a refused frame are lost, and all are delivered exactly when none did: when a
buffer starts at the refused frame or inside it.
-/

set_option autoImplicit false

namespace Grizol.Analysis

open Grizol.Library Grizol.Interface
open Grizol.Model Grizol.Model.Syncthing

variable (codec : Codec)

section Reading

variable {phase phase' : BepAuthStatus} {bad : Bytes}

/-- The refused frame ends the checked reading. -/
theorem read_refusedFrame (h : RefusedFrame codec phase bad) :
    (checkedFormat codec).read (some phase) bad = some ([none], none, []) := by
  have hlen : (checkedFormat codec).frameLen (some phase) bad = some bad.length := h.complete
  have hdecode : (checkedFormat codec).decode (some phase) bad = some (none, none) := by
    show (checkFrame codec phase bad).map _ = _
    rw [h.refused]
    rfl
  have hread := Framing.read_of_complete [] hlen
  rw [List.append_nil, hdecode] at hread
  simpa [read_refused] using hread

/-- Before its last byte it is an unfinished frame. -/
theorem unfinished_refusedFrame {s x : Bytes} (h : RefusedFrame codec phase (s ++ x))
    (hx : x ≠ []) : (wireFormat codec).cut phase s = none ∧
      (wireFormat codec).accepts phase s = true := by
  constructor
  · refine Framing.cut_eq_none_iff.mpr fun n hn => ?_
    have hlen := (wireFormat codec).frameLen_append x hn
    rw [h.complete, Option.some.injEq, List.length_append] at hlen
    have hpos := List.length_pos_iff.mpr hx
    omega
  · have hdecode : (checkedFormat codec).decode (some phase) (s ++ x) = some (none, none) := by
      show (checkFrame codec phase (s ++ x)).map _ = _
      rw [h.refused]
      rfl
    exact (checkedFormat codec).accepts_of_decode hdecode

/-- Valid frames and a refused one, read to the end. -/
theorem read_valid_refusedFrame {valid : Bytes} {messages : List CompleteMessage}
    (h : RefusedFrame codec phase' bad)
    (hvalid : (wireFormat codec).read phase valid = some (messages, phase', [])) :
    (checkedFormat codec).read (some phase) (valid ++ bad) =
      some (messages.map some ++ [none], none, []) := by
  rw [Framing.read_append, checkedFormat_read_of_read codec hvalid, Option.bind_some,
    List.nil_append, read_refusedFrame codec h, Option.map_some]

/-- Something of them is still to be read when no frame is complete. -/
theorem unread_of_cut {s x valid : Bytes} {messages : List CompleteMessage}
    (h : RefusedFrame codec phase' bad)
    (hvalid : (wireFormat codec).read phase valid = some (messages, phase', []))
    (hcut : (wireFormat codec).cut phase s = none) (hsplit : s ++ x = valid ++ bad) : x ≠ [] := by
  rintro rfl
  have hread := read_valid_refusedFrame codec h hvalid
  have hcut' : (checkedFormat codec).cut (some phase) s = none := hcut
  rw [← hsplit, List.append_nil, Framing.read_of_incomplete hcut'] at hread
  split at hread
  · simp at hread
  · cases hread

/-- A part of valid frames and a refused one, up to before the last byte of that: the frames
that are complete are valid ones, and others are still to come. -/
theorem read_part_of_refusedFrame {valid l x : Bytes} {messages : List CompleteMessage}
    (h : RefusedFrame codec phase' bad)
    (hvalid : (wireFormat codec).read phase valid = some (messages, phase', []))
    (hsplit : l ++ x = valid ++ bad) (hx : x ≠ []) :
    ∃ first phase₁ s₁ valid₁ rest,
      (wireFormat codec).read phase l = some (first, phase₁, s₁) ∧
      s₁ ++ x = valid₁ ++ bad ∧
      (wireFormat codec).read phase₁ valid₁ = some (rest, phase', []) ∧
      messages = first ++ rest ∧ l.length + valid₁.length = valid.length + s₁.length := by
  rcases List.append_eq_append_iff.mp hsplit with ⟨more, rfl, rfl⟩ | ⟨part, rfl, rfl⟩
  · -- the part ends within the valid frames
    obtain ⟨first, phase₁, s₁, rest, hfirst, hrest, hmessages⟩ :=
      Framing.read_append_eq_some hvalid
    refine ⟨first, phase₁, s₁, s₁ ++ more, rest, hfirst, ?_, hrest, hmessages, ?_⟩
    · rw [List.append_assoc]
    · simp only [List.length_append]
      omega
  · -- it ends within the refused one
    obtain ⟨hcut, hacc⟩ := unfinished_refusedFrame codec h hx
    have hnil : (wireFormat codec).read phase' [] = some ([], phase', []) := by
      have hacc' := (wireFormat codec).accepts_of_append (l := []) hacc
      rw [Framing.read_of_incomplete (cut_nil codec phase'), if_pos hacc']
    refine ⟨messages, phase', part, [], [], ?_, rfl, hnil, (List.append_nil messages).symm, ?_⟩
    · rw [Framing.read_append, hvalid, Option.bind_some, List.nil_append,
        Framing.read_of_incomplete hcut, if_pos hacc, Option.map_some, List.append_nil]
    · simp only [List.length_append, List.length_nil]
      omega

/-- The start of valid frames that has no complete one goes beyond them only if there are
none. -/
theorem valid_length_le_iff {s x valid : Bytes} {messages : List CompleteMessage}
    (hcut : (wireFormat codec).cut phase s = none) (hsplit : s ++ x = valid ++ bad)
    (hvalid : (wireFormat codec).read phase valid = some (messages, phase', [])) :
    valid.length ≤ s.length ↔ messages = [] := by
  constructor
  · intro hle
    have hprefix : valid <+: s :=
      List.prefix_of_prefix_length_le ⟨bad, hsplit.symm⟩ ⟨x, rfl⟩ hle
    obtain ⟨y, rfl⟩ := hprefix
    cases hcut' : (wireFormat codec).cut phase valid with
    | some fr =>
        rw [Framing.cut_append y hcut'] at hcut
        cases hcut
    | none =>
        rw [Framing.read_of_incomplete hcut'] at hvalid
        split at hvalid
        · exact (Prod.mk.inj (Option.some.inj hvalid)).1.symm
        · cases hvalid
  · rintro rfl
    rw [Framing.read_eq_nil hvalid]
    exact Nat.zero_le _

end Reading

section Delivering

variable {phase phase' : BepAuthStatus} {s buf : Bytes} {bufs : List Bytes}

/-- A buffer that meets a refused frame gives the error only. -/
theorem feedUntilErr_of_refused {outcomes : List (Option CompleteMessage)} {pending : Bytes}
    (hcut : (wireFormat codec).cut phase s = none)
    (hacc : (wireFormat codec).accepts phase s = true)
    (hread : (checkedFormat codec).read (some phase) (s ++ buf) = some (outcomes, none, pending)) :
    ∃ e, (stateOf codec phase s).feedUntilErr codec (buf :: bufs) = .ok [.error e] := by
  have hloop := parseLoop_stateOf codec buf buf.length phase s 0 [] (by omega)
    (Nat.zero_le _) hcut hacc
  rw [List.drop_zero, hread] at hloop
  obtain ⟨p, e, herror⟩ := hloop
  refine ⟨e, ?_⟩
  rw [BepDataParser.feedUntilErr, BepDataParser.parseIncomingData, herror]
  rfl

/-- So no messages before it were to be delivered. -/
theorem deliversBeforeErr_of_refused {outcomes : List (Option CompleteMessage)} {pending : Bytes}
    {messages : List CompleteMessage} (hcut : (wireFormat codec).cut phase s = none)
    (hacc : (wireFormat codec).accepts phase s = true)
    (hread : (checkedFormat codec).read (some phase) (s ++ buf) = some (outcomes, none, pending)) :
    DeliversBeforeErr codec (stateOf codec phase s) (buf :: bufs) messages ↔ messages = [] := by
  have hrefused : ∃ e, (stateOf codec phase s).feedUntilErr codec (buf :: bufs) = .ok [.error e] :=
    feedUntilErr_of_refused codec hcut hacc hread
  obtain ⟨e, herror⟩ := hrefused
  constructor
  · rintro ⟨delivered, e', hfeed, rfl⟩
    have hlist := Except.ok.inj (hfeed.symm.trans herror)
    cases delivered with
    | nil => rfl
    | cons d delivered => simp at hlist
  · rintro rfl
    exact ⟨[], e, herror, rfl⟩

/-- A buffer that meets none gives its messages, and the next calls go on. -/
theorem feedUntilErr_of_read {first : List CompleteMessage} {s₁ : Bytes}
    (hcut : (wireFormat codec).cut phase s = none)
    (hacc : (wireFormat codec).accepts phase s = true)
    (hread : (wireFormat codec).read phase (s ++ buf) = some (first, phase', s₁)) :
    (stateOf codec phase s).feedUntilErr codec (buf :: bufs) =
      ((stateOf codec phase' s₁).feedUntilErr codec bufs).map fun results =>
        .ok first :: results := by
  have hloop := parseLoop_stateOf codec buf buf.length phase s 0 [] (by omega)
    (Nat.zero_le _) hcut hacc
  rw [List.drop_zero, checkedFormat_read_of_read codec hread] at hloop
  obtain ⟨messages, hmap, hok⟩ := hloop
  obtain rfl : first = messages := List.map_injective_iff.mpr (Option.some_injective _) hmap
  rw [BepDataParser.feedUntilErr, BepDataParser.parseIncomingData, hok]
  simp only [Rust.ok_bind, List.nil_append]
  rfl

/-- So the messages of the first buffer come first. -/
theorem deliversBeforeErr_cons {first rest : List CompleteMessage} {s₁ : Bytes}
    (hcut : (wireFormat codec).cut phase s = none)
    (hacc : (wireFormat codec).accepts phase s = true)
    (hread : (wireFormat codec).read phase (s ++ buf) = some (first, phase', s₁)) :
    DeliversBeforeErr codec (stateOf codec phase s) (buf :: bufs) (first ++ rest) ↔
      DeliversBeforeErr codec (stateOf codec phase' s₁) bufs rest := by
  unfold DeliversBeforeErr
  rw [feedUntilErr_of_read codec hcut hacc hread]
  constructor
  · rintro ⟨delivered, e, hfeed, hflat⟩
    cases hrest : (stateOf codec phase' s₁).feedUntilErr codec bufs with
    | error fault =>
        rw [hrest] at hfeed
        cases hfeed
    | ok results =>
        rw [hrest] at hfeed
        have hlist := Except.ok.inj hfeed
        cases delivered with
        | nil => simp at hlist
        | cons d delivered =>
            simp only [List.map_cons, List.cons_append, List.cons.injEq, Except.ok.injEq] at hlist
            obtain ⟨rfl, rfl⟩ := hlist
            exact ⟨delivered, e, rfl, List.append_cancel_left hflat⟩
  · rintro ⟨delivered, e, hfeed, rfl⟩
    exact ⟨first :: delivered, e, by rw [hfeed]; rfl, rfl⟩

end Delivering

/-- The calls from the state of an unfinished frame, which is the start of valid frames and a
refused one. The induction is on the buffers; one that does not reach the end of the refused
frame leaves the state of the frame then unfinished, with fewer valid frames to come. -/
theorem deliversBeforeErr_stateOf (bufs : List Bytes) :
    ∀ (phase phase' : BepAuthStatus) (s valid bad : Bytes) (messages : List CompleteMessage),
      (wireFormat codec).cut phase s = none → (wireFormat codec).accepts phase s = true →
      s ++ bufs.flatten = valid ++ bad →
      (wireFormat codec).read phase valid = some (messages, phase', []) →
      RefusedFrame codec phase' bad →
      (DeliversBeforeErr codec (stateOf codec phase s) bufs messages ↔
        ∃ n, valid.length ≤ s.length + (bufs.take n).flatten.length ∧
          s.length + (bufs.take n).flatten.length < (valid ++ bad).length) := by
  induction bufs with
  | nil =>
      intro phase phase' s valid bad messages hcut hacc hsplit hvalid hbad
      -- the refused frame is complete, so there is a complete frame
      exact absurd rfl (unread_of_cut codec hbad hvalid hcut hsplit)
  | cons buf bufs ih =>
      intro phase phase' s valid bad messages hcut hacc hsplit hvalid hbad
      rw [List.flatten_cons, ← List.append_assoc] at hsplit
      have hlength := congrArg List.length hsplit
      rw [List.length_append] at hlength
      by_cases hlast : bufs.flatten = []
      · -- the refused frame ends in this buffer
        rw [hlast, List.append_nil] at hsplit
        have hbuf := unread_of_cut codec hbad hvalid hcut hsplit
        have hread := read_valid_refusedFrame codec hbad hvalid
        rw [← hsplit] at hread
        rw [deliversBeforeErr_of_refused codec hcut hacc hread,
          ← valid_length_le_iff codec hcut hsplit hvalid]
        constructor
        · intro hle
          refine ⟨0, hle, ?_⟩
          have hpos := List.length_pos_iff.mpr hbuf
          rw [← hsplit]
          simp only [List.take_zero, List.flatten_nil, List.length_nil, List.length_append]
          omega
        · rintro ⟨n, hle, hlt⟩
          cases n with
          | zero => exact hle
          | succ n =>
              have hall : ((buf :: bufs).take (n + 1)).flatten = buf := by
                rw [List.take_succ_cons, List.flatten_cons, List.flatten_eq_nil_iff.mpr,
                  List.append_nil]
                exact fun b hb => List.flatten_eq_nil_iff.mp hlast b (List.mem_of_mem_take hb)
              rw [hall, ← hsplit, List.length_append] at hlt
              exact absurd hlt (lt_irrefl _)
      · obtain ⟨first, phase₁, s₁, valid₁, rest, hread, hsplit₁, hvalid₁, rfl, hlen⟩ :=
          read_part_of_refusedFrame codec hbad hvalid hsplit hlast
        obtain ⟨hcut₁, hacc₁⟩ := Framing.unfinished_of_read hread
        rw [deliversBeforeErr_cons codec hcut hacc hread,
          ih phase₁ phase' s₁ valid₁ bad rest hcut₁ hacc₁ hsplit₁ hvalid₁ hbad]
        have hlast' := List.length_pos_iff.mpr hlast
        simp only [List.length_append] at hlen hlength ⊢
        constructor
        · rintro ⟨n, hle, hlt⟩
          refine ⟨n + 1, ?_, ?_⟩ <;>
            rw [List.take_succ_cons, List.flatten_cons, List.length_append] <;> omega
        · rintro ⟨n, hle, hlt⟩
          cases n with
          | zero =>
              rw [List.take_zero, List.flatten_nil, List.length_nil] at hle
              exact ⟨0, by rw [List.take_zero, List.flatten_nil, List.length_nil]; omega⟩
          | succ n =>
              rw [List.take_succ_cons, List.flatten_cons, List.length_append] at hle hlt
              exact ⟨n, by omega, by omega⟩

/-- **When a refused frame takes no messages with it.** Of complete valid frames and a frame
that the parser refuses, in whatever buffers they come, the caller gets exactly the messages
of the valid ones before the error if and only if a buffer starts at the refused frame or
inside it. -/
theorem deliversBeforeErr_iff (valid bad : Bytes) (bufs : List Bytes)
    (messages : List CompleteMessage) (phase : BepAuthStatus)
    (hvalid : ValidFrames codec valid messages phase) (hbad : RefusedFrame codec phase bad)
    (hbufs : bufs.flatten = valid ++ bad) :
    DeliversBeforeErr codec .new bufs messages ↔ CutAtRefused valid bad bufs := by
  rw [new_eq_stateOf codec, deliversBeforeErr_stateOf codec bufs .preHello phase [] valid bad
    messages (cut_nil codec .preHello) rfl hbufs hvalid hbad]
  simp only [List.length_nil, Nat.zero_add, CutAtRefused]

/-! ## A refused frame in the buffer of a valid one -/

section Example

/-- A Hello frame. -/
def emptyHello : Bytes := [0x2e, 0xa7, 0xd9, 0x0b, 0, 0]

/-- A frame whose body is no cluster config. -/
def malformedConfig : Bytes := [0, 0, 0, 0, 0, 1, 0xff]

/-- The empty hello is a valid stream. -/
theorem validFrames_emptyHello :
    ValidFrames shortMessages emptyHello [.hello {}] .postHello := by
  unfold ValidFrames
  decide +kernel

/-- The malformed config is refused. -/
theorem refusedFrame_malformedConfig : RefusedFrame shortMessages .postHello malformedConfig :=
  ⟨by decide, by decide⟩

/-- A buffer that starts inside the refused frame saves the Hello. -/
theorem deliversBeforeErr_cut :
    DeliversBeforeErr shortMessages .new [emptyHello ++ [0], [0, 0, 0, 0, 1], [0xff]]
      [.hello {}] := by
  refine (deliversBeforeErr_iff shortMessages emptyHello malformedConfig _ _ .postHello
    validFrames_emptyHello refusedFrame_malformedConfig rfl).mpr ?_
  exact ⟨1, by decide, by decide⟩

/-- In one buffer with the refused frame it is lost. -/
theorem hello_lost :
    ¬ ∀ (valid bad : Bytes) (bufs : List Bytes) (messages : List CompleteMessage)
      (phase : BepAuthStatus), ValidFrames shortMessages valid messages phase →
      RefusedFrame shortMessages phase bad → bufs.flatten = valid ++ bad →
      DeliversBeforeErr shortMessages .new bufs messages := by
  intro hall
  obtain ⟨delivered, e, hfeed, hflat⟩ := hall emptyHello malformedConfig
    [emptyHello ++ malformedConfig] [.hello {}] .postHello validFrames_emptyHello
    refusedFrame_malformedConfig rfl
  have hlost : (BepDataParser.new.feedUntilErr shortMessages
      [emptyHello ++ malformedConfig]).map List.length = .ok 1 := by
    decide +kernel
  rw [hfeed] at hlost
  have hone := Except.ok.inj hlost
  rw [List.length_append, List.length_map, List.length_singleton] at hone
  obtain rfl : delivered = [] := List.eq_nil_of_length_eq_zero (by omega)
  cases hflat

end Example

end Grizol.Analysis

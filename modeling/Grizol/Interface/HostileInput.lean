import Grizol.Interface.WireFormat

/-!
# Input no peer is bound to

What the parser makes of bytes that need not be well formed, again without buffers or
partial states. A complete frame has one of three outcomes: it holds a message, it is
refused with an error (a Hello frame without the magic number, a body that is no
message of its type), or it is one on which an `unwrap` fails: a Hello whose body does
not decode, a message of an unknown type, an LZ4 body that is too short for its
decompressed size or does not decompress. A header that does not decode fails as soon
as its last byte is there.

`checkedFormat` is the wire format with these outcomes. Nothing is read after the
first refused frame. A stream is `Tolerated` when the reading meets no failing frame.
-/

set_option autoImplicit false

namespace Grizol.Interface

open Grizol.Library
open Grizol.Model Grizol.Model.Syncthing

variable (codec : Codec)

/-- The outcome of a complete Hello frame: its message, `some none` when it is
refused, `none` when its body does not decode. -/
def checkHelloFrame (frame : Bytes) : Option (Option CompleteMessage) :=
  if frame.take 4 = [0x2e, 0xa7, 0xd9, 0x0b] then
    (codec.decodeHello (frame.drop 6)).toOption.map fun hello => some (.hello hello)
  else some none

/-- The outcome of a complete frame after the Hello. -/
def checkMessageFrame (frame : Bytes) : Option (Option CompleteMessage) := do
  let header ← decodeFrameHeader codec frame
  let raw ← frameBody codec header (frame.drop (2 + headerLen frame + 4))
  let type ← MessageType.ofInt32 header.type
  some (decodeBody codec type raw).toOption

/-- The outcome of a complete frame. -/
def checkFrame : BepAuthStatus → Bytes → Option (Option CompleteMessage)
  | .preHello, frame => checkHelloFrame codec frame
  | .postHello, frame => checkMessageFrame codec frame

/-- A refused frame is the last one read. -/
def phaseAfter : Option CompleteMessage → Option BepAuthStatus
  | some _ => some .postHello
  | none => none

/-- A frame that is checked has a header that decodes. -/
theorem header_of_check {frame : Bytes} {outcome : Option CompleteMessage}
    (h : checkMessageFrame codec frame = some outcome) :
    (decodeFrameHeader codec frame).isSome = true := by
  obtain ⟨header, hheader, -⟩ := Option.bind_eq_some_iff.mp h
  exact Option.isSome_of_eq_some hheader

/-- The wire format with the outcomes of its frames; there is no phase after a refused
frame. -/
def checkedFormat : Framing (Option BepAuthStatus) UInt8 (Option CompleteMessage) where
  frameLen
    | some phase, s => (wireFormat codec).frameLen phase s
    | none, _ => none
  decode
    | some phase, frame => (checkFrame codec phase frame).map fun o => (o, phaseAfter o)
    | none, _ => none
  accepts
    | some phase, s => (wireFormat codec).accepts phase s
    | none, _ => true
  frameLen_pos := by
    intro phase s n h
    cases phase with
    | none => cases h
    | some phase => exact (wireFormat codec).frameLen_pos h
  frameLen_append := by
    intro phase s n x h
    cases phase with
    | none => cases h
    | some phase => exact (wireFormat codec).frameLen_append x h
  frameLen_take := by
    intro phase s n h hle
    cases phase with
    | none => cases h
    | some phase => exact (wireFormat codec).frameLen_take h hle
  accepts_of_decode := by
    intro phase s x r h
    cases phase with
    | none => rfl
    | some phase =>
        cases phase with
        | preHello => rfl
        | postHello =>
            obtain ⟨outcome, houtcome, -⟩ := Option.map_eq_some_iff.mp h
            exact acceptsHeader_of_isSome codec (header_of_check codec houtcome)
  accepts_of_append := by
    intro phase s x h
    cases phase with
    | none => rfl
    | some phase => exact (wireFormat codec).accepts_of_append h

/-- Up to the first frame the parser refuses, every header received in full decodes, a
Hello frame with the magic number has a body that decodes, and every complete frame
after it has a known type and, when compressed, a body that decompresses. -/
def Tolerated (stream : Bytes) : Prop :=
  ((checkedFormat codec).read (some .preHello) stream).isSome = true

/-- A hello that decodes passes the check. -/
theorem checkHelloFrame_of_decode {frame : Bytes} {m : CompleteMessage}
    (h : decodeHelloFrame codec frame = some m) : checkHelloFrame codec frame = some (some m) := by
  unfold decodeHelloFrame at h
  unfold checkHelloFrame
  split at h
  case isFalse => cases h
  case isTrue hmagic =>
    obtain ⟨hello, hhello, rfl⟩ := Option.map_eq_some_iff.mp h
    rw [if_pos hmagic, hhello, Option.map_some]

/-- A frame that decodes passes the check. -/
theorem checkMessageFrame_of_decode {frame : Bytes} {m : CompleteMessage}
    (h : decodeMessageFrame codec frame = some m) :
    checkMessageFrame codec frame = some (some m) := by
  simp only [decodeMessageFrame, Option.bind_eq_bind, Option.bind_eq_some_iff] at h
  obtain ⟨header, hheader, raw, hraw, type, htype, hm⟩ := h
  simp only [checkMessageFrame, hheader, hraw, htype, Option.bind_eq_bind, Option.bind_some, hm]

/-- The frames that decode have a message as their outcome. -/
theorem checkFrame_of_decode {phase phase' : BepAuthStatus} {frame : Bytes} {m : CompleteMessage}
    (h : (wireFormat codec).decode phase frame = some (m, phase')) :
    checkFrame codec phase frame = some (some m) ∧ phase' = .postHello := by
  cases phase with
  | preHello =>
      obtain ⟨m', hm, hpair⟩ := Option.map_eq_some_iff.mp h
      obtain ⟨rfl, rfl⟩ := Prod.mk.inj hpair
      exact ⟨checkHelloFrame_of_decode codec hm, rfl⟩
  | postHello =>
      obtain ⟨m', hm, hpair⟩ := Option.map_eq_some_iff.mp h
      obtain ⟨rfl, rfl⟩ := Prod.mk.inj hpair
      exact ⟨checkMessageFrame_of_decode codec hm, rfl⟩

/-- What the one-pass reader makes of a stream, the checked reading makes of it too. -/
theorem checkedFormat_read_of_read {phase phase' : BepAuthStatus} {stream pending : Bytes}
    {messages : List CompleteMessage}
    (h : (wireFormat codec).read phase stream = some (messages, phase', pending)) :
    (checkedFormat codec).read (some phase) stream =
      some (messages.map some, some phase', pending) := by
  induction phase, stream using (wireFormat codec).read_induction generalizing messages with
  | incomplete phase stream hcut =>
      have hcut' : (checkedFormat codec).cut (some phase) stream = none := hcut
      rw [Framing.read_of_incomplete hcut] at h
      rw [Framing.read_of_incomplete hcut']
      change (if (wireFormat codec).accepts phase stream = true then _ else _) = _
      split at h
      · obtain ⟨rfl, rfl, rfl⟩ : [] = messages ∧ phase = phase' ∧ stream = pending := by
          simpa using h
        simp [*]
      · cases h
  | complete phase stream frame rest hcut ih =>
      have hcut' : (checkedFormat codec).cut (some phase) stream = some (frame, rest) := hcut
      rw [Framing.read_of_cut hcut] at h
      cases hd : (wireFormat codec).decode phase frame with
      | none => simp [hd] at h
      | some r =>
          obtain ⟨m, phase₁⟩ := r
          simp only [hd, Option.bind_eq_bind, Option.bind_some, Option.bind_eq_some_iff] at h
          obtain ⟨⟨tail, phase₂, pending₂⟩, htail, heq⟩ := h
          obtain ⟨rfl, rfl, rfl⟩ : m :: tail = messages ∧ phase₂ = phase' ∧
              pending₂ = pending := by simpa using heq
          obtain ⟨hcheck, rfl⟩ := checkFrame_of_decode codec hd
          have hd' : (checkedFormat codec).decode (some phase) frame =
              some (some m, some .postHello) := by
            show (checkFrame codec phase frame).map _ = _
            rw [hcheck]
            rfl
          rw [Framing.read_of_cut hcut', hd']
          simp [ih .postHello htail]

end Grizol.Interface

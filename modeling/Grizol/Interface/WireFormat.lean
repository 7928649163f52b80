import Grizol.Library.Framing
import Grizol.Model.BepDataParser

/-!
# The wire format, read in one pass

What a peer's byte stream means, stated without buffers or partial states: one
Hello frame (4 magic bytes, a big-endian `u16` length, the body), then frames of a
`u16` header length, the header, a `u32` body length and the body, whose body is
an LZ4 block behind its decompressed size when the header says so.

`wireFormat` is this format as a `Framing`; `readStream` is its one-pass reader
from the start of a connection. It answers `none` when a header or frame that has
been received completely does not decode.
-/

set_option autoImplicit false

namespace Grizol.Interface

open Grizol.Library
open Grizol.Model Grizol.Model.Syncthing

/-- The length of the Hello frame, known from its sixth byte on. -/
def helloFrameLen (s : Bytes) : Option ℕ :=
  if 6 ≤ s.length then some (6 + ofBe ((s.drop 4).take 2)) else none

/-- The length of the header of a frame. -/
def headerLen (s : Bytes) : ℕ := ofBe (s.take 2)

/-- The length of a frame after the Hello, known from its body length on. -/
def messageFrameLen (s : Bytes) : Option ℕ :=
  if 2 ≤ s.length ∧ 2 + headerLen s + 4 ≤ s.length then
    some (2 + headerLen s + 4 + ofBe ((s.drop (2 + headerLen s)).take 4))
  else none

variable (codec : Codec)

/-- The message of a complete Hello frame. -/
def decodeHelloFrame (frame : Bytes) : Option CompleteMessage :=
  if frame.take 4 = [0x2e, 0xa7, 0xd9, 0x0b] then
    (codec.decodeHello (frame.drop 6)).toOption.map .hello
  else none

/-- The header of a frame whose header bytes are all there. -/
def decodeFrameHeader (frame : Bytes) : Option Header :=
  (codec.decodeHeader ((frame.drop 2).take (headerLen frame))).toOption

/-- The uncompressed body of a frame. -/
def frameBody (header : Header) (body : Bytes) : Option Bytes :=
  if header.compression = 1 then
    if 4 ≤ body.length then
      (codec.decompress (body.drop 4) (ofBe (body.take 4))).toOption
    else none
  else some body

/-- The message of a complete frame after the Hello. -/
def decodeMessageFrame (frame : Bytes) : Option CompleteMessage := do
  let header ← decodeFrameHeader codec frame
  let raw ← frameBody codec header (frame.drop (2 + headerLen frame + 4))
  let type ← MessageType.ofInt32 header.type
  (decodeBody codec type raw).toOption

/-- A header that has been received completely must decode. -/
def acceptsHeader (s : Bytes) : Bool :=
  if 2 ≤ s.length ∧ 2 + headerLen s ≤ s.length then (decodeFrameHeader codec s).isSome else true

/-- The length of the header is in the first two bytes. -/
theorem headerLen_append {s : Bytes} (h : 2 ≤ s.length) (x : Bytes) :
    headerLen (s ++ x) = headerLen s := by
  simp [headerLen, List.take_append_of_le_length h]

/-- The same of a stream that is cut behind them. -/
theorem headerLen_take {s : Bytes} {n : ℕ} (h : 2 ≤ n) : headerLen (s.take n) = headerLen s := by
  simp [headerLen, List.take_take, h]

/-- What follows a hello does not change its length. -/
theorem helloFrameLen_append {s : Bytes} {n : ℕ} (x : Bytes) (h : helloFrameLen s = some n) :
    helloFrameLen (s ++ x) = some n := by
  unfold helloFrameLen at h ⊢
  split at h
  case isFalse => cases h
  case isTrue hlen =>
    have htake : ((s ++ x).drop 4).take 2 = (s.drop 4).take 2 := by
      rw [List.drop_append_of_le_length (by omega),
        List.take_append_of_le_length (by rw [List.length_drop]; omega)]
    rw [htake, if_pos (by rw [List.length_append]; omega)]
    exact h

/-- The length of a hello is known from the hello alone. -/
theorem helloFrameLen_take {s : Bytes} {n : ℕ} (h : helloFrameLen s = some n)
    (hle : n ≤ s.length) : helloFrameLen (s.take n) = some n := by
  unfold helloFrameLen at h ⊢
  split at h
  case isFalse => cases h
  case isTrue hlen =>
    have hn := Option.some.inj h
    have htake : ((s.take n).drop 4).take 2 = (s.drop 4).take 2 := by
      rw [List.drop_take, List.take_take, Nat.min_eq_left (by omega)]
    rw [htake, if_pos (by rw [List.length_take]; omega)]
    exact h

/-- What follows a frame does not change its length. -/
theorem messageFrameLen_append {s : Bytes} {n : ℕ} (x : Bytes) (h : messageFrameLen s = some n) :
    messageFrameLen (s ++ x) = some n := by
  unfold messageFrameLen at h ⊢
  split at h
  case isFalse => cases h
  case isTrue hlen =>
    have htake : ((s ++ x).drop (2 + headerLen s)).take 4 =
        (s.drop (2 + headerLen s)).take 4 := by
      rw [List.drop_append_of_le_length (by omega),
        List.take_append_of_le_length (by rw [List.length_drop]; omega)]
    rw [headerLen_append hlen.1, htake, if_pos (by rw [List.length_append]; omega)]
    exact h

/-- The length of a frame is known from the frame alone. -/
theorem messageFrameLen_take {s : Bytes} {n : ℕ} (h : messageFrameLen s = some n)
    (hle : n ≤ s.length) : messageFrameLen (s.take n) = some n := by
  unfold messageFrameLen at h ⊢
  split at h
  case isFalse => cases h
  case isTrue hlen =>
    have hn := Option.some.inj h
    have htake : ((s.take n).drop (2 + headerLen s)).take 4 =
        (s.drop (2 + headerLen s)).take 4 := by
      rw [List.drop_take, List.take_take, Nat.min_eq_left (by omega)]
    rw [headerLen_take (by omega), htake, if_pos (by rw [List.length_take]; omega)]
    exact h

/-- The header of a frame does not depend on what follows it. -/
theorem decodeFrameHeader_append {s : Bytes} (h : 2 ≤ s.length)
    (hlen : 2 + headerLen s ≤ s.length) (x : Bytes) :
    decodeFrameHeader codec (s ++ x) = decodeFrameHeader codec s := by
  unfold decodeFrameHeader
  rw [headerLen_append h, List.drop_append_of_le_length h,
    List.take_append_of_le_length (by rw [List.length_drop]; omega)]

/-- What begins like an acceptable frame is acceptable. -/
theorem acceptsHeader_append {s x : Bytes} (h : acceptsHeader codec (s ++ x) = true) :
    acceptsHeader codec s = true := by
  unfold acceptsHeader at h ⊢
  split
  case isFalse => rfl
  case isTrue hlen =>
    rw [headerLen_append hlen.1, decodeFrameHeader_append codec hlen.1 hlen.2,
      if_pos (by rw [List.length_append]; omega)] at h
    exact h

/-- The header is there as it is in the frame, or is not there yet. -/
theorem acceptsHeader_of_isSome {s x : Bytes}
    (h : (decodeFrameHeader codec (s ++ x)).isSome = true) : acceptsHeader codec s = true := by
  unfold acceptsHeader
  split
  case isFalse => rfl
  case isTrue hlen =>
    rw [← decodeFrameHeader_append codec hlen.1 hlen.2 x]
    exact h

/-- A frame that decodes has a header that does. -/
theorem header_of_decode {frame : Bytes} {m : CompleteMessage}
    (h : decodeMessageFrame codec frame = some m) :
    (decodeFrameHeader codec frame).isSome = true := by
  obtain ⟨header, hheader, -⟩ := Option.bind_eq_some_iff.mp h
  exact Option.isSome_of_eq_some hheader

/-- The format of one connection, in the phases before and after the Hello. -/
def wireFormat : Framing BepAuthStatus UInt8 CompleteMessage where
  frameLen
    | .preHello, s => helloFrameLen s
    | .postHello, s => messageFrameLen s
  decode
    | .preHello, frame => (decodeHelloFrame codec frame).map fun m => (m, .postHello)
    | .postHello, frame => (decodeMessageFrame codec frame).map fun m => (m, .postHello)
  accepts
    | .preHello, _ => true
    | .postHello, s => acceptsHeader codec s
  frameLen_pos := by
    intro phase s n h
    cases phase
    · simp only [helloFrameLen] at h; split at h <;> simp at h; omega
    · simp only [messageFrameLen] at h; split at h <;> simp at h; omega
  frameLen_append := by
    intro phase s n x h
    cases phase
    · exact helloFrameLen_append x h
    · exact messageFrameLen_append x h
  frameLen_take := by
    intro phase s n h hle
    cases phase
    · exact helloFrameLen_take h hle
    · exact messageFrameLen_take h hle
  accepts_of_decode := by
    intro phase s x r h
    cases phase
    · rfl
    · obtain ⟨m, hm, -⟩ := Option.map_eq_some_iff.mp h
      exact acceptsHeader_of_isSome codec (header_of_decode codec hm)
  accepts_of_append := by
    intro phase s x h
    cases phase
    · rfl
    · exact acceptsHeader_append codec h

/-- The one-pass reading of a whole connection: its messages and the bytes of its
unfinished last frame. -/
def readStream (stream : Bytes) : Option (List CompleteMessage × Bytes) :=
  ((wireFormat codec).read .preHello stream).map fun (messages, _, pending) => (messages, pending)

/-- The shape of what a connection delivers: nothing, or one Hello and then other
messages only. -/
def HelloFirst : List CompleteMessage → Prop
  | [] => True
  | m :: messages => (∃ hello, m = .hello hello) ∧ ∀ m' ∈ messages, ∀ hello, m' ≠ .hello hello

end Grizol.Interface

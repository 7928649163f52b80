import Grizol.Interface.HostileInput

/-!
# The incoming data parser refines the one-pass reader

The state of `BepDataParser` between two calls is determined by the phase and the
bytes of the unfinished frame (`stateOf`). One iteration of its loop takes at least
one byte and never reaches past the end of that frame (`populate_stateOf`), and it
decodes the frame exactly when it is complete (`completeMessage_of_complete`,
`completeMessage_of_incomplete`). The loop over one buffer and the sequence of
calls then read what the one-pass reader reads, and panic on what it rejects.
-/

set_option autoImplicit false

namespace Grizol.Analysis

open Grizol.Library Grizol.Interface
open Grizol.Model Grizol.Model.Syncthing

variable (codec : Codec)

/-- The header the parser has read from the bytes of an unfinished frame. -/
def parsedHeader : BepAuthStatus → Bytes → Option Header
  | .preHello, _ => none
  | .postHello, s =>
      if 2 ≤ s.length ∧ 2 + headerLen s ≤ s.length then decodeFrameHeader codec s else none

/-- The incoming message that holds the bytes `s` of a frame. -/
def messageOf (phase : BepAuthStatus) (s : Bytes) : IncomingMessage :=
  ⟨phase, s, parsedHeader codec phase s⟩

/-- The parser between two calls: no incoming message before the first byte of a
frame, the bytes received since then afterwards. -/
def stateOf (phase : BepAuthStatus) (s : Bytes) : BepDataParser :=
  ⟨phase, if s = [] then none else some (messageOf codec phase s)⟩

/-- The bytes `s` do not reach past the end of the frame they start. -/
def Within (phase : BepAuthStatus) (s : Bytes) : Prop :=
  ∀ n, (wireFormat codec).frameLen phase s = some n → s.length ≤ n

/-- A new parser has read nothing. -/
theorem new_eq_stateOf : BepDataParser.new = stateOf codec .preHello [] := rfl

/-- The held bytes are those read of the frame. -/
theorem heldBytes_stateOf (phase : BepAuthStatus) (s : Bytes) :
    (stateOf codec phase s).heldBytes = s := by
  by_cases h : s = []
  · simp [stateOf, BepDataParser.heldBytes, h]
  · simp [stateOf, BepDataParser.heldBytes, h, messageOf]

/-- The length of the header is in its first two bytes. -/
theorem fromBeBytes_header {s : Bytes} (h : 2 ≤ s.length) :
    fromBeBytes s 0 headerStart = .ok (headerLen s) := by
  simp [fromBeBytes, headerStart, headerLen, h]

/-- A header that is there and accepted has been read. -/
theorem parsedHeader_isSome {s : Bytes} (hs : 2 ≤ s.length) (hlen : 2 + headerLen s ≤ s.length)
    (hacc : acceptsHeader codec s = true) : (parsedHeader codec .postHello s).isSome = true := by
  simp only [acceptsHeader, hs, hlen, and_self, if_true] at hacc
  simpa [parsedHeader, hs, hlen] using hacc

/-- A header that is not complete is not parsed. -/
theorem parsedHeader_eq_none {s : Bytes} (h : ¬ (2 ≤ s.length ∧ 2 + headerLen s ≤ s.length)) :
    parsedHeader codec .postHello s = none := by
  simp [parsedHeader, h]

/-- Without all header bytes there is no header to read. -/
theorem tryParseHeader_of_partial {s : Bytes}
    (h : ¬ (2 ≤ s.length ∧ 2 + headerLen s ≤ s.length)) :
    ∃ e, tryParseHeader codec s = .ok (.error e) := by
  unfold tryParseHeader
  by_cases h2 : s.length < headerStart
  · exact ⟨_, if_pos h2⟩
  · have h2' : 2 ≤ s.length := Nat.not_lt.mp h2
    rw [if_neg h2, fromBeBytes_header h2', Rust.ok_bind]
    exact ⟨_, if_pos (show s.length < 2 + headerLen s by omega)⟩

/-- With all header bytes the header is the one of the frame. -/
theorem tryParseHeader_of_full {s : Bytes} {header : Header} (h2 : 2 ≤ s.length)
    (hfull : 2 + headerLen s ≤ s.length) (hdec : decodeFrameHeader codec s = some header) :
    tryParseHeader codec s = .ok (.ok header) := by
  have hslice : Rust.slice s 2 (2 + headerLen s) = .ok ((s.drop 2).take (headerLen s)) := by
    rw [Rust.slice_of_le ⟨by omega, hfull⟩, List.drop_take]
    simp
  unfold decodeFrameHeader at hdec
  unfold tryParseHeader
  rw [if_neg (show ¬ s.length < 2 by omega), fromBeBytes_header h2, Rust.ok_bind]
  simp only [show ¬ s.length < 2 + headerLen s by omega, if_false, hslice, Rust.ok_bind, hdec,
    Rust.unwrap_some, Rust.pure_eq_ok]

/-- Appending bytes to a message that accepts them keeps its header in step. -/
theorem addData_messageOf {phase : BepAuthStatus} {s x : Bytes}
    (hacc : (wireFormat codec).accepts phase (s ++ x) = true) :
    (messageOf codec phase s).addData codec x = .ok (messageOf codec phase (s ++ x)) := by
  cases phase with
  | preHello => rfl
  | postHello =>
      change acceptsHeader codec (s ++ x) = true at hacc
      unfold IncomingMessage.addData messageOf
      by_cases hhead : 2 ≤ s.length ∧ 2 + headerLen s ≤ s.length
      · -- the header was read before and stays
        have hold : parsedHeader codec .postHello s = parsedHeader codec .postHello (s ++ x) := by
          simp only [parsedHeader]
          rw [headerLen_append hhead.1, decodeFrameHeader_append codec hhead.1 hhead.2,
            if_pos hhead, if_pos (by rw [List.length_append]; omega)]
        have hsome := parsedHeader_isSome codec hhead.1 hhead.2 (acceptsHeader_append codec hacc)
        simp [← hold, Option.isNone_eq_false_iff.mpr hsome]
      · -- the header is tried on the longer bytes
        simp only [parsedHeader_eq_none codec hhead, Option.isNone_none, if_true]
        by_cases hfull : 2 ≤ (s ++ x).length ∧ 2 + headerLen (s ++ x) ≤ (s ++ x).length
        · have hsome := parsedHeader_isSome codec hfull.1 hfull.2 hacc
          obtain ⟨header, hheader⟩ := Option.isSome_iff_exists.mp hsome
          have hdec : decodeFrameHeader codec (s ++ x) = some header := by
            simpa only [parsedHeader, if_pos hfull] using hheader
          rw [tryParseHeader_of_full codec hfull.1 hfull.2 hdec, hheader]
          rfl
        · obtain ⟨e, he⟩ := tryParseHeader_of_partial codec hfull
          rw [he, parsedHeader_eq_none codec hfull]
          rfl

/-- A header that is complete and does not decode fails as soon as it is. -/
theorem addData_of_rejected {s x : Bytes} (hacc : acceptsHeader codec s = true)
    (hrej : acceptsHeader codec (s ++ x) = false) :
    (messageOf codec .postHello s).addData codec x = .error .unwrap := by
  have hfull : 2 ≤ (s ++ x).length ∧ 2 + headerLen (s ++ x) ≤ (s ++ x).length := by
    by_contra hpart
    rw [acceptsHeader, if_neg hpart] at hrej
    cases hrej
  have hdec : decodeFrameHeader codec (s ++ x) = none := by
    simpa only [acceptsHeader, hfull, and_self, if_true, Option.isSome_eq_false_iff,
      Option.isNone_iff_eq_none] using hrej
  have hhead : ¬ (2 ≤ s.length ∧ 2 + headerLen s ≤ s.length) := by
    rintro ⟨h2, hle⟩
    simp only [acceptsHeader, h2, hle, and_self, if_true] at hacc
    rw [← decodeFrameHeader_append codec h2 hle x, hdec] at hacc
    cases hacc
  have htry : tryParseHeader codec (s ++ x) = .error .unwrap := by
    have hslice : Rust.slice (s ++ x) 2 (2 + headerLen (s ++ x)) =
        .ok (((s ++ x).drop 2).take (headerLen (s ++ x))) := by
      rw [Rust.slice_of_le ⟨by omega, hfull.2⟩, List.drop_take]
      simp
    unfold decodeFrameHeader at hdec
    unfold tryParseHeader
    rw [if_neg (show ¬ (s ++ x).length < 2 by omega), fromBeBytes_header hfull.1, Rust.ok_bind]
    simp only [show ¬ (s ++ x).length < 2 + headerLen (s ++ x) by omega, if_false, hslice,
      Rust.ok_bind, hdec]
    rfl
  unfold IncomingMessage.addData messageOf
  simp only [parsedHeader_eq_none codec hhead, Option.isNone_none, if_true, htry]
  rfl

/-! ## One iteration of the loop -/

/-- The length of a message is known once its four bytes are there. -/
theorem messageByteLen_postHello {s : Bytes} (h2 : 2 ≤ s.length)
    (hheader : (parsedHeader codec .postHello s).isSome = true) :
    (messageOf codec .postHello s).messageByteLen = .ok
      (if 2 + headerLen s + 4 ≤ s.length then
        some (ofBe ((s.drop (2 + headerLen s)).take 4)) else none) := by
  have hnone : (messageOf codec .postHello s).header.isNone = false :=
    Option.isNone_eq_false_iff.mpr hheader
  unfold IncomingMessage.messageByteLen
  simp only [hnone, Bool.false_eq_true, if_false]
  simp only [messageOf, fromBeBytes_header h2, Rust.ok_bind]
  by_cases hlen : 2 + headerLen s + 4 ≤ s.length
  · have hslice : Rust.slice s (2 + headerLen s) (2 + headerLen s + 4) =
        .ok ((s.drop (2 + headerLen s)).take 4) := by
      rw [Rust.slice_of_le ⟨by omega, hlen⟩, List.drop_take]
      simp
    simp only [headerStart, hlen, if_true, fromBeBytes, hslice, Rust.ok_bind, Rust.pure_eq_ok]
  · simp only [headerStart, hlen, if_false, Rust.pure_eq_ok]

/-- The bytes a pending message lacks are those up to the end of its frame, once
the length of the frame is known. -/
theorem missingMessageBytes_messageOf {phase : BepAuthStatus} {s : Bytes}
    (hwithin : Within codec phase s)
    (hheader : phase = .postHello → 2 ≤ s.length ∧ (parsedHeader codec phase s).isSome = true) :
    (messageOf codec phase s).missingMessageBytes = .ok
      (((wireFormat codec).frameLen phase s).map fun n => n - s.length) := by
  cases phase with
  | preHello =>
      have hw : ∀ n, helloFrameLen s = some n → s.length ≤ n := hwithin
      show (messageOf codec .preHello s).missingMessageBytes =
        .ok ((helloFrameLen s).map fun n => n - s.length)
      unfold helloFrameLen at hw ⊢
      simp only [IncomingMessage.missingMessageBytes, IncomingMessage.messageByteLen, messageOf]
      by_cases h6 : 6 ≤ s.length
      · have hle := hw _ (if_pos h6)
        have hslice : Rust.slice s 4 6 = .ok ((s.drop 4).take 2) := by
          rw [Rust.slice_of_le ⟨by omega, h6⟩, List.drop_take]
        simp only [helloStart, helloLenStart, h6, if_true, fromBeBytes, hslice, Rust.ok_bind,
          Rust.pure_eq_ok, Option.map_some]
        rw [Rust.sub_of_le (by omega)]
        simp [Nat.add_comm]
      · simp [h6]
  | postHello =>
      obtain ⟨h2, hsome⟩ := hheader rfl
      have hw : ∀ n, messageFrameLen s = some n → s.length ≤ n := hwithin
      show (messageOf codec .postHello s).missingMessageBytes =
        .ok ((messageFrameLen s).map fun n => n - s.length)
      have hlenEq := messageByteLen_postHello codec h2 hsome
      have hstart : (messageOf codec .postHello s).messageStartPos =
          .ok (some (2 + headerLen s + 4)) := by
        simp [IncomingMessage.messageStartPos, messageOf, fromBeBytes_header h2, headerStart]
      have hphase : (messageOf codec .postHello s).authStatus = .postHello := rfl
      have hdata : (messageOf codec .postHello s).data = s := rfl
      unfold messageFrameLen at hw ⊢
      simp only [IncomingMessage.missingMessageBytes, hphase, hdata, hstart, hlenEq, Rust.ok_bind]
      by_cases hlen : 2 + headerLen s + 4 ≤ s.length
      · have hle := hw _ (if_pos ⟨h2, hlen⟩)
        simp only [h2, hlen, and_self, if_true, Option.map_some]
        rw [Rust.sub_of_le (by omega)]
        simp [Nat.add_comm]
      · simp [hlen]

/-- A pending message has its header exactly from the last header byte on. -/
theorem parsedHeader_isSome_iff {s : Bytes} (hacc : acceptsHeader codec s = true) :
    (parsedHeader codec .postHello s).isSome = true ↔
      2 ≤ s.length ∧ 2 + headerLen s ≤ s.length := by
  constructor
  · intro h
    by_contra hnot
    simp [parsedHeader_eq_none codec hnot] at h
  · rintro ⟨h2, hlen⟩
    exact parsedHeader_isSome codec h2 hlen hacc

/-- A pending message reports itself complete exactly at the end of its frame. -/
theorem status_messageOf {phase : BepAuthStatus} {s : Bytes} (hwithin : Within codec phase s)
    (hacc : (wireFormat codec).accepts phase s = true) :
    (messageOf codec phase s).status = .ok
      (if (wireFormat codec).frameLen phase s = some s.length then .complete
        else .incomplete) := by
  cases phase with
  | preHello =>
      show (messageOf codec .preHello s).status = .ok
        (if helloFrameLen s = some s.length then .complete else .incomplete)
      unfold helloFrameLen
      simp only [IncomingMessage.status, IncomingMessage.messageByteLen, messageOf]
      by_cases h6 : 6 ≤ s.length
      · have hslice : Rust.slice s 4 6 = .ok ((s.drop 4).take 2) := by
          rw [Rust.slice_of_le ⟨by omega, h6⟩, List.drop_take]
        by_cases hfull : s.length = 6 + ofBe ((s.drop 4).take 2)
        · simp [h6, fromBeBytes, hslice, ← hfull]
        · simp [h6, fromBeBytes, hslice, hfull, Ne.symm hfull]
      · simp [h6]
  | postHello =>
      change acceptsHeader codec s = true at hacc
      show (messageOf codec .postHello s).status = .ok
        (if messageFrameLen s = some s.length then .complete else .incomplete)
      have hphase : (messageOf codec .postHello s).authStatus = .postHello := rfl
      have hhead : (messageOf codec .postHello s).header = parsedHeader codec .postHello s := rfl
      by_cases hsome : (parsedHeader codec .postHello s).isSome = true
      · have h2 := ((parsedHeader_isSome_iff codec hacc).mp hsome).1
        have hmissing : (messageOf codec .postHello s).missingMessageBytes =
            .ok ((messageFrameLen s).map fun n => n - s.length) :=
          missingMessageBytes_messageOf codec hwithin fun _ => ⟨h2, hsome⟩
        simp only [IncomingMessage.status, hphase, hhead, Option.isNone_eq_false_iff.mpr hsome,
          Bool.false_eq_true, if_false, hmissing, Rust.ok_bind]
        have hw : ∀ n, messageFrameLen s = some n → s.length ≤ n := hwithin
        cases hn : messageFrameLen s with
        | none => simp
        | some n =>
            have hle := hw n hn
            by_cases heq : n = s.length
            · simp [heq]
            · obtain ⟨k, hk⟩ : ∃ k, n - s.length = k + 1 := ⟨n - s.length - 1, by omega⟩
              simp [hk, heq]
      · have hnot := mt (parsedHeader_isSome_iff codec hacc).mpr hsome
        have hlen : messageFrameLen s = none := by
          unfold messageFrameLen
          rw [if_neg (by omega)]
        have hnone : parsedHeader codec .postHello s = none := parsedHeader_eq_none codec hnot
        simp [IncomingMessage.status, hphase, hhead, hnone, hlen]

/-- Only the number one stands for LZ4. -/
theorem ofInt32_eq_lz4_iff (c : Int32) :
    MessageCompression.ofInt32 c = some .lz4 ↔ c = 1 := by
  unfold MessageCompression.ofInt32
  by_cases h0 : c = 0
  · subst h0; decide
  · by_cases h1 : c = 1 <;> simp [h0, h1]

/-- What a decoder answers on a frame of the given outcome: the message, an error other
than the one for an unfinished frame, or a panic. -/
def Yields (answer : Rust (Except ParseError CompleteMessage)) :
    Option (Option CompleteMessage) → Prop
  | none => ∃ fault, answer = .error fault
  | some none => ∃ e, e ≠ .noIncomingMessageYet ∧ answer = .ok (.error e)
  | some (some m) => answer = .ok (.ok m)

/-- On a complete Hello frame `decode_hello` answers its outcome. -/
theorem decodeHello_yields {s : Bytes} (hlen : helloFrameLen s = some s.length) :
    Yields (decodeHello codec s) (checkHelloFrame codec s) := by
  unfold helloFrameLen at hlen
  split at hlen
  case isFalse => cases hlen
  case isTrue h6 =>
    have hn := Option.some.inj hlen
    unfold checkHelloFrame
    by_cases hmagic : s.take 4 = [0x2e, 0xa7, 0xd9, 0x0b]
    · have hstarts : startsWithMagicNumber s = true := by
        simp only [startsWithMagicNumber, Bool.and_eq_true, decide_eq_true_eq, beq_iff_eq]
        exact ⟨show 4 ≤ s.length by omega, hmagic⟩
      have hsize : Rust.slice s 4 6 = .ok ((s.drop 4).take 2) := by
        rw [Rust.slice_of_le ⟨by omega, h6⟩, List.drop_take]
      have hbody : Rust.slice s 6 (6 + ofBe ((s.drop 4).take 2)) = .ok (s.drop 6) := by
        rw [hn, Rust.slice_of_le ⟨h6, le_rfl⟩, List.take_length]
      simp only [decodeHello, hstarts, Bool.not_true, Bool.false_eq_true, if_false, fromBeBytes,
        hsize, Rust.ok_bind, Rust.pure_eq_ok, hbody]
      rw [if_pos hmagic]
      cases (codec.decodeHello (s.drop 6)).toOption with
      | none => exact ⟨.unwrap, rfl⟩
      | some hello => rfl
    · have hstarts : startsWithMagicNumber s = false := by
        simp only [startsWithMagicNumber, Bool.and_eq_false_iff]
        exact Or.inr (beq_eq_false_iff_ne.mpr hmagic)
      rw [if_neg hmagic]
      refine ⟨.noMagicHello, by simp, ?_⟩
      simp [decodeHello, hstarts]

/-- The last part of `decode_post_hello_message`: an unknown type is a failed `unwrap`,
a body that is no message of its type an error. -/
theorem decodeType_yields (type : Int32) (raw : Bytes) :
    Yields (do
        let type ← Rust.unwrap (MessageType.ofInt32 type)
        match decodeBody codec type raw with
        | .ok completeMessage => pure (.ok completeMessage)
        | .error e => pure (.error (.generic ("Error: " ++ e))))
      (do
        let type ← MessageType.ofInt32 type
        some (decodeBody codec type raw).toOption) := by
  cases MessageType.ofInt32 type with
  | none => exact ⟨.unwrap, rfl⟩
  | some type =>
      simp only [Rust.unwrap_some, Rust.ok_bind, Option.bind_eq_bind, Option.bind_some]
      cases decodeBody codec type raw with
      | ok m => rfl
      | error e => exact ⟨.generic ("Error: " ++ e), by simp, rfl⟩

/-- On a complete frame after the Hello whose header was read
`decode_post_hello_message` answers its outcome. -/
theorem decodePostHelloMessage_yields {s : Bytes} (hlen : messageFrameLen s = some s.length)
    (hacc : acceptsHeader codec s = true) :
    Yields (decodePostHelloMessage codec (messageOf codec .postHello s))
      (checkMessageFrame codec s) := by
  unfold messageFrameLen at hlen
  split at hlen
  case isFalse => cases hlen
  case isTrue hle =>
    have hn := Option.some.inj hlen
    have hfull : 2 + headerLen s ≤ s.length := by omega
    obtain ⟨header, hparsed⟩ :=
      Option.isSome_iff_exists.mp (parsedHeader_isSome codec hle.1 hfull hacc)
    have hheader : decodeFrameHeader codec s = some header := by
      simpa only [parsedHeader, hle.1, hfull, and_self, if_true] using hparsed
    have hstart : (messageOf codec .postHello s).messageStartPos =
        .ok (some (2 + headerLen s + 4)) := by
      simp [IncomingMessage.messageStartPos, messageOf, fromBeBytes_header hle.1, headerStart]
    have hrest : ∀ i, i ≤ s.length → Rust.slice s i s.length = .ok (s.drop i) := by
      intro i hi
      rw [Rust.slice_of_le ⟨hi, le_rfl⟩, List.take_length]
    unfold decodePostHelloMessage checkMessageFrame
    simp only [hstart, Rust.ok_bind, Rust.unwrap_some, hheader, Option.bind_eq_bind,
      Option.bind_some]
    simp only [messageOf, hparsed, Rust.ok_bind, Rust.unwrap_some]
    unfold frameBody
    by_cases hc : header.compression = 1
    · -- an LZ4 block behind its decompressed size
      simp only [hc, if_true, fromBeBytes]
      by_cases h4 : 2 + headerLen s + 4 + 4 ≤ s.length
      · have hsize : Rust.slice s (2 + headerLen s + 4) (2 + headerLen s + 4 + 4) =
            .ok ((s.drop (2 + headerLen s + 4)).take 4) := by
          rw [Rust.slice_of_le ⟨by omega, h4⟩, List.drop_take]
          simp
        have hbody : 4 ≤ (s.drop (2 + headerLen s + 4)).length := by
          rw [List.length_drop]
          omega
        rw [if_pos hbody, List.drop_drop]
        simp only [hsize, Rust.ok_bind, Rust.pure_eq_ok, hrest _ h4]
        cases (codec.decompress (s.drop (2 + headerLen s + 4 + 4))
            (ofBe ((s.drop (2 + headerLen s + 4)).take 4))).toOption with
        | none => exact ⟨.unwrap, rfl⟩
        | some raw => exact decodeType_yields codec header.type raw
      · -- too short for its decompressed size
        have hsize : Rust.slice s (2 + headerLen s + 4) (2 + headerLen s + 4 + 4) =
            .error .index := if_neg (by omega)
        have hbody : ¬ 4 ≤ (s.drop (2 + headerLen s + 4)).length := by
          rw [List.length_drop]
          omega
        rw [if_neg hbody, hsize]
        exact ⟨.index, rfl⟩
    · have hplain := mt (ofInt32_eq_lz4_iff header.compression).mp hc
      have hbody := hrest (2 + headerLen s + 4) (by omega)
      simp only [hc, if_false, Option.bind_some]
      cases hcomp : MessageCompression.ofInt32 header.compression with
      | none =>
          simp only [hbody, Rust.ok_bind]
          exact decodeType_yields codec header.type _
      | some c =>
          cases c with
          | lz4 => exact absurd hcomp hplain
          | none =>
              simp only [hbody, Rust.ok_bind]
              exact decodeType_yields codec header.type _

/-- At the end of an accepted frame the loop body answers its outcome; the phase after
the Hello begins even when it is refused. -/
theorem completeMessage_of_complete {phase : BepAuthStatus} {s : Bytes}
    (hlen : (wireFormat codec).frameLen phase s = some s.length)
    (hacc : (wireFormat codec).accepts phase s = true) :
    ∃ answer, Yields answer (checkFrame codec phase s) ∧
      BepDataParser.completeMessage codec ⟨phase, some (messageOf codec phase s)⟩ = (do
        let completeMessage ← answer
        pure (⟨.postHello, some (messageOf codec phase s)⟩, completeMessage)) := by
  have hwithin : Within codec phase s := by
    intro n hn
    rw [hlen, Option.some.injEq] at hn
    exact hn.le
  have hstatus := status_messageOf codec hwithin hacc
  refine ⟨CompleteMessage.tryFrom codec (messageOf codec phase s), ?_, ?_⟩
  · cases phase with
    | preHello => exact decodeHello_yields codec hlen
    | postHello => exact decodePostHelloMessage_yields codec hlen hacc
  · simp only [BepDataParser.completeMessage, hstatus, hlen, if_true, Rust.ok_bind]

/-- Before the end of the frame the loop body hands nothing on. -/
theorem completeMessage_of_incomplete {phase : BepAuthStatus} {s : Bytes}
    (hwithin : Within codec phase s) (hacc : (wireFormat codec).accepts phase s = true)
    (hlen : (wireFormat codec).frameLen phase s ≠ some s.length) :
    BepDataParser.completeMessage codec ⟨phase, some (messageOf codec phase s)⟩ =
      .ok (⟨phase, some (messageOf codec phase s)⟩, .error .noIncomingMessageYet) := by
  have hstatus := status_messageOf codec hwithin hacc
  simp only [BepDataParser.completeMessage, hstatus, hlen, if_false, Rust.ok_bind,
    Rust.pure_eq_ok]

/-- The bytes the parser asks for next: up to the end of the length field, header or
body it is in. -/
def want : BepAuthStatus → Bytes → ℕ
  | .preHello, s => if s.length < 6 then 6 - s.length else
      6 + ofBe ((s.drop 4).take 2) - s.length
  | .postHello, s =>
      if s.length < 2 then 2 - s.length
      else if s.length < 2 + headerLen s then 2 + headerLen s - s.length
      else if s.length < 2 + headerLen s + 4 then 2 + headerLen s + 4 - s.length
      else 2 + headerLen s + 4 + ofBe ((s.drop (2 + headerLen s)).take 4) - s.length

/-- Something is wanted as long as the frame is unfinished. -/
theorem want_pos {phase : BepAuthStatus} {s : Bytes}
    (hcut : (wireFormat codec).cut phase s = none) : 0 < want phase s := by
  have hunfinished := Framing.cut_eq_none_iff.mp hcut
  cases phase with
  | preHello =>
      change ∀ n, helloFrameLen s = some n → s.length < n at hunfinished
      simp only [want]
      split
      · omega
      · have := hunfinished _ (if_pos (by omega))
        omega
  | postHello =>
      change ∀ n, messageFrameLen s = some n → s.length < n at hunfinished
      simp only [want]
      split
      · omega
      · split
        · omega
        · split
          · omega
          · have := hunfinished _ (if_pos (by omega))
            omega

/-- Taking no more than what is wanted stays within the frame. -/
theorem within_of_le_want {phase : BepAuthStatus} {s x : Bytes}
    (hcut : (wireFormat codec).cut phase s = none) (hx : x.length ≤ want phase s) :
    Within codec phase (s ++ x) := by
  have hunfinished := Framing.cut_eq_none_iff.mp hcut
  intro n hn
  rw [List.length_append]
  cases phase with
  | preHello =>
      change ∀ n, helloFrameLen s = some n → s.length < n at hunfinished
      change helloFrameLen (s ++ x) = some n at hn
      simp only [want] at hx
      by_cases h6 : s.length < 6
      · rw [if_pos h6] at hx
        unfold helloFrameLen at hn
        split at hn
        · have := Option.some.inj hn
          omega
        · cases hn
      · rw [if_neg h6] at hx
        have hs : helloFrameLen s = some (6 + ofBe ((s.drop 4).take 2)) := if_pos (by omega)
        have hlt := hunfinished _ hs
        rw [helloFrameLen_append x hs] at hn
        have := Option.some.inj hn
        omega
  | postHello =>
      change ∀ n, messageFrameLen s = some n → s.length < n at hunfinished
      change messageFrameLen (s ++ x) = some n at hn
      simp only [want] at hx
      by_cases h2 : s.length < 2
      · rw [if_pos h2] at hx
        unfold messageFrameLen at hn
        split at hn
        · have := Option.some.inj hn
          omega
        · cases hn
      · rw [if_neg h2] at hx
        by_cases hlen : 2 + headerLen s + 4 ≤ s.length
        · rw [if_neg (by omega), if_neg (by omega)] at hx
          have hs : messageFrameLen s =
              some (2 + headerLen s + 4 + ofBe ((s.drop (2 + headerLen s)).take 4)) :=
            if_pos ⟨by omega, hlen⟩
          have hlt := hunfinished _ hs
          rw [messageFrameLen_append x hs] at hn
          have := Option.some.inj hn
          omega
        · have hbound : s.length + x.length ≤ 2 + headerLen s + 4 := by
            split at hx
            · omega
            · rw [if_pos (by omega)] at hx
              omega
          unfold messageFrameLen at hn
          rw [headerLen_append (by omega) x] at hn
          split at hn
          · have := Option.some.inj hn
            omega
          · cases hn

/-- Receiving bytes is reading them. -/
theorem receive_messageOf (p : BepDataParser) (phase : BepAuthStatus) (s : Bytes) {x : Bytes} {k : ℕ}
    (hk : k ≤ x.length) (hacc : (wireFormat codec).accepts phase (s ++ x.take k) = true) :
    p.receive codec (messageOf codec phase s) x k =
      .ok ({ p with incomingMessage := some (messageOf codec phase (s ++ x.take k)) }, k) := by
  unfold BepDataParser.receive
  rw [Rust.slice_of_le ⟨Nat.zero_le _, hk⟩, List.drop_zero, Rust.ok_bind,
    addData_messageOf codec hacc]
  rfl

/-- A header that does not decode is a panic as soon as it is complete. -/
theorem receive_of_rejected (p : BepDataParser) {s x : Bytes} {k : ℕ} (hk : k ≤ x.length)
    (hacc : acceptsHeader codec s = true) (hrej : acceptsHeader codec (s ++ x.take k) = false) :
    p.receive codec (messageOf codec .postHello s) x k = .error .unwrap := by
  unfold BepDataParser.receive
  rw [Rust.slice_of_le ⟨Nat.zero_le _, hk⟩, List.drop_zero, Rust.ok_bind,
    addData_of_rejected codec hacc hrej]
  rfl

/-- Before the Hello is complete, the parser takes what it wants. -/
theorem populateHello_stateOf {s x : Bytes}
    (hcut : (wireFormat codec).cut .preHello s = none) (hx : x ≠ []) :
    (stateOf codec .preHello s).populateHello codec x =
      .ok (⟨.preHello,
        some (messageOf codec .preHello (s ++ x.take (min x.length (want .preHello s))))⟩,
        min x.length (want .preHello s)) := by
  have hxlen : 0 < x.length := List.length_pos_iff.mpr hx
  have hpos := want_pos codec hcut
  have hreceive := fun k (hk : k ≤ x.length) =>
    receive_messageOf codec (stateOf codec .preHello s) .preHello s hk rfl
  unfold BepDataParser.populateHello
  by_cases hs : s = []
  · subst hs
    have hnew : IncomingMessage.new .preHello = messageOf codec .preHello [] := rfl
    have hw : want .preHello [] = 6 := rfl
    simp only [stateOf, if_true, hw, helloStart, show 0 < min x.length 6 by omega, hnew]
    exact hreceive (min x.length 6) (Nat.min_le_left _ _)
  · have hslen : 1 ≤ s.length := List.length_pos_iff.mpr hs
    have htotal : (messageOf codec .preHello s).totalByteLen = s.length := rfl
    simp only [stateOf, hs, if_false, htotal, Rust.assert_of hslen, Rust.ok_bind]
    by_cases h6 : s.length < 6
    · have hw : want .preHello s = 6 - s.length := if_pos h6
      simp only [helloStart, h6, if_true, hw]
      simpa only [stateOf, hs, if_false] using
        hreceive (min x.length (6 - s.length)) (Nat.min_le_left _ _)
    · have hlen : (wireFormat codec).frameLen .preHello s =
          some (6 + ofBe ((s.drop 4).take 2)) := if_pos (by omega)
      have hw : want .preHello s = 6 + ofBe ((s.drop 4).take 2) - s.length := if_neg h6
      have hwithin : Within codec .preHello s := fun n hn =>
        (Framing.cut_eq_none_iff.mp hcut n hn).le
      rw [hw] at hpos ⊢
      simp only [helloStart, h6, if_false,
        missingMessageBytes_messageOf codec hwithin (fun h => by cases h), hlen, Option.map_some,
        Rust.ok_bind, Option.getD_some, hpos, if_true, Rust.unwrap_some]
      simpa only [stateOf, hs, if_false] using hreceive _ (Nat.min_le_left _ _)

/-- After the Hello, the parser appends what it wants. -/
theorem populate_postHello {s x : Bytes}
    (hcut : (wireFormat codec).cut .postHello s = none) (hx : x ≠ [])
    (hacc : acceptsHeader codec s = true) :
    (stateOf codec .postHello s).populate codec x =
      (stateOf codec .postHello s).receive codec (messageOf codec .postHello s) x
        (min x.length (want .postHello s)) := by
  have hxlen : 0 < x.length := List.length_pos_iff.mpr hx
  have hpos := want_pos codec hcut
  by_cases hs : s = []
  · -- the first bytes of a frame
    subst hs
    have hnew : IncomingMessage.new .postHello = messageOf codec .postHello [] := rfl
    have hw : want .postHello [] = 2 := rfl
    rw [hw]
    simp only [BepDataParser.populate, BepDataParser.populateHeader, stateOf, if_true,
      Option.bind_none, Option.isNone_none, show 0 < min x.length 2 by omega, hnew]
  · have hslen : 1 ≤ s.length := List.length_pos_iff.mpr hs
    have htotal : (messageOf codec .postHello s).totalByteLen = s.length := rfl
    have hhead : (messageOf codec .postHello s).header = parsedHeader codec .postHello s := rfl
    simp only [BepDataParser.populate, stateOf, hs, if_false, Option.bind_some, hhead]
    by_cases hsome : (parsedHeader codec .postHello s).isSome = true
    · -- the body length or the body
      obtain ⟨h2, hfull⟩ := (parsedHeader_isSome_iff codec hacc).mp hsome
      have hwithin : Within codec .postHello s := fun n hn =>
        (Framing.cut_eq_none_iff.mp hcut n hn).le
      have hmissing := missingMessageBytes_messageOf codec hwithin fun _ => ⟨h2, hsome⟩
      simp only [Option.isNone_eq_false_iff.mpr hsome, Bool.false_eq_true, if_false,
        BepDataParser.populateMessage, Option.isSome_some, Rust.assert_of, Rust.ok_bind, hmissing]
      by_cases hlen : 2 + headerLen s + 4 ≤ s.length
      · have hframe : (wireFormat codec).frameLen .postHello s =
            some (2 + headerLen s + 4 + ofBe ((s.drop (2 + headerLen s)).take 4)) :=
          if_pos ⟨h2, hlen⟩
        have hw : want .postHello s =
            2 + headerLen s + 4 + ofBe ((s.drop (2 + headerLen s)).take 4) - s.length := by
          simp only [want]
          rw [if_neg (by omega), if_neg (by omega), if_neg (by omega)]
        rw [hw]
        simp only [hframe, Option.map_some, Nat.min_comm _ x.length]
      · have hframe : (wireFormat codec).frameLen .postHello s = none :=
          if_neg (by omega)
        have hw : want .postHello s = 2 + headerLen s + 4 - s.length := by
          simp only [want]
          rw [if_neg (by omega), if_neg (by omega), if_pos (by omega)]
        have hdata : (messageOf codec .postHello s).data = s := rfl
        rw [hw]
        simp only [hframe, Option.map_none, hdata, fromBeBytes_header h2, Rust.ok_bind,
          headerStart, Rust.sub_of_le (show s.length ≤ 2 + headerLen s + 4 by omega),
          Nat.min_comm _ x.length]
    · -- the header length or the header
      have hpartial := mt (parsedHeader_isSome_iff codec hacc).mpr hsome
      have hnone : parsedHeader codec .postHello s = none := parsedHeader_eq_none codec hpartial
      simp only [hnone, Option.isNone_none, if_true, BepDataParser.populateHeader, htotal,
        Rust.assert_of hslen, Rust.ok_bind]
      by_cases h2 : s.length < 2
      · have hw : want .postHello s = 1 := by
          simp only [want]
          rw [if_pos h2]
          omega
        have hmin : min x.length 1 = 1 := by omega
        rw [hw, hmin]
        simp only [headerStart, h2, if_true]
      · have hw : want .postHello s = 2 + headerLen s - s.length := by
          simp only [want]
          rw [if_neg h2, if_pos (by omega)]
        have hmissing : (messageOf codec .postHello s).missingHeaderBytes =
            .ok (some (2 + headerLen s - s.length)) := by
          have hsub : Rust.sub (2 + headerLen s) s.length = .ok (2 + headerLen s - s.length) :=
            Rust.sub_of_le (by omega)
          simp only [IncomingMessage.missingHeaderBytes, IncomingMessage.headerByteLen, messageOf,
            IncomingMessage.totalByteLen, headerStart, h2, if_false]
          rw [show fromBeBytes s 0 2 = .ok (headerLen s) from fromBeBytes_header (by omega)]
          simp [hsub]
        rw [hw]
        simp only [headerStart, h2, if_false, hmissing, Rust.ok_bind, Rust.unwrap_some]

/-- One iteration takes at least one byte, stays within the frame and keeps the
bytes taken, unless they complete a header that does not decode. -/
theorem populate_stateOf {phase : BepAuthStatus} {s x : Bytes}
    (hcut : (wireFormat codec).cut phase s = none) (hx : x ≠ [])
    (hacc : (wireFormat codec).accepts phase s = true) :
    ∃ k, 0 < k ∧ k ≤ x.length ∧ Within codec phase (s ++ x.take k) ∧
      (stateOf codec phase s).populate codec x =
        if (wireFormat codec).accepts phase (s ++ x.take k) = true then
          .ok (⟨phase, some (messageOf codec phase (s ++ x.take k))⟩, k)
        else .error .unwrap := by
  have hxlen : 0 < x.length := List.length_pos_iff.mpr hx
  have hpos := want_pos codec hcut
  have hwithin : Within codec phase (s ++ x.take (min x.length (want phase s))) := by
    apply within_of_le_want codec hcut
    rw [List.length_take]
    omega
  have hle : min x.length (want phase s) ≤ x.length := Nat.min_le_left _ _
  refine ⟨min x.length (want phase s), by omega, hle, hwithin, ?_⟩
  cases phase with
  | preHello =>
      rw [if_pos (show (wireFormat codec).accepts .preHello _ = true from rfl)]
      exact populateHello_stateOf codec hcut hx
  | postHello =>
      rw [populate_postHello codec hcut hx hacc]
      split
      case isTrue hacc' => exact receive_messageOf codec _ .postHello s hle hacc'
      case isFalse hrej =>
        exact receive_of_rejected codec _ hle hacc (Bool.not_eq_true _ ▸ hrej)

end Grizol.Analysis

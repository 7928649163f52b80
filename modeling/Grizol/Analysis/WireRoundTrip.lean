import Grizol.Analysis.StreamReading
import Grizol.Model.Serialize

/-!
# Decoding what was encoded

The frames that `serialize_hello` and `serialize_message` write are complete frames
of the wire format and decode to the messages they were written for, so a fresh
parser that is handed their bytes in any buffers returns those messages.

What `prost` contributes is assumed of the given messages only: decoding inverts
encoding, and an encoded header fits its `u16` length.
-/

set_option autoImplicit false

namespace Grizol.Analysis

open Grizol.Library Grizol.Interface
open Grizol.Model Grizol.Model.Syncthing

/-- The Hello frame around an encoded Hello. -/
def helloFrame (body : Bytes) : Bytes := magicNumber ++ toBe 2 body.length ++ body

/-- The frame around an encoded header and an encoded body. -/
def messageFrame (header body : Bytes) : Bytes :=
  toBe 2 header.length ++ header ++ toBe 4 body.length ++ body

/-! ## Frames are complete -/

/-- A hello that is short enough is serialized. -/
theorem serializeHello_of_lt {body : Bytes} (h : body.length < 2 ^ 16) :
    serializeHello body = .ok (helloFrame body) := by
  simp only [serializeHello, Rust.tryInto_of_lt h, Rust.ok_bind, Rust.pure_eq_ok, helloFrame]

/-- So is a message. -/
theorem serializeMessage_of_lt (codec : Codec) {header : Header} {body : Bytes}
    (hheader : (codec.encodeHeader header).length < 2 ^ 16) (hbody : body.length < 2 ^ 32) :
    serializeMessage codec header body = .ok (messageFrame (codec.encodeHeader header) body) := by
  simp only [serializeMessage, Rust.tryInto_of_lt hheader, Rust.tryInto_of_lt hbody, Rust.ok_bind,
    Rust.pure_eq_ok, messageFrame]

/-- A Hello frame announces its own length. -/
theorem helloFrameLen_helloFrame {body : Bytes} (h : body.length < 2 ^ 16) :
    helloFrameLen (helloFrame body) = some (helloFrame body).length := by
  have hlen : (helloFrame body).length = 6 + body.length := by
    simp [helloFrame, magicNumber]
    omega
  have hfield : ((helloFrame body).drop 4).take 2 = toBe 2 body.length := by
    have hdrop : (helloFrame body).drop 4 = toBe 2 body.length ++ body := by
      simp [helloFrame, magicNumber]
    rw [hdrop, List.take_left' (toBe_length 2 _)]
  unfold helloFrameLen
  rw [if_pos (by omega), hfield, ofBe_toBe_of_lt (by omega), hlen]

/-- The header length a frame announces is that of its header. -/
theorem headerLen_messageFrame {header body : Bytes} (h : header.length < 2 ^ 16) :
    headerLen (messageFrame header body) = header.length := by
  have htake : (messageFrame header body).take 2 = toBe 2 header.length := by
    rw [messageFrame, List.append_assoc, List.append_assoc, List.take_left' (toBe_length 2 _)]
  rw [headerLen, htake, ofBe_toBe_of_lt (by omega)]

/-- What follows the header in a frame. -/
theorem drop_header_messageFrame (header body : Bytes) :
    (messageFrame header body).drop (2 + header.length) = toBe 4 body.length ++ body := by
  have hlen : (toBe 2 header.length ++ header).length = 2 + header.length := by
    simp
  rw [messageFrame, List.append_assoc _ (toBe 4 body.length), List.drop_left' hlen]

/-- A frame announces its own length. -/
theorem messageFrameLen_messageFrame {header body : Bytes} (hheader : header.length < 2 ^ 16)
    (hbody : body.length < 2 ^ 32) :
    messageFrameLen (messageFrame header body) = some (messageFrame header body).length := by
  have hlen : (messageFrame header body).length = 2 + header.length + 4 + body.length := by
    simp [messageFrame]
    omega
  have hfield : ((messageFrame header body).drop (2 + header.length)).take 4 =
      toBe 4 body.length := by
    rw [drop_header_messageFrame, List.take_left' (toBe_length 4 _)]
  unfold messageFrameLen
  rw [headerLen_messageFrame hheader, if_pos (by omega), hfield, ofBe_toBe_of_lt (by omega), hlen]

/-! ## Frames decode to what they were written for -/

variable (codec : Codec)

/-- A hello is decoded from its frame. -/
theorem decodeHelloFrame_helloFrame {hello : Hello}
    (h : codec.decodeHello (codec.encodeHello hello) = .ok hello) :
    decodeHelloFrame codec (helloFrame (codec.encodeHello hello)) = some (.hello hello) := by
  have htake : (helloFrame (codec.encodeHello hello)).take 4 = [0x2e, 0xa7, 0xd9, 0x0b] := by
    simp [helloFrame, magicNumber]
  have hdrop : (helloFrame (codec.encodeHello hello)).drop 6 = codec.encodeHello hello := by
    have hlen : (magicNumber ++ toBe 2 (codec.encodeHello hello).length).length = 6 := by
      simp [magicNumber]
    rw [helloFrame, List.drop_left' hlen]
  rw [decodeHelloFrame, if_pos htake, hdrop, h]
  rfl

/-- The frame of a message under the header that announces it decodes to it. -/
theorem decodeMessageFrame_messageFrame {m : CompleteMessage} {t : MessageType}
    (hlen : (codec.encodeHeader (MessageType.header t)).length < 2 ^ 16)
    (hheader : codec.decodeHeader (codec.encodeHeader (MessageType.header t)) =
      .ok (MessageType.header t))
    (hbody : decodeBody codec t (m.encodeToVec codec) = .ok m) :
    decodeMessageFrame codec
      (messageFrame (codec.encodeHeader (MessageType.header t)) (m.encodeToVec codec)) =
      some m := by
  generalize hh : codec.encodeHeader (MessageType.header t) = header at *
  have hhead : decodeFrameHeader codec (messageFrame header (m.encodeToVec codec)) =
      some (MessageType.header t) := by
    have htake : ((messageFrame header (m.encodeToVec codec)).drop 2).take header.length =
        header := by
      rw [messageFrame, List.append_assoc, List.append_assoc, List.drop_left' (toBe_length 2 _),
        List.take_left' rfl]
    rw [decodeFrameHeader, headerLen_messageFrame hlen, htake, hheader]
    rfl
  have hrest : (messageFrame header (m.encodeToVec codec)).drop (2 + header.length + 4) =
      m.encodeToVec codec := by
    rw [← List.drop_drop, drop_header_messageFrame, List.drop_left' (toBe_length 4 _)]
  have huncompressed : ∀ raw : Bytes,
      frameBody codec (MessageType.header t) raw = some raw := by
    intro raw
    rfl
  have htype : MessageType.ofInt32 (MessageType.header t).type = some t :=
    MessageType.ofInt32_toInt32 t
  simp [decodeMessageFrame, hhead, headerLen_messageFrame hlen, hrest, huncompressed, htype, hbody,
    Except.toOption]

/-! ## Whole conversations -/

/-- Every message but the Hello is announced with a type. -/
theorem exists_messageType {m : CompleteMessage} (h : ∀ hello, m ≠ .hello hello) :
    ∃ t, m.messageType = some t := by
  cases m with
  | hello hello => exact absurd rfl (h hello)
  | _ => exact ⟨_, rfl⟩

/-- The frames of a list of messages are read back as that list. The induction is on
the list; each frame is complete where it stands. -/
theorem read_serializeAll (messages : List CompleteMessage)
    (hpost : ∀ m ∈ messages, ∀ hello, m ≠ .hello hello)
    (hlen : ∀ m ∈ messages, (m.encodeToVec codec).length < 2 ^ 32)
    (hbody : ∀ m ∈ messages, ∀ t, m.messageType = some t →
      decodeBody codec t (m.encodeToVec codec) = .ok m)
    (hheaderLen : ∀ m ∈ messages, ∀ t, m.messageType = some t →
      (codec.encodeHeader (MessageType.header t)).length < 2 ^ 16)
    (hheader : ∀ m ∈ messages, ∀ t, m.messageType = some t →
      codec.decodeHeader (codec.encodeHeader (MessageType.header t)) =
        .ok (MessageType.header t)) :
    ∃ frames, serializeAll codec messages = .ok frames ∧
      (wireFormat codec).read .postHello frames = some (messages, .postHello, []) := by
  induction messages with
  | nil =>
      refine ⟨[], rfl, ?_⟩
      rw [Framing.read_of_incomplete (cut_nil codec .postHello)]
      rfl
  | cons m messages ih =>
      obtain ⟨t, ht⟩ := exists_messageType (hpost m List.mem_cons_self)
      have hheaderLen₁ := hheaderLen m List.mem_cons_self t ht
      have hlen₁ := hlen m List.mem_cons_self
      obtain ⟨frames, hframes, hread⟩ := ih
        (fun m' hm' => hpost m' (List.mem_cons_of_mem _ hm'))
        (fun m' hm' => hlen m' (List.mem_cons_of_mem _ hm'))
        (fun m' hm' => hbody m' (List.mem_cons_of_mem _ hm'))
        (fun m' hm' => hheaderLen m' (List.mem_cons_of_mem _ hm'))
        (fun m' hm' => hheader m' (List.mem_cons_of_mem _ hm'))
      have hserialize : m.serialize codec = .ok (messageFrame
          (codec.encodeHeader (MessageType.header t)) (m.encodeToVec codec)) := by
        simp only [CompleteMessage.serialize, ht]
        exact serializeMessage_of_lt codec hheaderLen₁ hlen₁
      have hcomplete := messageFrameLen_messageFrame hheaderLen₁ hlen₁
      have hdecode : (wireFormat codec).decode .postHello (messageFrame
          (codec.encodeHeader (MessageType.header t)) (m.encodeToVec codec)) =
          some (m, .postHello) := by
        show (decodeMessageFrame codec _).map _ = _
        rw [decodeMessageFrame_messageFrame codec hheaderLen₁ (hheader m List.mem_cons_self t ht)
          (hbody m List.mem_cons_self t ht)]
        rfl
      refine ⟨messageFrame (codec.encodeHeader (MessageType.header t)) (m.encodeToVec codec) ++
        frames, ?_, ?_⟩
      · unfold serializeAll at hframes ⊢
        obtain ⟨list, hlist, hflat⟩ := Rust.bind_eq_ok.mp hframes
        simp only [List.mapM_cons, hserialize, hlist, Rust.ok_bind, Rust.pure_eq_ok,
          List.flatten_cons]
        rw [show list.flatten = frames from Except.ok.inj hflat]
      · rw [Framing.read_of_complete _ hcomplete, hdecode]
        simp [hread]

/-- **What is written is read back.** A fresh parser that is handed the frames of a
Hello and of later messages, in one buffer or in any others, returns that Hello and
those messages in order, and holds no byte afterwards. -/
theorem feed_serialized (hello : Hello) (messages : List CompleteMessage)
    (hpost : ∀ m ∈ messages, ∀ hello, m ≠ .hello hello)
    (hhelloLen : (codec.encodeHello hello).length ≤ 65535)
    (hlen : ∀ m ∈ messages, (m.encodeToVec codec).length < 2 ^ 32)
    (hhello : codec.decodeHello (codec.encodeHello hello) = .ok hello)
    (hbody : ∀ m ∈ messages, ∀ t, m.messageType = some t →
      decodeBody codec t (m.encodeToVec codec) = .ok m)
    (hheaderLen : ∀ m ∈ messages, ∀ t, m.messageType = some t →
      (codec.encodeHeader (MessageType.header t)).length < 2 ^ 16)
    (hheader : ∀ m ∈ messages, ∀ t, m.messageType = some t →
      codec.decodeHeader (codec.encodeHeader (MessageType.header t)) =
        .ok (MessageType.header t)) :
    ∃ helloBytes frames : Bytes,
      serializeHello (codec.encodeHello hello) = .ok helloBytes ∧
      serializeAll codec messages = .ok frames ∧
      ∀ bufs : List Bytes, bufs.flatten = helloBytes ++ frames →
        ∃ (parser : BepDataParser) (delivered : List (List CompleteMessage)),
          BepDataParser.new.feed codec bufs = .ok (parser, delivered.map .ok) ∧
          delivered.flatten = .hello hello :: messages ∧ parser.heldBytes = [] := by
  have hlt : (codec.encodeHello hello).length < 2 ^ 16 := by omega
  obtain ⟨frames, hframes, hread⟩ :=
    read_serializeAll codec messages hpost hlen hbody hheaderLen hheader
  refine ⟨_, frames, serializeHello_of_lt hlt, hframes, ?_⟩
  intro bufs hbufs
  have hdecode : (wireFormat codec).decode .preHello (helloFrame (codec.encodeHello hello)) =
      some (.hello hello, .postHello) := by
    show (decodeHelloFrame codec _).map _ = _
    rw [decodeHelloFrame_helloFrame codec hhello]
    rfl
  have hstream : (wireFormat codec).read .preHello ([] ++ bufs.flatten) =
      some (.hello hello :: messages, .postHello, []) := by
    rw [List.nil_append, hbufs, Framing.read_of_complete _ (helloFrameLen_helloFrame hlt), hdecode]
    simp [hread]
  obtain ⟨delivered, hfeed, hflat⟩ :=
    feed_stateOf codec bufs .preHello [] _ .postHello [] (cut_nil codec .preHello) hstream
  exact ⟨stateOf codec .postHello [], delivered, hfeed, hflat,
    heldBytes_stateOf codec .postHello []⟩

/-- A cluster configuration under a header of no bytes, a ping with no body and a close
with its reason. -/
def shortConversation : List CompleteMessage :=
  [.clusterConfig {}, .ping {}, .close { reason := "x" }]

/-- Witness: a hello and three messages, in whatever pieces. -/
theorem feed_serialized_short :
    ∃ helloBytes frames : Bytes,
      serializeHello (shortMessages.encodeHello {}) = .ok helloBytes ∧
      serializeAll shortMessages shortConversation = .ok frames ∧
      ∀ bufs : List Bytes, bufs.flatten = helloBytes ++ frames →
        ∃ (parser : BepDataParser) (delivered : List (List CompleteMessage)),
          BepDataParser.new.feed shortMessages bufs = .ok (parser, delivered.map .ok) ∧
          delivered.flatten = .hello {} :: shortConversation ∧ parser.heldBytes = [] := by
  have hbody : ∀ m ∈ shortConversation, ∀ t, m.messageType = some t →
      decodeBody shortMessages t (m.encodeToVec shortMessages) = .ok m := by
    intro m hm t ht
    simp only [shortConversation, List.mem_cons, List.not_mem_nil, or_false] at hm
    obtain rfl | rfl | rfl := hm <;> cases ht <;> rfl
  have hheaderLen : ∀ m ∈ shortConversation, ∀ t, m.messageType = some t →
      (shortMessages.encodeHeader (MessageType.header t)).length < 2 ^ 16 := by
    intro m hm t ht
    cases t <;> decide
  have hheader : ∀ m ∈ shortConversation, ∀ t, m.messageType = some t →
      shortMessages.decodeHeader (shortMessages.encodeHeader (MessageType.header t)) =
        .ok (MessageType.header t) := by
    intro m hm t ht
    cases t <;> rfl
  exact feed_serialized shortMessages {} shortConversation (by simp [shortConversation])
    (by decide) (by decide) rfl hbody hheaderLen hheader

end Grizol.Analysis

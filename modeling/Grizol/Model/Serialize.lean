import Grizol.Model.BepDataParser

/-!
# Outgoing messages

The sending half of `handle_incoming_data` in `main.rs`: what a connection writes
for each event of its queue, through `serialize_hello` and `serialize_message`.
-/

set_option autoImplicit false

namespace Grizol.Model

open Grizol.Library
open Grizol.Model.Syncthing

/-- `GrizolEvent`: what the handlers of a connection queue for its writer. -/
inductive GrizolEvent where
  | message (m : CompleteMessage)
  | requestProcessed
  | requestCreated
  deriving DecidableEq, Repr

/-- The type a message is announced with; the Hello has none. -/
def CompleteMessage.messageType : CompleteMessage → Option MessageType
  | .hello _ => none
  | .clusterConfig _ => some .clusterConfig
  | .index _ => some .index
  | .indexUpdate _ => some .indexUpdate
  | .request _ => some .request
  | .response _ => some .response
  | .downloadProgress _ => some .downloadProgress
  | .ping _ => some .ping
  | .close _ => some .close

/-- The header outgoing messages of a type are sent under. -/
def MessageType.header (t : MessageType) : Header := { compression := 0, type := t.toInt32 }

variable (codec : Codec)

/-- `m.encode_to_vec()`. -/
def CompleteMessage.encodeToVec : CompleteMessage → Bytes
  | .hello m => codec.encodeHello m
  | .clusterConfig m => codec.encodeClusterConfig m
  | .index m => codec.encodeIndex m
  | .indexUpdate m => codec.encodeIndexUpdate m
  | .request m => codec.encodeRequest m
  | .response m => codec.encodeResponse m
  | .downloadProgress m => codec.encodeDownloadProgress m
  | .ping m => codec.encodePing m
  | .close m => codec.encodeClose m

/-- `serialize_message`. -/
def serializeMessage (header : Header) (messageBytes : Bytes) : Rust Bytes := do
  let headerBytes := codec.encodeHeader header
  let headerLen ← Rust.tryInto 16 headerBytes.length
  let messageLen ← Rust.tryInto 32 messageBytes.length
  pure (toBe 2 headerLen ++ headerBytes ++ toBe 4 messageLen ++ messageBytes)

/-- `serialize_hello`. -/
def serializeHello (messageBytes : Bytes) : Rust Bytes := do
  let messageLen ← Rust.tryInto 16 messageBytes.length
  pure (magicNumber ++ toBe 2 messageLen ++ messageBytes)

/-- The message type and the bodies of an event; `requests` is what
`throttled_requests` returns for it. -/
def outgoingBodies (event : GrizolEvent) (requests : List Request) :
    Rust (Option MessageType × List Bytes) :=
  match event with
  | .message (.request _) =>
      .error (.explicit "Requests should be handled through RequestCreated events")
  | .message m => pure (m.messageType, [m.encodeToVec codec])
  | .requestProcessed | .requestCreated =>
      pure (some .request, requests.map codec.encodeRequest)

/-- The bytes the connection writes for an event. -/
def outgoingData (event : GrizolEvent) (requests : List Request) : Rust Bytes := do
  let (messageType, serializedBodies) ← outgoingBodies codec event requests
  match messageType with
  | some t => do
      let frames ← serializedBodies.mapM (serializeMessage codec (MessageType.header t))
      pure frames.flatten
  | none => do
      let body ← Rust.expect "There must be a body for Hello" serializedBodies.head?
      serializeHello body

/-- The frame of one message: its Hello frame, or the frame under the header that
announces its type. -/
def CompleteMessage.serialize (m : CompleteMessage) : Rust Bytes :=
  match m.messageType with
  | some t => serializeMessage codec (MessageType.header t) (m.encodeToVec codec)
  | none => serializeHello (m.encodeToVec codec)

/-- The frames of a list of messages, one after the other. -/
def serializeAll (messages : List CompleteMessage) : Rust Bytes := do
  let frames ← messages.mapM (CompleteMessage.serialize codec)
  pure frames.flatten

/-- The messages an event stands for. -/
def GrizolEvent.messages (event : GrizolEvent) (requests : List Request) :
    List CompleteMessage :=
  match event with
  | .message m => [m]
  | .requestProcessed | .requestCreated => requests.map .request

/-- A connection writes the frames of the messages an event stands for. -/
theorem outgoingData_eq_serializeAll (event : GrizolEvent) (requests : List Request)
    (h : ∀ r, event ≠ .message (.request r)) :
    outgoingData codec event requests = serializeAll codec (event.messages requests) := by
  cases event with
  | message m =>
      cases m with
      | request r => exact absurd rfl (h r)
      | hello m =>
          simp only [outgoingData, outgoingBodies, serializeAll, GrizolEvent.messages,
            CompleteMessage.serialize, CompleteMessage.messageType, List.mapM_cons, List.mapM_nil]
          cases hs : serializeHello (CompleteMessage.encodeToVec codec (.hello m)) with
          | error e => simp [hs]
          | ok frame => simp [hs]
      | _ =>
          simp [outgoingData, outgoingBodies, serializeAll, GrizolEvent.messages,
            CompleteMessage.serialize, CompleteMessage.messageType]
  | requestProcessed | requestCreated =>
      simp only [outgoingData, outgoingBodies, serializeAll, GrizolEvent.messages,
        Rust.pure_eq_ok, Rust.ok_bind, List.mapM_map]
      rfl

end Grizol.Model

import Grizol.Library.BigEndian
import Grizol.Model.Syncthing

/-!
# The incoming data parser

`core/bep_data_parser.rs`: a resumable parser that is handed the bytes of one
connection in buffers of any length and returns the messages they complete. Two
phases, before and after the Hello; the message being received is kept in
`incomingMessage` between calls.

`prost` and `lz4_flex` are not part of the repository: their functions are the
fields of `Codec`.
-/

set_option autoImplicit false

namespace Grizol.Model

open Grizol.Library
open Grizol.Model.Syncthing

/-- `CompleteMessage`. -/
inductive CompleteMessage where
  | hello (m : Hello)
  | clusterConfig (m : ClusterConfig)
  | index (m : Index)
  | indexUpdate (m : IndexUpdate)
  | request (m : Request)
  | response (m : Response)
  | downloadProgress (m : DownloadProgress)
  | ping (m : Ping)
  | close (m : Close)
  deriving DecidableEq, Repr

/-- The third-party functions the wire format rests on: `encode_to_vec` and
`decode` of each message type, with the `Debug` text of a decoding error, and
`lz4_flex::decompress`. -/
structure Codec where
  encodeHello : Hello → Bytes
  encodeHeader : Header → Bytes
  encodeClusterConfig : ClusterConfig → Bytes
  encodeIndex : Index → Bytes
  encodeIndexUpdate : IndexUpdate → Bytes
  encodeRequest : Request → Bytes
  encodeResponse : Response → Bytes
  encodeDownloadProgress : DownloadProgress → Bytes
  encodePing : Ping → Bytes
  encodeClose : Close → Bytes
  decodeHello : Bytes → Except String Hello
  decodeHeader : Bytes → Except String Header
  decodeClusterConfig : Bytes → Except String ClusterConfig
  decodeIndex : Bytes → Except String Index
  decodeIndexUpdate : Bytes → Except String IndexUpdate
  decodeRequest : Bytes → Except String Request
  decodeResponse : Bytes → Except String Response
  decodeDownloadProgress : Bytes → Except String DownloadProgress
  decodePing : Bytes → Except String Ping
  decodeClose : Bytes → Except String Close
  decompress : Bytes → ℕ → Except String Bytes

/-- The four bytes that a hello starts with. -/
def magicNumber : Bytes := [0x2e, 0xa7, 0xd9, 0x0b]

/-- Where the two bytes of the length of a hello start. -/
abbrev helloLenStart : ℕ := 4
/-- Where the hello itself starts. -/
abbrev helloStart : ℕ := 6
/-- Where the header of a later frame starts, behind the two bytes of its length. -/
abbrev headerStart : ℕ := 2

/-- What decoding can fail with. -/
inductive ParseError where
  | noIncomingMessageYet
  | notEnoughHeaderLenData
  | notEnoughHeaderData
  | noMagicHello
  | generic (message : String)
  deriving DecidableEq, Repr

/-- The derived `Debug` text. -/
def ParseError.debug : ParseError → String
  | .noIncomingMessageYet => "NoIncomingMessageYet"
  | .notEnoughHeaderLenData => "NotEnoughHeaderLenData"
  | .notEnoughHeaderData => "NotEnoughHeaderData"
  | .noMagicHello => "NoMagicHello"
  | .generic message => "Generic(" ++ message.quote ++ ")"

/-- Whether the buffered frame has all its bytes. -/
inductive IncomingMessageStatus where
  | incomplete | complete
  deriving DecidableEq, Repr

/-- Whether the hello has been read; it decides how the next frame is laid out. -/
inductive BepAuthStatus where
  | preHello | postHello
  deriving DecidableEq, Repr

/-- A frame that has begun: the bytes read so far, and the header once it could be decoded. -/
structure IncomingMessage where
  authStatus : BepAuthStatus
  data : Bytes
  header : Option Header
  deriving DecidableEq, Repr

/-- The state of the parser between two reads: at most one frame is begun. -/
structure BepDataParser where
  bepAuthStatus : BepAuthStatus
  incomingMessage : Option IncomingMessage
  deriving DecidableEq, Repr

/-- `from_be_bytes(data[i..j].try_into().unwrap())`. -/
def fromBeBytes (data : Bytes) (i j : ℕ) : Rust ℕ := do
  let bytes ← Rust.slice data i j
  pure (ofBe bytes)

namespace IncomingMessage

/-- A frame of which nothing has been read. -/
def new (authStatus : BepAuthStatus) : IncomingMessage := ⟨authStatus, [], none⟩

/-- The number of bytes buffered. -/
def totalByteLen (im : IncomingMessage) : ℕ := im.data.length

/-- Where the message itself starts: behind the header and the four bytes of the length of the
message. The two bytes of the length of the header are read without a check that they are there. -/
def messageStartPos (im : IncomingMessage) : Rust (Option ℕ) := do
  let headerByteLen ← fromBeBytes im.data 0 headerStart
  let messageLenStart := headerStart + headerByteLen
  pure (some (messageLenStart + 4))

/-- The length of the message as the frame says it, if it has been read that far. -/
def messageByteLen (im : IncomingMessage) : Rust (Option ℕ) :=
  match im.authStatus with
  | .preHello =>
      if helloStart ≤ im.data.length then do
        let messageByteLen ← fromBeBytes im.data helloLenStart helloStart
        pure (some messageByteLen)
      else pure none
  | .postHello =>
      if im.header.isNone then pure none
      else do
        let headerByteLen ← fromBeBytes im.data 0 headerStart
        let messageLenStart := headerStart + headerByteLen
        let messageStart := messageLenStart + 4
        if messageStart ≤ im.data.length then do
          let messageByteLen ← fromBeBytes im.data messageLenStart messageStart
          pure (some messageByteLen)
        else pure none

/-- The length of the header, if its two bytes are there. -/
def headerByteLen (im : IncomingMessage) : Rust (Option ℕ) :=
  if im.data.length < headerStart then pure none
  else do
    let headerByteLen ← fromBeBytes im.data 0 headerStart
    pure (some headerByteLen)

/-- How many bytes of the header are still to come. -/
def missingHeaderBytes (im : IncomingMessage) : Rust (Option ℕ) := do
  match ← im.headerByteLen with
  | none => pure none
  | some headerByteLen => do
      let missing ← Rust.sub (headerStart + headerByteLen) im.totalByteLen
      pure (some missing)

/-- How many bytes of the frame are still to come. -/
def missingMessageBytes (im : IncomingMessage) : Rust (Option ℕ) :=
  match im.authStatus with
  | .preHello => do
      match ← im.messageByteLen with
      | none => pure none
      | some mbl => do
          let missing ← Rust.sub (mbl + helloStart) im.data.length
          pure (some missing)
  | .postHello => do
      match ← im.messageStartPos with
      | none => pure none
      | some messageStartPos => do
          match ← im.messageByteLen with
          | none => pure none
          | some mbl => do
              let missing ← Rust.sub (mbl + messageStartPos) im.data.length
              pure (some missing)

/-- A frame is complete when it has exactly the bytes that its lengths announce. -/
def status (im : IncomingMessage) : Rust IncomingMessageStatus :=
  match im.authStatus with
  | .preHello => do
      match ← im.messageByteLen with
      | none => pure .incomplete
      | some mbl => pure (if im.data.length = helloStart + mbl then .complete else .incomplete)
  | .postHello =>
      if im.header.isNone then pure .incomplete
      else do
        match ← im.missingMessageBytes with
        | some 0 => pure .complete
        | _ => pure .incomplete

end IncomingMessage

variable (codec : Codec)

/-- `try_parse_header`; a header that does not decode is a failed `unwrap`. -/
def tryParseHeader (buf : Bytes) : Rust (Except ParseError Header) :=
  if buf.length < headerStart then pure (.error .notEnoughHeaderLenData)
  else do
    let headerByteLen ← fromBeBytes buf 0 headerStart
    let headerEnd := headerStart + headerByteLen
    if buf.length < headerEnd then pure (.error .notEnoughHeaderData)
    else do
      let raw ← Rust.slice buf headerStart headerEnd
      let header ← Rust.unwrap (codec.decodeHeader raw).toOption
      pure (.ok header)

/-- `add_data`: appends, and after the Hello reads the header as soon as it is
complete. -/
def IncomingMessage.addData (im : IncomingMessage) (buf : Bytes) : Rust IncomingMessage :=
  let im := { im with data := im.data ++ buf }
  match im.authStatus with
  | .preHello => pure im
  | .postHello =>
      if im.header.isNone then do
        match ← tryParseHeader codec im.data with
        | .ok header => pure { im with header := some header }
        | .error _ => pure im
      else pure im

/-- The first four bytes are the magic number. -/
def startsWithMagicNumber (buf : Bytes) : Bool :=
  helloLenStart ≤ buf.length && buf.take helloLenStart == magicNumber

/-- Decodes a complete frame before the hello. A body that is no hello is a panic, not an error. -/
def decodeHello (buf : Bytes) : Rust (Except ParseError CompleteMessage) :=
  if !startsWithMagicNumber buf then pure (.error .noMagicHello)
  else do
    let messageByteSize ← fromBeBytes buf helloLenStart helloStart
    let raw ← Rust.slice buf helloStart (helloStart + messageByteSize)
    let hello ← Rust.unwrap (codec.decodeHello raw).toOption
    pure (.ok (.hello hello))

/-- `decode(raw).map(CompleteMessage::_)` for the type the header names. -/
def decodeBody (type : MessageType) (raw : Bytes) : Except String CompleteMessage :=
  match type with
  | .clusterConfig => (codec.decodeClusterConfig raw).map .clusterConfig
  | .index => (codec.decodeIndex raw).map .index
  | .indexUpdate => (codec.decodeIndexUpdate raw).map .indexUpdate
  | .request => (codec.decodeRequest raw).map .request
  | .response => (codec.decodeResponse raw).map .response
  | .downloadProgress => (codec.decodeDownloadProgress raw).map .downloadProgress
  | .ping => (codec.decodePing raw).map .ping
  | .close => (codec.decodeClose raw).map .close

/-- Decodes a complete frame after the hello: decompression first, then by the type of the header.
-/
def decodePostHelloMessage (im : IncomingMessage) :
    Rust (Except ParseError CompleteMessage) := do
  let messageStartPos ← Rust.unwrap (← im.messageStartPos)
  let header ← Rust.unwrap im.header
  let rawMsg ←
    match MessageCompression.ofInt32 header.compression with
    | some .lz4 => do
        let decompressByteSizeStart := messageStartPos
        let decompressByteSizeEnd := decompressByteSizeStart + 4
        let decompressedByteSize ←
          fromBeBytes im.data decompressByteSizeStart decompressByteSizeEnd
        let compressed ← Rust.slice im.data decompressByteSizeEnd im.data.length
        Rust.unwrap (codec.decompress compressed decompressedByteSize).toOption
    | _ => Rust.slice im.data messageStartPos im.data.length
  let type ← Rust.unwrap (MessageType.ofInt32 header.type)
  match decodeBody codec type rawMsg with
  | .ok completeMessage => pure (.ok completeMessage)
  | .error e => pure (.error (.generic ("Error: " ++ e)))

/-- `CompleteMessage::try_from`. -/
def CompleteMessage.tryFrom (im : IncomingMessage) : Rust (Except ParseError CompleteMessage) :=
  match im.authStatus with
  | .preHello => decodeHello codec im.data
  | .postHello => decodePostHelloMessage codec im

namespace BepDataParser

/-- The parser of a new connection. -/
def new : BepDataParser := ⟨.preHello, none⟩

/-- Appends the first `available` bytes of `buf` to `im` and keeps it pending. -/
def receive (p : BepDataParser) (im : IncomingMessage) (buf : Bytes) (available : ℕ) :
    Rust (BepDataParser × ℕ) := do
  let chunk ← Rust.slice buf 0 available
  let im ← im.addData codec chunk
  pure ({ p with incomingMessage := some im }, available)

/-- Takes bytes up to the end of the length of the hello, or up to the end of the hello, whichever
comes next. -/
def populateHello (p : BepDataParser) (buf : Bytes) : Rust (BepDataParser × ℕ) :=
  match p.incomingMessage with
  | some im => do
      Rust.assert (1 ≤ im.totalByteLen)
      if im.totalByteLen < helloStart then
        p.receive codec im buf (min buf.length (helloStart - im.totalByteLen))
      else do
        let missing ← im.missingMessageBytes
        if 0 < missing.getD 0 then do
          let missing ← Rust.unwrap missing
          p.receive codec im buf (min buf.length missing)
        else pure (p, 0)
  | none =>
      let availableForHello := min buf.length helloStart
      if 0 < availableForHello then
        p.receive codec (.new p.bepAuthStatus) buf availableForHello
      else pure (p, 0)

/-- Takes one byte of the length of the header at a time, then what is missing of the header. -/
def populateHeader (p : BepDataParser) (buf : Bytes) : Rust (BepDataParser × ℕ) :=
  match p.incomingMessage with
  | some im => do
      Rust.assert (1 ≤ im.totalByteLen)
      if im.totalByteLen < headerStart then
        p.receive codec im buf 1
      else do
        let missing ← Rust.unwrap (← im.missingHeaderBytes)
        p.receive codec im buf (min buf.length missing)
  | none =>
      let availableForHeader := min buf.length 2
      if 0 < availableForHeader then
        p.receive codec (.new p.bepAuthStatus) buf availableForHeader
      else pure (p, 0)

/-- Takes what is missing of the message. -/
def populateMessage (p : BepDataParser) (buf : Bytes) : Rust (BepDataParser × ℕ) := do
  Rust.assert (p.incomingMessage.isSome = true)
  match p.incomingMessage with
  | none => pure (p, 0)
  | some im => do
      match ← im.missingMessageBytes with
      | some missingMessageBytes => p.receive codec im buf (min missingMessageBytes buf.length)
      | none => do
          let headerByteLen ← fromBeBytes im.data 0 headerStart
          let messageLenStart := headerStart + headerByteLen
          let messageStart := messageLenStart + 4
          let missingMessageLenBytes ← Rust.sub messageStart im.data.length
          p.receive codec im buf (min missingMessageLenBytes buf.length)

/-- The choice of the populating function at the head of the loop body. -/
def populate (p : BepDataParser) (buf : Bytes) : Rust (BepDataParser × ℕ) :=
  match p.bepAuthStatus with
  | .preHello => p.populateHello codec buf
  | .postHello =>
      let isHeaderMissing := (p.incomingMessage.bind (·.header)).isNone
      if isHeaderMissing then p.populateHeader codec buf else p.populateMessage codec buf

/-- The tail of the loop body: decodes the pending message when it is complete; the
phase moves on even when the Hello is refused. -/
def completeMessage (p : BepDataParser) :
    Rust (BepDataParser × Except ParseError CompleteMessage) :=
  match p.incomingMessage with
  | none => pure (p, .error .noIncomingMessageYet)
  | some im => do
      match ← im.status with
      | .incomplete => pure (p, .error .noIncomingMessageYet)
      | .complete => do
          let completeMessage ← CompleteMessage.tryFrom codec im
          pure ({ p with bepAuthStatus := .postHello }, completeMessage)

/-- The loop of `parse_incoming_data`, with a bound on its iterations. -/
def parseLoop : ℕ → BepDataParser → Bytes → ℕ → List CompleteMessage →
    Rust (BepDataParser × Except String (List CompleteMessage))
  | fuel, p, buf, processedBytes, res =>
      if processedBytes < buf.length then
        match fuel with
        | 0 => .error .divergence
        | fuel + 1 => do
            let rest ← Rust.slice buf processedBytes buf.length
            let (p, n) ← p.populate codec rest
            let (p, completeMessage) ← p.completeMessage codec
            match completeMessage with
            | .ok cm =>
                parseLoop fuel { p with incomingMessage := none } buf (processedBytes + n)
                  (res ++ [cm])
            | .error .noIncomingMessageYet => parseLoop fuel p buf (processedBytes + n) res
            | .error e =>
                pure (p, .error ("Got error when dealing with complete message: " ++ e.debug))
      else pure (p, .ok res)

/-- `parse_incoming_data`. The bound is the length of the buffer: an iteration that
consumes nothing would repeat for ever. -/
def parseIncomingData (p : BepDataParser) (buf : Bytes) :
    Rust (BepDataParser × Except String (List CompleteMessage)) :=
  parseLoop codec buf.length p buf 0 []

/-- The calls of `parse_incoming_data` on one buffer after another, with their
results. -/
def feed : BepDataParser → List Bytes →
    Rust (BepDataParser × List (Except String (List CompleteMessage)))
  | p, [] => pure (p, [])
  | p, buf :: bufs => do
      let (p, result) ← p.parseIncomingData codec buf
      let (p, results) ← feed p bufs
      pure (p, result :: results)

/-- The results of the calls on one buffer after another, up to and including the first
that returns `Err`. -/
def feedUntilErr : BepDataParser → List Bytes →
    Rust (List (Except String (List CompleteMessage)))
  | _, [] => pure []
  | p, buf :: bufs => do
      let (p, result) ← p.parseIncomingData codec buf
      match result with
      | .error e => pure [.error e]
      | .ok messages => do
          let results ← feedUntilErr p bufs
          pure (.ok messages :: results)

/-- The bytes still held in `incoming_message`. -/
def heldBytes (p : BepDataParser) : Bytes := (p.incomingMessage.map (·.data)).getD []

end BepDataParser

end Grizol.Model

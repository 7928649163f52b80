import Grizol.Model.BepDataParser

/-!
# The bytes of messages

What `prost` writes for the messages of `bep.proto`: the fields in the order of their tags,
the default values left out. The parser and the server take the encoding as a parameter; the
runs that are given as examples use this one.
-/

set_option autoImplicit false

namespace Grizol.Analysis

open Grizol.Model Grizol.Model.Syncthing

/-! ## Fields -/

/-- A number in groups of seven bits, the lowest first; there are at most `n` of them. -/
def varintGroups : ℕ → ℕ → Bytes
  | 0, _ => []
  | n + 1, v =>
      if v < 128 then [.ofNat v] else .ofNat (v % 128 + 128) :: varintGroups n (v / 128)

/-- A number of 64 bits, which has at most ten groups. -/
def varint (v : ℕ) : Bytes := varintGroups 10 v

/-- The unsigned number a signed one is written as. -/
def signed (n : Int64) : ℕ := n.toUInt64.toNat

/-- A field whose length is written before it. -/
def lengthField (tag : ℕ) (b : Bytes) : Bytes := varint (8 * tag + 2) ++ varint b.length ++ b

/-- A number with its tag; zero is left out. -/
def numberField (tag v : ℕ) : Bytes := if v = 0 then [] else varint (8 * tag) ++ varint v

/-- A truth value is the number zero or one. -/
def boolField (tag : ℕ) (b : Bool) : Bytes := numberField tag b.toNat

/-- Bytes with their tag and length; none are left out. -/
def bytesField (tag : ℕ) (b : Bytes) : Bytes := if b = [] then [] else lengthField tag b

/-- The UTF-8 bytes of a text. -/
def textBytes (s : String) : Bytes := s.toList.flatMap String.utf8EncodeChar

/-- A text is its bytes in UTF-8. -/
def textField (tag : ℕ) (s : String) : Bytes := bytesField tag (textBytes s)

/-- Repeated messages, or texts; each is written, empty or not. -/
def repeatedField {α : Type} (tag : ℕ) (encode : α → Bytes) (xs : List α) : Bytes :=
  xs.flatMap fun x => lengthField tag (encode x)

/-! ## Messages -/

/-- The bytes of a `Hello`. -/
def encodeHello (m : Hello) : Bytes :=
  textField 1 m.deviceName ++ textField 2 m.clientName ++ textField 3 m.clientVersion

/-- The bytes of a `Header`. -/
def encodeHeader (m : Header) : Bytes :=
  numberField 1 (signed m.type.toInt64) ++ numberField 2 (signed m.compression.toInt64)

/-- The bytes of a `Device`. -/
def encodeDevice (m : Device) : Bytes :=
  bytesField 1 m.id ++ textField 2 m.name ++ repeatedField 3 textBytes m.addresses ++
  numberField 4 (signed m.compression.toInt64) ++ textField 5 m.certName ++
  numberField 6 (signed m.maxSequence) ++ boolField 7 m.introducer ++
  numberField 8 m.indexId.toNat ++ boolField 9 m.skipIntroductionRemovals ++
  bytesField 10 m.encryptionPasswordToken

/-- The bytes of a `Folder`. -/
def encodeFolder (m : Folder) : Bytes :=
  textField 1 m.id ++ textField 2 m.label ++ boolField 3 m.readOnly ++
  boolField 4 m.ignorePermissions ++ boolField 5 m.ignoreDelete ++
  boolField 6 m.disableTempIndexes ++ boolField 7 m.paused ++
  repeatedField 16 encodeDevice m.devices

/-- The bytes of a `ClusterConfig`. -/
def encodeClusterConfig (m : ClusterConfig) : Bytes := repeatedField 1 encodeFolder m.folders

/-- The bytes of a `Counter`. -/
def encodeCounter (m : Counter) : Bytes :=
  numberField 1 m.id.toNat ++ numberField 2 m.value.toNat

/-- The bytes of a `Vector`. -/
def encodeVector (m : VersionVector) : Bytes := repeatedField 1 encodeCounter m.counters

/-- The bytes of a `BlockInfo`. -/
def encodeBlockInfo (m : BlockInfo) : Bytes :=
  numberField 1 (signed m.offset) ++ numberField 2 (signed m.size.toInt64) ++
  bytesField 3 m.hash ++ numberField 4 m.weakHash.toNat

/-- The bytes of a `FileInfo`. -/
def encodeFileInfo (m : FileInfo) : Bytes :=
  textField 1 m.name ++ numberField 2 (signed m.type.toInt64) ++ numberField 3 (signed m.size) ++
  numberField 4 m.permissions.toNat ++ numberField 5 (signed m.modifiedS) ++
  boolField 6 m.deleted ++ boolField 7 m.invalid ++ boolField 8 m.noPermissions ++
  repeatedField 9 encodeVector m.version.toList ++ numberField 10 (signed m.sequence) ++
  numberField 11 (signed m.modifiedNs.toInt64) ++ numberField 12 m.modifiedBy.toNat ++
  numberField 13 (signed m.blockSize.toInt64) ++ repeatedField 16 encodeBlockInfo m.blocks ++
  textField 17 m.symlinkTarget

/-- An `Index`, or an `IndexUpdate`. -/
def encodeFiles (folder : String) (files : List FileInfo) : Bytes :=
  textField 1 folder ++ repeatedField 2 encodeFileInfo files

/-- The bytes of an `Index`. -/
def encodeIndex (m : Index) : Bytes := encodeFiles m.folder m.files

/-- The bytes of an `IndexUpdate`, which are those of an index. -/
def encodeIndexUpdate (m : IndexUpdate) : Bytes := encodeFiles m.folder m.files

/-- The bytes of a `Request`. -/
def encodeRequest (m : Request) : Bytes :=
  numberField 1 (signed m.id.toInt64) ++ textField 2 m.folder ++ textField 3 m.name ++
  numberField 4 (signed m.offset) ++ numberField 5 (signed m.size.toInt64) ++
  bytesField 6 m.hash ++ boolField 7 m.fromTemporary

/-- The bytes of a `Response`. -/
def encodeResponse (m : Response) : Bytes :=
  numberField 1 (signed m.id.toInt64) ++ bytesField 2 m.data ++
  numberField 3 (signed m.code.toInt64)

/-- The indices of blocks are packed into one field. -/
def encodeFileDownloadProgressUpdate (m : FileDownloadProgressUpdate) : Bytes :=
  numberField 1 (signed m.updateType.toInt64) ++ textField 2 m.name ++
  repeatedField 3 encodeVector m.version.toList ++
  bytesField 4 (m.blockIndexes.flatMap fun i => varint (signed i.toInt64))

/-- The bytes of a `DownloadProgress`. -/
def encodeDownloadProgress (m : DownloadProgress) : Bytes :=
  textField 1 m.folder ++ repeatedField 2 encodeFileDownloadProgressUpdate m.updates

/-- The bytes of a `Close`. -/
def encodeClose (m : Close) : Bytes := textField 1 m.reason

/-- Decodes what is written for one of some messages. -/
def decodeAmong {α : Type} (encode : α → Bytes) (messages : List α) (b : Bytes) :
    Except String α :=
  match messages.find? fun m => encode m = b with
  | some m => .ok m
  | none => .error "DecodeError"

/-- Decodes messages that are written as no bytes, the headers of messages that are not
compressed, and a close for the reason `x`. -/
def shortMessages : Codec where
  encodeHello := encodeHello
  encodeHeader := encodeHeader
  encodeClusterConfig := encodeClusterConfig
  encodeIndex := encodeIndex
  encodeIndexUpdate := encodeIndexUpdate
  encodeRequest := encodeRequest
  encodeResponse := encodeResponse
  encodeDownloadProgress := encodeDownloadProgress
  encodePing _ := []
  encodeClose := encodeClose
  decodeHello := decodeAmong encodeHello [{}]
  decodeHeader
    | [] => .ok {}
    | [0x08, t] => if t < 128 then .ok { type := t.toUInt32.toInt32 } else .error "DecodeError"
    | _ => .error "DecodeError"
  decodeClusterConfig := decodeAmong encodeClusterConfig [{}]
  decodeIndex := decodeAmong encodeIndex [{}]
  decodeIndexUpdate := decodeAmong encodeIndexUpdate [{}]
  decodeRequest := decodeAmong encodeRequest [{}]
  decodeResponse := decodeAmong encodeResponse [{}]
  decodeDownloadProgress := decodeAmong encodeDownloadProgress [{}]
  decodePing b := if b = [] then .ok {} else .error "DecodeError"
  decodeClose := decodeAmong encodeClose [{}, { reason := "x" }]
  decompress b n := if b.length = n then .ok b else .error "DecompressError"

end Grizol.Analysis

import Grizol.Library.Rust

/-!
# The messages of the block exchange protocol

The records `prost` generates from `bep.proto`. Scalars keep their widths, an
enumeration field is the `i32` the wire carries, `bytes` are byte lists and a
message field is optional.
-/

set_option autoImplicit false

namespace Grizol.Model

/-- A sequence of bytes, `Vec<u8>` or `&[u8]`. -/
abbrev Bytes := List UInt8

/-- A device, named by the SHA-256 hash of its certificate. Its text form, which
the database stores, determines it. -/
structure DeviceId where
  id : Vector UInt8 32
  deriving DecidableEq, Repr

namespace Syncthing

/-- The first message on a connection. -/
structure Hello where
  deviceName : String := ""
  clientName : String := ""
  clientVersion : String := ""
  deriving DecidableEq, Repr, Inhabited

/-- The header of each later message. -/
structure Header where
  type : Int32 := 0
  compression : Int32 := 0
  deriving DecidableEq, Repr, Inhabited

/-- The kinds of messages after the hello, in the order of their numbers. -/
inductive MessageType where
  | clusterConfig | index | indexUpdate | request | response | downloadProgress | ping | close
  deriving DecidableEq, Repr

/-- The wire number of a message type. -/
def MessageType.toInt32 : MessageType → Int32
  | .clusterConfig => 0
  | .index => 1
  | .indexUpdate => 2
  | .request => 3
  | .response => 4
  | .downloadProgress => 5
  | .ping => 6
  | .close => 7

/-- `MessageType::try_from`. -/
def MessageType.ofInt32 (n : Int32) : Option MessageType :=
  [.clusterConfig, .index, .indexUpdate, .request, .response, .downloadProgress, .ping,
    .close].find? fun t => t.toInt32 = n

/-- A kind of message is read back from its number. -/
@[simp] theorem MessageType.ofInt32_toInt32 (t : MessageType) : ofInt32 t.toInt32 = some t := by
  cases t <;> rfl

/-- How the body of a message is compressed. -/
inductive MessageCompression where
  | none | lz4
  deriving DecidableEq, Repr

/-- `MessageCompression::try_from`. -/
def MessageCompression.ofInt32 (n : Int32) : Option MessageCompression :=
  if n = 0 then some .none else if n = 1 then some .lz4 else Option.none

/-- A device as a cluster config lists it. -/
structure Device where
  id : Bytes := []
  name : String := ""
  addresses : List String := []
  compression : Int32 := 0
  certName : String := ""
  maxSequence : Int64 := 0
  introducer : Bool := false
  indexId : UInt64 := 0
  skipIntroductionRemovals : Bool := false
  encryptionPasswordToken : Bytes := []
  deriving DecidableEq, Repr, Inhabited

/-- A folder as a cluster config lists it, with the devices it is shared with. -/
structure Folder where
  id : String := ""
  label : String := ""
  readOnly : Bool := false
  ignorePermissions : Bool := false
  ignoreDelete : Bool := false
  disableTempIndexes : Bool := false
  paused : Bool := false
  devices : List Device := []
  deriving DecidableEq, Repr, Inhabited

/-- The folders that the sender shares. -/
structure ClusterConfig where
  folders : List Folder := []
  deriving DecidableEq, Repr, Inhabited

/-- A block of a file and its hash. -/
structure BlockInfo where
  offset : Int64 := 0
  size : Int32 := 0
  hash : Bytes := []
  weakHash : UInt32 := 0
  deriving DecidableEq, Repr, Inhabited

/-- The number of changes that one device has made to a file. -/
structure Counter where
  id : UInt64 := 0
  value : UInt64 := 0
  deriving DecidableEq, Repr, Inhabited

/-- The message `Vector`, a version vector. -/
structure VersionVector where
  counters : List Counter := []
  deriving DecidableEq, Repr, Inhabited

/-- A file as an index announces it. -/
structure FileInfo where
  name : String := ""
  type : Int32 := 0
  size : Int64 := 0
  permissions : UInt32 := 0
  modifiedS : Int64 := 0
  modifiedNs : Int32 := 0
  modifiedBy : UInt64 := 0
  deleted : Bool := false
  invalid : Bool := false
  noPermissions : Bool := false
  version : Option VersionVector := none
  sequence : Int64 := 0
  blockSize : Int32 := 0
  blocks : List BlockInfo := []
  symlinkTarget : String := ""
  deriving DecidableEq, Repr, Inhabited

/-- All files of a folder. -/
structure Index where
  folder : String := ""
  files : List FileInfo := []
  deriving DecidableEq, Repr, Inhabited

/-- The files of a folder that changed. -/
structure IndexUpdate where
  folder : String := ""
  files : List FileInfo := []
  deriving DecidableEq, Repr, Inhabited

/-- The request for the data of a block. -/
structure Request where
  id : Int32 := 0
  folder : String := ""
  name : String := ""
  offset : Int64 := 0
  size : Int32 := 0
  hash : Bytes := []
  fromTemporary : Bool := false
  deriving DecidableEq, Repr, Inhabited

/-- The answer to a request, with an error code. -/
structure Response where
  id : Int32 := 0
  data : Bytes := []
  code : Int32 := 0
  deriving DecidableEq, Repr, Inhabited

/-- The error codes of responses, in the order of their numbers. -/
inductive ErrorCode where
  | noError | generic | noSuchFile | invalidFile
  deriving DecidableEq, Repr

/-- `ErrorCode::try_from`. -/
def ErrorCode.ofInt32 (n : Int32) : Option ErrorCode :=
  if n = 0 then some .noError else if n = 1 then some .generic
  else if n = 2 then some .noSuchFile else if n = 3 then some .invalidFile else none

/-- What has been downloaded of one file. -/
structure FileDownloadProgressUpdate where
  updateType : Int32 := 0
  name : String := ""
  version : Option VersionVector := none
  blockIndexes : List Int32 := []
  deriving DecidableEq, Repr, Inhabited

/-- What has been downloaded of the files of a folder. -/
structure DownloadProgress where
  folder : String := ""
  updates : List FileDownloadProgressUpdate := []
  deriving DecidableEq, Repr, Inhabited

/-- A message that only keeps the connection alive. -/
structure Ping where
  deriving DecidableEq, Repr, Inhabited

/-- The end of a connection, with a reason. -/
structure Close where
  reason : String := ""
  deriving DecidableEq, Repr, Inhabited

end Syncthing

end Grizol.Model

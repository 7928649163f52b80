import Grizol.Interface.OfferedBlocks
import Grizol.Interface.ReceivedBlocks
import Grizol.Interface.StorageCalls

/-!
# Where the bytes on the disk come from

The data of a response goes into a file of its chunk, the files of the chunks go into the file
itself, and handlers of other responses may be at the same files all the while: two may
write one chunk at once, and a file may be consolidated while a chunk of it is written. What a
byte on the disk can be is said without their order.
-/

set_option autoImplicit false

namespace Grizol.Interface

open Grizol.Library
open Grizol.Model Grizol.Model.Syncthing

/-- The messages that all connections took in a run. -/
def takenIn (codec : Codec) (hash : String → ℕ → ℕ → UInt64) (sha256 : Bytes → Bytes)
    (debugRequest : Request → String) (config : ConnectionConfig) (s : Server)
    (es : List ServerEvent) : List CompleteMessage :=
  Transition.collect (serverStep codec hash sha256 debugRequest config)
    (handedOver fun _ => takenMessage) s es

/-- The name under which the manager keeps the writer of the file of a block. -/
def BlockAt.fileRelPath (block : BlockAt) : String := block.folder ++ "/" ++ block.name

/-- A block that is offered by the messages, or was in the database. -/
abbrev OfferedBy (db : Database) (taken : List CompleteMessage) : BlockAt → Prop :=
  Offered db (taken.filterMap broughtIndex)

/-- A response without an error brought this data, and its hash is that of a block that was
offered at this place of the file. -/
def Delivered (sha256 : Bytes → Bytes) (db : Database) (taken : List CompleteMessage)
    (fileRelPath : String) (offset : ℕ) (data : Bytes) : Prop :=
  ∃ block, OfferedBy db taken block ∧ block.fileRelPath = fileRelPath ∧
    StorageManager.toUsize block.offset = some offset ∧
    ∃ x, .response x ∈ taken ∧ BringsBlock sha256 block.hash x ∧ x.data = data

/-- Where the byte at a position of a file can come from: it was there, it was not written, it is
that byte of data that was delivered for the chunk, or it was copied from its chunk. -/
inductive ByteFrom (files : FileStore) (fileWriters : AssocMap String FileWriter)
    (delivered : String → ℕ → Bytes → Prop) : String → ℕ → UInt8 → Prop
  | kept {path : String} {k : ℕ} {b : UInt8} (hbyte : FileStore.HasByte files path k b) :
      ByteFrom files fileWriters delivered path k b
  | unwritten (path : String) (k : ℕ) : ByteFrom files fileWriters delivered path k 0
  | received {key : String} {w : FileWriter} {i : ℕ} {data : Bytes} {k : ℕ} {b : UInt8}
      (hwriter : fileWriters.get key = some w) (hdata : delivered key (i * w.chunkSize) data)
      (hlength : data.length ≤ w.chunkSize) (hbyte : data[k]? = some b) :
      ByteFrom files fileWriters delivered (w.chunkPath i) k b
  | consolidated {key : String} {w : FileWriter} {i k : ℕ} {b : UInt8}
      (hwriter : fileWriters.get key = some w)
      (hchunk : ByteFrom files fileWriters delivered (w.chunkPath i) k b) :
      ByteFrom files fileWriters delivered w.filePath (i * w.chunkSize + k) b

/-- **Nothing is on the disk but what was delivered.** The writers are those of files that were
offered, each at the path of its file; no path is touched but those of the writers; and every
byte of a file has one of the origins. -/
structure HoldsDelivered (sha256 : Bytes → Bytes) (db : Database) (start : StorageManager)
    (taken : List CompleteMessage) (m : StorageManager) : Prop where
  writers : ∀ key w, m.fileWriters.get key = some w →
    w.filePath = start.absPath key ∧ ∃ block, OfferedBy db taken block ∧ block.fileRelPath = key
  touched : ∀ path, m.disk.get path ≠ start.disk.get path →
    ∃ key w, m.fileWriters.get key = some w ∧ Uses w path
  bytes : ∀ path k b, FileStore.HasByte m.disk path k b →
    ByteFrom start.disk m.fileWriters (Delivered sha256 db taken) path k b

end Grizol.Interface

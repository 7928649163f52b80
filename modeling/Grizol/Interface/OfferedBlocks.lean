import Grizol.Interface.SentRequests

/-!
# Blocks that clients offer

An index says which blocks the files of a client have. From the message they go into the
tables and the indices in memory, from the rows of the client into those of this device, and
from there into the queue that all connections send from. Whichever way they take, nothing
should be asked for that nobody offered.
-/

set_option autoImplicit false

namespace Grizol.Interface

open Grizol.Library
open Grizol.Model Grizol.Model.Syncthing

/-- A block, as it is asked for. -/
structure BlockAt where
  folder : String
  name : String
  offset : Int64
  size : Int32
  hash : Bytes
  deriving DecidableEq

namespace BlockAt

/-- The block of a row. -/
def ofRow (key : BlockKey) : BlockAt :=
  ⟨key.file.folder, key.file.name, key.offset, key.size, key.hash⟩

/-- A block of an announced file. -/
def ofFile (folder : String) (file : FileInfo) (block : BlockInfo) : BlockAt :=
  ⟨folder, file.name, block.offset, block.size, block.hash⟩

/-- The block that a request asks for. -/
def ofRequest (r : Request) : BlockAt := ⟨r.folder, r.name, r.offset, r.size, r.hash⟩

end BlockAt

/-- The blocks of the files of an index. -/
def offeredBlocks (index : Index) : List BlockAt :=
  index.files.flatMap fun f => f.blocks.map (.ofFile index.folder f)

/-- The index a message brings. -/
def broughtIndex : CompleteMessage → Option Index
  | .index x => some x
  | .indexUpdate x => some { folder := x.folder, files := x.files }
  | _ => none

/-- The index a step takes. -/
def indexedBy (_ : ServerState) (connection : Connection) (event : ConnectionEvent) : List Index :=
  (takenMessage connection event).filterMap broughtIndex

/-- The indices that all connections took in a run. -/
def indexedIn (codec : Codec) (hash : String → ℕ → ℕ → UInt64) (sha256 : Bytes → Bytes)
    (debugRequest : Request → String) (config : ConnectionConfig) (s : Server)
    (es : List ServerEvent) : List Index :=
  Transition.collect (serverStep codec hash sha256 debugRequest config) (handedOver indexedBy) s es

/-- The block was in the database, or an index offered it. -/
def Offered (db : Database) (indexed : List Index) (block : BlockAt) : Prop :=
  (∃ key, db.bepBlockInfo.contains key = true ∧ .ofRow key = block) ∨
    ∃ index ∈ indexed, block ∈ offeredBlocks index

/-- **Only what was offered is asked for**, under a whole hash and never from temporary files. -/
structure AsksForOffered (db : Database) (indexed : List Index) (sent : List Request) : Prop where
  offered : ∀ r ∈ sent, Offered db indexed (.ofRequest r)
  hashed : ∀ r ∈ sent, r.hash.length = 32
  whole : ∀ r ∈ sent, r.fromTemporary = false

end Grizol.Interface

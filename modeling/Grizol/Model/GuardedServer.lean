import Grizol.Library.Locks
import Grizol.Model.Connection

/-!
# Guards of the map of writers

`file_writers` of the storage manager is a `DashMap`, a map in shards with a lock each. `entry`
takes the lock of the shard of its key, and what `or_insert` gives out holds it until
`write_chunk` or `consolidate` has returned. A call of `entry` on a shard that is held blocks
its thread. The turns of `Connection.turn` do not wait for a guard, so their orders include
those of the code; the steps here are the ones that the guards leave.
-/

set_option autoImplicit false

namespace Grizol.Model

open Grizol.Library
open Grizol.Model.Syncthing

namespace ResponsePc

/-- The key whose guard is held here. -/
def guardKey : ResponsePc → Option String
  | .writeChunk request _ _ _ _ | .consolidate request _ =>
      some (StorageManager.fileRelPath request)
  | _ => none

/-- The key that the next turn calls `entry` for. -/
def entryKey : ResponsePc → Option String
  | .openWriter request _ _ | .concludeWriter request _ _ =>
      some (StorageManager.fileRelPath request)
  | _ => none

end ResponsePc

namespace MessageTask

/-- The file of the entry that the task holds across an await. -/
def guardKey : MessageTask → Option String
  | .handling (.response h) _ => h.pc.guardKey
  | _ => none

/-- The file of the entry that the task asks for next. -/
def entryKey : MessageTask → Option String
  | .handling (.response h) _ => h.pc.entryKey
  | _ => none

end MessageTask

/-- A task, by its connection and its number there. -/
structure TaskId where
  connection : ℕ
  task : ℕ
  deriving DecidableEq

/-- The server, and who holds the lock of each shard. -/
structure GuardedServer where
  server : Server
  guards : ℕ → Option TaskId

/-- The task with this name. -/
def Server.task (s : Server) (id : TaskId) : Option MessageTask :=
  (s.connections id.connection).bind fun c => c.tasks[id.task]?

/-- The task that an event is a turn of. -/
def ServerEvent.taskId (e : ServerEvent) : Option TaskId :=
  match e.event with
  | .turn i _ => some ⟨e.connection, i⟩
  | _ => none

namespace GuardedServer

/-- Nothing is held before anyone has connected. -/
def start (state : ServerState) : GuardedServer := ⟨.start state, fun _ => none⟩

variable (shard : String → ℕ)

/-- A task is kept waiting by the guard of another. -/
def waits (s : GuardedServer) (id : TaskId) : Bool :=
  match (s.server.task id).bind MessageTask.entryKey with
  | some key => (s.guards (shard key)).isSome
  | none => false

/-- The shard whose lock a task holds. -/
def shardHeld (s : Server) (id : TaskId) : Option ℕ :=
  ((s.task id).bind MessageTask.guardKey).map shard

variable (codec : Codec) (hash : String → ℕ → ℕ → UInt64) (sha256 : Bytes → Bytes)
  (debugRequest : Request → String) (config : ConnectionConfig)

/-- A step of the server, if it waits for no guard. -/
def step (s : GuardedServer) (e : ServerEvent) : Option GuardedServer :=
  match e.taskId with
  | none => (s.server.step codec hash sha256 debugRequest config e).map fun server =>
      { s with server := server }
  | some id =>
      if s.waits shard id then none
      else (s.server.step codec hash sha256 debugRequest config e).map fun server =>
        ⟨server, Locks.handOver s.guards id (shardHeld shard s.server id)
          (shardHeld shard server id)⟩

end GuardedServer

end Grizol.Model

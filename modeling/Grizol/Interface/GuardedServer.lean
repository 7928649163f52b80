import Grizol.Interface.Connections
import Grizol.Model.GuardedServer

/-!
# One call on a writer at a time

The calls of `write_chunk` and `consolidate` that the handlers make hold the guard of their
shard. So no two of them overlap whose files are in one shard, on whatever connections
the responses came, and a handler that comes to `entry` waits exactly for such a call.
-/

set_option autoImplicit false

namespace Grizol.Interface

open Grizol.Library
open Grizol.Model Grizol.Model.Syncthing

section Steps

variable (shard : String → ℕ) (codec : Codec) (hash : String → ℕ → ℕ → UInt64)
  (sha256 : Bytes → Bytes) (debugRequest : Request → String) (config : ConnectionConfig)

/-- The steps of the server that the guards leave. -/
abbrev guardedStep : GuardedServer → ServerEvent → Option GuardedServer :=
  GuardedServer.step shard codec hash sha256 debugRequest config

end Steps

/-- **Calls on the writers of one shard do not overlap.** At most one task is at a step of such a
call; one that looks a writer up waits while there is one, and only then. -/
structure GuardsExclude (shard : String → ℕ) (s : GuardedServer) : Prop where
  alone : ∀ sh id id', GuardedServer.shardHeld shard s.server id = some sh →
    GuardedServer.shardHeld shard s.server id' = some sh → id = id'
  waits : ∀ id key, (s.server.task id).bind MessageTask.entryKey = some key →
    (s.waits shard id = true ↔
      ∃ id', GuardedServer.shardHeld shard s.server id' = some (shard key))

end Grizol.Interface

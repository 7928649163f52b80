import Grizol.Interface.GuardedServer
import Grizol.Library.Fairness

/-!
# Tasks that come to their end

The tasks spawned for the messages of a connection share with others the state, the guards of
the writers and the channel of the connection. In a run that never ends, each of them should
still come to its end, if the tasks are given turns, the channel is emptied and a guard that is
free again and again is not withheld. `entry` blocks its thread while it waits, so that the
others are given turns rests on there being threads left.
-/

set_option autoImplicit false

namespace Grizol.Interface

open Filter Grizol.Library
open Grizol.Model Grizol.Model.Syncthing

/-- The turns of the task `i` of the connection `c`. -/
def turnsOf (c i : ℕ) : Set ServerEvent :=
  {e | e.connection = c ∧ ∃ input, e.event = .turn i input}

/-- The passes of the loop that writes on the connection `c`. -/
def sendsOn (c : ℕ) : Set ServerEvent :=
  {e | e.connection = c ∧ ∃ outcome, e.event = .send outcome}

/-- The task `i` of the connection `c` has ended. -/
def EndedAt (s : Server) (c i : ℕ) : Prop :=
  ∃ k task, s.connections c = some k ∧ k.tasks[i]? = some task ∧ Ended task

section Runs

variable (shard : String → ℕ) (codec : Codec) (hash : String → ℕ → ℕ → UInt64)
  (sha256 : Bytes → Bytes) (debugRequest : Request → String) (config : ConnectionConfig)

/-- **The task ends**, and is at its end from some step on. Every task, of whatever connection, and
the loop of the connection take turns if these stay possible; the task itself takes one
if that is possible again and again, so that others cannot always be first at a guard. -/
def EndsIfFair (c i : ℕ) (s : ℕ → GuardedServer) (e : ℕ → ServerEvent) : Prop :=
  (∀ c' i', Fairness.WeaklyFairTo (guardedStep shard codec hash sha256 debugRequest config)
    (turnsOf c' i') s e) →
  Fairness.WeaklyFairTo (guardedStep shard codec hash sha256 debugRequest config) (sendsOn c) s e →
  Fairness.FairTo (guardedStep shard codec hash sha256 debugRequest config) (turnsOf c i) s e →
    ∀ᶠ n in atTop, EndedAt (s n).server c i

end Runs

end Grizol.Interface

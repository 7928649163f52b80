import Grizol.Interface.SharedWriter

/-!
# One call at a time on the file of a chunk

Each chunk of a writer has a flag, which a call takes before it opens, and truncates, the
file of the chunk, and gives back after it has synced it. A second call for the same chunk
should find the flag taken and be turned away.
-/

set_option autoImplicit false

namespace Grizol.Interface

open Grizol.Library Grizol.Model

namespace WriterCall

/-- The call is at one of the operations on the file of this chunk, from the open, which
truncates it, to the sync. -/
def WritesChunk (chunkSize chunkPos : ℕ) : WriterCall → Prop
  | .write _ offset .openChunk | .write _ offset .setLen | .write _ offset .writeAll
  | .write _ offset .syncAll => offset / chunkSize = chunkPos
  | _ => False

/-- The call asks for the flag of this chunk next. -/
def Arrives (chunkSize chunkPos : ℕ) : WriterCall → Prop
  | .write _ offset .acquire => offset / chunkSize = chunkPos
  | _ => False

/-- The call returned the error of a chunk that is being written. -/
def TurnedAway (c : WriterCall) : Prop :=
  ∃ data offset e, c = .write data offset (.returned (.error e)) ∧ e.kind = .alreadyExists

end WriterCall

section

variable {ι : Type}

/-- No two calls are at the file of one chunk. -/
def ExclusiveChunks (s : Processes ι WriterCall SharedWriter) : Prop :=
  ∀ i j chunkPos, (s.process i).WritesChunk s.shared.writer.chunkSize chunkPos →
    (s.process j).WritesChunk s.shared.writer.chunkSize chunkPos → i = j

/-- **At most one call is at the file of a chunk**, and one that arrives while another is there
is turned away and leaves the file alone. -/
structure OneAtATime (s : Processes ι WriterCall SharedWriter) (t : Turn ι Outcome)
    (s' : Processes ι WriterCall SharedWriter) : Prop where
  exclusive : ExclusiveChunks s'
  turnedAway : ∀ i chunkPos, i ≠ t.process →
    (s.process i).WritesChunk s.shared.writer.chunkSize chunkPos →
    (s.process t.process).Arrives s.shared.writer.chunkSize chunkPos →
      (s'.process t.process).TurnedAway ∧
        s'.shared.files.get (s.shared.writer.chunkPath chunkPos) =
          s.shared.files.get (s.shared.writer.chunkPath chunkPos)

/-- **What is needed of a turn**: a call that asks for the flag of its chunk finds no other call
at the file of the chunk. -/
def FindsChunkFree (s : Processes ι WriterCall SharedWriter) (t : Turn ι Outcome) : Prop :=
  ∀ i chunkPos, i ≠ t.process →
    (s.process i).WritesChunk s.shared.writer.chunkSize chunkPos →
      ¬ (s.process t.process).Arrives s.shared.writer.chunkSize chunkPos

end

end Grizol.Interface

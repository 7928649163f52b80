import Grizol.Interface.SharedWriter

/-!
# A writer after its calls

When none of the calls on a writer is in flight, the writer should be as it was before the
first: no call counted, no flag set, and open to every later call.
-/

set_option autoImplicit false

namespace Grizol.Interface

open Grizol.Library Grizol.Model

namespace WriterCall

/-- The call has begun and has not returned. -/
def InFlight : WriterCall → Prop
  | .write _ _ .check | .write _ _ (.returned _) | .write _ _ (.panicked _) => False
  | .consolidate .enter _ | .consolidate (.returned _) _ => False
  | _ => True

/-- The file operation of this turn succeeds, if the call makes one after it has changed the
state of the writer. A file that is opened to be read, or removed, must exist. -/
def opSucceeds (outcome : Outcome) : WriterCall → SharedWriter → Bool
  | .write _ _ .openChunk, _ | .write _ _ .setLen, _ | .write _ _ .writeAll, _
  | .write _ _ .syncAll, _ => outcome = .ok
  | .consolidate .openTarget _, _ | .consolidate (.readChunk _) _, _
  | .consolidate (.seek _ _) _, _ | .consolidate (.writeAll _ _) _, _
  | .consolidate (.syncAll _) _, _ => outcome = .ok
  | .consolidate (.openChunk i) _, s | .consolidate (.removeChunk i) _, s =>
      outcome = .ok && s.files.contains (s.writer.chunkPath i)
  | _, _ => true

end WriterCall

/-- In this turn no file operation fails that the writer counts on. -/
def OpSucceeds {ι : Type} (s : Processes ι WriterCall SharedWriter) (t : Turn ι Outcome) : Prop :=
  (s.process t.process).opSucceeds t.outcome s.shared = true

/-- **The writer has recovered.** A later call is not rejected: a write is counted, and a
consolidation begins. -/
structure Recovered (w : FileWriter) : Prop where
  state : w.state = .writingChunks 0
  free : w.writingChunk.all (fun flag => !flag) = true
  writes : ∀ files data offset outcome,
    (w.writeStep files data offset outcome .enter).2.2 = .acquire
  consolidates : ∀ files outcome, (w.consolidateStep files outcome .enter).2.2 = .checkFlags

end Grizol.Interface

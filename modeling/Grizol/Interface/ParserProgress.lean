import Grizol.Interface.WireFormat
import Grizol.Library.Transition

/-!
# Progress of the incoming data parser

The loop of `parse_incoming_data` has no bound of its own: it ends because each of its
iterations takes bytes of the buffer, and it takes bytes because no message that is kept
from one iteration to the next is complete. `WellBuffered` says what such a message is
like, `Progresses` what an iteration takes, and `loopStep` is the loop as a transition.
-/

set_option autoImplicit false

namespace Grizol.Interface

open Grizol.Library
open Grizol.Model Grizol.Model.Syncthing

/-- The length of a frame, once its bytes declare it. -/
def declaredLen : BepAuthStatus → Bytes → Option ℕ
  | .preHello, s => helloFrameLen s
  | .postHello, s => messageFrameLen s

/-- The bytes do not reach past the end of the frame. -/
def WithinFrame (im : IncomingMessage) : Prop :=
  ∀ n, declaredLen im.authStatus im.data = some n → im.data.length ≤ n

/-- A message that is kept for the next iteration. -/
structure WellBuffered (p : BepDataParser) (im : IncomingMessage) : Prop where
  nonempty : 1 ≤ im.totalByteLen
  phase : im.authStatus = p.bepAuthStatus
  within : WithinFrame im
  header : im.header.isSome = true ↔
    im.authStatus = .postHello ∧ 2 ≤ im.data.length ∧ 2 + headerLen im.data ≤ im.data.length
  incomplete : im.status = .ok .incomplete
  unfinished : declaredLen im.authStatus im.data ≠ some im.data.length

variable (codec : Codec)

/-- A populating function has taken bytes of the slice: one at least, and they do not reach past
the end of the frame; what is missing can be computed then. -/
def Takes (p : BepDataParser) (rest : Bytes) (answer : Rust (BepDataParser × ℕ)) : Prop :=
  ∃ p' n im status, answer = .ok (p', n) ∧ 1 ≤ n ∧ n ≤ rest.length ∧
    p'.incomingMessage = some im ∧ im.data = p.heldBytes ++ rest.take n ∧ WithinFrame im ∧
    im.status = .ok status

/-- It has panicked because the header it completed does not decode. -/
def HeaderFails (p : BepDataParser) (rest : Bytes) (answer : Rust (BepDataParser × ℕ)) : Prop :=
  answer = .error .unwrap ∧
    ∃ n, n ≤ rest.length ∧ acceptsHeader codec (p.heldBytes ++ rest.take n) = false

/-- Each populating function makes progress where the loop calls it. -/
structure Progresses (p : BepDataParser) (rest : Bytes) : Prop where
  hello : p.bepAuthStatus = .preHello → Takes p rest (p.populateHello codec rest)
  header : p.bepAuthStatus = .postHello → p.incomingMessage.bind IncomingMessage.header = none →
    Takes p rest (p.populateHeader codec rest) ∨
      HeaderFails codec p rest (p.populateHeader codec rest)
  message : p.bepAuthStatus = .postHello → p.incomingMessage.bind IncomingMessage.header ≠ none →
    Takes p rest (p.populateMessage codec rest)

/-- The body of the loop: the bytes it has processed, and whether the loop goes on. -/
def iteration (p : BepDataParser) (rest : Bytes) : Rust (BepDataParser × ℕ × Bool) := do
  let (p, n) ← p.populate codec rest
  let (p, completeMessage) ← p.completeMessage codec
  match completeMessage with
  | .ok _ => pure ({ p with incomingMessage := none }, n, true)
  | .error .noIncomingMessageYet => pure (p, n, true)
  | .error _ => pure (p, n, false)

/-- From one head of the loop over a buffer to the next. -/
def loopStep (buf : Bytes) : BepDataParser × ℕ → Unit → Option (BepDataParser × ℕ)
  | (p, processedBytes), () =>
      if processedBytes < buf.length then
        match iteration codec p (buf.drop processedBytes) with
        | .ok (p, n, true) => some (p, processedBytes + n)
        | _ => none
      else none

end Grizol.Interface

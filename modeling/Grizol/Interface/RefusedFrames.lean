import Grizol.Interface.HostileInput

/-!
# Messages before a refused frame

A stream of frames that all decode, and then one that the parser refuses with an error.
The caller gets a vector of messages from every call that returns `Ok`, and only the
error from the one that meets the refused frame.
-/

set_option autoImplicit false

namespace Grizol.Interface

open Grizol.Library
open Grizol.Model Grizol.Model.Syncthing

variable (codec : Codec)

/-- The bytes are complete frames, which hold the messages. -/
def ValidFrames (valid : Bytes) (messages : List CompleteMessage) (phase : BepAuthStatus) : Prop :=
  (wireFormat codec).read .preHello valid = some (messages, phase, [])

/-- The bytes are one complete frame, for which the parser has a `ParseError`. -/
structure RefusedFrame (phase : BepAuthStatus) (bad : Bytes) : Prop where
  complete : (wireFormat codec).frameLen phase bad = some bad.length
  refused : checkFrame codec phase bad = some none

/-- What the caller has got when the parser returns its first error are the messages. -/
def DeliversBeforeErr (parser : BepDataParser) (bufs : List Bytes)
    (messages : List CompleteMessage) : Prop :=
  ∃ (delivered : List (List CompleteMessage)) (e : String),
    parser.feedUntilErr codec bufs = .ok (delivered.map .ok ++ [.error e]) ∧
      delivered.flatten = messages

/-- A buffer starts where the refused frame does, or inside it. -/
def CutAtRefused (valid bad : Bytes) (bufs : List Bytes) : Prop :=
  ∃ n, valid.length ≤ (bufs.take n).flatten.length ∧
    (bufs.take n).flatten.length < (valid ++ bad).length

end Grizol.Interface

import Grizol.Interface.Conversations

/-!
# Greetings

A client that is told anything before it is told Hello cannot read it. The tasks of two reads
run beside each other, and nothing makes the one with the Hello come first; it does when the
client waits for the answer before it sends on, and the first ping comes later than that.
-/

set_option autoImplicit false

namespace Grizol.Interface

open Grizol.Library
open Grizol.Model Grizol.Model.Syncthing

/-- Until the first bytes were written, a read finds the tasks of the reads before it ended,
and the task that pings sleeps. -/
def AnswersFirst (connection : Connection) : ConnectionEvent → Prop
  | .read _ => connection.written = [] → ∀ task ∈ connection.tasks, Ended task
  | .ping => connection.written ≠ []
  | _ => True

/-- The first message is the reply to the Hello, and it is the only one. -/
def GreetsFirst (config : ConnectionConfig) : List CompleteMessage → Prop
  | [] => True
  | m :: messages => m = helloReply config ∧ ∀ m' ∈ messages, ∀ hello, m' ≠ .hello hello

/-- The codec reads a message as it was written. -/
def ReadsBack (codec : Codec) : CompleteMessage → Prop
  | .hello hello => codec.decodeHello (codec.encodeHello hello) = .ok hello
  | m => ∀ t, m.messageType = some t →
      codec.decodeHeader (codec.encodeHeader (MessageType.header t)) = .ok (MessageType.header t) ∧
        decodeBody codec t (m.encodeToVec codec) = .ok m

/-- **The client can read what is written.** In whatever buffers the first bytes come, its
parser returns the first of the messages sent; once all came, it returned all of them. -/
structure Readable (codec : Codec) (sent : List CompleteMessage) (connection : Connection) :
    Prop where
  parses : ∀ bufs : List Bytes, bufs.flatten <+: connection.written →
    ∃ (parser : BepDataParser) (delivered : List (List CompleteMessage)),
      BepDataParser.new.feed codec bufs = .ok (parser, delivered.map .ok) ∧
      delivered.flatten <+: sent ∧
      (connection.receiving = true → bufs.flatten = connection.written →
        delivered.flatten = sent ∧ parser.heldBytes = [])

end Grizol.Interface

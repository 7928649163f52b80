import Grizol.Interface.Connections
import Grizol.Interface.Downloads

/-!
# Conversations

The messages of a connection come in the order of its stream. Each read hands its messages
to a task of its own, so they are handled in that order when a read finds the tasks of
the reads before it ended. Then the events of the connection are the replies to its
messages, one message after the other. In any other run the replies are mixed, but they are
the same.
-/

set_option autoImplicit false

namespace Grizol.Interface

open Grizol.Library
open Grizol.Model Grizol.Model.Syncthing

/-- The messages a task has still to take. -/
def waitingMessages : MessageTask → List CompleteMessage
  | .next messages | .handling _ messages | .sending _ messages => messages
  | .returned | .failed | .panicked _ => []

/-- A read finds the tasks of the reads before it ended. -/
def ReadsWhenEnded (connection : Connection) : ConnectionEvent → Prop
  | .read _ => ∀ task ∈ connection.tasks, Ended task
  | _ => True

/-- What a client is told of what a handler returns: the whole of it, or less. -/
def PartOfReply (config : ConnectionConfig) (m : CompleteMessage)
    (results : List (Except BepProcessorError GrizolEvent)) : Prop :=
  results = [] ∨ ∃ rest, RepliesTo config m (results ++ rest)

/-- The messages that were handled, with what was returned for each. -/
abbrev Conversation : Type := List (CompleteMessage × List (Except BepProcessorError GrizolEvent))

/-- **The messages of a connection are handled in the order of its stream**, one at a time. The
events of its tasks are the replies to them; all are handled and answered when the tasks
have returned. -/
structure InOrder (codec : Codec) (config : ConnectionConfig) (r : ConnectionRecord)
    (connection : Connection) (conversation : Conversation) : Prop where
  stream : ∃ bufs pending, bufs <+: r.read ∧
    (connection.dataParser.isSome = true → bufs = r.read) ∧
    readStream codec bufs.flatten = some (r.parsed, pending)
  taken : r.taken = conversation.map Prod.fst
  order : (r.taken ++ connection.tasks.flatMap waitingMessages).Sublist r.parsed
  alone : ∀ task ∈ connection.tasks.dropLast, Ended task
  queued : r.queued = conversation.flatMap fun x => emitted x.2
  replies : ∀ x ∈ conversation, PartOfReply config x.1 x.2
  complete : (∀ task ∈ connection.tasks, task = .returned) →
    r.taken = r.parsed ∧ ∀ x ∈ conversation, RepliesTo config x.1 x.2

/-- **Every message is handled once, whatever the order.** The events of the tasks are the
replies to the messages they took, mixed; all are handled and answered when the tasks have
returned. -/
structure AnswersEach (config : ConnectionConfig) (r : ConnectionRecord) (connection : Connection)
    (conversation : Conversation) : Prop where
  taken : (conversation.map Prod.fst).Perm r.taken
  parsed : (r.taken ++ connection.tasks.flatMap waitingMessages).Subperm r.parsed
  queued : (conversation.flatMap fun x => emitted x.2).Perm r.queued
  replies : ∀ x ∈ conversation, PartOfReply config x.1 x.2
  complete : (∀ task ∈ connection.tasks, task = .returned) →
    r.taken.Perm r.parsed ∧ ∀ x ∈ conversation, RepliesTo config x.1 x.2

end Grizol.Interface

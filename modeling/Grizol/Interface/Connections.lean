import Grizol.Interface.WireFormat
import Grizol.Library.Transition
import Grizol.Model.Connection

/-!
# What happens on a connection

A run of the server is seen from one of its connections: the bytes read on it, the
messages parsed out of them, those its tasks took, and the events they queued. From
these it is said what the server may write, and what it owes the client for a message.
-/

set_option autoImplicit false

namespace Grizol.Interface

open Grizol.Library
open Grizol.Model Grizol.Model.Syncthing

/-! ## The record of a run -/

/-- The buffer an event hands to the reader. -/
def readBuffer (connection : Connection) : ConnectionEvent → List Bytes
  | .read buf => if connection.dataParser.isSome then [buf] else []
  | _ => []

/-- The messages an event makes the reader spawn a task for. -/
def parsedMessages (codec : Codec) (connection : Connection) :
    ConnectionEvent → List CompleteMessage
  | .read buf =>
      match connection.dataParser with
      | some p =>
          match p.parseIncomingData codec buf with
          | .ok (_, .ok messages) => messages
          | _ => []
      | none => []
  | _ => []

/-- The message a task takes. -/
def takenMessage (connection : Connection) : ConnectionEvent → List CompleteMessage
  | .turn i _ =>
      match connection.tasks[i]? with
      | some (.next (m :: _)) => [m]
      | _ => []
  | _ => []

/-- The event a task puts into the channel. -/
def queuedEvent (connection : Connection) : ConnectionEvent → List GrizolEvent
  | .turn i _ =>
      match connection.tasks[i]? with
      | some (.sending (.ok event :: _) _) => if connection.receiving then [event] else []
      | _ => []
  | _ => []

/-- The event that comes into the channel, from a task or from the one that pings. -/
def pushedEvent (connection : Connection) : ConnectionEvent → List GrizolEvent
  | .ping => if connection.receiving then [.message (.ping {})] else []
  | event => queuedEvent connection event

/-- The event the loop takes out of the channel and writes, with the requests it gets for it. -/
def writtenEvent (codec : Codec) (config : ConnectionConfig) (s : ServerState)
    (connection : Connection) : ConnectionEvent → List (GrizolEvent × List Request)
  | .send _ =>
      match connection.events with
      | [] => []
      | event :: _ =>
          match (Connection.requestsFor config event).run s.processor with
          | .error _ _ => []
          | .ok requests _ =>
              match outgoingData codec event requests with
              | .ok _ => [(event, requests)]
              | .error _ => []
  | _ => []

/-- What a run did on a connection. -/
structure ConnectionRecord where
  read : List Bytes
  parsed : List CompleteMessage
  taken : List CompleteMessage
  queued : List GrizolEvent
  pushed : List GrizolEvent
  written : List (GrizolEvent × List Request)

namespace ConnectionRecord

/-- Nothing has happened yet. -/
def empty : ConnectionRecord := ⟨[], [], [], [], [], []⟩

/-- The messages the connection wrote. -/
def sent (r : ConnectionRecord) : List CompleteMessage :=
  r.written.flatMap fun w => w.1.messages w.2

/-- One more step of the connection. -/
def extend (codec : Codec) (config : ConnectionConfig) (r : ConnectionRecord) (s : ServerState)
    (connection : Connection) (event : ConnectionEvent) : ConnectionRecord where
  read := r.read ++ readBuffer connection event
  parsed := r.parsed ++ parsedMessages codec connection event
  taken := r.taken ++ takenMessage connection event
  queued := r.queued ++ queuedEvent connection event
  pushed := r.pushed ++ pushedEvent connection event
  written := r.written ++ writtenEvent codec config s connection event

end ConnectionRecord

section Record

variable (codec : Codec) (hash : String → ℕ → ℕ → UInt64) (sha256 : Bytes → Bytes)
  (debugRequest : Request → String) (config : ConnectionConfig)

/-- The steps of the server. -/
abbrev serverStep : Server → ServerEvent → Option Server :=
  Server.step codec hash sha256 debugRequest config

/-- One more step of the server, seen from the connection `c`. -/
def recordStep (c : ℕ) (r : ConnectionRecord) (s : Server) (e : ServerEvent) (_ : Server) :
    ConnectionRecord :=
  if e.connection = c then
    match s.connections c with
    | some connection => r.extend codec config s.state connection e.event
    | none => r
  else r

/-- What a step of a connection hands out, seen from the server. -/
def handedOver {β : Type} (out : ServerState → Connection → ConnectionEvent → List β) (s : Server)
    (e : ServerEvent) : List β :=
  match s.connections e.connection with
  | some connection => out s.state connection e.event
  | none => []

/-- What a run did on the connection `c`. -/
def recordOn (c : ℕ) (s : Server) (es : List ServerEvent) : ConnectionRecord :=
  Transition.account (serverStep codec hash sha256 debugRequest config)
    (recordStep codec config c) .empty s es

/-- Every event of the connection `c` meets a condition on the connection as it is then. -/
def MeetsOn (c : ℕ) (cond : Connection → ConnectionEvent → Prop) (s : Server)
    (es : List ServerEvent) : Prop :=
  Transition.Meets (serverStep codec hash sha256 debugRequest config)
    (fun s e => e.connection = c → ∀ connection, s.connections c = some connection →
      cond connection e.event) s es

end Record

/-! ## Tasks -/

/-- A task that takes no more turns. -/
def Ended : MessageTask → Prop
  | .returned | .failed | .panicked _ => True
  | .next _ | .handling _ _ | .sending _ _ => False

/-! ## Replies -/

/-- The message every Hello is answered with. -/
def helloReply (config : ConnectionConfig) : CompleteMessage :=
  .hello { deviceName := config.name, clientName := cargoPkgName, clientVersion := cargoPkgVersion }

/-- What a handler of a message returns, if it does. -/
def RepliesTo (config : ConnectionConfig) :
    CompleteMessage → List (Except BepProcessorError GrizolEvent) → Prop
  | .hello _, results => results = [.ok (.message (helloReply config))]
  | .clusterConfig _, results => ∃ clusterConfig indices,
      results = .ok (.message (.clusterConfig clusterConfig)) ::
        List.map (fun i => .ok (.message (.index i))) indices
  | .index _, results | .indexUpdate _, results => results = [.ok .requestCreated]
  | .response _, results => ∃ result, results = [result] ∧
      ∀ event, result = .ok event → event = .requestProcessed
  | .request _, results | .ping _, results | .close _, results => results = []
  | .downloadProgress _, _ => False

/-! ## What is written -/

/-- The messages a server has for a client. It answers no request, and does not announce
changes of its own. -/
def Announces : CompleteMessage → Prop
  | .hello _ | .clusterConfig _ | .index _ | .request _ | .ping _ => True
  | .indexUpdate _ | .response _ | .downloadProgress _ | .close _ => False

/-- An event that the loop over the channel can write. -/
def Writable (event : GrizolEvent) : Prop :=
  ∀ m, event = .message m → Announces m ∧ ∀ r, m ≠ .request r

/-- **A connection writes whole frames.** They are those of the messages it has sent, in order;
only where it broke the last ones may be cut. Nothing waits in the channel that the loop
could not write. -/
structure WritesFrames (codec : Codec) (sent : List CompleteMessage) (connection : Connection) :
    Prop where
  announces : ∀ m ∈ sent, Announces m
  frames : ∃ frames, serializeAll codec sent = .ok frames ∧ connection.written <+: frames ∧
    (connection.receiving = true → connection.written = frames)
  waiting : ∀ event ∈ connection.events, Writable event

end Grizol.Interface

import Grizol.Model.ClusterConfig
import Grizol.Model.MessageHandlers
import Grizol.Model.Serialize

/-!
# Connections

`handle_incoming_data` of `main.rs`, from the handshake on. A connection is four kinds of
tasks that take turns with each other and with those of every other connection: the reader,
which spawns a task for the messages of each read; these tasks, which call
`handle_complete_message` and put its events into the channel of the connection; the task
that pings; and the loop that takes events out of the channel and writes.
-/

set_option autoImplicit false

namespace Grizol.Model

open Grizol.Library
open Grizol.Model.Syncthing

/-- What the connections read of the configuration. -/
structure ConnectionConfig where
  name : String
  maxPendingRequests : ℕ
  maxTotalPendingRequestsSize : ℕ

/-- The name in `Cargo.toml`. -/
abbrev cargoPkgName : String := "grizol"
/-- The version in `Cargo.toml`. -/
abbrev cargoPkgVersion : String := "0.2.1"

/-- `1 << 10`. -/
abbrev channelCapacity : ℕ := 1024

/-- `1 << 16`. -/
abbrev readBufferSize : ℕ := 65536

/-! ## Handlers -/

/-- A call of `handle_complete_message`. -/
inductive MessageHandler where
  | clusterConfig (h : ClusterConfigHandler)
  | index (h : IndexHandler)
  | response (h : ResponseHandler)
  | returned (results : List (Except BepProcessorError GrizolEvent))
  | panicked (fault : Fault)

namespace MessageHandler

/-- `handle_hello`. -/
def handleHello (config : ConnectionConfig) : MessageHandler :=
  .returned [.ok (.message (.hello
    { deviceName := config.name, clientName := cargoPkgName, clientVersion := cargoPkgVersion }))]

/-- `handle_response`, which comes to `process_response` if the code is no error. -/
def handleResponse (response : Response) : MessageHandler :=
  match ErrorCode.ofInt32 response.code with
  | none => .panicked (.expect "Enum value must be valid")
  | some code =>
      if ErrorCode.noError ≠ code then
        .returned [.error (.errorInResponse ("Request with id " ++ toString response.id ++
          " genereated response containing error: " ++ toString response.code ++ " "))]
      else .response (.new response)

/-- `handle_complete_message`. Requests, pings and closes are only logged. -/
def handleCompleteMessage (config : ConnectionConfig) (clientDeviceId : DeviceId)
    (clock : ℕ → ℕ) : CompleteMessage → MessageHandler
  | .hello _ => handleHello config
  | .clusterConfig x => .clusterConfig (.new x clientDeviceId)
  | .index x => .index (.new (.index x) clientDeviceId clock)
  | .indexUpdate x => .index (.new (.indexUpdate x) clientDeviceId clock)
  | .request _ | .ping _ | .close _ => .returned []
  | .response x => handleResponse x
  | .downloadProgress _ => .panicked (.explicit "not yet implemented")

/-- The cluster config comes before the indices. -/
def ofClusterConfig (h : ClusterConfigHandler) : MessageHandler :=
  match h.pc with
  | .returned config indices =>
      .returned (.ok (.message (.clusterConfig config)) ::
        indices.map fun i => .ok (.message (.index i)))
  | .panicked e => .panicked e
  | _ => .clusterConfig h

/-- A handler of an index that has returned leaves one result. -/
def ofIndex (h : IndexHandler) : MessageHandler :=
  match h.pc with
  | .returned => .returned [.ok .requestCreated]
  | .panicked e => .panicked e
  | _ => .index h

/-- A handler of a response that has returned leaves its result. -/
def ofResponse (h : ResponseHandler) : MessageHandler :=
  match h.pc with
  | .returned result => .returned [result]
  | .panicked e => .panicked e
  | _ => .response h

/-- One turn of a handler. -/
def act (hash : String → ℕ → ℕ → UInt64) (sha256 : Bytes → Bytes) (debugRequest : Request → String)
    (outcome : TurnOutcome) : MessageHandler → ServerState → MessageHandler × ServerState
  | .clusterConfig h, s =>
      let (h, s) := h.act s
      (ofClusterConfig h, s)
  | .index h, s =>
      let (h, p) := h.act s.processor
      (ofIndex h, { s with processor := p })
  | .response h, s =>
      let (h, p) := h.act hash sha256 debugRequest s.processor outcome
      (ofResponse h, { s with processor := p })
  | .returned results, s => (.returned results, s)
  | .panicked e, s => (.panicked e, s)

end MessageHandler

/-! ## Tasks -/

/-- The task spawned for one read: about to take its next message, awaiting the handler
of one, or sending its results. It returns an error if the channel is closed. -/
inductive MessageTask where
  | next (completeMessages : List CompleteMessage)
  | handling (h : MessageHandler) (completeMessages : List CompleteMessage)
  | sending (results : List (Except BepProcessorError GrizolEvent))
      (completeMessages : List CompleteMessage)
  | returned
  | failed
  | panicked (fault : Fault)

/-- A connection. `dataParser` is `none` once the reader has ended; `receiving` says that the
loop over the channel has not. -/
structure Connection where
  clientDeviceId : DeviceId
  dataParser : Option BepDataParser
  tasks : List MessageTask
  pinging : Bool
  receiving : Bool
  events : List GrizolEvent
  written : Bytes

/-- What a turn of a task is told. -/
structure TaskInput where
  outcome : TurnOutcome
  clock : ℕ → ℕ

/-- How `write_all` and `flush` end; a failure may come after a part was written. -/
inductive WriteOutcome where
  | done
  | fails (written : ℕ)

namespace Connection

/-- A connection right after its handshake. -/
def new (clientDeviceId : DeviceId) : Connection where
  clientDeviceId := clientDeviceId
  dataParser := some .new
  tasks := []
  pinging := true
  receiving := true
  events := []
  written := []

variable (c : Connection)

/-- One pass of the reader. A result that is an error is unwrapped. -/
def read (codec : Codec) (buf : Bytes) : Option Connection :=
  match c.dataParser with
  | none => none
  | some p =>
      if buf ≠ [] ∧ buf.length ≤ readBufferSize then
        match p.parseIncomingData codec buf with
        | .ok (p, .ok completeMessages) =>
            some { c with dataParser := some p, tasks := c.tasks ++ [.next completeMessages] }
        | .ok (_, .error _) | .error _ => some { c with dataParser := none }
      else none

/-- The reader comes to the end of the stream, or fails. -/
def readEnd : Option Connection :=
  if c.dataParser.isSome then some { c with dataParser := none } else none

/-- `event_sender.send`: it waits while the channel is full, and fails once it is closed. -/
def sendEvent (event : GrizolEvent) (sent failed : Connection) : Option Connection :=
  if c.receiving then
    if c.events.length < channelCapacity then some { sent with events := c.events ++ [event] }
    else none
  else some failed

/-- One pass of the task that pings. -/
def ping : Option Connection :=
  if c.pinging then c.sendEvent (.message (.ping {})) c { c with pinging := false } else none

/-- The connection with one task replaced. -/
def setTask (i : ℕ) (task : MessageTask) : Connection := { c with tasks := c.tasks.set i task }

section Turns

variable (hash : String → ℕ → ℕ → UInt64) (sha256 : Bytes → Bytes)
  (debugRequest : Request → String) (config : ConnectionConfig)

/-- One turn of a task. -/
def turn (i : ℕ) (input : TaskInput) (s : ServerState) : Option (Connection × ServerState) :=
  match c.tasks[i]? with
  | some (.next []) => some (c.setTask i .returned, s)
  | some (.next (m :: completeMessages)) =>
      let h := MessageHandler.handleCompleteMessage config c.clientDeviceId input.clock m
      some (c.setTask i (.handling h completeMessages), s)
  | some (.handling (.returned results) completeMessages) =>
      some (c.setTask i (.sending results completeMessages), s)
  | some (.handling (.panicked e) _) => some (c.setTask i (.panicked e), s)
  | some (.handling h completeMessages) =>
      let (h, s) := h.act hash sha256 debugRequest input.outcome s
      some (c.setTask i (.handling h completeMessages), s)
  | some (.sending [] completeMessages) => some (c.setTask i (.next completeMessages), s)
  | some (.sending (.error _ :: results) completeMessages) =>
      some (c.setTask i (.sending results completeMessages), s)
  | some (.sending (.ok event :: results) completeMessages) => do
      let c ← c.sendEvent event (c.setTask i (.sending results completeMessages))
        (c.setTask i .failed)
      some (c, s)
  | some .returned | some .failed | some (.panicked _) | none => none

end Turns

/-- The receiver of the channel is dropped, with what it holds. -/
def close : Connection := { c with receiving := false, events := [] }

/-- The requests that are sent for an event. -/
def requestsFor (config : ConnectionConfig) (event : GrizolEvent) :
    RustM BepProcessor (List Request) :=
  match event with
  | .message _ => pure []
  | .requestProcessed | .requestCreated =>
      BepProcessor.throttledRequests config.maxPendingRequests config.maxTotalPendingRequestsSize

/-- The data of one event is written, if there is any. -/
def writeData (data : Bytes) (outcome : WriteOutcome) : Connection :=
  if data.isEmpty then c
  else
    match outcome with
    | .done => { c with written := c.written ++ data }
    | .fails n => ({ c with written := c.written ++ data.take n } : Connection).close

/-- One pass of the loop over the channel. A panic ends it, as an error of the stream does. -/
def send (codec : Codec) (config : ConnectionConfig) (outcome : WriteOutcome) (s : ServerState) :
    Option (Connection × ServerState) :=
  match c.events with
  | [] => none
  | event :: events =>
      let c := { c with events := events }
      match (requestsFor config event).run s.processor with
      | .error _ p => some (c.close, { s with processor := p })
      | .ok requests p =>
          match outgoingData codec event requests with
          | .error _ => some (c.close, { s with processor := p })
          | .ok data => some (c.writeData data outcome, { s with processor := p })

end Connection

/-! ## The server -/

/-- The server with its connections, which are numbered as they are accepted. -/
structure Server where
  state : ServerState
  connections : ℕ → Option Connection

/-- One thing that happens to the connection `c`. -/
inductive ConnectionEvent where
  | accept (clientDeviceId : DeviceId)
  | read (buf : Bytes)
  | readEnd
  | turn (i : ℕ) (input : TaskInput)
  | ping
  | send (outcome : WriteOutcome)

/-- An event on one of the connections. -/
structure ServerEvent where
  connection : ℕ
  event : ConnectionEvent

namespace Server

/-- A server that nobody has connected to. -/
def start (state : ServerState) : Server := ⟨state, fun _ => none⟩

section Steps

variable (codec : Codec) (hash : String → ℕ → ℕ → UInt64) (sha256 : Bytes → Bytes)
  (debugRequest : Request → String) (config : ConnectionConfig)

/-- What an event does to its connection and to the state that all of them share. -/
def stepConnection (s : ServerState) (c : Option Connection) :
    ConnectionEvent → Option (Connection × ServerState)
  | .accept clientDeviceId => if c.isNone then some (.new clientDeviceId, s) else none
  | .read buf => do
      let c ← c
      (c.read codec buf).map fun c => (c, s)
  | .readEnd => do
      let c ← c
      c.readEnd.map fun c => (c, s)
  | .turn i input => do
      let c ← c
      c.turn hash sha256 debugRequest config i input s
  | .ping => do
      let c ← c
      c.ping.map fun c => (c, s)
  | .send outcome => do
      let c ← c
      c.send codec config outcome s

/-- A step of one connection, over the state that all of them share. -/
def step (s : Server) (e : ServerEvent) : Option Server := do
  let (c, state) ← stepConnection codec hash sha256 debugRequest config s.state
    (s.connections e.connection) e.event
  some ⟨state, Function.update s.connections e.connection (some c)⟩

end Steps

end Server

end Grizol.Model

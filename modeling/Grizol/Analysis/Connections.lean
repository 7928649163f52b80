import Grizol.Analysis.HandlerTurns
import Grizol.Analysis.WireRoundTrip
import Grizol.Interface.Connections

/-!
# What a connection writes

A step of the server moves one connection; a turn of a task is described once, by its
branches (`Turned`). No handler returns a message that the loop over the channel could not
write, so the stream of a connection is made of whole frames.
-/

set_option autoImplicit false

namespace Grizol.Analysis

open Grizol.Library Grizol.Model Grizol.Interface
open Grizol.Model.Syncthing

variable {codec : Codec} {hash : String → ℕ → ℕ → UInt64} {sha256 : Bytes → Bytes}
  {debugRequest : Request → String} {config : ConnectionConfig}

/-! ## Steps -/

/-- A step of the server is a step of one of its connections. -/
theorem serverStep_eq_some {s s' : Server} {e : ServerEvent} :
    serverStep codec hash sha256 debugRequest config s e = some s' ↔
      ∃ k state, Server.stepConnection codec hash sha256 debugRequest config s.state
          (s.connections e.connection) e.event = some (k, state) ∧
        s' = ⟨state, Function.update s.connections e.connection (some k)⟩ := by
  unfold serverStep Server.step
  constructor
  · intro h
    obtain ⟨⟨k, state⟩, hstep, hs'⟩ := Option.bind_eq_some_iff.mp h
    exact ⟨k, state, hstep, (Option.some.inj hs').symm⟩
  · rintro ⟨k, state, hstep, rfl⟩
    rw [hstep]
    rfl

/-! ## Turns -/

variable (hash sha256 debugRequest config) in
/-- The branches of a turn: the task before and after it, what it queues, and the state it
leaves. -/
inductive Turned (k : Connection) (input : TaskInput) (s : ServerState) :
    MessageTask → MessageTask → List GrizolEvent → ServerState → Prop where
  | finish : Turned k input s (.next []) .returned [] s
  | take (m : CompleteMessage) (messages : List CompleteMessage) :
      Turned k input s (.next (m :: messages))
        (.handling (MessageHandler.handleCompleteMessage config k.clientDeviceId input.clock m)
          messages) [] s
  | act (h : MessageHandler) (messages : List CompleteMessage)
      (hreturned : ∀ results, h ≠ .returned results) (hpanicked : ∀ e, h ≠ .panicked e) :
      Turned k input s (.handling h messages)
        (.handling (h.act hash sha256 debugRequest input.outcome s).1 messages) []
        (h.act hash sha256 debugRequest input.outcome s).2
  | deliver (results : List (Except BepProcessorError GrizolEvent))
      (messages : List CompleteMessage) :
      Turned k input s (.handling (.returned results) messages) (.sending results messages) [] s
  | panic (e : Fault) (messages : List CompleteMessage) :
      Turned k input s (.handling (.panicked e) messages) (.panicked e) [] s
  | sent (messages : List CompleteMessage) :
      Turned k input s (.sending [] messages) (.next messages) [] s
  | log (e : BepProcessorError) (results : List (Except BepProcessorError GrizolEvent))
      (messages : List CompleteMessage) :
      Turned k input s (.sending (.error e :: results) messages) (.sending results messages) [] s
  | send (event : GrizolEvent) (results : List (Except BepProcessorError GrizolEvent))
      (messages : List CompleteMessage) (hreceiving : k.receiving = true)
      (hroom : k.events.length < channelCapacity) :
      Turned k input s (.sending (.ok event :: results) messages) (.sending results messages)
        [event] s
  | fail (event : GrizolEvent) (results : List (Except BepProcessorError GrizolEvent))
      (messages : List CompleteMessage) (hclosed : k.receiving = false) :
      Turned k input s (.sending (.ok event :: results) messages) .failed [] s

/-- A turn of a connection is the turn of one of its tasks. -/
theorem turn_turned {k k' : Connection} {i : ℕ} {input : TaskInput} {s s' : ServerState}
    (h : k.turn hash sha256 debugRequest config i input s = some (k', s')) :
    ∃ task task' queued, k.tasks[i]? = some task ∧
      Turned hash sha256 debugRequest config k input s task task' queued s' ∧
      queuedEvent k (.turn i input) = queued ∧
      k' = { k.setTask i task' with events := k.events ++ queued } := by
  unfold Connection.turn at h
  unfold queuedEvent
  dsimp only
  cases htask : k.tasks[i]? with
  | none => simp [htask] at h
  | some task =>
      rw [htask] at h
      cases task with
      | next messages =>
          cases messages with
          | nil =>
              obtain ⟨rfl, rfl⟩ := Prod.mk.inj (Option.some.inj h)
              exact ⟨_, _, [], rfl, .finish, rfl, by rw [List.append_nil]; rfl⟩
          | cons m messages =>
              obtain ⟨rfl, rfl⟩ := Prod.mk.inj (Option.some.inj h)
              exact ⟨_, _, [], rfl, .take m messages, rfl, by rw [List.append_nil]; rfl⟩
      | handling handler messages =>
          cases handler with
          | returned results =>
              obtain ⟨rfl, rfl⟩ := Prod.mk.inj (Option.some.inj h)
              exact ⟨_, _, [], rfl, .deliver results messages, rfl, by rw [List.append_nil]; rfl⟩
          | panicked e =>
              obtain ⟨rfl, rfl⟩ := Prod.mk.inj (Option.some.inj h)
              exact ⟨_, _, [], rfl, .panic e messages, rfl, by rw [List.append_nil]; rfl⟩
          | _ =>
              obtain ⟨rfl, rfl⟩ := Prod.mk.inj (Option.some.inj h)
              exact ⟨_, _, [], rfl, .act _ messages (by simp) (by simp), rfl,
                by rw [List.append_nil]; rfl⟩
      | sending results messages =>
          cases results with
          | nil =>
              obtain ⟨rfl, rfl⟩ := Prod.mk.inj (Option.some.inj h)
              exact ⟨_, _, [], rfl, .sent messages, rfl, by rw [List.append_nil]; rfl⟩
          | cons result results =>
              cases result with
              | error e =>
                  obtain ⟨rfl, rfl⟩ := Prod.mk.inj (Option.some.inj h)
                  exact ⟨_, _, [], rfl, .log e results messages, rfl, by rw [List.append_nil]; rfl⟩
              | ok event =>
                  obtain ⟨k₁, hsend, hk₁⟩ := Option.bind_eq_some_iff.mp h
                  obtain ⟨rfl, rfl⟩ := Prod.mk.inj (Option.some.inj hk₁)
                  unfold Connection.sendEvent at hsend
                  cases hreceiving : k.receiving with
                  | true =>
                      rw [hreceiving, if_pos rfl] at hsend
                      split_ifs at hsend with hroom
                      obtain rfl := Option.some.inj hsend
                      exact ⟨_, _, [event], rfl, .send event results messages hreceiving hroom, rfl,
                        rfl⟩
                  | false =>
                      rw [hreceiving, if_neg Bool.false_ne_true] at hsend
                      obtain rfl := Option.some.inj hsend
                      exact ⟨_, _, [], rfl, .fail event results messages hreceiving, rfl,
                        by rw [List.append_nil]; rfl⟩
      | _ => cases h

variable (codec hash sha256 debugRequest config) in
/-- The branches of a step of a connection, with what it leaves of the state all share. -/
inductive Moved (k : Connection) (s : ServerState) : ConnectionEvent → Connection → ServerState →
    Prop where
  | read (buf : Bytes) (p p' : BepDataParser) (messages : List CompleteMessage)
      (hparser : k.dataParser = some p)
      (hparse : p.parseIncomingData codec buf = .ok (p', .ok messages)) :
      Moved k s (.read buf)
        { k with dataParser := some p', tasks := k.tasks ++ [.next messages] } s
  | readFails (buf : Bytes) (p : BepDataParser) (hparser : k.dataParser = some p)
      (hparse : ∀ p' messages, p.parseIncomingData codec buf ≠ .ok (p', .ok messages)) :
      Moved k s (.read buf) { k with dataParser := none } s
  | readEnd : Moved k s .readEnd { k with dataParser := none } s
  | turn (i : ℕ) (input : TaskInput) (task task' : MessageTask) (queued : List GrizolEvent)
      (s' : ServerState) (htask : k.tasks[i]? = some task)
      (hturned : Turned hash sha256 debugRequest config k input s task task' queued s')
      (hqueued : queuedEvent k (.turn i input) = queued) :
      Moved k s (.turn i input)
        { k with tasks := k.tasks.set i task', events := k.events ++ queued } s'
  | ping (hreceiving : k.receiving = true) (hroom : k.events.length < channelCapacity) :
      Moved k s .ping { k with events := k.events ++ [.message (.ping {})] } s
  | pingFails (hclosed : k.receiving = false) : Moved k s .ping { k with pinging := false } s
  | broken (event : GrizolEvent) (events : List GrizolEvent) (p : BepProcessor)
      (outcome : WriteOutcome) (hevents : k.events = event :: events)
      (hp : p = RustM.endState ((Connection.requestsFor config event).run s.processor))
      (hwritten : writtenEvent codec config s k (.send outcome) = []) :
      Moved k s (.send outcome) ({ k with events := events } : Connection).close
        { s with processor := p }
  | wrote (event : GrizolEvent) (events : List GrizolEvent) (requests : List Request)
      (p : BepProcessor) (data : Bytes) (outcome : WriteOutcome)
      (hevents : k.events = event :: events)
      (hrequests : (Connection.requestsFor config event).run s.processor = .ok requests p)
      (hdata : outgoingData codec event requests = .ok data) :
      Moved k s (.send outcome) (({ k with events := events } : Connection).writeData data outcome)
        { s with processor := p }

/-- A step of a connection is one of the moves. -/
theorem moved_of_stepConnection {s s' : ServerState} {k k' : Connection} {event : ConnectionEvent}
    (h : Server.stepConnection codec hash sha256 debugRequest config s (some k) event =
      some (k', s')) : Moved codec hash sha256 debugRequest config k s event k' s' := by
  cases event with
  | accept d => cases h
  | read buf =>
      obtain ⟨k₁, hread, heq⟩ := Option.map_eq_some_iff.mp h
      obtain ⟨rfl, rfl⟩ := Prod.mk.inj heq
      unfold Connection.read at hread
      split at hread
      · cases hread
      · rename_i p hparser
        split_ifs at hread
        split at hread
        · rename_i p' messages hparse
          obtain rfl := Option.some.inj hread
          exact .read buf p p' messages hparser hparse
        · rename_i p' e hparse
          obtain rfl := Option.some.inj hread
          exact .readFails buf p hparser (by simp [hparse])
        · rename_i e hparse
          obtain rfl := Option.some.inj hread
          exact .readFails buf p hparser (by simp [hparse])
  | readEnd =>
      obtain ⟨k₁, hread, heq⟩ := Option.map_eq_some_iff.mp h
      obtain ⟨rfl, rfl⟩ := Prod.mk.inj heq
      unfold Connection.readEnd at hread
      split_ifs at hread
      obtain rfl := Option.some.inj hread
      exact .readEnd
  | turn i input =>
      obtain ⟨task, task', queued, htask, hturned, hqueued, rfl⟩ := turn_turned h
      exact .turn i input task task' queued s' htask hturned hqueued
  | ping =>
      obtain ⟨k₁, hping, heq⟩ := Option.map_eq_some_iff.mp h
      obtain ⟨rfl, rfl⟩ := Prod.mk.inj heq
      unfold Connection.ping at hping
      split_ifs at hping
      unfold Connection.sendEvent at hping
      split_ifs at hping with hreceiving hroom
      · obtain rfl := Option.some.inj hping
        exact .ping hreceiving hroom
      · obtain rfl := Option.some.inj hping
        exact .pingFails (Bool.eq_false_iff.mpr hreceiving)
  | send outcome =>
      have hsend : k.send codec config outcome s = some (k', s') := h
      unfold Connection.send at hsend
      split at hsend
      · cases hsend
      · rename_i event events hevents
        dsimp only at hsend
        split at hsend
        · rename_i e p hrequests
          obtain ⟨rfl, rfl⟩ := Prod.mk.inj (Option.some.inj hsend)
          exact .broken event events p outcome hevents (by rw [hrequests]; rfl)
            (by simp [writtenEvent, hevents, hrequests])
        · rename_i requests p hrequests
          split at hsend
          · rename_i e hdata
            obtain ⟨rfl, rfl⟩ := Prod.mk.inj (Option.some.inj hsend)
            exact .broken event events p outcome hevents (by rw [hrequests]; rfl)
              (by simp [writtenEvent, hevents, hrequests, hdata])
          · rename_i data hdata
            obtain ⟨rfl, rfl⟩ := Prod.mk.inj (Option.some.inj hsend)
            exact .wrote event events requests p data outcome hevents hrequests hdata

/-- Writing leaves the tasks, the device and the parser. -/
theorem writeData_tasks (k : Connection) (data : Bytes) (outcome : WriteOutcome) :
    (k.writeData data outcome).tasks = k.tasks ∧
      (k.writeData data outcome).clientDeviceId = k.clientDeviceId ∧
      (k.writeData data outcome).dataParser = k.dataParser := by
  unfold Connection.writeData
  split_ifs
  · exact ⟨rfl, rfl, rfl⟩
  · cases outcome <;> exact ⟨rfl, rfl, rfl⟩

/-- What waits in the channel stays, or is dropped with it. -/
theorem writeData_events (k : Connection) (data : Bytes) (outcome : WriteOutcome) :
    (k.writeData data outcome).events = k.events ∨
      (k.writeData data outcome).events = [] ∧ (k.writeData data outcome).receiving = false := by
  unfold Connection.writeData
  split_ifs
  · exact .inl rfl
  · cases outcome with
    | done => exact .inl rfl
    | fails n => exact .inr ⟨rfl, rfl⟩

/-! ## Records -/

section Extend

variable (r : ConnectionRecord) (s : ServerState) (k : Connection)

/-- What a read that parses adds to the record. -/
theorem extend_read {buf : Bytes} {p p' : BepDataParser} {messages : List CompleteMessage}
    (hparser : k.dataParser = some p)
    (hparse : p.parseIncomingData codec buf = .ok (p', .ok messages)) :
    r.extend codec config s k (.read buf) =
      { r with read := r.read ++ [buf], parsed := r.parsed ++ messages } := by
  simp [ConnectionRecord.extend, readBuffer, parsedMessages, takenMessage, queuedEvent, pushedEvent,
    writtenEvent, hparser, hparse]

/-- What a read that does not parse adds. -/
theorem extend_readFails {buf : Bytes} {p : BepDataParser} (hparser : k.dataParser = some p)
    (hparse : ∀ p' messages, p.parseIncomingData codec buf ≠ .ok (p', .ok messages)) :
    r.extend codec config s k (.read buf) = { r with read := r.read ++ [buf] } := by
  have hnone : parsedMessages codec k (.read buf) = [] := by
    unfold parsedMessages
    rw [hparser]
    dsimp only
    split
    · rename_i p' messages hok
      exact absurd hok (hparse p' messages)
    · rfl
  simp [ConnectionRecord.extend, readBuffer, takenMessage, queuedEvent, pushedEvent, writtenEvent,
    hparser, hnone]

/-- The end of the stream adds nothing. -/
theorem extend_readEnd : r.extend codec config s k .readEnd = r := by
  simp [ConnectionRecord.extend, readBuffer, parsedMessages, takenMessage, queuedEvent, pushedEvent,
    writtenEvent]

/-- What a turn of a task adds. -/
theorem extend_turn (i : ℕ) (input : TaskInput) :
    r.extend codec config s k (.turn i input) =
      { r with
        taken := r.taken ++ takenMessage k (.turn i input)
        queued := r.queued ++ queuedEvent k (.turn i input)
        pushed := r.pushed ++ queuedEvent k (.turn i input) } := by
  simp [ConnectionRecord.extend, readBuffer, parsedMessages, pushedEvent, writtenEvent]

/-- What the pinger adds. -/
theorem extend_ping : r.extend codec config s k .ping =
    { r with pushed := r.pushed ++ if k.receiving then [.message (.ping {})] else [] } := by
  simp [ConnectionRecord.extend, readBuffer, parsedMessages, takenMessage, queuedEvent, pushedEvent,
    writtenEvent]

/-- What the loop adds. -/
theorem extend_send (outcome : WriteOutcome) : r.extend codec config s k (.send outcome) =
    { r with written := r.written ++ writtenEvent codec config s k (.send outcome) } := by
  simp [ConnectionRecord.extend, readBuffer, parsedMessages, takenMessage, queuedEvent, pushedEvent]

end Extend

/-- What holds of a new connection without a record, and is kept by the steps of one that meet a
condition, holds of every connection and its record. -/
theorem record_of_run {P : Connection → ConnectionRecord → Prop}
    {cond : Connection → ConnectionEvent → Prop} (hnew : ∀ d, P (.new d) .empty)
    (hstep : ∀ s k event k' s' r, P k r → cond k event →
      Moved codec hash sha256 debugRequest config k s event k' s' →
        P k' (r.extend codec config s k event))
    {state : ServerState} {s : Server} {es : List ServerEvent} {c : ℕ}
    (hmeets : MeetsOn codec hash sha256 debugRequest config c cond (.start state) es)
    (hrun : Transition.run (serverStep codec hash sha256 debugRequest config) (.start state) es =
      some s) {k : Connection} (hk : s.connections c = some k) :
    P k (recordOn codec hash sha256 debugRequest config c (.start state) es) := by
  let Inv (s : Server) (r : ConnectionRecord) : Prop :=
    (∀ k, s.connections c = some k → P k r) ∧ (s.connections c = none → r = .empty)
  have hinv : Inv s (recordOn codec hash sha256 debugRequest config c (.start state) es) := by
    revert hmeets
    refine Transition.run_induction (motive := fun es s =>
      MeetsOn codec hash sha256 debugRequest config c cond (.start state) es →
        Inv s (recordOn codec hash sha256 debugRequest config c (.start state) es))
      (fun _ => ⟨fun _ hk => (Option.some_ne_none _ hk.symm).elim, fun _ => rfl⟩) ?_ hrun
    intro es s e s' hes ih he hmeets
    obtain ⟨hfirst, hlast⟩ := (Transition.meets_concat hes).mp hmeets
    obtain ⟨hopen, hclosed⟩ := ih hfirst
    rw [recordOn, Transition.account_concat he hes, ← recordOn]
    obtain ⟨k', state', hconnection, rfl⟩ := serverStep_eq_some.mp he
    unfold recordStep
    by_cases hc : e.connection = c
    · subst hc
      refine ⟨fun k₁ hk₁ => ?_, by simp⟩
      obtain rfl : k' = k₁ := by simpa using hk₁
      rw [if_pos rfl]
      cases hk₀ : s.connections e.connection with
      | some k₀ =>
          rw [hk₀] at hconnection
          exact hstep _ _ _ _ _ _ (hopen k₀ hk₀) (hlast rfl k₀ hk₀)
            (moved_of_stepConnection hconnection)
      | none =>
          rw [hk₀] at hconnection
          dsimp only
          rw [hclosed hk₀]
          cases hevent : e.event with
          | accept d =>
              rw [hevent] at hconnection
              obtain ⟨rfl, -⟩ := Prod.mk.inj (Option.some.inj hconnection)
              exact hnew d
          | _ =>
              rw [hevent] at hconnection
              cases hconnection
    · rw [if_neg hc]
      dsimp only [Inv]
      rw [Function.update_of_ne (Ne.symm hc)]
      exact ⟨hopen, hclosed⟩
  exact hinv.1 k hk

/-- The same without a condition. -/
theorem record_of_every_run {P : Connection → ConnectionRecord → Prop}
    (hnew : ∀ d, P (.new d) .empty)
    (hstep : ∀ s k event k' s' r, P k r →
      Moved codec hash sha256 debugRequest config k s event k' s' →
        P k' (r.extend codec config s k event))
    {state : ServerState} {s : Server} {es : List ServerEvent} {c : ℕ}
    (hrun : Transition.run (serverStep codec hash sha256 debugRequest config) (.start state) es =
      some s) {k : Connection} (hk : s.connections c = some k) :
    P k (recordOn codec hash sha256 debugRequest config c (.start state) es) := by
  have hstep' : ∀ s k event k' s' r, P k r → True →
      Moved codec hash sha256 debugRequest config k s event k' s' →
        P k' (r.extend codec config s k event) :=
    fun s k event k' s' r hP _ => hstep s k event k' s' r hP
  refine record_of_run hnew hstep' ?_ hrun hk
  exact Transition.meets_of_forall (fun _ _ _ _ _ _ => trivial) _

/-! ## Handlers -/

/-- `process_response` returns one kind of event. -/
theorem act_returned_ok {h : ResponseHandler} {p : BepProcessor} {outcome : TurnOutcome}
    {event : GrizolEvent}
    (hret : (h.act hash sha256 debugRequest p outcome).1.pc = .returned (.ok event)) :
    h.pc = .returned (.ok event) ∨ event = .requestProcessed := by
  have hcontinue : ∀ {α : Type} (x : RustM BepProcessor α) (next : α → ResponseHandler),
      (h.continueWith p x next).1.pc = .returned (.ok event) →
        ∃ a, (next a).pc = .returned (.ok event) := by
    intro α x next hpc
    rcases continueWith_fst h p x next with ⟨a, ha⟩ | ⟨e, he⟩
    · exact ⟨a, by rw [← ha, hpc]⟩
    · rw [he] at hpc
      cases hpc
  unfold ResponseHandler.act at hret
  cases hpc : h.pc with
  | getRequest =>
      rw [hpc] at hret
      dsimp only at hret
      split at hret <;> cases hret
  | fileInfo request =>
      rw [hpc] at hret
      dsimp only [ResponseHandler.actFileInfo] at hret
      split at hret
      · cases hret
      · split at hret
        · cases hret
        · split at hret <;> cases hret
  | createDir request fileSize blockSize =>
      rw [hpc] at hret
      dsimp only [ResponseHandler.actCreateDir] at hret
      split_ifs at hret
      · split at hret <;> cases hret
      · cases hret
  | openWriter request fileSize blockSize =>
      rw [hpc] at hret
      obtain ⟨a, ha⟩ := hcontinue _ _ hret
      split at ha <;> cases ha
  | writeChunk request fileSize blockSize offset pc =>
      rw [hpc] at hret
      dsimp only [ResponseHandler.actWriteChunk] at hret
      split at hret
      · rw [hpc] at hret
        cases hret
      · dsimp only at hret
        split at hret
        · unfold ResponseHandler.afterStore at hret
          dsimp only at hret
          split at hret <;> cases hret
        · cases hret
        · cases hret
  | updateState request fileSize blockSize =>
      rw [hpc] at hret
      obtain ⟨a, ha⟩ := hcontinue _ _ hret
      dsimp only at ha
      split at ha <;> cases ha
  | concludeWriter request fileSize blockSize =>
      rw [hpc] at hret
      obtain ⟨a, ha⟩ := hcontinue _ _ hret
      cases ha
  | consolidate request pc =>
      rw [hpc] at hret
      dsimp only [ResponseHandler.actConsolidate] at hret
      split at hret
      · rw [hpc] at hret
        cases hret
      · dsimp only at hret
        split at hret <;> cases hret
  | copy request n storageBackends copied =>
      rw [hpc] at hret
      cases storageBackends with
      | nil => cases hret
      | cons storageBackend rest =>
          dsimp only [ResponseHandler.actCopy] at hret
          split at hret <;> cases hret
  | updateLocations request locations =>
      rw [hpc] at hret
      obtain ⟨a, ha⟩ := hcontinue _ _ hret
      split_ifs at ha <;> cases ha
  | removeLocations request =>
      rw [hpc] at hret
      obtain ⟨a, ha⟩ := hcontinue _ _ hret
      cases ha
  | removeFile request =>
      rw [hpc] at hret
      obtain ⟨a, ha⟩ := hcontinue _ _ hret
      cases ha
  | removeRequest stored =>
      rw [hpc] at hret
      obtain ⟨a, ha⟩ := hcontinue _ _ hret
      right
      cases stored with
      | error e => cases ha
      | ok u =>
          obtain rfl := Except.ok.inj (ResponsePc.returned.inj ha)
          rfl
  | returned result =>
      rw [hpc] at hret
      left
      rw [← hret]
      exact hpc.symm
  | panicked e =>
      rw [hpc] at hret
      rw [hpc] at hret
      cases hret

variable (config) in
/-- A call of `handle_complete_message` for this message, wherever it stands. -/
def HandlerOf (clientDeviceId : DeviceId) : CompleteMessage → MessageHandler → Prop
  | m, .returned results => RepliesTo config m results
  | .hello _, .panicked _ => False
  | _, .panicked _ => True
  | .clusterConfig x, .clusterConfig h => h.received = x ∧ h.clientDeviceId = clientDeviceId
  | .index x, .index h => h.message = .index x ∧ h.clientDeviceId = clientDeviceId
  | .indexUpdate x, .index h => h.message = .indexUpdate x ∧ h.clientDeviceId = clientDeviceId
  | .response x, .response h => h.response = x ∧
      ∀ event, h.pc = .returned (.ok event) → event = .requestProcessed
  | _, _ => False

variable {clientDeviceId : DeviceId}

/-- The handler of a message is the one that its kind asks for. -/
theorem handlerOf_handleCompleteMessage (clock : ℕ → ℕ) (m : CompleteMessage) :
    HandlerOf config clientDeviceId m
      (MessageHandler.handleCompleteMessage config clientDeviceId clock m) := by
  cases m with
  | hello x => rfl
  | clusterConfig x => exact ⟨rfl, rfl⟩
  | index x => exact ⟨rfl, rfl⟩
  | indexUpdate x => exact ⟨rfl, rfl⟩
  | request x => rfl
  | response x =>
      unfold MessageHandler.handleCompleteMessage MessageHandler.handleResponse
      dsimp only
      split
      · trivial
      · split_ifs
        · exact ⟨_, rfl, fun event h => by cases h⟩
        · refine ⟨rfl, fun event h => ?_⟩
          cases h
  | downloadProgress x => trivial
  | ping x => rfl
  | close x => rfl

/-- A handler of a config keeps its message. -/
theorem act_received (h : ClusterConfigHandler) (s : ServerState) :
    (h.act s).1.received = h.received ∧ (h.act s).1.clientDeviceId = h.clientDeviceId := by
  unfold ClusterConfigHandler.act
  split
  · split <;> exact ⟨rfl, rfl⟩
  · split <;> exact ⟨rfl, rfl⟩
  · exact ⟨rfl, rfl⟩
  · exact ⟨rfl, rfl⟩
  · exact ⟨rfl, rfl⟩

/-- So does a handler of an index. -/
theorem act_message (h : IndexHandler) (p : BepProcessor) :
    (h.act p).1.message = h.message ∧ (h.act p).1.clientDeviceId = h.clientDeviceId := by
  unfold IndexHandler.act
  split
  · split <;> exact ⟨rfl, rfl⟩
  · split <;> exact ⟨rfl, rfl⟩
  · exact ⟨rfl, rfl⟩
  · exact ⟨rfl, rfl⟩

/-- And a section of the handler of a response. -/
theorem continueWith_response {α : Type} {h : ResponseHandler} {p : BepProcessor}
    (x : RustM BepProcessor α) {next : α → ResponseHandler}
    (hnext : ∀ a, (next a).response = h.response) :
    (h.continueWith p x next).1.response = h.response := by
  rcases continueWith_fst h p x next with ⟨a, ha⟩ | ⟨e, he⟩
  · rw [ha, hnext]
  · rw [he]
    rfl

/-- And so every turn of one. -/
theorem act_response (h : ResponseHandler) (p : BepProcessor) (outcome : TurnOutcome) :
    (h.act hash sha256 debugRequest p outcome).1.response = h.response := by
  unfold ResponseHandler.act
  cases h.pc with
  | getRequest =>
      dsimp only
      split <;> rfl
  | fileInfo request =>
      dsimp only [ResponseHandler.actFileInfo]
      repeat' split
      all_goals rfl
  | createDir request fileSize blockSize =>
      dsimp only [ResponseHandler.actCreateDir]
      repeat' split
      all_goals rfl
  | openWriter request fileSize blockSize =>
      refine continueWith_response _ fun a => ?_
      split <;> rfl
  | writeChunk request fileSize blockSize offset pc =>
      dsimp only [ResponseHandler.actWriteChunk]
      repeat' split
      all_goals rfl
  | updateState request fileSize blockSize => exact continueWith_response _ fun _ => rfl
  | concludeWriter request fileSize blockSize => exact continueWith_response _ fun _ => rfl
  | consolidate request pc =>
      dsimp only [ResponseHandler.actConsolidate]
      repeat' split
      all_goals rfl
  | copy request n storageBackends copied =>
      cases storageBackends with
      | nil => rfl
      | cons storageBackend rest =>
          dsimp only [ResponseHandler.actCopy]
          split <;> rfl
  | updateLocations request locations =>
      refine continueWith_response _ fun a => ?_
      split_ifs <;> rfl
  | removeLocations request => exact continueWith_response _ fun _ => rfl
  | removeFile request => exact continueWith_response _ fun _ => rfl
  | removeRequest stored => exact continueWith_response _ fun _ => rfl
  | returned result => rfl
  | panicked e => rfl

/-- A turn leaves a handler the handler of its message. -/
theorem handlerOf_act {m : CompleteMessage} {h : MessageHandler}
    (hm : HandlerOf config clientDeviceId m h) (outcome : TurnOutcome) (s : ServerState) :
    HandlerOf config clientDeviceId m (h.act hash sha256 debugRequest outcome s).1 := by
  cases h with
  | returned results => exact hm
  | panicked e => exact hm
  | clusterConfig h =>
      cases m with
      | clusterConfig x =>
          obtain ⟨hreceived, hclient⟩ := act_received h s
          dsimp only [MessageHandler.act, MessageHandler.ofClusterConfig]
          split
          · exact ⟨_, _, rfl⟩
          · trivial
          · exact ⟨hreceived.trans hm.1, hclient.trans hm.2⟩
      | _ => exact absurd hm id
  | index h =>
      obtain ⟨hmessage, hclient⟩ := act_message h s.processor
      cases m with
      | index x =>
          dsimp only [MessageHandler.act, MessageHandler.ofIndex]
          split
          · rfl
          · trivial
          · exact ⟨hmessage.trans hm.1, hclient.trans hm.2⟩
      | indexUpdate x =>
          dsimp only [MessageHandler.act, MessageHandler.ofIndex]
          split
          · rfl
          · trivial
          · exact ⟨hmessage.trans hm.1, hclient.trans hm.2⟩
      | _ => exact absurd hm id
  | response h =>
      cases m with
      | response x =>
          have hok : ∀ event, (h.act hash sha256 debugRequest s.processor outcome).1.pc =
              .returned (.ok event) → event = .requestProcessed := by
            intro event hret
            rcases act_returned_ok hret with hbefore | hevent
            · exact hm.2 event hbefore
            · exact hevent
          dsimp only [MessageHandler.act, MessageHandler.ofResponse]
          split
          · rename_i result hpc
            refine ⟨result, rfl, fun event hresult => hok event ?_⟩
            rw [hpc, hresult]
          · trivial
          · exact ⟨(act_response h s.processor outcome).trans hm.1, hok⟩
      | _ => exact absurd hm id

/-! ## Frames -/

/-- Every reply can be written. -/
theorem writable_of_repliesTo {m : CompleteMessage}
    {results : List (Except BepProcessorError GrizolEvent)} (h : RepliesTo config m results)
    {event : GrizolEvent} (hevent : .ok event ∈ results) : Writable event := by
  have hreply : ∀ reply : CompleteMessage, Announces reply → (∀ r, reply ≠ .request r) →
      Writable (.message reply) := by
    intro reply hannounces hrequest m' hm'
    obtain rfl := GrizolEvent.message.inj hm'
    exact ⟨hannounces, hrequest⟩
  have hsignal : ∀ signal : GrizolEvent, (∀ m, signal ≠ .message m) → Writable signal :=
    fun signal hsignal m hm => absurd hm (hsignal m)
  cases m with
  | hello x =>
      obtain rfl := h
      obtain rfl := Except.ok.inj (List.mem_singleton.mp hevent)
      exact hreply _ trivial (by simp [helloReply])
  | clusterConfig x =>
      obtain ⟨clusterConfig, indices, rfl⟩ := h
      rcases List.mem_cons.mp hevent with hfirst | hindex
      · obtain rfl := Except.ok.inj hfirst
        exact hreply _ trivial (by simp)
      · obtain ⟨i, -, hi⟩ := List.mem_map.mp hindex
        obtain rfl := Except.ok.inj hi
        exact hreply _ trivial (by simp)
  | index x | indexUpdate x =>
      obtain rfl := h
      obtain rfl := Except.ok.inj (List.mem_singleton.mp hevent)
      exact hsignal _ (by simp)
  | response x =>
      obtain ⟨result, rfl, hok⟩ := h
      obtain rfl := hok event (List.mem_singleton.mp hevent).symm
      exact hsignal _ (by simp)
  | request x | ping x | close x =>
      obtain rfl := h
      cases hevent
  | downloadProgress x => exact absurd h id

/-- Messages are serialized one after the other. -/
theorem serializeAll_append {messages messages' : List CompleteMessage} {frames frames' : Bytes}
    (h : serializeAll codec messages = .ok frames)
    (h' : serializeAll codec messages' = .ok frames') :
    serializeAll codec (messages ++ messages') = .ok (frames ++ frames') := by
  unfold serializeAll at *
  obtain ⟨parts, hparts, hflatten⟩ := Rust.bind_eq_ok.mp h
  obtain ⟨parts', hparts', hflatten'⟩ := Rust.bind_eq_ok.mp h'
  rw [List.mapM_append, hparts, Rust.ok_bind, hparts', Rust.ok_bind, Rust.pure_eq_ok,
    Rust.ok_bind, Rust.pure_eq_ok, List.flatten_append, ← Except.ok.inj hflatten,
    ← Except.ok.inj hflatten']

/-- What a task holds is part of a reply. -/
def HoldsReplies (config : ConnectionConfig) (clientDeviceId : DeviceId) : MessageTask → Prop
  | .handling h _ => ∃ m, HandlerOf config clientDeviceId m h
  | .sending results _ => ∀ event, .ok event ∈ results → Writable event
  | _ => True

/-- A turn of a task leaves it with replies to its message. -/
theorem holdsReplies_of_turned {k : Connection} {input : TaskInput} {s s' : ServerState}
    {task task' : MessageTask} {queued : List GrizolEvent}
    (h : Turned hash sha256 debugRequest config k input s task task' queued s')
    (htask : HoldsReplies config k.clientDeviceId task) :
    HoldsReplies config k.clientDeviceId task' ∧ ∀ event ∈ queued, Writable event := by
  cases h with
  | finish | panic | sent | fail => exact ⟨trivial, by simp⟩
  | take m messages => exact ⟨⟨m, handlerOf_handleCompleteMessage input.clock m⟩, by simp⟩
  | act h messages =>
      obtain ⟨m, hm⟩ := htask
      exact ⟨⟨m, handlerOf_act hm input.outcome s⟩, by simp⟩
  | deliver results messages =>
      obtain ⟨m, hm⟩ := htask
      exact ⟨fun event => writable_of_repliesTo hm, by simp⟩
  | log e results messages =>
      exact ⟨fun event hevent => htask event (List.mem_cons_of_mem _ hevent), by simp⟩
  | send event results messages hreceiving =>
      refine ⟨fun event' hevent => htask event' (List.mem_cons_of_mem _ hevent), ?_⟩
      intro event' hevent
      obtain rfl := List.mem_singleton.mp hevent
      exact htask event' List.mem_cons_self

/-- A connection that writes whole frames, with what its tasks hold. -/
structure Framed (codec : Codec) (config : ConnectionConfig) (k : Connection)
    (r : ConnectionRecord) : Prop where
  writes : WritesFrames codec r.sent k
  closed : k.receiving = false → k.events = []
  tasks : ∀ task ∈ k.tasks, HoldsReplies config k.clientDeviceId task

/-- A new connection has written nothing. -/
theorem framed_new (d : DeviceId) : Framed codec config (.new d) .empty where
  writes := ⟨by simp [ConnectionRecord.sent, ConnectionRecord.empty],
    ⟨[], rfl, List.prefix_rfl, fun _ => rfl⟩, by simp [Connection.new]⟩
  closed _ := rfl
  tasks := by simp [Connection.new]

variable {k k' : Connection} {r : ConnectionRecord}

/-- The loop writes the frames of the messages of an event, as far as the stream takes them. -/
theorem framed_writeData (hk : Framed codec config k r) {event : GrizolEvent}
    {events : List GrizolEvent} (hevents : k.events = event :: events) {requests : List Request}
    {data : Bytes} (hdata : outgoingData codec event requests = .ok data) (outcome : WriteOutcome) :
    Framed codec config (({ k with events := events } : Connection).writeData data outcome)
      { r with written := r.written ++ [(event, requests)] } := by
  obtain ⟨⟨hannounces, ⟨frames, hframes, hprefix, hwritten⟩, hwaiting⟩, hclosed, htasks⟩ := hk
  have hreceiving : k.receiving = true := by
    by_contra hfalse
    rw [hclosed (Bool.eq_false_iff.mpr hfalse)] at hevents
    cases hevents
  have hopen : ∀ {p : Prop}, k.receiving = false → p :=
    fun hfalse => Bool.noConfusion (hreceiving.symm.trans hfalse)
  have hwritable : Writable event := hwaiting event (by rw [hevents]; exact List.mem_cons_self)
  have hrest : ∀ event ∈ events, Writable event := by
    intro event' hevent'
    exact hwaiting event' (by rw [hevents]; exact List.mem_cons_of_mem _ hevent')
  have hsent : ConnectionRecord.sent { r with written := r.written ++ [(event, requests)] } =
      r.sent ++ event.messages requests := by
    simp [ConnectionRecord.sent]
  have hboth : serializeAll codec (r.sent ++ event.messages requests) = .ok (frames ++ data) := by
    refine serializeAll_append hframes ?_
    rw [← outgoingData_eq_serializeAll codec event requests
      fun r hr => (hwritable _ hr).2 r rfl, hdata]
  have hall : ∀ m ∈ r.sent ++ event.messages requests, Announces m := by
    intro m hm
    rcases List.mem_append.mp hm with hm | hm
    · exact hannounces m hm
    · cases event with
      | message m' =>
          obtain rfl := List.mem_singleton.mp hm
          exact (hwritable m rfl).1
      | requestProcessed | requestCreated =>
          obtain ⟨r, -, rfl⟩ := List.mem_map.mp hm
          trivial
  unfold Connection.writeData
  split_ifs with hempty
  · obtain rfl := List.isEmpty_iff.mp hempty
    rw [List.append_nil] at hboth
    exact ⟨⟨hsent ▸ hall, ⟨frames, hsent ▸ hboth, hprefix, hwritten⟩, hrest⟩, hopen, htasks⟩
  · cases outcome with
    | done =>
        refine ⟨⟨hsent ▸ hall, ⟨_, hsent ▸ hboth, ?_, fun _ => ?_⟩, hrest⟩, hopen, htasks⟩
        · show k.written ++ data <+: frames ++ data
          rw [hwritten hreceiving]
        · show k.written ++ data = frames ++ data
          rw [hwritten hreceiving]
    | fails n =>
        refine ⟨⟨hsent ▸ hall, ⟨_, hsent ▸ hboth, ?_, by simp [Connection.close]⟩,
          by simp [Connection.close]⟩, fun _ => rfl, htasks⟩
        show k.written ++ data.take n <+: frames ++ data
        rw [hwritten hreceiving]
        exact (List.prefix_append_right_inj frames).mpr (List.take_prefix n data)

/-- A step writes whole frames. -/
theorem framed_of_moved {s s' : ServerState} {event : ConnectionEvent}
    (hk : Framed codec config k r)
    (h : Moved codec hash sha256 debugRequest config k s event k' s') :
    Framed codec config k' (r.extend codec config s k event) := by
  obtain ⟨⟨hannounces, hframes, hwaiting⟩, hclosed, htasks⟩ := id hk
  cases h with
  | read buf p p' messages hparser hparse =>
      rw [extend_read r s k hparser hparse]
      refine ⟨⟨hannounces, hframes, hwaiting⟩, hclosed, fun task htask => ?_⟩
      rcases List.mem_append.mp htask with htask | htask
      · exact htasks task htask
      · obtain rfl := List.mem_singleton.mp htask
        trivial
  | readFails buf p hparser hparse =>
      rw [extend_readFails r s k hparser hparse]
      exact ⟨⟨hannounces, hframes, hwaiting⟩, hclosed, htasks⟩
  | readEnd =>
      rw [extend_readEnd]
      exact ⟨⟨hannounces, hframes, hwaiting⟩, hclosed, htasks⟩
  | turn i input task task' queued s' htask hturned hqueued =>
      rw [extend_turn]
      obtain ⟨htask', hwritable⟩ :=
        holdsReplies_of_turned hturned (htasks task (List.mem_of_getElem? htask))
      refine ⟨⟨hannounces, hframes, fun event hevent => ?_⟩, fun hfalse => ?_,
        fun task'' htask'' => ?_⟩
      · rcases List.mem_append.mp hevent with hevent | hevent
        · exact hwaiting event hevent
        · exact hwritable event hevent
      · have hnone : queued = [] := by
          cases hturned with
          | send event results messages hreceiving =>
              exact Bool.noConfusion (hreceiving.symm.trans hfalse)
          | _ => rfl
        show k.events ++ queued = []
        rw [hclosed hfalse, hnone]
        rfl
      · rcases List.mem_or_eq_of_mem_set htask'' with hbefore | rfl
        · exact htasks task'' hbefore
        · exact htask'
  | ping hreceiving =>
      rw [extend_ping]
      refine ⟨⟨hannounces, hframes, fun event hevent => ?_⟩,
        fun hfalse => Bool.noConfusion (hreceiving.symm.trans hfalse), htasks⟩
      rcases List.mem_append.mp hevent with hevent | hevent
      · exact hwaiting event hevent
      · obtain rfl := List.mem_singleton.mp hevent
        intro m hm
        obtain rfl := GrizolEvent.message.inj hm
        exact ⟨trivial, by simp⟩
  | pingFails hfailed =>
      rw [extend_ping]
      exact ⟨⟨hannounces, hframes, hwaiting⟩, hclosed, htasks⟩
  | broken event events p outcome hevents hp hbroken =>
      rw [extend_send, hbroken, List.append_nil]
      obtain ⟨frames, hserialized, hprefix, -⟩ := hframes
      exact ⟨⟨hannounces, ⟨frames, hserialized, hprefix, by simp [Connection.close]⟩,
        by simp [Connection.close]⟩, fun _ => rfl, htasks⟩
  | wrote event events requests p data outcome hevents hrequests hdata =>
      have hwritten : writtenEvent codec config s k (.send outcome) = [(event, requests)] := by
        simp [writtenEvent, hevents, hrequests, hdata]
      rw [extend_send, hwritten]
      exact framed_writeData hk hevents hdata outcome

/-- **Whatever the clients send and however their tasks take turns, a connection writes whole
frames of messages a server has for a client.** The loop over its channel never comes to a
message it has no frame for. -/
theorem writesFrames_of_run (codec : Codec) (hash : String → ℕ → ℕ → UInt64)
    (sha256 : Bytes → Bytes) (debugRequest : Request → String) (config : ConnectionConfig)
    {state : ServerState} {es : List ServerEvent} {s : Server}
    (hrun : Transition.run (serverStep codec hash sha256 debugRequest config) (.start state) es =
      some s) {c : ℕ} {connection : Connection} (hc : s.connections c = some connection) :
    WritesFrames codec
      (recordOn codec hash sha256 debugRequest config c (.start state) es).sent connection :=
  (record_of_every_run framed_new (fun _ _ _ _ _ _ => framed_of_moved) hrun hc).writes

/-! ## A server that shares nothing -/

section Example

/-- A server that was told of no folder yet. -/
def unsharedState : ServerState := ⟨startedServer, .empty⟩

/-- A server without a name, and with the limits of its queue. -/
def unnamedConfig : ConnectionConfig := ⟨"", 5, 1000⟩

/-- A client connects and is pinged. -/
def pingedRun : List ServerEvent :=
  [⟨0, .accept clientDevice⟩, ⟨0, .ping⟩, ⟨0, .send .done⟩]

/-- Witness: the frame of the ping is written. -/
theorem writesFrames_of_run_ping :
    ∃ s connection, Transition.run (serverStep shortMessages (fun _ _ _ => 0) pairHash (fun _ => "")
        unnamedConfig) (.start unsharedState) pingedRun = some s ∧
      s.connections 0 = some connection ∧ connection.written = [0, 2, 8, 6, 0, 0, 0, 0] ∧
      WritesFrames shortMessages (recordOn shortMessages (fun _ _ _ => 0) pairHash (fun _ => "")
        unnamedConfig 0 (.start unsharedState) pingedRun).sent connection :=
  ⟨_, _, rfl, rfl, rfl, writesFrames_of_run shortMessages (fun _ _ _ => 0) pairHash (fun _ => "")
    unnamedConfig rfl rfl⟩

/-- What a client says first. -/
def greeting : Bytes := helloFrame (encodeHello {})

/-- The frame of a body that is not compressed. -/
def plainFrame (type : MessageType) (body : Bytes) : Bytes :=
  messageFrame (encodeHeader (MessageType.header type)) body

/-- What a turn of a task that calls nothing is told. -/
def quietInput : TaskInput := ⟨⟨.ok, .exits true⟩, fun _ => 0⟩

/-- The client says Hello and is answered. -/
def greetedRun : List ServerEvent :=
  [⟨0, .accept clientDevice⟩, ⟨0, .read greeting⟩, ⟨0, .turn 0 quietInput⟩,
    ⟨0, .turn 0 quietInput⟩, ⟨0, .turn 0 quietInput⟩, ⟨0, .turn 0 quietInput⟩,
    ⟨0, .turn 0 quietInput⟩, ⟨0, .send .done⟩]

end Example

end Grizol.Analysis

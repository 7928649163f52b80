import Grizol.Analysis.Conversations
import Grizol.Interface.Greetings

/-!
# The Hello is answered first

A connection goes through three phases: nothing was parsed; one task holds the Hello and
nothing was queued; the reply was queued, and no task holds a Hello any more. What is queued
before the channel closes is written in the same order, so the stream of the server starts
with its Hello, and a client reads what was sent.
-/

set_option autoImplicit false

namespace Grizol.Analysis

open Grizol.Library Grizol.Model Grizol.Interface
open Grizol.Model.Syncthing

variable {codec : Codec} {hash : String → ℕ → ℕ → UInt64} {sha256 : Bytes → Bytes}
  {debugRequest : Request → String} {config : ConnectionConfig}

/-! ## The channel -/

/-- What is written was queued first. -/
structure Channelled (k : Connection) (r : ConnectionRecord) : Prop where
  written : r.written.map Prod.fst <+: r.pushed
  waiting : k.receiving = true → r.pushed = r.written.map Prod.fst ++ k.events
  closed : k.receiving = false → k.events = []
  bytes : k.written ≠ [] → r.written ≠ []

/-- A new connection has nothing in its channel. -/
theorem channelled_new (d : DeviceId) : Channelled (.new d) .empty where
  written := List.prefix_rfl
  waiting _ := rfl
  closed h := by cases h
  bytes h := absurd rfl h

variable {k k' : Connection} {r r' : ConnectionRecord}

/-- Events come into the channel. -/
theorem Channelled.push (h : Channelled k r) {events : List GrizolEvent}
    (hpushed : r'.pushed = r.pushed ++ events) (hevents : k'.events = k.events ++ events)
    (hreceiving : k'.receiving = k.receiving) (hopen : k.receiving = false → events = [])
    (hbytes : k'.written = k.written) (hwritten : r'.written = r.written) : Channelled k' r' where
  written := by
    rw [hwritten, hpushed]
    exact h.written.trans (List.prefix_append _ _)
  waiting hopen' := by
    rw [hpushed, h.waiting (hreceiving ▸ hopen'), hwritten, hevents, List.append_assoc]
  closed hclosed := by
    rw [hevents, h.closed (hreceiving ▸ hclosed), hopen (hreceiving ▸ hclosed)]
    rfl
  bytes := by
    rw [hbytes, hwritten]
    exact h.bytes

/-- A step keeps the channel in step with what was sent. -/
theorem channelled_of_moved {s s' : ServerState} {event : ConnectionEvent}
    (hk : Channelled k r) (h : Moved codec hash sha256 debugRequest config k s event k' s') :
    Channelled k' (r.extend codec config s k event) := by
  cases h with
  | read buf p p' messages hparser hparse =>
      rw [extend_read r s k hparser hparse]
      exact ⟨hk.written, hk.waiting, hk.closed, hk.bytes⟩
  | readFails buf p hparser hparse =>
      rw [extend_readFails r s k hparser hparse]
      exact ⟨hk.written, hk.waiting, hk.closed, hk.bytes⟩
  | readEnd =>
      rw [extend_readEnd]
      exact ⟨hk.written, hk.waiting, hk.closed, hk.bytes⟩
  | turn i input task task' queued s' htask hturned hqueued =>
      rw [extend_turn, hqueued]
      refine hk.push rfl rfl rfl (fun hclosed => ?_) rfl rfl
      cases hturned with
      | send event results messages hreceiving =>
          exact Bool.noConfusion (hreceiving.symm.trans hclosed)
      | _ => rfl
  | ping hreceiving =>
      rw [extend_ping, if_pos hreceiving]
      exact hk.push rfl rfl rfl (fun hclosed => Bool.noConfusion (hreceiving.symm.trans hclosed))
        rfl rfl
  | pingFails hclosed =>
      rw [extend_ping, if_neg (by simp [hclosed]), List.append_nil]
      exact ⟨hk.written, hk.waiting, hk.closed, hk.bytes⟩
  | broken event events p outcome hevents hp hbroken =>
      rw [extend_send, hbroken, List.append_nil]
      exact ⟨hk.written, by simp [Connection.close], fun _ => rfl, hk.bytes⟩
  | wrote event events requests p data outcome hevents hrequests hdata =>
      have hwritten : writtenEvent codec config s k (.send outcome) = [(event, requests)] := by
        simp [writtenEvent, hevents, hrequests, hdata]
      have hreceiving : k.receiving = true := by
        by_contra hfalse
        rw [hk.closed (Bool.eq_false_iff.mpr hfalse)] at hevents
        cases hevents
      have hpushed : r.pushed = (r.written ++ [(event, requests)]).map Prod.fst ++ events := by
        rw [hk.waiting hreceiving, hevents]
        simp
      rw [extend_send, hwritten]
      unfold Connection.writeData
      split_ifs with hempty
      · exact ⟨⟨events, hpushed.symm⟩, fun _ => hpushed,
          fun hclosed => Bool.noConfusion (hreceiving.symm.trans hclosed), fun _ => by simp⟩
      · cases outcome with
        | done =>
            exact ⟨⟨events, hpushed.symm⟩, fun _ => hpushed,
              fun hclosed => Bool.noConfusion (hreceiving.symm.trans hclosed), fun _ => by simp⟩
        | fails n =>
            exact ⟨⟨events, hpushed.symm⟩, by simp [Connection.close], fun _ => rfl,
              fun _ => by simp⟩

/-! ## Phases -/

/-- The message is a hello. -/
def IsHello (m : CompleteMessage) : Prop := ∃ hello, m = .hello hello

/-- An event that is no Hello, whatever else it is. -/
def NoHello (event : GrizolEvent) : Prop := ∀ hello, event ≠ .message (.hello hello)

/-- The task has nothing to handle. -/
def IdleTask (task : MessageTask) : Prop := task = .next [] ∨ task = .returned

variable (config) in
/-- The task holds the Hello and owes the reply to it. -/
def GreetsNext (clientDeviceId : DeviceId) : MessageTask → Prop
  | .next (m :: messages) => IsHello m ∧ ∀ m ∈ messages, ¬ IsHello m
  | .handling h messages =>
      (∃ hello, HandlerOf config clientDeviceId (.hello hello) h) ∧ ∀ m ∈ messages, ¬ IsHello m
  | .sending results messages =>
      results = [.ok (.message (helloReply config))] ∧ ∀ m ∈ messages, ¬ IsHello m
  | _ => False

variable (config) in
/-- The task holds no Hello. -/
def WithoutHello (clientDeviceId : DeviceId) : MessageTask → Prop
  | .next messages => ∀ m ∈ messages, ¬ IsHello m
  | .handling h messages =>
      (∃ m, ¬ IsHello m ∧ HandlerOf config clientDeviceId m h) ∧ ∀ m ∈ messages, ¬ IsHello m
  | .sending results messages =>
      (∀ event, .ok event ∈ results → NoHello event) ∧ ∀ m ∈ messages, ¬ IsHello m
  | _ => True

/-- The reply to the Hello, and no Hello after it. -/
def LeadsWithHello (config : ConnectionConfig) : List GrizolEvent → Prop
  | [] => True
  | event :: events => event = .message (helloReply config) ∧ ∀ event ∈ events, NoHello event

/-- The phases of a connection; the channel may close in each of them. -/
inductive Phase (config : ConnectionConfig) (k : Connection) (r : ConnectionRecord) : Prop where
  | silent (hparsed : r.parsed = []) (hpushed : r.pushed = [])
      (htasks : ∀ task ∈ k.tasks, IdleTask task)
  | greeting (i : ℕ) (task : MessageTask) (hparsed : r.parsed ≠ []) (hpushed : r.pushed = [])
      (htask : k.tasks[i]? = some task) (hgreets : GreetsNext config k.clientDeviceId task)
      (hothers : ∀ (j : ℕ) (task' : MessageTask), j ≠ i → k.tasks[j]? = some task' → IdleTask task')
  | greeted (hparsed : r.parsed ≠ []) (hpushed : r.pushed ≠ [])
      (hleads : LeadsWithHello config r.pushed)
      (htasks : ∀ task ∈ k.tasks, WithoutHello config k.clientDeviceId task)
  | closed (hclosed : k.receiving = false) (hleads : LeadsWithHello config r.pushed)

/-- In every phase a hello leads. -/
theorem Phase.leads (h : Phase config k r) : LeadsWithHello config r.pushed := by
  cases h with
  | silent hparsed hpushed htasks =>
      rw [hpushed]
      trivial
  | greeting i task hparsed hpushed htask hgreets hothers =>
      rw [hpushed]
      trivial
  | greeted hparsed hpushed hleads htasks => exact hleads
  | closed hclosed hleads => exact hleads

/-- What leaves the tasks and the record leaves the phase. -/
theorem Phase.of_same (h : Phase config k r) (htasks : k'.tasks = k.tasks)
    (hclient : k'.clientDeviceId = k.clientDeviceId)
    (hclosed : k.receiving = false → k'.receiving = false) (hparsed : r'.parsed = r.parsed)
    (hpushed : r'.pushed = r.pushed) : Phase config k' r' := by
  cases h with
  | silent hparsed' hpushed' htasks' =>
      exact .silent (hparsed.trans hparsed') (hpushed.trans hpushed') (htasks ▸ htasks')
  | greeting i task hparsed' hpushed' htask hgreets hothers =>
      exact .greeting i task (hparsed ▸ hparsed') (hpushed.trans hpushed') (htasks ▸ htask)
        (hclient ▸ hgreets) (htasks ▸ hothers)
  | greeted hparsed' hpushed' hleads htasks' =>
      exact .greeted (hparsed ▸ hparsed') (hpushed ▸ hpushed') (hpushed ▸ hleads)
        (htasks ▸ hclient ▸ htasks')
  | closed hclosed' hleads => exact .closed (hclosed hclosed') (hpushed ▸ hleads)

/-- A hello leads also when other messages follow. -/
theorem leadsWithHello_append {events events' : List GrizolEvent}
    (h : LeadsWithHello config events) (hnonempty : events ≠ [])
    (hmore : ∀ event ∈ events', NoHello event) : LeadsWithHello config (events ++ events') := by
  cases events with
  | nil => exact absurd rfl hnonempty
  | cons event events =>
      refine ⟨h.1, fun event' hevent => ?_⟩
      rcases List.mem_append.mp hevent with hevent | hevent
      · exact h.2 event' hevent
      · exact hmore event' hevent

/-- Only the Hello is answered with a Hello. -/
theorem noHello_of_repliesTo {m : CompleteMessage}
    {results : List (Except BepProcessorError GrizolEvent)} (h : RepliesTo config m results)
    (hm : ¬ IsHello m) {event : GrizolEvent} (hevent : .ok event ∈ results) : NoHello event := by
  intro hello heq
  subst heq
  cases m with
  | hello x => exact hm ⟨x, rfl⟩
  | clusterConfig x =>
      obtain ⟨clusterConfig, indices, rfl⟩ := h
      simp at hevent
  | index x | indexUpdate x =>
      obtain rfl := h
      simp at hevent
  | response x =>
      obtain ⟨result, rfl, hok⟩ := h
      have hprocessed := hok _ (List.mem_singleton.mp hevent).symm
      cases hprocessed
  | request x | ping x | close x =>
      obtain rfl := h
      cases hevent
  | downloadProgress x => exact absurd h id

/-- An idle task only ends. -/
theorem idle_of_turned {input : TaskInput} {s s' : ServerState} {task task' : MessageTask}
    {queued : List GrizolEvent}
    (h : Turned hash sha256 debugRequest config k input s task task' queued s')
    (hidle : IdleTask task) : task' = .returned ∧ queued = [] := by
  rcases hidle with rfl | rfl
  · cases h
    exact ⟨rfl, rfl⟩
  · cases h

/-- A task without a Hello queues none. -/
theorem withoutHello_of_turned {input : TaskInput} {s s' : ServerState}
    {task task' : MessageTask} {queued : List GrizolEvent}
    (h : Turned hash sha256 debugRequest config k input s task task' queued s')
    (hwithout : WithoutHello config k.clientDeviceId task) :
    WithoutHello config k.clientDeviceId task' ∧ ∀ event ∈ queued, NoHello event := by
  cases h with
  | finish | panic | fail => exact ⟨trivial, by simp⟩
  | take m messages =>
      exact ⟨⟨⟨m, hwithout m List.mem_cons_self, handlerOf_handleCompleteMessage input.clock m⟩,
        fun m' hm' => hwithout m' (List.mem_cons_of_mem _ hm')⟩, by simp⟩
  | act h messages =>
      obtain ⟨⟨m, hhello, hm⟩, hmessages⟩ := hwithout
      exact ⟨⟨⟨m, hhello, handlerOf_act hm input.outcome s⟩, hmessages⟩, by simp⟩
  | deliver results messages =>
      obtain ⟨⟨m, hhello, hm⟩, hmessages⟩ := hwithout
      exact ⟨⟨fun event hevent => noHello_of_repliesTo hm hhello hevent, hmessages⟩, by simp⟩
  | sent messages => exact ⟨hwithout.2, by simp⟩
  | log e results messages =>
      exact ⟨⟨fun event hevent => hwithout.1 event (List.mem_cons_of_mem _ hevent), hwithout.2⟩,
        by simp⟩
  | send event results messages hreceiving =>
      refine ⟨⟨fun event' hevent => hwithout.1 event' (List.mem_cons_of_mem _ hevent), hwithout.2⟩,
        fun event' hevent => ?_⟩
      obtain rfl := List.mem_singleton.mp hevent
      exact hwithout.1 event' List.mem_cons_self

/-- A turn of the task with the Hello: it still owes the reply, or has queued it, or found the
channel closed. -/
theorem greetsNext_of_turned {input : TaskInput} {s s' : ServerState} {task task' : MessageTask}
    {queued : List GrizolEvent}
    (h : Turned hash sha256 debugRequest config k input s task task' queued s')
    (hgreets : GreetsNext config k.clientDeviceId task) :
    (GreetsNext config k.clientDeviceId task' ∧ queued = []) ∨
    (WithoutHello config k.clientDeviceId task' ∧ queued = [.message (helloReply config)]) ∨
    (k.receiving = false ∧ queued = []) := by
  cases h with
  | finish => exact absurd hgreets id
  | take m messages =>
      obtain ⟨⟨hello, rfl⟩, hmessages⟩ := hgreets
      exact .inl ⟨⟨⟨hello, handlerOf_handleCompleteMessage input.clock _⟩, hmessages⟩, rfl⟩
  | act h messages =>
      obtain ⟨⟨hello, hm⟩, hmessages⟩ := hgreets
      exact .inl ⟨⟨⟨hello, handlerOf_act hm input.outcome s⟩, hmessages⟩, rfl⟩
  | deliver results messages =>
      obtain ⟨⟨hello, hm⟩, hmessages⟩ := hgreets
      exact .inl ⟨⟨hm, hmessages⟩, rfl⟩
  | panic e messages =>
      obtain ⟨⟨hello, hm⟩, -⟩ := hgreets
      exact absurd hm id
  | sent messages => cases hgreets.1
  | log e results messages => cases hgreets.1
  | send event results messages hreceiving =>
      obtain ⟨hresults, hmessages⟩ := hgreets
      obtain ⟨hevent, rfl⟩ := List.cons.inj hresults
      obtain rfl := Except.ok.inj hevent
      exact .inr (.inl ⟨⟨by simp, hmessages⟩, rfl⟩)
  | fail event results messages hclosed => exact .inr (.inr ⟨hclosed, rfl⟩)

/-- A task of the list, or the one that was set. -/
theorem task_of_mem_set {tasks : List MessageTask} {i : ℕ} {task' task : MessageTask}
    (h : task ∈ tasks.set i task') : task ∈ tasks ∨ task = task' :=
  List.mem_or_eq_of_mem_set h

/-- A turn of a task. -/
theorem Phase.turn (h : Phase config k r) {i : ℕ} {input : TaskInput} {s s' : ServerState}
    {task task' : MessageTask} {queued : List GrizolEvent} (htask : k.tasks[i]? = some task)
    (hturned : Turned hash sha256 debugRequest config k input s task task' queued s')
    (hclosed : k.receiving = false → queued = []) (hparsed : r'.parsed = r.parsed)
    (hpushed : r'.pushed = r.pushed ++ queued) :
    Phase config { k with tasks := k.tasks.set i task', events := k.events ++ queued } r' := by
  have hmem := List.mem_of_getElem? htask
  cases h with
  | silent hparsed' hpushed' htasks =>
      obtain ⟨rfl, rfl⟩ := idle_of_turned hturned (htasks task hmem)
      refine .silent (hparsed.trans hparsed') (by rw [hpushed, hpushed']; rfl) fun task' htask' => ?_
      rcases task_of_mem_set htask' with hbefore | rfl
      · exact htasks task' hbefore
      · exact .inr rfl
  | greeting j hello hparsed' hpushed' hhello hgreets hothers =>
      by_cases hij : i = j
      · subst hij
        obtain rfl := Option.some.inj (htask.symm.trans hhello)
        have hlt : i < k.tasks.length := (List.getElem?_eq_some_iff.mp htask).1
        have hidle : ∀ (n : ℕ) (task'' : MessageTask), n ≠ i →
            (k.tasks.set i task')[n]? = some task'' → IdleTask task'' := by
          intro n task'' hn htask''
          rw [List.getElem?_set_ne (Ne.symm hn)] at htask''
          exact hothers n task'' hn htask''
        rcases greetsNext_of_turned hturned hgreets with ⟨hnext, rfl⟩ | ⟨hnext, rfl⟩ | ⟨hfalse, rfl⟩
        · exact .greeting i task' (hparsed ▸ hparsed') (by rw [hpushed, hpushed']; rfl)
            (by simp [hlt]) hnext hidle
        · refine .greeted (hparsed ▸ hparsed') (by simp [hpushed]) ?_ fun task'' htask'' => ?_
          · rw [hpushed, hpushed']
            exact ⟨rfl, by simp⟩
          · obtain ⟨n, hn⟩ := List.mem_iff_getElem?.mp htask''
            by_cases hni : n = i
            · subst hni
              rw [List.getElem?_set_self hlt] at hn
              obtain rfl := Option.some.inj hn
              exact hnext
            · rcases hidle n task'' hni hn with rfl | rfl
              · simp [WithoutHello]
              · trivial
        · exact .closed hfalse (by rw [hpushed, hpushed']; trivial)
      · obtain ⟨rfl, rfl⟩ := idle_of_turned hturned (hothers i task hij htask)
        refine .greeting j hello (hparsed ▸ hparsed') (by rw [hpushed, hpushed']; rfl) ?_ hgreets ?_
        · show (k.tasks.set i .returned)[j]? = some hello
          rw [List.getElem?_set_ne hij, hhello]
        · intro n task'' hn htask''
          rcases Nat.decEq n i with hni | rfl
          · rw [List.getElem?_set_ne (Ne.symm hni)] at htask''
            exact hothers n task'' hn htask''
          · replace htask'' : (k.tasks.set n .returned)[n]? = some task'' := htask''
            rw [List.getElem?_set_self (List.getElem?_eq_some_iff.mp htask).1] at htask''
            obtain rfl := Option.some.inj htask''
            exact .inr rfl
  | greeted hparsed' hpushed' hleads htasks =>
      obtain ⟨hnext, hqueued⟩ := withoutHello_of_turned hturned (htasks task hmem)
      refine .greeted (hparsed ▸ hparsed') (by simp [hpushed, hpushed']) ?_ fun task'' htask'' => ?_
      · rw [hpushed]
        exact leadsWithHello_append hleads hpushed' hqueued
      · rcases task_of_mem_set htask'' with hbefore | rfl
        · exact htasks task'' hbefore
        · exact hnext
  | closed hfalse hleads =>
      refine .closed hfalse ?_
      rw [hpushed, hclosed hfalse, List.append_nil]
      exact hleads

/-- A read before anything was parsed may bring the Hello; later ones bring none. -/
theorem Phase.read (h : Phase config k r) {p : BepDataParser} {messages : List CompleteMessage}
    (hended : r.pushed = [] → ∀ task ∈ k.tasks, Ended task)
    (hfirst : HelloFirst (r.parsed ++ messages)) (hparsed : r'.parsed = r.parsed ++ messages)
    (hpushed : r'.pushed = r.pushed) :
    Phase config { k with dataParser := some p, tasks := k.tasks ++ [.next messages] } r' := by
  have hmem : ∀ {task : MessageTask}, task ∈ k.tasks ++ [.next messages] →
      task ∈ k.tasks ∨ task = .next messages := by simp
  cases h with
  | silent hparsed' hpushed' htasks =>
      rw [hparsed', List.nil_append] at hfirst hparsed
      cases messages with
      | nil =>
          refine .silent hparsed (hpushed.trans hpushed') fun task htask => ?_
          rcases hmem htask with hbefore | rfl
          · exact htasks task hbefore
          · exact .inl rfl
      | cons m messages =>
          refine .greeting k.tasks.length (.next (m :: messages)) (by simp [hparsed])
            (hpushed.trans hpushed') (by simp) ?_ fun j task hj htask => ?_
          · exact ⟨hfirst.1, fun m' hm' ⟨hello, hhello⟩ => hfirst.2 m' hm' hello hhello⟩
          · have hlt : j < k.tasks.length := by
              have hbound := (List.getElem?_eq_some_iff.mp htask).1
              simp only [List.length_append, List.length_singleton] at hbound
              omega
            replace htask : (k.tasks ++ [MessageTask.next (m :: messages)])[j]? = some task := htask
            rw [List.getElem?_append_left hlt] at htask
            exact htasks task (List.mem_of_getElem? htask)
  | greeting i hello hparsed' hpushed' hhello hgreets hothers =>
      have hrunning := hended hpushed' hello (List.mem_of_getElem? hhello)
      cases hello with
      | returned | failed | panicked => exact absurd hgreets id
      | _ => exact absurd hrunning id
  | greeted hparsed' hpushed' hleads htasks =>
      refine .greeted (by simp [hparsed, hparsed']) (hpushed ▸ hpushed') (hpushed ▸ hleads)
        fun task htask => ?_
      rcases hmem htask with hbefore | rfl
      · exact htasks task hbefore
      · intro m hm ⟨hello, hhello⟩
        cases hall : r.parsed with
        | nil => exact hparsed' hall
        | cons first rest =>
            rw [hall] at hfirst
            exact hfirst.2 m (List.mem_append_right _ hm) hello hhello
  | closed hclosed hleads => exact .closed hclosed (hpushed ▸ hleads)

/-- What holds along a run in which the Hello is answered first. -/
structure Greeting (codec : Codec) (config : ConnectionConfig) (k : Connection)
    (r : ConnectionRecord) : Prop where
  streamed : Streamed codec k r
  channelled : Channelled k r
  phase : Phase config k r

/-- A new connection has not greeted. -/
theorem greeting_new (d : DeviceId) : Greeting codec config (.new d) .empty where
  streamed := streamed_new d
  channelled := channelled_new d
  phase := .silent rfl rfl (by simp [Connection.new])

/-- Only the first message read can be a hello. -/
theorem Streamed.helloFirst (h : Streamed codec k r) : HelloFirst r.parsed := by
  obtain ⟨bufs, phase, pending, -, hread, -⟩ := h.exists_read
  have hstream : readStream codec bufs.flatten = some (r.parsed, pending) := by
    rw [readStream, hread]
    rfl
  exact helloFirst_of_readStream codec hstream

/-- A step keeps the greeting in front. -/
theorem greeting_of_moved {s s' : ServerState} {event : ConnectionEvent}
    (hk : Greeting codec config k r) (hcond : AnswersFirst k event)
    (h : Moved codec hash sha256 debugRequest config k s event k' s') :
    Greeting codec config k' (r.extend codec config s k event) := by
  have hstreamed := streamed_of_moved hk.streamed h
  have hchannelled := channelled_of_moved hk.channelled h
  refine ⟨hstreamed, hchannelled, ?_⟩
  have hphase := hk.phase
  have hunwritten : r.pushed = [] → k.written = [] := by
    intro hpushed
    by_contra hwritten
    refine hk.channelled.bytes hwritten ?_
    have hprefix := hk.channelled.written
    rw [hpushed, List.prefix_nil] at hprefix
    exact List.map_eq_nil_iff.mp hprefix
  cases h with
  | read buf p p' messages hparser hparse =>
      rw [extend_read r s k hparser hparse] at hstreamed ⊢
      exact hphase.read (fun hpushed => hcond (hunwritten hpushed)) hstreamed.helloFirst rfl rfl
  | readFails buf p hparser hparse =>
      rw [extend_readFails r s k hparser hparse]
      exact hphase.of_same rfl rfl id rfl rfl
  | readEnd =>
      rw [extend_readEnd]
      exact hphase.of_same rfl rfl id rfl rfl
  | turn i input task task' queued s' htask hturned hqueued =>
      rw [extend_turn, hqueued]
      refine hphase.turn htask hturned (fun hclosed => ?_) rfl rfl
      cases hturned with
      | send event results messages hreceiving =>
          exact Bool.noConfusion (hreceiving.symm.trans hclosed)
      | _ => rfl
  | ping hreceiving =>
      rw [extend_ping, if_pos hreceiving]
      cases hphase with
      | silent hparsed hpushed htasks => exact absurd (hunwritten hpushed) hcond
      | greeting i task hparsed hpushed htask hgreets hothers =>
          exact absurd (hunwritten hpushed) hcond
      | greeted hparsed hpushed hleads htasks =>
          exact .greeted hparsed (by simp) (leadsWithHello_append hleads hpushed (by simp [NoHello]))
            htasks
      | closed hclosed hleads => exact Bool.noConfusion (hreceiving.symm.trans hclosed)
  | pingFails hclosed =>
      rw [extend_ping, if_neg (by simp [hclosed]), List.append_nil]
      exact hphase.of_same rfl rfl id rfl rfl
  | broken event events p outcome hevents hp hbroken =>
      rw [extend_send]
      exact hphase.of_same rfl rfl (fun _ => rfl) rfl rfl
  | wrote event events requests p data outcome hevents hrequests hdata =>
      rw [extend_send]
      obtain ⟨htasks, hclient, -⟩ :=
        writeData_tasks ({ k with events := events } : Connection) data outcome
      refine hphase.of_same htasks hclient (fun hclosed => ?_) rfl rfl
      rw [hk.channelled.closed hclosed] at hevents
      cases hevents

/-! ## What the client reads -/

/-- An event that is no hello sends none. -/
theorem not_isHello_of_messages {event : GrizolEvent} (h : NoHello event)
    {requests : List Request} {m : CompleteMessage} (hm : m ∈ event.messages requests)
    (hello : Hello) : m ≠ .hello hello := by
  rintro rfl
  cases event with
  | message m' =>
      obtain rfl := List.mem_singleton.mp hm
      exact h hello rfl
  | requestProcessed | requestCreated =>
      obtain ⟨request, -, hrequest⟩ := List.mem_map.mp hm
      cases hrequest

/-- What is written of events that lead with the Hello leads with it. -/
theorem greetsFirst_of_leads {written : List (GrizolEvent × List Request)}
    {pushed : List GrizolEvent} (h : LeadsWithHello config pushed)
    (hwritten : written.map Prod.fst <+: pushed) :
    GreetsFirst config (written.flatMap fun w => w.1.messages w.2) := by
  cases written with
  | nil => trivial
  | cons w written =>
      obtain ⟨rest, rfl⟩ := hwritten
      obtain ⟨hfirst, hrest⟩ := h
      obtain ⟨event, requests⟩ := w
      obtain rfl : event = .message (helloReply config) := hfirst
      refine ⟨rfl, fun m hm => ?_⟩
      obtain ⟨w, hw, hm⟩ := List.mem_flatMap.mp hm
      have hevent : NoHello w.1 :=
        hrest w.1 (List.mem_append_left _ (List.mem_map_of_mem hw))
      exact not_isHello_of_messages hevent hm

/-- A frame that was made is read back. -/
theorem length_lt_of_serialize {m : CompleteMessage} {frame : Bytes} {t : MessageType}
    (h : m.serialize codec = .ok frame) (ht : m.messageType = some t) :
    (codec.encodeHeader (MessageType.header t)).length < 2 ^ 16 ∧
      (m.encodeToVec codec).length < 2 ^ 32 := by
  simp only [CompleteMessage.serialize, ht, serializeMessage, Rust.bind_eq_ok, Rust.tryInto] at h
  obtain ⟨headerLen, hheader, messageLen, hmessage, -⟩ := h
  split_ifs at hheader hmessage with hlt hlt'
  exact ⟨hlt, hlt'⟩

/-- Every message of a list that was serialized can be. -/
theorem exists_serialize_of_mem {messages : List CompleteMessage} {frames : Bytes}
    (h : serializeAll codec messages = .ok frames) {m : CompleteMessage} (hm : m ∈ messages) :
    ∃ frame, m.serialize codec = .ok frame := by
  induction messages generalizing frames with
  | nil => cases hm
  | cons first messages ih =>
      simp only [serializeAll, List.mapM_cons, Rust.bind_eq_ok] at h
      obtain ⟨all, ⟨frame, hframe, frames', hframes', -⟩, -⟩ := h
      rcases List.mem_cons.mp hm with rfl | hm
      · exact ⟨frame, hframe⟩
      · have hrest : serializeAll codec messages = .ok frames'.flatten := by
          rw [serializeAll, hframes']
          rfl
        exact ih hrest hm

/-- A hello that was serialized is short enough, and its frame is that of a hello. -/
theorem helloFrame_of_serialize {hello : Hello} {frame : Bytes}
    (h : (CompleteMessage.hello hello).serialize codec = .ok frame) :
    (codec.encodeHello hello).length < 2 ^ 16 ∧ helloFrame (codec.encodeHello hello) = frame := by
  have hserialize : serializeHello (codec.encodeHello hello) = .ok frame := h
  have hlt : (codec.encodeHello hello).length < 2 ^ 16 := by
    simp only [serializeHello, Rust.bind_eq_ok, Rust.tryInto] at hserialize
    obtain ⟨messageLen, hlen, -⟩ := hserialize
    split_ifs at hlen with hlt
    exact hlt
  rw [serializeHello_of_lt hlt] at hserialize
  exact ⟨hlt, Except.ok.inj hserialize⟩

/-- Frames that were made after the Hello are read back as what they were made for. -/
theorem read_of_serializeAll {messages : List CompleteMessage} {frames : Bytes}
    (h : serializeAll codec messages = .ok frames)
    (hpost : ∀ m ∈ messages, ∀ hello, m ≠ .hello hello) (hback : ∀ m ∈ messages, ReadsBack codec m) :
    (wireFormat codec).read .postHello frames = some (messages, .postHello, []) := by
  have hlen : ∀ m ∈ messages, ∀ t, m.messageType = some t →
      (codec.encodeHeader (MessageType.header t)).length < 2 ^ 16 ∧
        (m.encodeToVec codec).length < 2 ^ 32 := by
    intro m hm t ht
    obtain ⟨frame, hframe⟩ := exists_serialize_of_mem h hm
    exact length_lt_of_serialize hframe ht
  have hboth : ∀ m ∈ messages, ∀ t, m.messageType = some t →
      codec.decodeHeader (codec.encodeHeader (MessageType.header t)) = .ok (MessageType.header t) ∧
        decodeBody codec t (m.encodeToVec codec) = .ok m := by
    intro m hm t ht
    have hreads := hback m hm
    cases m with
    | hello hello => exact absurd rfl (hpost _ hm hello)
    | _ => exact hreads t ht
  obtain ⟨frames', hframes', hread⟩ := read_serializeAll codec messages hpost
    (fun m hm => by
      obtain ⟨t, ht⟩ := exists_messageType (hpost m hm)
      exact (hlen m hm t ht).2)
    (fun m hm t ht => (hboth m hm t ht).2) (fun m hm t ht => (hlen m hm t ht).1)
    (fun m hm t ht => (hboth m hm t ht).1)
  rw [h] at hframes'
  rw [Except.ok.inj hframes']
  exact hread

/-- The frames of a conversation that leads with the Hello are read back. -/
theorem read_of_greetsFirst {messages : List CompleteMessage} {frames : Bytes}
    (h : serializeAll codec messages = .ok frames) (hgreets : GreetsFirst config messages)
    (hback : ∀ m ∈ messages, ReadsBack codec m) :
    ∃ phase, (wireFormat codec).read .preHello frames = some (messages, phase, []) := by
  cases messages with
  | nil =>
      obtain rfl : [] = frames := Except.ok.inj h
      refine ⟨.preHello, ?_⟩
      rw [Framing.read_of_incomplete (cut_nil codec .preHello)]
      rfl
  | cons m messages =>
      obtain ⟨rfl, hpost⟩ := hgreets
      simp only [serializeAll, List.mapM_cons, Rust.bind_eq_ok] at h
      obtain ⟨all, ⟨frame, hframe, frames', hframes', hall⟩, hflatten⟩ := h
      obtain rfl : frame :: frames' = all := Except.ok.inj hall
      obtain rfl : (frame :: frames').flatten = frames := Except.ok.inj hflatten
      have hrest : (wireFormat codec).read .postHello frames'.flatten =
          some (messages, .postHello, []) := by
        refine read_of_serializeAll ?_ hpost fun m hm => hback m (List.mem_cons_of_mem _ hm)
        rw [serializeAll, hframes']
        rfl
      obtain ⟨hello, hreply⟩ : ∃ hello, helloReply config = .hello hello := ⟨_, rfl⟩
      rw [hreply] at hframe hback ⊢
      obtain ⟨hlt, rfl⟩ := helloFrame_of_serialize hframe
      have hhello := decodeHelloFrame_helloFrame codec (hback _ List.mem_cons_self)
      refine ⟨.postHello, ?_⟩
      rw [List.flatten_cons, Framing.read_of_complete _ (helloFrameLen_helloFrame hlt)]
      have hdecode : (wireFormat codec).decode .preHello
          (helloFrame (codec.encodeHello hello)) = some (.hello hello, .postHello) := by
        show (decodeHelloFrame codec _).map _ = _
        rw [hhello]
        rfl
      rw [hdecode]
      simp [hrest]

/-- **The client is told Hello first, and can read all that follows.** However the connections of
the server take turns: where a client is answered before it sends on, the first message sent to it
is the reply to its Hello, and there is no other; its parser reads what was sent, if the
codec reads back what it writes. -/
theorem greetsFirst_of_run (codec : Codec) (hash : String → ℕ → ℕ → UInt64)
    (sha256 : Bytes → Bytes) (debugRequest : Request → String) (config : ConnectionConfig)
    {state : ServerState} {es : List ServerEvent} {s : Server} {c : ℕ}
    (hmeets : MeetsOn codec hash sha256 debugRequest config c AnswersFirst (.start state) es)
    (hrun : Transition.run (serverStep codec hash sha256 debugRequest config) (.start state) es =
      some s) {connection : Connection} (hc : s.connections c = some connection)
    {sent : List CompleteMessage}
    (hsent : (recordOn codec hash sha256 debugRequest config c (.start state) es).sent = sent) :
    GreetsFirst config sent ∧
      ((∀ m ∈ sent, ReadsBack codec m) → Readable codec sent connection) := by
  subst hsent
  have hgreeting := record_of_run greeting_new (fun _ _ _ _ _ _ => greeting_of_moved) hmeets hrun hc
  have hframed := record_of_every_run framed_new (fun _ _ _ _ _ _ => framed_of_moved) hrun hc
  have hgreets := greetsFirst_of_leads hgreeting.phase.leads hgreeting.channelled.written
  obtain ⟨frames, hframes, hprefix, hwhole⟩ := hframed.writes.frames
  refine ⟨hgreets, fun hback => ⟨fun bufs hbufs => ?_⟩⟩
  obtain ⟨phase, hread⟩ := read_of_greetsFirst hframes hgreets hback
  obtain ⟨rest, rfl⟩ := hbufs.trans hprefix
  obtain ⟨messages, phase', pending, later, hfirst, hlater, hall⟩ := Framing.read_append_eq_some hread
  obtain ⟨delivered, hfeed, hflat⟩ := feed_stateOf codec bufs .preHello [] messages phase' pending
    (cut_nil codec .preHello) hfirst
  refine ⟨stateOf codec phase' pending, delivered, hfeed, ?_, fun hreceiving heverything => ?_⟩
  · rw [hflat]
    exact ⟨later, hall.symm⟩
  · have hrest : rest = [] := by
      have hwritten := (hwhole hreceiving).symm.trans heverything.symm
      exact List.append_cancel_left (hwritten.trans (List.append_nil _).symm)
    subst hrest
    rw [List.append_nil, hfirst] at hread
    obtain ⟨rfl, rfl, rfl⟩ : messages = _ ∧ phase' = phase ∧ pending = [] := by simpa using hread
    exact ⟨hflat, heldBytes_stateOf codec phase' []⟩

/-! ## A greeting -/

/-- What the server and its client say of themselves. -/
def greetings : List Hello :=
  [{}, { clientName := cargoPkgName, clientVersion := cargoPkgVersion }]

/-- The codec of the hellos that are exchanged, with the bytes that `prost` writes. -/
def greetingMessages : Codec :=
  { shortMessages with decodeHello := decodeAmong encodeHello greetings }

/-- Witness: the client reads the reply to its Hello. -/
theorem greetsFirst_of_run_hello :
    ∃ s connection, Transition.run (serverStep greetingMessages (fun _ _ _ => 0) pairHash
        (fun _ => "") unnamedConfig) (.start unsharedState) greetedRun = some s ∧
      s.connections 0 = some connection ∧
      GreetsFirst unnamedConfig [helloReply unnamedConfig] ∧
      Readable greetingMessages [helloReply unnamedConfig] connection := by
  refine ⟨_, _, rfl, rfl, ?_⟩
  obtain ⟨hgreets, hreadable⟩ := greetsFirst_of_run greetingMessages (fun _ _ _ => 0) pairHash
    (fun _ => "") unnamedConfig
    (meets_greetedRun (fun _ => by simp [AnswersFirst, Connection.new])
      (fun k event hread hping => by cases event <;> simp_all [AnswersFirst])) rfl rfl rfl
  refine ⟨hgreets, hreadable fun m hm => ?_⟩
  obtain rfl := List.mem_singleton.mp hm
  rfl

end Grizol.Analysis

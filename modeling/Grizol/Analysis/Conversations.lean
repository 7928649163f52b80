import Mathlib.Algebra.Order.Group.Multiset
import Mathlib.Tactic.Abel
import Grizol.Analysis.Connections
import Grizol.Analysis.StreamReading
import Grizol.Interface.Conversations

/-!
# The order of a conversation

Parsing is sequential, so what the reader parsed is the one-pass reading of what it read.
When no read comes while a task is running, one task runs at a time, and the messages
taken are those of the stream, in its order; what was queued splits into the replies to
them. From the shape of a stream it follows that the Hello is answered first.
-/

set_option autoImplicit false

namespace Grizol.Analysis

open Grizol.Library Grizol.Model Grizol.Interface
open Grizol.Model.Syncthing

variable {codec : Codec} {hash : String → ℕ → ℕ → UInt64} {sha256 : Bytes → Bytes}
  {debugRequest : Request → String} {config : ConnectionConfig}

/-! ## What was parsed -/

/-- A frame that checks as a message decodes to it. -/
theorem decode_of_checkFrame {phase : BepAuthStatus} {frame : Bytes} {m : CompleteMessage}
    (h : checkFrame codec phase frame = some (some m)) :
    (wireFormat codec).decode phase frame = some (m, .postHello) := by
  cases phase with
  | preHello =>
      show (decodeHelloFrame codec frame).map _ = _
      unfold checkFrame checkHelloFrame at h
      dsimp only at h
      unfold decodeHelloFrame
      split at h
      · rename_i hmagic
        obtain ⟨hello, hhello, hm⟩ := Option.map_eq_some_iff.mp h
        rw [if_pos hmagic, hhello, ← Option.some.inj hm]
        rfl
      · cases h
  | postHello =>
      show (decodeMessageFrame codec frame).map _ = _
      unfold checkFrame checkMessageFrame at h
      simp only [Option.bind_eq_bind, Option.bind_eq_some_iff, Option.some.injEq] at h
      obtain ⟨header, hheader, raw, hraw, type, htype, hm⟩ := h
      simp only [decodeMessageFrame, hheader, hraw, htype, Option.bind_eq_bind, Option.bind_some, hm,
        Option.map_some]

/-- A checked reading without a refused frame is the one-pass reading. -/
theorem read_of_checkedFormat {phase phase' : BepAuthStatus} {stream pending : Bytes}
    {messages : List CompleteMessage}
    (h : (checkedFormat codec).read (some phase) stream =
      some (messages.map some, some phase', pending)) :
    (wireFormat codec).read phase stream = some (messages, phase', pending) := by
  induction phase, stream using (wireFormat codec).read_induction generalizing messages with
  | incomplete phase stream hcut =>
      have hcut' : (checkedFormat codec).cut (some phase) stream = none := hcut
      rw [Framing.read_of_incomplete hcut'] at h
      rw [Framing.read_of_incomplete hcut]
      change (if (wireFormat codec).accepts phase stream = true then _ else _) = _ at h
      split_ifs at h ⊢
      obtain ⟨hmap, hphase, rfl⟩ : [] = messages.map some ∧ some phase = some phase' ∧
          stream = pending := by simpa using h
      obtain rfl := List.map_eq_nil_iff.mp hmap.symm
      rw [Option.some.inj hphase]
  | complete phase stream frame rest hcut ih =>
      have hcut' : (checkedFormat codec).cut (some phase) stream = some (frame, rest) := hcut
      rw [Framing.read_of_cut hcut'] at h
      rw [Framing.read_of_cut hcut]
      simp only [Option.bind_eq_bind, Option.bind_eq_some_iff] at h
      obtain ⟨⟨outcome, phase₁⟩, hdecode, ⟨tail, phase₂, pending₂⟩, htail, heq⟩ := h
      obtain ⟨hmap, rfl, rfl⟩ : outcome :: tail = messages.map some ∧ phase₂ = some phase' ∧
          pending₂ = pending := by simpa using heq
      obtain ⟨outcome', hcheck, hpair⟩ := Option.map_eq_some_iff.mp hdecode
      obtain ⟨rfl, rfl⟩ := Prod.mk.inj hpair
      cases messages with
      | nil => cases hmap
      | cons m messages =>
          rw [List.map_cons, List.cons.injEq] at hmap
          obtain ⟨rfl, rfl⟩ := hmap
          have htail' := ih .postHello htail
          simp [decode_of_checkFrame hcheck, htail']

/-- The reader stands in the unfinished frame of what it has read; what it parsed is the
one-pass reading of that. -/
structure Streamed (codec : Codec) (k : Connection) (r : ConnectionRecord) : Prop where
  exists_read : ∃ bufs phase pending, bufs <+: r.read ∧
    (wireFormat codec).read .preHello bufs.flatten = some (r.parsed, phase, pending) ∧
    ∀ p, k.dataParser = some p → bufs = r.read ∧ p = stateOf codec phase pending

/-- A new connection has read nothing. -/
theorem streamed_new (d : DeviceId) : Streamed codec (.new d) .empty where
  exists_read := by
    refine ⟨[], .preHello, [], List.prefix_rfl, ?_, ?_⟩
    · rw [List.flatten_nil, Framing.read_of_incomplete (cut_nil codec .preHello)]
      rfl
    · intro p hp
      obtain rfl := Option.some.inj hp
      exact ⟨rfl, new_eq_stateOf codec⟩

variable {k k' : Connection} {r r' : ConnectionRecord}

/-- The reader ends, or is left alone. -/
theorem Streamed.of_same (h : Streamed codec k r) (hread : r.read <+: r'.read)
    (hparsed : r'.parsed = r.parsed)
    (hparser : ∀ p, k'.dataParser = some p → k.dataParser = some p ∧ r'.read = r.read) :
    Streamed codec k' r' := by
  obtain ⟨bufs, phase, pending, hprefix, hall, hstate⟩ := h.exists_read
  refine ⟨bufs, phase, pending, hprefix.trans hread, by rw [hparsed, hall], fun p hp => ?_⟩
  obtain ⟨hbefore, hsame⟩ := hparser p hp
  obtain ⟨rfl, rfl⟩ := hstate p hbefore
  exact ⟨hsame.symm, rfl⟩

/-- The reader parses one more buffer. -/
theorem streamed_read (h : Streamed codec k r) {buf : Bytes} {p p' : BepDataParser}
    {messages : List CompleteMessage} (hparser : k.dataParser = some p)
    (hparse : p.parseIncomingData codec buf = .ok (p', .ok messages)) :
    Streamed codec
      { k with dataParser := some p', tasks := k.tasks ++ [.next messages] }
      { r with read := r.read ++ [buf], parsed := r.parsed ++ messages } := by
  obtain ⟨bufs, phase, pending, -, hall, hstate⟩ := h.exists_read
  obtain ⟨rfl, rfl⟩ := hstate p hparser
  obtain ⟨hcut, hacc⟩ := Framing.unfinished_of_read hall
  have hloop := parseLoop_stateOf codec buf buf.length phase pending 0 [] (by omega)
    (Nat.zero_le _) hcut hacc
  rw [List.drop_zero] at hloop
  change Performs codec ((stateOf codec phase pending).parseIncomingData codec buf) [] _ at hloop
  rw [hparse] at hloop
  cases hread : (checkedFormat codec).read (some phase) (pending ++ buf) with
  | none =>
      rw [hread] at hloop
      obtain ⟨fault, hfault⟩ := hloop
      cases hfault
  | some result =>
      obtain ⟨outcomes, phase', pending'⟩ := result
      rw [hread] at hloop
      cases phase' with
      | none =>
          obtain ⟨p₁, e, herror⟩ := hloop
          cases herror
      | some phase' =>
          obtain ⟨messages', rfl, hok⟩ := hloop
          obtain ⟨rfl, hmessages⟩ := Prod.mk.inj (Except.ok.inj hok)
          obtain rfl := Except.ok.inj hmessages
          refine ⟨r.read ++ [buf], phase', pending', List.prefix_rfl, ?_, ?_⟩
          · rw [List.flatten_append, List.flatten_singleton, Framing.read_append, hall,
              Option.bind_some, read_of_checkedFormat hread]
            rfl
          · intro p₁ hp₁
            exact ⟨rfl, (Option.some.inj hp₁).symm⟩

/-- A step keeps the parser in step with what was read. -/
theorem streamed_of_moved {s s' : ServerState} {event : ConnectionEvent}
    (hk : Streamed codec k r)
    (h : Moved codec hash sha256 debugRequest config k s event k' s') :
    Streamed codec k' (r.extend codec config s k event) := by
  cases h with
  | read buf p p' messages hparser hparse =>
      rw [extend_read r s k hparser hparse]
      exact streamed_read hk hparser hparse
  | readFails buf p hparser hparse =>
      rw [extend_readFails r s k hparser hparse]
      exact hk.of_same (List.prefix_append _ _) rfl (fun p' hp' => by cases hp')
  | readEnd =>
      rw [extend_readEnd]
      exact hk.of_same List.prefix_rfl rfl (fun p' hp' => by cases hp')
  | turn i input task task' queued s' htask hturned hqueued =>
      rw [extend_turn]
      exact hk.of_same List.prefix_rfl rfl (fun p' hp' => ⟨hp', rfl⟩)
  | ping hreceiving =>
      rw [extend_ping]
      exact hk.of_same List.prefix_rfl rfl (fun p' hp' => ⟨hp', rfl⟩)
  | pingFails hclosed =>
      rw [extend_ping]
      exact hk.of_same List.prefix_rfl rfl (fun p' hp' => ⟨hp', rfl⟩)
  | broken event events p outcome hevents hp hbroken =>
      rw [extend_send]
      exact hk.of_same List.prefix_rfl rfl (fun p' hp' => ⟨hp', rfl⟩)
  | wrote event events requests p data outcome hevents hrequests hdata =>
      rw [extend_send]
      refine hk.of_same List.prefix_rfl rfl (fun p' hp' => ⟨?_, rfl⟩)
      rwa [(writeData_tasks _ data outcome).2.2] at hp'

/-! ## One task at a time -/

/-- The task was lost with the messages it had not taken. -/
def Died : MessageTask → Prop
  | .failed | .panicked _ => True
  | _ => False

variable (config) in
/-- The message a task is about, with what was returned for it so far. -/
def Serves (clientDeviceId : DeviceId) : MessageTask → Conversation → Prop
  | .handling h _, current => ∃ m, current = [(m, [])] ∧ HandlerOf config clientDeviceId m h
  | .sending results _, current => ∃ m done, current = [(m, done)] ∧
      RepliesTo config m (done ++ results)
  | _, current => current = []

/-- The messages of the tasks that ended, then that of the last one. -/
structure Serial (config : ConnectionConfig) (k : Connection) (r : ConnectionRecord)
    (ended : List MessageTask) (last : Option MessageTask) (settled current : Conversation) :
    Prop where
  tasks : k.tasks = ended ++ last.toList
  ended : ∀ task ∈ ended, Ended task
  serves : ∀ task ∈ last, Serves config k.clientDeviceId task current
  alone : last = none → current = []
  taken : r.taken = (settled ++ current).map Prod.fst
  queued : r.queued = (settled ++ current).flatMap fun x => emitted x.2
  order : (r.taken ++ last.toList.flatMap waitingMessages).Sublist r.parsed
  replies : ∀ x ∈ settled, PartOfReply config x.1 x.2
  complete : (∀ task ∈ k.tasks, ¬ Died task) →
    r.taken ++ last.toList.flatMap waitingMessages = r.parsed ∧
      ∀ x ∈ settled, RepliesTo config x.1 x.2

variable {ended : List MessageTask} {last : Option MessageTask} {settled current : Conversation}

/-- A new connection serves no conversation. -/
theorem serial_new (d : DeviceId) : Serial config (.new d) .empty [] none [] [] where
  tasks := rfl
  ended := by simp
  serves := by simp
  alone _ := rfl
  taken := rfl
  queued := rfl
  order := List.Sublist.refl _
  replies := by simp
  complete _ := ⟨rfl, by simp⟩

/-- A task that has ended has no messages waiting. -/
theorem waitingMessages_of_ended {task : MessageTask} (h : Ended task) :
    waitingMessages task = [] := by
  cases task with
  | returned | failed | panicked => rfl
  | _ => exact absurd h id

/-- Nor have several. -/
theorem flatMap_waitingMessages {tasks : List MessageTask} (h : ∀ task ∈ tasks, Ended task) :
    tasks.flatMap waitingMessages = [] :=
  List.flatMap_eq_nil_iff.mpr fun task htask => waitingMessages_of_ended (h task htask)

/-- A task that has ended serves no conversation. -/
theorem serves_of_ended {clientDeviceId : DeviceId} {task : MessageTask} (h : Ended task)
    (hserves : Serves config clientDeviceId task current) : current = [] := by
  cases task with
  | returned | failed | panicked => exact hserves
  | _ => exact absurd h id

/-- A task that takes a turn has not ended. -/
theorem not_ended_of_turned {k : Connection} {input : TaskInput} {s s' : ServerState}
    {task task' : MessageTask} {queued : List GrizolEvent}
    (h : Turned hash sha256 debugRequest config k input s task task' queued s') : ¬ Ended task := by
  cases h <;> exact id

/-- Only the last task can take a turn. -/
theorem last_of_turn (hk : Serial config k r ended last settled current) {i : ℕ}
    {task : MessageTask} (htask : k.tasks[i]? = some task) (hactive : ¬ Ended task) :
    last = some task ∧ i = ended.length := by
  rw [hk.tasks] at htask
  rcases Nat.lt_trichotomy i ended.length with hlt | heq | hgt
  · rw [List.getElem?_append_left hlt] at htask
    exact absurd (hk.ended task (List.mem_of_getElem? htask)) hactive
  · subst heq
    rw [List.getElem?_append_right le_rfl, Nat.sub_self] at htask
    cases last with
    | none => cases htask
    | some task' => exact ⟨htask, rfl⟩
  · rw [List.getElem?_append_right hgt.le] at htask
    obtain ⟨n, hn⟩ := Nat.exists_eq_add_of_lt hgt
    rw [show i - ended.length = n + 1 by omega] at htask
    cases last <;> cases htask

/-- A read that finds every task ended puts its own after them. -/
theorem serial_read (hk : Serial config k r ended last settled current)
    (hended : ∀ task ∈ k.tasks, Ended task) (buf : Bytes) (p : BepDataParser)
    (messages : List CompleteMessage) :
    Serial config { k with dataParser := some p, tasks := k.tasks ++ [.next messages] }
      { r with read := r.read ++ [buf], parsed := r.parsed ++ messages }
      k.tasks (some (.next messages)) settled [] := by
  have hcurrent : current = [] := by
    cases last with
    | none => exact hk.alone rfl
    | some task =>
        refine serves_of_ended (hended task ?_) (hk.serves task rfl)
        rw [hk.tasks]
        exact List.mem_append_right _ (List.mem_singleton_self task)
  subst hcurrent
  have hnone : last.toList.flatMap waitingMessages = [] := by
    refine flatMap_waitingMessages fun task htask => hended task ?_
    rw [hk.tasks]
    exact List.mem_append_right _ htask
  have horder := hk.order
  rw [hnone, List.append_nil] at horder
  have hwaiting : (some (MessageTask.next messages)).toList.flatMap waitingMessages = messages := by
    simp [waitingMessages]
  refine ⟨rfl, hended, fun task htask => ?_, by simp, by simpa using hk.taken, by simpa using hk.queued,
    ?_, hk.replies, fun hdied => ?_⟩
  · obtain rfl := Option.some.inj htask
    rfl
  · rw [hwaiting]
    exact horder.append (List.Sublist.refl messages)
  · obtain ⟨hall, hsettled⟩ := hk.complete
      fun task htask => hdied task (List.mem_append_left _ htask)
    rw [hnone, List.append_nil] at hall
    refine ⟨?_, hsettled⟩
    rw [hwaiting]
    exact congrArg (· ++ messages) hall

/-- The message a task takes next. -/
def takenNext : MessageTask → List CompleteMessage
  | .next (m :: _) => [m]
  | _ => []

/-- A turn takes the next message of its task, if it is between two. -/
theorem takenMessage_turn {k : Connection} {i : ℕ} {input : TaskInput} {task : MessageTask}
    (htask : k.tasks[i]? = some task) : takenMessage k (.turn i input) = takenNext task := by
  unfold takenMessage takenNext
  dsimp only
  rw [htask]
  cases task with
  | next messages => cases messages <;> rfl
  | _ => rfl

/-- What a turn makes of what a task is about: it takes a message, queues an event, or settles
what it was about. Nothing is forgotten unless the task is lost. -/
structure Continues (config : ConnectionConfig) (clientDeviceId : DeviceId)
    (task task' : MessageTask) (queued : List GrizolEvent) (current done current' : Conversation) :
    Prop where
  serves : Serves config clientDeviceId task' current'
  taken : (done ++ current').map Prod.fst = current.map Prod.fst ++ takenNext task
  queued : ((done ++ current').flatMap fun x => emitted x.2) =
    (current.flatMap fun x => emitted x.2) ++ queued
  waiting : (takenNext task ++ waitingMessages task').Sublist (waitingMessages task)
  replies : ∀ x ∈ done, PartOfReply config x.1 x.2
  active : ¬ Died task
  complete : ¬ Died task' → takenNext task ++ waitingMessages task' = waitingMessages task ∧
    ∀ x ∈ done, RepliesTo config x.1 x.2

/-- A turn goes on with the conversation of its task. -/
theorem continues_of_turned {k : Connection} {task task' : MessageTask} {input : TaskInput}
    {s s' : ServerState} {queued : List GrizolEvent}
    (h : Turned hash sha256 debugRequest config k input s task task' queued s')
    (hserves : Serves config k.clientDeviceId task current) :
    ∃ done current',
      Continues config k.clientDeviceId task task' queued current done current' := by
  cases h with
  | finish =>
      obtain rfl : current = [] := hserves
      exact ⟨[], [], ⟨rfl, rfl, rfl, by simp [takenNext, waitingMessages], by simp, id,
        fun _ => ⟨rfl, by simp⟩⟩⟩
  | take m messages =>
      obtain rfl : current = [] := hserves
      exact ⟨[], [(m, [])], ⟨⟨m, rfl, handlerOf_handleCompleteMessage input.clock m⟩, rfl, rfl,
        by simp [takenNext, waitingMessages], by simp, id, fun _ => ⟨rfl, by simp⟩⟩⟩
  | act h messages =>
      obtain ⟨m, rfl, hm⟩ := hserves
      exact ⟨[], [(m, [])], ⟨⟨m, rfl, handlerOf_act hm input.outcome s⟩, rfl, rfl,
        by simp [takenNext, waitingMessages], by simp, id, fun _ => ⟨rfl, by simp⟩⟩⟩
  | deliver results messages =>
      obtain ⟨m, rfl, hm⟩ := hserves
      exact ⟨[], [(m, [])], ⟨⟨m, [], rfl, hm⟩, rfl, rfl, by simp [takenNext, waitingMessages],
        by simp, id, fun _ => ⟨rfl, by simp⟩⟩⟩
  | panic e messages =>
      obtain ⟨m, rfl, hm⟩ := hserves
      exact ⟨[(m, [])], [], ⟨rfl, rfl, rfl, List.nil_sublist _, by simp [PartOfReply], id,
        fun hdied => absurd trivial hdied⟩⟩
  | sent messages =>
      obtain ⟨m, results, rfl, hm⟩ := hserves
      rw [List.append_nil] at hm
      exact ⟨[(m, results)], [], ⟨rfl, rfl, by simp, by simp [takenNext, waitingMessages],
        List.forall_mem_singleton.mpr (.inr ⟨[], by rwa [List.append_nil]⟩), id,
        fun _ => ⟨rfl, List.forall_mem_singleton.mpr hm⟩⟩⟩
  | log e results messages =>
      obtain ⟨m, before, rfl, hm⟩ := hserves
      exact ⟨[], [(m, before ++ [.error e])], ⟨⟨m, _, rfl, by rwa [List.append_assoc]⟩, rfl,
        by simp [emitted, Except.toOption], by simp [takenNext, waitingMessages], by simp, id,
        fun _ => ⟨rfl, by simp⟩⟩⟩
  | send event results messages hreceiving =>
      obtain ⟨m, before, rfl, hm⟩ := hserves
      exact ⟨[], [(m, before ++ [.ok event])], ⟨⟨m, _, rfl, by rwa [List.append_assoc]⟩, rfl,
        by simp [emitted, Except.toOption], by simp [takenNext, waitingMessages], by simp, id,
        fun _ => ⟨rfl, by simp⟩⟩⟩
  | fail event results messages hclosed =>
      obtain ⟨m, before, rfl, hm⟩ := hserves
      exact ⟨[(m, before)], [], ⟨rfl, rfl, by simp, List.nil_sublist _,
        List.forall_mem_singleton.mpr (.inr ⟨_, hm⟩), id, fun hdied => absurd trivial hdied⟩⟩

/-- The last task goes on. -/
theorem serial_turn {task task' : MessageTask} {queued : List GrizolEvent}
    {done current' : Conversation} (hk : Serial config k r ended (some task) settled current)
    (h : Continues config k.clientDeviceId task task' queued current done current') :
    Serial config
      { k with tasks := k.tasks.set ended.length task', events := k.events ++ queued }
      { r with
        taken := r.taken ++ takenNext task
        queued := r.queued ++ queued
        pushed := r.pushed ++ queued }
      ended (some task') (settled ++ done) current' := by
  have htasks : k.tasks.set ended.length task' = ended ++ [task'] := by
    rw [hk.tasks]
    simp
  have hsingle : ∀ task : MessageTask,
      (some task).toList.flatMap waitingMessages = waitingMessages task := by simp
  have hsettled : ∀ {p : CompleteMessage × List (Except BepProcessorError GrizolEvent) → Prop},
      (∀ x ∈ settled, p x) → (∀ x ∈ done, p x) → ∀ x ∈ settled ++ done, p x := by
    intro p hbefore hdone x hx
    exact (List.mem_append.mp hx).elim (hbefore x) (hdone x)
  have horder := hk.order
  rw [hsingle] at horder
  refine ⟨htasks, hk.ended, fun task'' h' => ?_, by simp, ?_, ?_, ?_,
    hsettled hk.replies h.replies, fun hdied => ?_⟩
  · obtain rfl := Option.some.inj h'
    exact h.serves
  · show r.taken ++ takenNext task = _
    rw [List.append_assoc, List.map_append, h.taken, hk.taken, List.map_append, List.append_assoc]
  · show r.queued ++ queued = _
    rw [List.append_assoc, List.flatMap_append, h.queued, hk.queued, List.flatMap_append,
      List.append_assoc]
  · rw [hsingle, List.append_assoc]
    exact (List.Sublist.append (List.Sublist.refl _) h.waiting).trans horder
  · replace hdied : ∀ task'' ∈ ended ++ [task'], ¬ Died task'' := htasks ▸ hdied
    obtain ⟨hall, hreplies⟩ := hk.complete fun task'' htask'' => by
      rw [hk.tasks] at htask''
      rcases List.mem_append.mp htask'' with hbefore | hlast
      · exact hdied task'' (List.mem_append_left _ hbefore)
      · obtain rfl := List.mem_singleton.mp hlast
        exact h.active
    obtain ⟨hrest, hdone⟩ :=
      h.complete (hdied task' (List.mem_append_right _ (List.mem_singleton_self task')))
    rw [hsingle] at hall ⊢
    rw [List.append_assoc, hrest]
    exact ⟨hall, hsettled hreplies hdone⟩

/-- Nothing that the tasks or their record are about changes. -/
theorem Serial.of_same (hk : Serial config k r ended last settled current)
    (htasks : k'.tasks = k.tasks) (hclient : k'.clientDeviceId = k.clientDeviceId)
    (htaken : r'.taken = r.taken) (hqueued : r'.queued = r.queued) (hparsed : r'.parsed = r.parsed) :
    Serial config k' r' ended last settled current where
  tasks := htasks.trans hk.tasks
  ended := hk.ended
  serves := hclient ▸ hk.serves
  alone := hk.alone
  taken := htaken.trans hk.taken
  queued := hqueued.trans hk.queued
  order := by rw [htaken, hparsed]; exact hk.order
  replies := hk.replies
  complete := by rw [htasks, htaken, hparsed]; exact hk.complete

/-- **One step of a connection** whose reads come when the tasks have ended. -/
theorem serial_of_moved {s s' : ServerState} {event : ConnectionEvent}
    (hk : Serial config k r ended last settled current) (hcond : ReadsWhenEnded k event)
    (h : Moved codec hash sha256 debugRequest config k s event k' s') :
    ∃ ended' last' settled' current',
      Serial config k' (r.extend codec config s k event) ended' last' settled' current' := by
  cases h with
  | read buf p p' messages hparser hparse =>
      rw [extend_read r s k hparser hparse]
      exact ⟨_, _, _, _, serial_read hk hcond buf p' messages⟩
  | readFails buf p hparser hparse =>
      rw [extend_readFails r s k hparser hparse]
      exact ⟨_, _, _, _, hk.of_same rfl rfl rfl rfl rfl⟩
  | readEnd =>
      rw [extend_readEnd]
      exact ⟨_, _, _, _, hk.of_same rfl rfl rfl rfl rfl⟩
  | turn i input task task' queued s' htask hturned hqueued =>
      rw [extend_turn, hqueued, takenMessage_turn htask]
      obtain ⟨rfl, rfl⟩ := last_of_turn hk htask (not_ended_of_turned hturned)
      obtain ⟨done, current', hcontinues⟩ := continues_of_turned hturned (hk.serves task rfl)
      exact ⟨_, _, _, _, serial_turn hk hcontinues⟩
  | ping hreceiving =>
      rw [extend_ping]
      exact ⟨_, _, _, _, hk.of_same rfl rfl rfl rfl rfl⟩
  | pingFails hclosed =>
      rw [extend_ping]
      exact ⟨_, _, _, _, hk.of_same rfl rfl rfl rfl rfl⟩
  | broken event events p outcome hevents hp hbroken =>
      rw [extend_send]
      exact ⟨_, _, _, _, hk.of_same rfl rfl rfl rfl rfl⟩
  | wrote event events requests p data outcome hevents hrequests hdata =>
      rw [extend_send]
      obtain ⟨htasks, hclient, -⟩ :=
        writeData_tasks ({ k with events := events } : Connection) data outcome
      exact ⟨_, _, _, _, hk.of_same htasks hclient rfl rfl rfl⟩

/-- What a task is about is answered in part. -/
theorem partOfReply_of_serves {clientDeviceId : DeviceId} {task : MessageTask}
    (hserves : Serves config clientDeviceId task current)
    {x : CompleteMessage × List (Except BepProcessorError GrizolEvent)} (hx : x ∈ current) :
    PartOfReply config x.1 x.2 := by
  cases task with
  | handling h messages =>
      obtain ⟨m, rfl, hm⟩ := hserves
      obtain rfl := List.mem_singleton.mp hx
      exact .inl rfl
  | sending results messages =>
      obtain ⟨m, done, rfl, hm⟩ := hserves
      obtain rfl := List.mem_singleton.mp hx
      exact .inr ⟨results, hm⟩
  | _ =>
      obtain rfl : current = [] := hserves
      cases hx

/-- Where the last task has returned, nothing is left of what it was about. -/
theorem Serial.settles (hk : Serial config k r ended last settled current)
    (hreturned : ∀ task ∈ k.tasks, task = .returned) :
    current = [] ∧ r.taken = r.parsed ∧ ∀ x ∈ settled, RepliesTo config x.1 x.2 := by
  obtain ⟨hall, hsettled⟩ := hk.complete fun task htask hdied => by
    rw [hreturned task htask] at hdied
    exact hdied
  have hlast : ∀ task ∈ last, task = .returned := by
    intro task htask
    refine hreturned task ?_
    rw [hk.tasks]
    exact List.mem_append_right _ (Option.mem_toList.mpr htask)
  cases last with
  | none => exact ⟨hk.alone rfl, by simpa using hall, hsettled⟩
  | some task =>
      obtain rfl := hlast task rfl
      exact ⟨hk.serves _ rfl, by simpa [waitingMessages] using hall, hsettled⟩

/-- **The client is answered in the order it spoke.** However the connections of the server take
turns, the messages of one whose reads find its tasks ended are handled one at a time, in the
order of its stream, and what is queued for it are the replies to them. -/
theorem inOrder_of_run (codec : Codec) (hash : String → ℕ → ℕ → UInt64)
    (sha256 : Bytes → Bytes) (debugRequest : Request → String) (config : ConnectionConfig)
    {state : ServerState} {es : List ServerEvent} {s : Server} {c : ℕ}
    (hmeets : MeetsOn codec hash sha256 debugRequest config c ReadsWhenEnded (.start state) es)
    (hrun : Transition.run (serverStep codec hash sha256 debugRequest config) (.start state) es =
      some s) {connection : Connection} (hc : s.connections c = some connection) :
    ∃ conversation, InOrder codec config
      (recordOn codec hash sha256 debugRequest config c (.start state) es) connection
      conversation := by
  obtain ⟨ended, last, settled, current, hserial⟩ := record_of_run
    (P := fun k r => ∃ ended last settled current, Serial config k r ended last settled current)
    (fun d => ⟨_, _, _, _, serial_new d⟩)
    (fun s k event k' s' r ⟨_, _, _, _, hk⟩ hcond h => serial_of_moved hk hcond h) hmeets hrun hc
  obtain ⟨bufs, phase, pending, hprefix, hread, hstate⟩ :=
    (record_of_every_run streamed_new (fun _ _ _ _ _ _ => streamed_of_moved) hrun hc).exists_read
  have hwaiting : connection.tasks.flatMap waitingMessages =
      last.toList.flatMap waitingMessages := by
    rw [hserial.tasks, List.flatMap_append, flatMap_waitingMessages hserial.ended, List.nil_append]
  refine ⟨settled ++ current, ⟨bufs, pending, hprefix, fun hparser => ?_, ?_⟩, hserial.taken, ?_, ?_,
    hserial.queued, fun x hx => ?_, fun hreturned => ?_⟩
  · obtain ⟨p, hp⟩ := Option.isSome_iff_exists.mp hparser
    exact (hstate p hp).1
  · rw [readStream, hread]
    rfl
  · rw [hwaiting]
    exact hserial.order
  · intro task htask
    rw [hserial.tasks] at htask
    cases last with
    | none =>
        rw [Option.toList_none, List.append_nil] at htask
        exact hserial.ended task (List.mem_of_mem_dropLast htask)
    | some task' =>
        rw [Option.toList_some, List.dropLast_concat] at htask
        exact hserial.ended task htask
  · rcases List.mem_append.mp hx with hx | hx
    · exact hserial.replies x hx
    · cases last with
      | none =>
          rw [hserial.alone rfl] at hx
          cases hx
      | some task => exact partOfReply_of_serves (hserial.serves task rfl) hx
  · obtain ⟨rfl, hall, hsettled⟩ := hserial.settles hreturned
    exact ⟨hall, by simpa using hsettled⟩

/-! ## Tasks in any order -/

/-- The tasks with what they are about, and what was settled before. -/
structure Concurrent (config : ConnectionConfig) (k : Connection) (r : ConnectionRecord)
    (serving : List (MessageTask × Conversation)) (settled : Conversation) : Prop where
  tasks : serving.map Prod.fst = k.tasks
  serves : ∀ x ∈ serving, Serves config k.clientDeviceId x.1 x.2
  taken : ((settled ++ serving.flatMap Prod.snd).map Prod.fst).Perm r.taken
  queued : ((settled ++ serving.flatMap Prod.snd).flatMap fun x => emitted x.2).Perm r.queued
  parsed : (r.taken ++ k.tasks.flatMap waitingMessages).Subperm r.parsed
  replies : ∀ x ∈ settled, PartOfReply config x.1 x.2
  complete : (∀ task ∈ k.tasks, ¬ Died task) →
    (r.taken ++ k.tasks.flatMap waitingMessages).Perm r.parsed ∧
      ∀ x ∈ settled, RepliesTo config x.1 x.2

variable {serving : List (MessageTask × Conversation)}

/-- A new connection has no conversations. -/
theorem concurrent_new (d : DeviceId) : Concurrent config (.new d) .empty [] [] where
  tasks := rfl
  serves := by simp
  taken := .nil
  queued := .nil
  parsed := (List.Perm.refl _).subperm
  replies := by simp
  complete _ := ⟨.nil, by simp⟩

/-- What leaves the tasks and the record leaves the conversations. -/
theorem Concurrent.of_same (hk : Concurrent config k r serving settled)
    (htasks : k'.tasks = k.tasks) (hclient : k'.clientDeviceId = k.clientDeviceId)
    (htaken : r'.taken = r.taken) (hqueued : r'.queued = r.queued) (hparsed : r'.parsed = r.parsed) :
    Concurrent config k' r' serving settled where
  tasks := hk.tasks.trans htasks.symm
  serves := hclient ▸ hk.serves
  taken := htaken ▸ hk.taken
  queued := hqueued ▸ hk.queued
  parsed := by rw [htasks, htaken, hparsed]; exact hk.parsed
  replies := hk.replies
  complete := by rw [htasks, htaken, hparsed]; exact hk.complete

/-- A read that parses starts another conversation. -/
theorem concurrent_read (hk : Concurrent config k r serving settled) (buf : Bytes)
    (p : BepDataParser) (messages : List CompleteMessage) :
    Concurrent config { k with dataParser := some p, tasks := k.tasks ++ [.next messages] }
      { r with read := r.read ++ [buf], parsed := r.parsed ++ messages }
      (serving ++ [(.next messages, [])]) settled := by
  have hcurrent : (serving ++ [(MessageTask.next messages, [])]).flatMap Prod.snd =
      serving.flatMap Prod.snd := by simp
  have hwaiting : r.taken ++ (k.tasks ++ [MessageTask.next messages]).flatMap waitingMessages =
      r.taken ++ k.tasks.flatMap waitingMessages ++ messages := by simp [waitingMessages]
  refine ⟨by simp [hk.tasks], fun x hx => ?_, by rw [hcurrent]; exact hk.taken,
    by rw [hcurrent]; exact hk.queued, ?_, hk.replies, fun hdied => ?_⟩
  · rcases List.mem_append.mp hx with hx | hx
    · exact hk.serves x hx
    · obtain rfl := List.mem_singleton.mp hx
      rfl
  · rw [hwaiting]
    exact (List.subperm_append_right messages).mpr hk.parsed
  · obtain ⟨hall, hreplies⟩ := hk.complete
      fun task htask => hdied task (List.mem_append_left _ htask)
    refine ⟨?_, hreplies⟩
    rw [hwaiting]
    exact hall.append_right messages

/-- Part of what stands in the middle is settled, and something is added to it. -/
theorem perm_of_settle {α : Type} {settled before middle after done middle' now all : List α}
    (h : (settled ++ (before ++ (middle ++ after))).Perm all)
    (hmiddle : done ++ middle' = middle ++ now) :
    (settled ++ done ++ (before ++ (middle' ++ after))).Perm (all ++ now) := by
  rw [← Multiset.coe_eq_coe] at h ⊢
  replace hmiddle := congrArg (fun l : List α => (l : Multiset α)) hmiddle
  simp only [← Multiset.coe_add] at h hmiddle ⊢
  rw [← h]
  calc (settled : Multiset α) + done + (before + (middle' + after))
      = settled + (before + after) + (done + middle') := by abel
    _ = settled + (before + (middle + after)) + now := by rw [hmiddle]; abel

/-- What is taken out of the middle stays in the whole. -/
theorem perm_of_take {α : Type} (all before middle after now : List α) :
    (all ++ now ++ (before ++ (middle ++ after))).Perm
      (all ++ (before ++ (now ++ middle ++ after))) := by
  rw [← Multiset.coe_eq_coe]
  simp only [← Multiset.coe_add]
  abel

/-- A turn goes on with one conversation, and leaves the others. -/
theorem concurrent_turn {i : ℕ} {task task' : MessageTask} {queued : List GrizolEvent}
    {done current' : Conversation} (hk : Concurrent config k r serving settled)
    (hi : serving[i]? = some (task, current))
    (h : Continues config k.clientDeviceId task task' queued current done current') :
    Concurrent config
      { k with tasks := k.tasks.set i task', events := k.events ++ queued }
      { r with
        taken := r.taken ++ takenNext task
        queued := r.queued ++ queued
        pushed := r.pushed ++ queued }
      (serving.set i (task', current')) (settled ++ done) := by
  obtain ⟨hlt, hget⟩ := List.getElem?_eq_some_iff.mp hi
  obtain ⟨before, after, hserving, -, hset⟩ :=
    List.exists_of_set hlt
  rw [hget] at hserving
  obtain ⟨htasks, hserves, htaken, hqueued, hparsed, hreplies, hcomplete⟩ := hk
  have hold : k.tasks = before.map Prod.fst ++ task :: after.map Prod.fst := by
    rw [← htasks, hserving]
    simp
  have hnew : k.tasks.set i task' = before.map Prod.fst ++ task' :: after.map Prod.fst := by
    rw [← htasks, ← List.map_set (f := Prod.fst) (a := (task', current')), hset]
    simp
  rw [hset]
  rw [hserving] at hserves htaken hqueued
  rw [hold] at hparsed hcomplete
  simp only [List.flatMap_append, List.flatMap_cons, List.map_append] at htaken hqueued hparsed
  refine ⟨?_, fun x hx => ?_, ?_, ?_, ?_, ?_, fun hdied => ?_⟩
  · rw [hnew]
    simp
  · rcases List.mem_append.mp hx with hx | hx
    · exact hserves x (List.mem_append_left _ hx)
    · rcases List.mem_cons.mp hx with rfl | hx
      · exact h.serves
      · exact hserves x (List.mem_append_right _ (List.mem_cons_of_mem _ hx))
  · simp only [List.flatMap_append, List.flatMap_cons, List.map_append]
    exact perm_of_settle htaken (by rw [← List.map_append, h.taken])
  · simp only [List.flatMap_append, List.flatMap_cons]
    exact perm_of_settle hqueued (by rw [← List.flatMap_append, h.queued])
  · rw [hnew, List.flatMap_append, List.flatMap_cons]
    refine ((perm_of_take ..).subperm).trans (List.Sublist.subperm ?_ |>.trans hparsed)
    exact (List.Sublist.refl _).append ((List.Sublist.refl _).append
      (h.waiting.append (List.Sublist.refl _)))
  · intro x hx
    exact (List.mem_append.mp hx).elim (hreplies x) (h.replies x)
  · replace hdied : ∀ task'' ∈ before.map Prod.fst ++ task' :: after.map Prod.fst,
        ¬ Died task'' := hnew ▸ hdied
    obtain ⟨hall, hsettled⟩ := hcomplete fun task'' htask'' => by
      rcases List.mem_append.mp htask'' with hbefore | hrest
      · exact hdied task'' (List.mem_append_left _ hbefore)
      · rcases List.mem_cons.mp hrest with rfl | hafter
        · exact h.active
        · exact hdied task'' (List.mem_append_right _ (List.mem_cons_of_mem _ hafter))
    obtain ⟨hwaiting, hdone⟩ :=
      h.complete (hdied task' (List.mem_append_right _ List.mem_cons_self))
    refine ⟨?_, fun x hx => (List.mem_append.mp hx).elim (hsettled x) (hdone x)⟩
    rw [hnew, List.flatMap_append, List.flatMap_cons]
    refine (perm_of_take ..).trans ?_
    rw [hwaiting]
    simpa only [List.flatMap_append, List.flatMap_cons] using hall

/-- **One step of a connection**, whatever its tasks do meanwhile. -/
theorem concurrent_of_moved {s s' : ServerState} {event : ConnectionEvent}
    (hk : Concurrent config k r serving settled)
    (h : Moved codec hash sha256 debugRequest config k s event k' s') :
    ∃ serving' settled',
      Concurrent config k' (r.extend codec config s k event) serving' settled' := by
  cases h with
  | read buf p p' messages hparser hparse =>
      rw [extend_read r s k hparser hparse]
      exact ⟨_, _, concurrent_read hk buf p' messages⟩
  | readFails buf p hparser hparse =>
      rw [extend_readFails r s k hparser hparse]
      exact ⟨_, _, hk.of_same rfl rfl rfl rfl rfl⟩
  | readEnd =>
      rw [extend_readEnd]
      exact ⟨_, _, hk.of_same rfl rfl rfl rfl rfl⟩
  | turn i input task task' queued s' htask hturned hqueued =>
      rw [extend_turn, hqueued, takenMessage_turn htask]
      rw [← hk.tasks, List.getElem?_map, Option.map_eq_some_iff] at htask
      obtain ⟨⟨task, current⟩, hi, rfl⟩ := htask
      obtain ⟨done, current', hcontinues⟩ :=
        continues_of_turned hturned (hk.serves _ (List.mem_of_getElem? hi))
      exact ⟨_, _, concurrent_turn hk hi hcontinues⟩
  | ping hreceiving =>
      rw [extend_ping]
      exact ⟨_, _, hk.of_same rfl rfl rfl rfl rfl⟩
  | pingFails hclosed =>
      rw [extend_ping]
      exact ⟨_, _, hk.of_same rfl rfl rfl rfl rfl⟩
  | broken event events p outcome hevents hp hbroken =>
      rw [extend_send]
      exact ⟨_, _, hk.of_same rfl rfl rfl rfl rfl⟩
  | wrote event events requests p data outcome hevents hrequests hdata =>
      rw [extend_send]
      obtain ⟨htasks, hclient, -⟩ :=
        writeData_tasks ({ k with events := events } : Connection) data outcome
      exact ⟨_, _, hk.of_same htasks hclient rfl rfl rfl⟩

/-- **No message is answered twice and none is forgotten.** However the tasks of a connection take
turns with each other and with those of the other connections, what they queued are the replies to
the messages they took, each once; a message is lost only with its task. -/
theorem answersEach_of_run (codec : Codec) (hash : String → ℕ → ℕ → UInt64)
    (sha256 : Bytes → Bytes) (debugRequest : Request → String) (config : ConnectionConfig)
    {state : ServerState} {es : List ServerEvent} {s : Server} {c : ℕ}
    (hrun : Transition.run (serverStep codec hash sha256 debugRequest config) (.start state) es =
      some s) {connection : Connection} (hc : s.connections c = some connection) :
    ∃ conversation, AnswersEach config
      (recordOn codec hash sha256 debugRequest config c (.start state) es) connection
      conversation := by
  obtain ⟨serving, settled, hk⟩ := record_of_every_run
    (P := fun k r => ∃ serving settled, Concurrent config k r serving settled)
    (fun d => ⟨_, _, concurrent_new d⟩)
    (fun s k event k' s' r ⟨_, _, hk⟩ h => concurrent_of_moved hk h) hrun hc
  refine ⟨_, hk.taken, hk.parsed, hk.queued, fun x hx => ?_, fun hreturned => ?_⟩
  · rcases List.mem_append.mp hx with hx | hx
    · exact hk.replies x hx
    · obtain ⟨y, hy, hx⟩ := List.mem_flatMap.mp hx
      exact partOfReply_of_serves (hk.serves y hy) hx
  · have hwaiting : connection.tasks.flatMap waitingMessages = [] :=
      flatMap_waitingMessages fun task htask => by rw [hreturned task htask]; trivial
    obtain ⟨hall, hsettled⟩ := hk.complete fun task htask hdied => by
      rw [hreturned task htask] at hdied
      exact hdied
    rw [hwaiting, List.append_nil] at hall
    refine ⟨hall, fun x hx => ?_⟩
    rcases List.mem_append.mp hx with hx | hx
    · exact hsettled x hx
    · obtain ⟨⟨task, current⟩, hy, hx⟩ := List.mem_flatMap.mp hx
      have hserves := hk.serves _ hy
      obtain rfl : task = .returned := hreturned task (by
        rw [← hk.tasks]
        exact List.mem_map_of_mem hy)
      rw [show current = [] from hserves] at hx
      cases hx

/-! ## A conversation -/

/-- The only read of the run comes before there are tasks, and nothing is pinged. -/
theorem meets_greetedRun {cond : Connection → ConnectionEvent → Prop}
    (hread : ∀ buf, cond (.new clientDevice) (.read buf))
    (hother : ∀ k event, (∀ buf, event ≠ .read buf) → event ≠ .ping → cond k event)
    {codec : Codec} :
    MeetsOn codec (fun _ _ _ => 0) pairHash (fun _ => "") unnamedConfig 0 cond
      (.start unsharedState) greetedRun := by
  refine ⟨fun _ k hk => ?_, fun s₁ h₁ => ⟨fun _ k hk => ?_, fun s₂ _ => ?_⟩⟩
  · cases hk
  · obtain rfl := Option.some.inj h₁
    obtain rfl := Option.some.inj hk
    exact hread _
  · refine Transition.meets_of_forall (fun e he s _ k _ => hother k e.event ?_ ?_) s₂ <;>
      revert e <;> simp

/-- Witness: the Hello is answered, and its task has returned. -/
theorem answersEach_of_run_hello :
    ∃ s connection, Transition.run (serverStep shortMessages (fun _ _ _ => 0) pairHash (fun _ => "")
        unnamedConfig) (.start unsharedState) greetedRun = some s ∧
      s.connections 0 = some connection ∧ connection.tasks = [.returned] ∧
      ∃ conversation, AnswersEach unnamedConfig (recordOn shortMessages (fun _ _ _ => 0)
        pairHash (fun _ => "") unnamedConfig 0 (.start unsharedState) greetedRun) connection
        conversation :=
  ⟨_, _, rfl, rfl, rfl, answersEach_of_run shortMessages (fun _ _ _ => 0) pairHash (fun _ => "")
    unnamedConfig rfl rfl⟩

/-- Witness: the run reads once, before there are tasks. -/
theorem inOrder_of_run_hello :
    ∃ s connection, Transition.run (serverStep shortMessages (fun _ _ _ => 0) pairHash (fun _ => "")
        unnamedConfig) (.start unsharedState) greetedRun = some s ∧
      s.connections 0 = some connection ∧ connection.tasks = [.returned] ∧
      ∃ conversation, InOrder shortMessages unnamedConfig (recordOn shortMessages (fun _ _ _ => 0)
        pairHash (fun _ => "") unnamedConfig 0 (.start unsharedState) greetedRun) connection
        conversation :=
  ⟨_, _, rfl, rfl, rfl, inOrder_of_run shortMessages (fun _ _ _ => 0) pairHash (fun _ => "")
    unnamedConfig (meets_greetedRun (fun _ => by simp [ReadsWhenEnded, Connection.new])
      (fun k event hread _ => by cases event <;> simp_all [ReadsWhenEnded])) rfl rfl⟩

end Grizol.Analysis
